import RiscvCore.Execute

namespace RiscvCore

/-- How much a core logs: levels are ordered, each admitting what the ones below admit. -/
inductive LogLevel where
  | none | errors | instructions | verbose
deriving DecidableEq, Repr, Inhabited

namespace LogLevel

def rank : LogLevel → Nat
  | none => 0 | errors => 1 | instructions => 2 | verbose => 3

instance : LE LogLevel := ⟨fun a b => a.rank ≤ b.rank⟩

instance (a b : LogLevel) : Decidable (a ≤ b) := inferInstanceAs (Decidable (a.rank ≤ b.rank))

end LogLevel

/-- What a logged step did, by kind of instruction. Register values are those before write-back. -/
inductive Event where
  /-- OP and OP_IMM; the second operand only for OP. -/
  | arithmetic (rd : Reg) (rs1 : UInt32) (rs2 : Option UInt32) (old new : UInt32)
  /-- The target is present exactly when the branch is taken. -/
  | branch (rs1 rs2 : UInt32) (taken : Bool) (target : Option UInt16)
  /-- JAL and JALR; no new value when the link goes to `x0`. -/
  | jump (rd : Reg) (old : UInt32) (new : Option UInt32) (target : UInt16)
  /-- LUI and AUIPC. -/
  | upper (rd : Reg) (old new : UInt32)
  | unsupported (opcode : Opcode) (funct3 funct7 : Nat)
  /-- Everything else, loads and stores included. -/
  | other (opcode : Opcode)
deriving DecidableEq, Repr

structure Entry where
  cycle : Nat
  pc : UInt16
  word : UInt32
  event : Event
deriving DecidableEq, Repr

namespace Entry

/-- The entry of one step: `rs1`, `rs2` and `old` are the values read before write-back. -/
def record (cycle : Nat) (pc : UInt16) (d : Decoded) (o : Outcome) (rs1 rs2 old : UInt32) :
    Entry :=
  let new := if d.rd.isZero then 0 else o.result
  let event : Event :=
    if o.unsupported then .unsupported d.opcode d.funct3 d.funct7 else
    match d.opcode with
    | .op => .arithmetic d.rd rs1 (some rs2) old new
    | .opImm => .arithmetic d.rd rs1 none old new
    | .branch => .branch rs1 rs2 o.branchTaken (if o.branchTaken then some o.nextPc else none)
    | .jal | .jalr => .jump d.rd old (if d.rd.isZero then none else some o.result) o.nextPc
    | .lui | .auipc => .upper d.rd old new
    | code => .other code
  ⟨cycle, pc, d.raw, event⟩

def signed (w : UInt32) : String := toString w.toInt32.toInt

def pcText (pc : UInt16) : String := s!"0x{Text.hex 4 pc.toNat}"

def change (rd : Reg) (old new : UInt32) : String :=
  s!"\n    {rd.abiName}: {signed old} -> {signed new}"

/-- The first line: cycle, pc as a word and a byte address, the word and its opcode. -/
def header (e : Entry) : String :=
  s!"[{Text.alignRight 4 (toString e.cycle)}] {pcText e.pc} " ++
  s!"(byte 0x{Text.hex 5 (e.pc.toNat * 4)}): 0x{Text.hex 8 e.word.toNat} {(Opcode.ofWord e.word).name}"

def details (e : Entry) : String :=
  match e.event with
  | .arithmetic rd rs1 rs2 old new =>
    change rd old new ++
      match rs2 with
      | some v => s!" (rs1={signed rs1}, rs2={signed v})"
      | none => s!" (rs1={signed rs1})"
  | .branch rs1 rs2 taken target =>
    (match taken, target with
      | true, some t => s!"\n    branch taken: {pcText e.pc} -> {pcText t}"
      | _, _ => "\n    branch not taken") ++
    s!" (rs1={signed rs1}, rs2={signed rs2})"
  | .jump rd old new target =>
    (match new with
      | some v => change rd old v
      | none => "") ++
    s!"\n    jump: {pcText e.pc} -> {pcText target}"
  | .upper rd old new => change rd old new
  | .unsupported _ f3 f7 =>
    s!"\n    unsupported func3=0b{Text.bin 3 f3} func7=0b{Text.bin 7 f7}, result forced to 0"
  | .other code => if code == .load || code == .store then "\n    memory access not modelled" else ""

def render (e : Entry) : String := e.header ++ e.details

end Entry

end RiscvCore
