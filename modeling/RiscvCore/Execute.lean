import RiscvCore.Decode
import RiscvCore.RegFile

namespace RiscvCore

structure Outcome where
  /-- ALU output, link address or upper immediate; 0 for branches. -/
  result : UInt32
  branchTaken : Bool
  nextPc : UInt16
  /-- Destination and value, when the format has a destination. -/
  writeBack : Option (Reg × UInt32)
  unsupported : Bool
deriving DecidableEq, Repr

def sltWord (a b : UInt32) : Bool := a.toInt32 < b.toInt32

def sraWord (a : UInt32) (sh : Nat) : UInt32 := (a.toInt32 >>> sh.toInt32).toUInt32

/-- The OP / OP_IMM result for `funct3`, `funct7` on operands `a`, `b`; `none` if unsupported.
OP_IMM ignores `funct7` except for its shifts. -/
def aluResult (immediate : Bool) (f3 f7 : Nat) (a b : UInt32) : Option UInt32 :=
  let sh := (b &&& 31).toNat
  let plain := immediate || f7 == 0
  match f3 with
  | 0 => if plain then some (a + b) else if f7 == 0x20 then some (a - b) else none
  | 1 => if f7 == 0 then some (a <<< (b &&& 31)) else none
  | 2 => if plain then some (if sltWord a b then 1 else 0) else none
  | 3 => if plain then some (if a < b then 1 else 0) else none
  | 4 => if plain then some (a ^^^ b) else none
  | 5 => if f7 == 0 then some (a >>> (b &&& 31)) else if f7 == 0x20 then some (sraWord a sh) else none
  | 6 => if plain then some (a ||| b) else none
  | 7 => if plain then some (a &&& b) else none
  | _ => none

/-- Whether a branch with `funct3` is taken on `a`, `b`; `none` for a reserved condition. -/
def branchTaken? (f3 : Nat) (a b : UInt32) : Option Bool :=
  match f3 with
  | 0 => some (a == b)
  | 1 => some (a != b)
  | 4 => some (sltWord a b)
  | 5 => some !(sltWord a b)
  | 6 => some (a < b)
  | 7 => some !(a < b)
  | _ => none

/-- The byte address of the word after `pc`. -/
def linkOf (pc : UInt16) : UInt32 := (pc.toUInt32 + 1) <<< 2

/-- `pc` moved by a halved byte offset, wrapping at 2^16 words. -/
def relativePc (pc : UInt16) (imm : Int32) : UInt16 := pc + (imm >>> 1).toUInt32.toUInt16

/-- An upper immediate in place. -/
def upperOf (imm : Int32) : UInt32 := imm.toUInt32 <<< 12

def execute (d : Decoded) (rf : RegFile) (pc : UInt16) : Outcome :=
  let a := rf.read d.rs1
  let b := rf.read d.rs2
  let imm := d.imm
  let step := pc + 1
  let (result, taken, next, unsupported) : UInt32 × Bool × UInt16 × Bool :=
    match d.opcode with
    | .opImm | .op =>
      let immediate := d.opcode == .opImm
      match aluResult immediate d.funct3 d.funct7 a (if immediate then imm.toUInt32 else b) with
      | some v => (v, false, step, false)
      | none => (0, false, step, true)
    | .branch =>
      match branchTaken? d.funct3 a b with
      | some true => (0, true, relativePc pc imm, false)
      | some false => (0, false, step, false)
      | none => (0, false, step, true)
    | .jal => (linkOf pc, false, relativePc pc imm, false)
    | .jalr => (linkOf pc, false, (((a + imm.toUInt32) &&& ~~~1) >>> 2).toUInt16, false)
    | .lui => (upperOf imm, false, step, false)
    | .auipc => ((pc.toUInt32 <<< 2) + upperOf imm, false, step, false)
    | _ => (0, false, step, false)
  { result
    branchTaken := taken
    nextPc := next
    writeBack := if d.format.writesRd then some (d.rd, result) else none
    unsupported }

end RiscvCore
