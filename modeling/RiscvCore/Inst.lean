import RiscvCore.Encode

namespace RiscvCore

/-- Register-register operations (OP). -/
inductive AluOp where
  | add | sub | sll | slt | sltu | xor | srl | sra | or | and
deriving DecidableEq, Repr

/-- Register-immediate operations other than shifts (OP_IMM). -/
inductive ImmOp where
  | addi | slti | sltiu | xori | ori | andi
deriving DecidableEq, Repr

/-- Shifts by a constant amount (OP_IMM). -/
inductive ShiftOp where
  | slli | srli | srai
deriving DecidableEq, Repr

inductive LoadOp where
  | lb | lh | lw | lbu | lhu
deriving DecidableEq, Repr

inductive StoreOp where
  | sb | sh | sw
deriving DecidableEq, Repr

inductive BranchOp where
  | beq | bne | blt | bge | bltu | bgeu
deriving DecidableEq, Repr

namespace AluOp
def all : List AluOp := [.add, .sub, .sll, .slt, .sltu, .xor, .srl, .sra, .or, .and]
def mnemonic : AluOp → String
  | .add => "add" | .sub => "sub" | .sll => "sll" | .slt => "slt" | .sltu => "sltu"
  | .xor => "xor" | .srl => "srl" | .sra => "sra" | .or => "or" | .and => "and"
def funct3 : AluOp → UInt32
  | .add | .sub => 0 | .sll => 1 | .slt => 2 | .sltu => 3 | .xor => 4
  | .srl | .sra => 5 | .or => 6 | .and => 7
def funct7 : AluOp → UInt32
  | .sub | .sra => 0x20
  | _ => 0
end AluOp

namespace ImmOp
def all : List ImmOp := [.addi, .slti, .sltiu, .xori, .ori, .andi]
def mnemonic : ImmOp → String
  | .addi => "addi" | .slti => "slti" | .sltiu => "sltiu" | .xori => "xori" | .ori => "ori"
  | .andi => "andi"
def funct3 : ImmOp → UInt32
  | .addi => 0 | .slti => 2 | .sltiu => 3 | .xori => 4 | .ori => 6 | .andi => 7
end ImmOp

namespace ShiftOp
def all : List ShiftOp := [.slli, .srli, .srai]
def mnemonic : ShiftOp → String
  | .slli => "slli" | .srli => "srli" | .srai => "srai"
def funct3 : ShiftOp → UInt32
  | .slli => 1 | .srli | .srai => 5
/-- The bits above the shift amount in the immediate field. -/
def upper : ShiftOp → UInt32
  | .srai => 0x400
  | _ => 0
end ShiftOp

namespace LoadOp
def all : List LoadOp := [.lb, .lh, .lw, .lbu, .lhu]
def mnemonic : LoadOp → String
  | .lb => "lb" | .lh => "lh" | .lw => "lw" | .lbu => "lbu" | .lhu => "lhu"
def funct3 : LoadOp → UInt32
  | .lb => 0 | .lh => 1 | .lw => 2 | .lbu => 4 | .lhu => 5
end LoadOp

namespace StoreOp
def all : List StoreOp := [.sb, .sh, .sw]
def mnemonic : StoreOp → String
  | .sb => "sb" | .sh => "sh" | .sw => "sw"
def funct3 : StoreOp → UInt32
  | .sb => 0 | .sh => 1 | .sw => 2
end StoreOp

namespace BranchOp
def all : List BranchOp := [.beq, .bne, .blt, .bge, .bltu, .bgeu]
def mnemonic : BranchOp → String
  | .beq => "beq" | .bne => "bne" | .blt => "blt" | .bge => "bge" | .bltu => "bltu"
  | .bgeu => "bgeu"
def funct3 : BranchOp → UInt32
  | .beq => 0 | .bne => 1 | .blt => 4 | .bge => 5 | .bltu => 6 | .bgeu => 7
end BranchOp

inductive Inst where
  | alu (f : AluOp) (rd rs1 rs2 : Reg)
  | aluImm (f : ImmOp) (rd rs1 : Reg) (imm : Int)
  | shift (f : ShiftOp) (rd rs1 : Reg) (shamt : Nat)
  | load (f : LoadOp) (rd rs1 : Reg) (imm : Int)
  /-- `rs1` is the base, `rs2` the stored register. -/
  | store (f : StoreOp) (rs1 rs2 : Reg) (imm : Int)
  | branch (f : BranchOp) (rs1 rs2 : Reg) (offset : Int)
  | jal (rd : Reg) (offset : Int)
  | jalr (rd rs1 : Reg) (imm : Int)
  | lui (rd : Reg) (imm : Int)
  | auipc (rd : Reg) (imm : Int)
  | fence
  | ecall
  | ebreak
  /-- A raw data word. -/
  | word (w : UInt32)
deriving DecidableEq, Repr

namespace Inst

def nop : Inst := aluImm .addi Reg.zero Reg.zero 0
def ret : Inst := jalr Reg.zero Reg.ra 0
def mv (rd rs : Reg) : Inst := aluImm .addi rd rs 0
def j (offset : Int) : Inst := jal Reg.zero offset

open Encode in
def encode : Inst → UInt32
  | alu f rd rs1 rs2 => rType opReg rd f.funct3 rs1 rs2 f.funct7
  | aluImm f rd rs1 imm => iType opImm rd f.funct3 rs1 (UInt32.ofInt imm)
  | shift f rd rs1 shamt => iType opImm rd f.funct3 rs1 (f.upper ||| (shamt % 32).toUInt32)
  | load f rd rs1 imm => iType opLoad rd f.funct3 rs1 (UInt32.ofInt imm)
  | store f rs1 rs2 imm => sType opStore f.funct3 rs1 rs2 (UInt32.ofInt imm)
  | branch f rs1 rs2 offset => bType f.funct3 rs1 rs2 (UInt32.ofInt offset)
  | jal rd offset => jType rd (UInt32.ofInt offset)
  | jalr rd rs1 imm => iType opJalr rd 0 rs1 (UInt32.ofInt imm)
  | lui rd imm => uType opLui rd (UInt32.ofInt imm)
  | auipc rd imm => uType opAuipc rd (UInt32.ofInt imm)
  | fence => iType opMiscMem Reg.zero 0 Reg.zero 0xff
  | ecall => 0x00000073
  | ebreak => 0x00100073
  | word w => w

/-- A name with its first letter in upper case. -/
def title (s : String) : String := s.capitalize

def regText (r : Reg) : String := s!"Gpr({r.index})"

/-- A constructor with named fields: `Name { a: x, b: y }`. -/
def fieldsText (name : String) (fields : List (String × String)) : String :=
  name ++ " \x7b " ++ ", ".intercalate (fields.map fun (k, v) => k ++ ": " ++ v) ++ " \x7d"

def describe : Inst → String
  | alu f rd rs1 rs2 => fieldsText (title f.mnemonic)
      [("rd", regText rd), ("rs1", regText rs1), ("rs2", regText rs2)]
  | aluImm f rd rs1 imm => fieldsText (title f.mnemonic)
      [("rd", regText rd), ("rs1", regText rs1), ("imm", toString imm)]
  | shift f rd rs1 shamt => fieldsText (title f.mnemonic)
      [("rd", regText rd), ("rs1", regText rs1), ("shamt", toString shamt)]
  | load f rd rs1 imm => fieldsText (title f.mnemonic)
      [("rd", regText rd), ("rs1", regText rs1), ("imm", toString imm)]
  | store f rs1 rs2 imm => fieldsText (title f.mnemonic)
      [("rs1", regText rs1), ("rs2", regText rs2), ("imm", toString imm)]
  | branch f rs1 rs2 offset => fieldsText (title f.mnemonic)
      [("rs1", regText rs1), ("rs2", regText rs2), ("offset", toString offset)]
  | jal rd offset => fieldsText "Jal" [("rd", regText rd), ("offset", toString offset)]
  | jalr rd rs1 imm => fieldsText "Jalr"
      [("rd", regText rd), ("rs1", regText rs1), ("imm", toString imm)]
  | lui rd imm => fieldsText "Lui" [("rd", regText rd), ("imm", toString imm)]
  | auipc rd imm => fieldsText "Auipc" [("rd", regText rd), ("imm", toString imm)]
  | fence => "Fence"
  | ecall => "Ecall"
  | ebreak => "Ebreak"
  | word w => s!"Word({w.toNat})"

end Inst

end RiscvCore
