import RiscvCore.Asm.Error
import RiscvCore.Asm.Statement
import RiscvCore.Inst

namespace RiscvCore.Asm

open Operand

/-- What a mnemonic names: an instruction of one of the families, or a pseudo-instruction. -/
inductive Mnemonic where
  | alu (f : AluOp)
  | aluImm (f : ImmOp)
  | shift (f : ShiftOp)
  | load (f : LoadOp)
  | store (f : StoreOp)
  | branch (f : BranchOp)
  | beqz | bnez | jal | j | jalr | jr | lui | auipc | li | mv | nop | ret | fence | ecall | ebreak
  | word
deriving DecidableEq, Repr

namespace Mnemonic

/-- The name as written, in lower case. -/
def name : Mnemonic → String
  | alu f => f.mnemonic
  | aluImm f => f.mnemonic
  | shift f => f.mnemonic
  | load f => f.mnemonic
  | store f => f.mnemonic
  | branch f => f.mnemonic
  | beqz => "beqz" | bnez => "bnez" | jal => "jal" | j => "j" | jalr => "jalr" | jr => "jr"
  | lui => "lui" | auipc => "auipc" | li => "li" | mv => "mv" | nop => "nop" | ret => "ret"
  | fence => "fence" | ecall => "ecall" | ebreak => "ebreak" | word => ".word"

def all : List Mnemonic :=
  AluOp.all.map alu ++ ImmOp.all.map aluImm ++ ShiftOp.all.map shift ++ LoadOp.all.map load ++
    StoreOp.all.map store ++ BranchOp.all.map branch ++
    [beqz, bnez, jal, j, jalr, jr, lui, auipc, li, mv, nop, ret, fence, ecall, ebreak, word]

/-- The mnemonic with a name given in lower case. -/
def ofName? (m : String) : Option Mnemonic := all.find? (·.name == m)

end Mnemonic

/-- The checks of one line, naming its line number and mnemonic in errors. -/
structure Site where
  line : Nat
  mnemonic : String

namespace Site

def invalid (c : Site) (expected : String) : Except AsmError Inst :=
  .error (.invalidOperands c.line c.mnemonic expected)

def ranged (c : Site) (v lo hi : Int) : Except AsmError Int :=
  if v < lo ∨ v > hi then .error (.immediateOutOfRange c.line c.mnemonic v lo hi) else .ok v

def offset (c : Site) (v lo hi : Int) : Except AsmError Int :=
  if v % 2 ≠ 0 then .error (.misalignedOffset c.line c.mnemonic v) else c.ranged v lo hi

def imm12 (c : Site) (v : Int) : Except AsmError Int := c.ranged v (-2048) 2047

def branchOffset (c : Site) (v : Int) : Except AsmError Int := c.offset v (-4096) 4094

/-- An even byte offset in `[-2^20, 2^20 - 2]`. -/
def jumpOffset (c : Site) (v : Int) : Except AsmError Int := c.offset v (-1048576) 1048574

def noOperands (c : Site) (ops : List Operand) (i : Inst) : Except AsmError Inst :=
  if ops.isEmpty then .ok i else c.invalid "no operands"

/-- A branch that compares with `x0`. -/
def branchZero (c : Site) (f : BranchOp) (ops : List Operand) : Except AsmError Inst :=
  match ops with
  | [reg rs1, imm v] => return .branch f rs1 Reg.zero (← c.branchOffset v)
  | _ => c.invalid "rs1, offset"

/-- `lui` or `auipc`: a signed or unsigned 20-bit field, `[-2^19, 2^20 - 1]`. -/
def upper (c : Site) (f : Reg → Int → Inst) (ops : List Operand) : Except AsmError Inst :=
  match ops with
  | [reg rd, imm v] => return f rd (← c.ranged v (-524288) 1048575)
  | _ => c.invalid "rd, imm20"

/-- The instruction of a mnemonic of kind `k` and its operands. -/
def buildAs (c : Site) (ops : List Operand) : Mnemonic → Except AsmError Inst
  | .alu f =>
    match ops with
    | [reg rd, reg rs1, reg rs2] => .ok (.alu f rd rs1 rs2)
    | _ => c.invalid "rd, rs1, rs2"
  | .aluImm f =>
    match ops with
    | [reg rd, reg rs1, imm v] => return .aluImm f rd rs1 (← c.imm12 v)
    | _ => c.invalid "rd, rs1, imm"
  | .shift f =>
    match ops with
    | [reg rd, reg rs1, imm v] => return .shift f rd rs1 (← c.ranged v 0 31).toNat
    | _ => c.invalid "rd, rs1, shamt"
  | .load f =>
    match ops with
    | [reg rd, mem off base] => return .load f rd base (← c.imm12 off)
    | _ => c.invalid "rd, offset(rs1)"
  | .store f =>
    match ops with
    | [reg rs2, mem off base] => return .store f base rs2 (← c.imm12 off)
    | _ => c.invalid "rs2, offset(rs1)"
  | .branch f =>
    match ops with
    | [reg rs1, reg rs2, imm v] => return .branch f rs1 rs2 (← c.branchOffset v)
    | _ => c.invalid "rs1, rs2, offset"
  | .beqz => c.branchZero .beq ops
  | .bnez => c.branchZero .bne ops
  | .jal =>
    match ops with
    | [reg rd, imm v] => return .jal rd (← c.jumpOffset v)
    | [imm v] => return .jal Reg.ra (← c.jumpOffset v)
    | _ => c.invalid "[rd,] offset"
  | .j =>
    match ops with
    | [imm v] => return .jal Reg.zero (← c.jumpOffset v)
    | _ => c.invalid "offset"
  | .jalr =>
    match ops with
    | [reg rd, mem off base] => return .jalr rd base (← c.imm12 off)
    | [reg rd, reg rs1, imm v] => return .jalr rd rs1 (← c.imm12 v)
    | [reg rs1] => .ok (.jalr Reg.ra rs1 0)
    | _ => c.invalid "rd, offset(rs1)"
  | .jr =>
    match ops with
    | [reg rs1] => .ok (.jalr Reg.zero rs1 0)
    | _ => c.invalid "rs1"
  | .lui => c.upper .lui ops
  | .auipc => c.upper .auipc ops
  | .li =>
    match ops with
    | [reg rd, imm v] => return .aluImm .addi rd Reg.zero (← c.imm12 v)
    | _ => c.invalid "rd, imm"
  | .mv =>
    match ops with
    | [reg rd, reg rs] => .ok (Inst.mv rd rs)
    | _ => c.invalid "rd, rs"
  | .nop => c.noOperands ops Inst.nop
  | .ret => c.noOperands ops Inst.ret
  | .fence => c.noOperands ops .fence
  | .ecall => c.noOperands ops .ecall
  | .ebreak => c.noOperands ops .ebreak
  | .word =>
    match ops with
    | [imm v] => return .word (UInt32.ofInt (← c.ranged v (-2147483648) 4294967295))
    | _ => c.invalid "value"

/-- The instruction of a mnemonic, given in lower case, and its operands. -/
def build (c : Site) (ops : List Operand) : Except AsmError Inst :=
  match Mnemonic.ofName? c.mnemonic with
  | some k => c.buildAs ops k
  | none => .error (.unknownMnemonic c.line c.mnemonic)

end Site

end RiscvCore.Asm
