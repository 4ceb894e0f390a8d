
namespace RiscvCore

/-- The 32 major opcodes, in the order of their five-bit codes. -/
inductive Opcode where
  | load | loadFp | custom0 | miscMem | opImm | auipc | opImm32 | rv48a
  | store | storeFp | custom1 | amo | op | lui | op32 | rv64
  | madd | msub | nmsub | nmadd | opFp | reserved0 | custom2 | rv48b
  | branch | jalr | reserved1 | jal | system | reserved2 | custom3 | rv80
deriving DecidableEq, Repr, Inhabited

namespace Opcode

def all : List Opcode :=
  [load, loadFp, custom0, miscMem, opImm, auipc, opImm32, rv48a,
   store, storeFp, custom1, amo, op, lui, op32, rv64,
   madd, msub, nmsub, nmadd, opFp, reserved0, custom2, rv48b,
   branch, jalr, reserved1, jal, system, reserved2, custom3, rv80]

def bits : Opcode → Nat
  | load => 0 | loadFp => 1 | custom0 => 2 | miscMem => 3
  | opImm => 4 | auipc => 5 | opImm32 => 6 | rv48a => 7
  | store => 8 | storeFp => 9 | custom1 => 10 | amo => 11
  | op => 12 | lui => 13 | op32 => 14 | rv64 => 15
  | madd => 16 | msub => 17 | nmsub => 18 | nmadd => 19
  | opFp => 20 | reserved0 => 21 | custom2 => 22 | rv48b => 23
  | branch => 24 | jalr => 25 | reserved1 => 26 | jal => 27
  | system => 28 | reserved2 => 29 | custom3 => 30 | rv80 => 31

/-- The opcode of the low five bits of `b`. -/
def ofBits (b : Nat) : Opcode := all.getD (b % 32) rv80

/-- The opcode of an instruction word, from its bits 6:2. -/
def ofWord (w : UInt32) : Opcode := ofBits (w >>> 2).toNat

/-- The name used in listings, as in the ISA opcode map. -/
def name : Opcode → String
  | load => "LOAD" | loadFp => "LOAD_FP" | custom0 => "CUSTOM_0" | miscMem => "MISC_MEM"
  | opImm => "OP_IMM" | auipc => "AUIPC" | opImm32 => "OP_IMM_32" | rv48a => "RV48_0"
  | store => "STORE" | storeFp => "STORE_FP" | custom1 => "CUSTOM_1" | amo => "AMO"
  | op => "OP" | lui => "LUI" | op32 => "OP_32" | rv64 => "RV64"
  | madd => "MADD" | msub => "MSUB" | nmsub => "NMSUB" | nmadd => "NMADD"
  | opFp => "OP_FP" | reserved0 => "RESERVED_0" | custom2 => "CUSTOM_2" | rv48b => "RV48_1"
  | branch => "BRANCH" | jalr => "JALR" | reserved1 => "RESERVED_1" | jal => "JAL"
  | system => "SYSTEM" | reserved2 => "RESERVED_2" | custom3 => "CUSTOM_3" | rv80 => "RV80"

theorem ofBits_bits (o : Opcode) : ofBits o.bits = o := by
  cases o <;> rfl

theorem bits_lt (o : Opcode) : o.bits < 32 := by
  cases o <;> decide

end Opcode

end RiscvCore
