import RiscvCore.Reg

namespace RiscvCore.Encode

/-- Seven-bit major opcodes, low two bits set. -/
def opLoad : UInt32 := 0x03
def opMiscMem : UInt32 := 0x0f
def opImm : UInt32 := 0x13
def opAuipc : UInt32 := 0x17
def opStore : UInt32 := 0x23
def opReg : UInt32 := 0x33
def opLui : UInt32 := 0x37
def opBranch : UInt32 := 0x63
def opJalr : UInt32 := 0x67
def opJal : UInt32 := 0x6f
def opSystem : UInt32 := 0x73

/-- `addi x0, x0, 0`. -/
def nopWord : UInt32 := 0x00000013

/-- `jalr x0, 0(x1)`. -/
def retWord : UInt32 := 0x00008067

def regBits (r : Reg) : UInt32 := r.index.toUInt32

def rType (opcode : UInt32) (rd : Reg) (funct3 : UInt32) (rs1 rs2 : Reg) (funct7 : UInt32) :
    UInt32 :=
  (funct7 &&& 0x7f) <<< 25 ||| regBits rs2 <<< 20 ||| regBits rs1 <<< 15 |||
    (funct3 &&& 0x7) <<< 12 ||| regBits rd <<< 7 ||| (opcode &&& 0x7f)

/-- Keeps the low 12 bits of `imm`. -/
def iType (opcode : UInt32) (rd : Reg) (funct3 : UInt32) (rs1 : Reg) (imm : UInt32) : UInt32 :=
  (imm &&& 0xfff) <<< 20 ||| regBits rs1 <<< 15 ||| (funct3 &&& 0x7) <<< 12 |||
    regBits rd <<< 7 ||| (opcode &&& 0x7f)

/-- Keeps the low 12 bits of `imm`, split around the register fields. -/
def sType (opcode funct3 : UInt32) (rs1 rs2 : Reg) (imm : UInt32) : UInt32 :=
  ((imm >>> 5) &&& 0x7f) <<< 25 ||| regBits rs2 <<< 20 ||| regBits rs1 <<< 15 |||
    (funct3 &&& 0x7) <<< 12 ||| (imm &&& 0x1f) <<< 7 ||| (opcode &&& 0x7f)

/-- A 13-bit signed byte offset in the scattered B layout. -/
def bType (funct3 : UInt32) (rs1 rs2 : Reg) (offset : UInt32) : UInt32 :=
  ((offset >>> 12) &&& 0x1) <<< 31 ||| ((offset >>> 5) &&& 0x3f) <<< 25 |||
    regBits rs2 <<< 20 ||| regBits rs1 <<< 15 ||| (funct3 &&& 0x7) <<< 12 |||
    ((offset >>> 1) &&& 0xf) <<< 8 ||| ((offset >>> 11) &&& 0x1) <<< 7 ||| opBranch

/-- `imm` is the 20-bit upper immediate, the value of bits 31:12. -/
def uType (opcode : UInt32) (rd : Reg) (imm : UInt32) : UInt32 :=
  (imm &&& 0xfffff) <<< 12 ||| regBits rd <<< 7 ||| (opcode &&& 0x7f)

/-- A 21-bit signed byte offset in the scattered J layout. -/
def jType (rd : Reg) (offset : UInt32) : UInt32 :=
  ((offset >>> 20) &&& 0x1) <<< 31 ||| ((offset >>> 1) &&& 0x3ff) <<< 21 |||
    ((offset >>> 11) &&& 0x1) <<< 20 ||| ((offset >>> 12) &&& 0xff) <<< 12 |||
    regBits rd <<< 7 ||| opJal

end RiscvCore.Encode
