import RiscvCore.Immediate
import RiscvCore.Reg
import RiscvCore.Text.Digits

namespace RiscvCore

structure Decoded where
  raw : UInt32
  opcode : Opcode
  rd : Reg
  funct3 : Nat
  rs1 : Reg
  rs2 : Reg
  funct7 : Nat
  format : InstFormat
  /-- Sign-extended; B and J halved, U not shifted. -/
  imm : Int32
deriving DecidableEq, Repr

def decode (w : UInt32) : Decoded :=
  let opcode := Opcode.ofWord w
  let format := opcode.format
  { raw := w
    opcode
    rd := Reg.ofField (w >>> 7)
    funct3 := ((w >>> 12) &&& 0x7).toNat
    rs1 := Reg.ofField (w >>> 15)
    rs2 := Reg.ofField (w >>> 20)
    funct7 := ((w >>> 25) &&& 0x7f).toNat
    format
    imm := immediateOf w format }

namespace Decoded

/-- One line: the word, opcode and format, register names, funct fields in binary, immediate. -/
def render (d : Decoded) : String :=
  s!"0x{Text.hex 8 d.raw.toNat} {d.opcode.name}/{d.format.name} rd={d.rd.abiName} " ++
  s!"rs1={d.rs1.abiName} rs2={d.rs2.abiName} f3={Text.bin 3 d.funct3} " ++
  s!"f7={Text.bin 7 d.funct7} imm={d.imm.toInt}"

end Decoded

end RiscvCore
