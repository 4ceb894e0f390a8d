import RiscvCore.InstFormat

namespace RiscvCore

/-- The low `width` bits of `value`, for a width from 1 to 32, read as a two's-complement number:
shifted to the top of the word, reinterpreted as signed and shifted back arithmetically. -/
def signExtend (value : UInt32) (width : Nat) : Int32 :=
  let shift := 32 - width
  (value <<< shift.toUInt32).toInt32 >>> shift.toInt32

/-- The bit groups of a word that carry immediate bits. -/
structure ImmFields where
  bit31 : UInt32
  bits30_25 : UInt32
  bits24_21 : UInt32
  bit20 : UInt32
  bits19_12 : UInt32
  bits11_8 : UInt32
  bit7 : UInt32
deriving DecidableEq, Repr

namespace ImmFields

def ofWord (w : UInt32) : ImmFields where
  bit31 := (w >>> 31) &&& 0x1
  bits30_25 := (w >>> 25) &&& 0x3f
  bits24_21 := (w >>> 21) &&& 0xf
  bit20 := (w >>> 20) &&& 0x1
  bits19_12 := (w >>> 12) &&& 0xff
  bits11_8 := (w >>> 8) &&& 0xf
  bit7 := (w >>> 7) &&& 0x1

/-- The immediate of a format; formats without one give 0. -/
def assemble (f : ImmFields) : InstFormat → Int32
  | .i => signExtend (f.bit31 <<< 11 ||| f.bits30_25 <<< 5 ||| f.bits24_21 <<< 1 ||| f.bit20) 12
  | .s => signExtend (f.bit31 <<< 11 ||| f.bits30_25 <<< 5 ||| f.bits11_8 <<< 1 ||| f.bit7) 12
  | .b => signExtend (f.bit31 <<< 11 ||| f.bit7 <<< 10 ||| f.bits30_25 <<< 4 ||| f.bits11_8) 12
  | .u => signExtend (f.bit31 <<< 19 ||| f.bits30_25 <<< 13 ||| f.bits24_21 <<< 9 |||
      f.bit20 <<< 8 ||| f.bits19_12) 20
  | .j => signExtend (f.bit31 <<< 19 ||| f.bits19_12 <<< 11 ||| f.bit20 <<< 10 |||
      f.bits30_25 <<< 4 ||| f.bits24_21) 20
  | _ => 0

end ImmFields

def immediateOf (w : UInt32) (fmt : InstFormat) : Int32 := (ImmFields.ofWord w).assemble fmt

end RiscvCore
