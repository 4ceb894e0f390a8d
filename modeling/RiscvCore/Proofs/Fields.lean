import Mathlib
import RiscvCore.Decode
import RiscvCore.Encode
import RiscvCore.Proofs.SignExtend

namespace RiscvCore

/-- The `len` bits of `w` from bit `lo` up, as a number. -/
def field (w : UInt32) (lo len : Nat) : Nat := w.toNat / 2 ^ lo % 2 ^ len

theorem field_lt (w : UInt32) (lo len : Nat) : field w lo len < 2 ^ len :=
  Nat.mod_lt _ (Nat.two_pow_pos len)

theorem field_of_toNat {w : UInt32} {n : Nat} (h : w.toNat = n) (lo len : Nat) :
    field w lo len = n / 2 ^ lo % 2 ^ len := by
  rw [field, h]

theorem field_zero_toUInt32 {n len : Nat} (h : n < 2 ^ len) (hl : len ≤ 32) :
    field n.toUInt32 0 len = n := by
  have : 2 ^ len ≤ 2 ^ 32 := Nat.pow_le_pow_right (by decide) hl
  simp only [field, Nat.toUInt32_eq, UInt32.toNat_ofNat', Nat.pow_zero, Nat.div_one]
  rw [Nat.mod_eq_of_lt (by omega : n < 2 ^ 32), Nat.mod_eq_of_lt h]

theorem toNat_eq_field (w : UInt32) : w.toNat = field w 0 32 := by
  have := w.toNat_lt
  simp only [field, Nat.pow_zero, Nat.div_one]
  omega

theorem field_split (w : UInt32) (lo a b : Nat) :
    field w lo (a + b) = field w (lo + a) b * 2 ^ a + field w lo a := by
  unfold field
  rw [Nat.pow_add, Nat.mod_mul, Nat.div_div_eq_div_mul, ← Nat.pow_add]
  ring

theorem field_field (w : UInt32) (lo a len b : Nat) (h : a + len ≤ b) :
    field w (lo + a) len = field w lo b / 2 ^ a % 2 ^ len := by
  obtain ⟨c, rfl⟩ : ∃ c, b = a + (len + c) := ⟨b - (a + len), by omega⟩
  unfold field
  rw [Nat.pow_add 2 lo a, ← Nat.div_div_eq_div_mul, Nat.pow_add 2 a (len + c),
    Nat.mod_mul_right_div_self, Nat.mod_mod_of_dvd _ (Nat.pow_dvd_pow 2 (by omega))]

theorem shiftLeft_or_eq_add {a b k : Nat} (hb : b < 2 ^ k) : a <<< k ||| b = a <<< k + b :=
  (Nat.shiftLeft_add_eq_or_of_lt hb a).symm

theorem Reg.index_ofField (x : UInt32) : (Reg.ofField x).index = x.toNat % 32 := rfl

theorem Reg.ext_index {r s : Reg} (h : r.index = s.index) : r = s := by
  obtain ⟨⟨i,hi⟩⟩ := r
  obtain ⟨⟨j,hj⟩⟩ := s
  simp only [Reg.index] at h
  subst h
  rfl

theorem Opcode.bits_ofBits {n : Nat} (h : n < 32) : (Opcode.ofBits n).bits = n := by
  have key : ∀ i < 32, (Opcode.all.getD i .rv80).bits = i := by decide
  simp only [Opcode.ofBits, Nat.mod_eq_of_lt h]
  exact key n h

section Decode
variable (w : UInt32)

theorem decode_opcode : (decode w).opcode = Opcode.ofBits (field w 2 5) := by
  simp only [decode, Opcode.ofWord, Opcode.ofBits, field, UInt32.toNat_shiftRight,
    Nat.shiftRight_eq_div_pow]
  simp

theorem decode_format : (decode w).format = (decode w).opcode.format := rfl

theorem field_opcode : field w 2 5 = (decode w).opcode.bits := by
  rw [decode_opcode, Opcode.bits_ofBits (field_lt w 2 5)]

theorem decode_funct3 : (decode w).funct3 = field w 12 3 := by
  simp only [decode, field, UInt32.toNat_and, UInt32.toNat_shiftRight, Nat.shiftRight_eq_div_pow]
  exact Nat.and_two_pow_sub_one_eq_mod _ 3

theorem decode_funct7 : (decode w).funct7 = field w 25 7 := by
  simp only [decode, field, UInt32.toNat_and, UInt32.toNat_shiftRight, Nat.shiftRight_eq_div_pow]
  exact Nat.and_two_pow_sub_one_eq_mod _ 7

theorem decode_rd_index : (decode w).rd.index = field w 7 5 := by
  simp [decode, field, Reg.index_ofField, Nat.shiftRight_eq_div_pow]

theorem decode_rs1_index : (decode w).rs1.index = field w 15 5 := by
  simp [decode, field, Reg.index_ofField, Nat.shiftRight_eq_div_pow]

theorem decode_rs2_index : (decode w).rs2.index = field w 20 5 := by
  simp [decode, field, Reg.index_ofField, Nat.shiftRight_eq_div_pow]

theorem decode_imm : (decode w).imm = immediateOf w (decode w).format := rfl

variable {w}

theorem decode_opcode_eq {o : Opcode} (h : field w 2 5 = o.bits) : (decode w).opcode = o := by
  rw [decode_opcode, h, Opcode.ofBits_bits]

theorem decode_rd_eq {r : Reg} (h : field w 7 5 = r.index) : (decode w).rd = r :=
  Reg.ext_index (by rw [decode_rd_index, h])

theorem decode_rs1_eq {r : Reg} (h : field w 15 5 = r.index) : (decode w).rs1 = r :=
  Reg.ext_index (by rw [decode_rs1_index, h])

theorem decode_rs2_eq {r : Reg} (h : field w 20 5 = r.index) : (decode w).rs2 = r :=
  Reg.ext_index (by rw [decode_rs2_index, h])

end Decode

section Immediates
variable (w : UInt32)

@[simp] theorem ImmFields.bit31_toNat : (ImmFields.ofWord w).bit31.toNat = w.toNat / 2 ^ 31 % 2 ^ 1 := by
  simp only [ImmFields.ofWord, UInt32.toNat_and, UInt32.toNat_shiftRight, Nat.shiftRight_eq_div_pow]
  exact Nat.and_two_pow_sub_one_eq_mod _ 1

@[simp] theorem ImmFields.bits30_25_toNat :
    (ImmFields.ofWord w).bits30_25.toNat = w.toNat / 2 ^ 25 % 2 ^ 6 := by
  simp only [ImmFields.ofWord, UInt32.toNat_and, UInt32.toNat_shiftRight, Nat.shiftRight_eq_div_pow]
  exact Nat.and_two_pow_sub_one_eq_mod _ 6

@[simp] theorem ImmFields.bits24_21_toNat :
    (ImmFields.ofWord w).bits24_21.toNat = w.toNat / 2 ^ 21 % 2 ^ 4 := by
  simp only [ImmFields.ofWord, UInt32.toNat_and, UInt32.toNat_shiftRight, Nat.shiftRight_eq_div_pow]
  exact Nat.and_two_pow_sub_one_eq_mod _ 4

@[simp] theorem ImmFields.bit20_toNat : (ImmFields.ofWord w).bit20.toNat = w.toNat / 2 ^ 20 % 2 ^ 1 := by
  simp only [ImmFields.ofWord, UInt32.toNat_and, UInt32.toNat_shiftRight, Nat.shiftRight_eq_div_pow]
  exact Nat.and_two_pow_sub_one_eq_mod _ 1

@[simp] theorem ImmFields.bits19_12_toNat :
    (ImmFields.ofWord w).bits19_12.toNat = w.toNat / 2 ^ 12 % 2 ^ 8 := by
  simp only [ImmFields.ofWord, UInt32.toNat_and, UInt32.toNat_shiftRight, Nat.shiftRight_eq_div_pow]
  exact Nat.and_two_pow_sub_one_eq_mod _ 8

@[simp] theorem ImmFields.bits11_8_toNat :
    (ImmFields.ofWord w).bits11_8.toNat = w.toNat / 2 ^ 8 % 2 ^ 4 := by
  simp only [ImmFields.ofWord, UInt32.toNat_and, UInt32.toNat_shiftRight, Nat.shiftRight_eq_div_pow]
  exact Nat.and_two_pow_sub_one_eq_mod _ 4

@[simp] theorem ImmFields.bit7_toNat : (ImmFields.ofWord w).bit7.toNat = w.toNat / 2 ^ 7 % 2 ^ 1 := by
  simp only [ImmFields.ofWord, UInt32.toNat_and, UInt32.toNat_shiftRight, Nat.shiftRight_eq_div_pow]
  exact Nat.and_two_pow_sub_one_eq_mod _ 1

theorem immediateOf_i : immediateOf w .i = signExtend (UInt32.ofNat (field w 20 12)) 12 := by
  apply signExtend_congr (by decide) (by decide)
  have hw := w.toNat_lt
  simp only [UInt32.toNat_or, UInt32.toNat_shiftLeft, UInt32.reduceToNat, Nat.reduceMod,
    Nat.or_assoc, ImmFields.bit31_toNat, ImmFields.bits30_25_toNat, ImmFields.bits24_21_toNat,
    ImmFields.bit20_toNat, UInt32.toNat_ofNat']
  simp (disch := omega) only [shiftLeft_or_eq_add, Nat.mod_eq_of_lt]
  unfold field
  omega

theorem immediateOf_s :
    immediateOf w .s = signExtend (UInt32.ofNat (field w 25 7 * 2 ^ 5 + field w 7 5)) 12 := by
  apply signExtend_congr (by decide) (by decide)
  have hw := w.toNat_lt
  simp only [UInt32.toNat_or, UInt32.toNat_shiftLeft, UInt32.reduceToNat, Nat.reduceMod,
    Nat.or_assoc, ImmFields.bit31_toNat, ImmFields.bits30_25_toNat, ImmFields.bits11_8_toNat,
    ImmFields.bit7_toNat, UInt32.toNat_ofNat']
  simp (disch := omega) only [shiftLeft_or_eq_add, Nat.mod_eq_of_lt]
  rw [field_split w 25 6 1, field_split w 7 1 4]
  simp only [field, Nat.reduceAdd]
  omega

theorem immediateOf_b :
    immediateOf w .b = signExtend (UInt32.ofNat (field w 31 1 * 2 ^ 11 + field w 7 1 * 2 ^ 10 +
      field w 25 6 * 2 ^ 4 + field w 8 4)) 12 := by
  apply signExtend_congr (by decide) (by decide)
  have hw := w.toNat_lt
  simp only [UInt32.toNat_or, UInt32.toNat_shiftLeft, UInt32.reduceToNat, Nat.reduceMod,
    Nat.or_assoc, ImmFields.bit31_toNat, ImmFields.bits30_25_toNat, ImmFields.bits11_8_toNat,
    ImmFields.bit7_toNat, UInt32.toNat_ofNat']
  simp (disch := omega) only [shiftLeft_or_eq_add, Nat.mod_eq_of_lt]
  unfold field
  omega

theorem immediateOf_u : immediateOf w .u = signExtend (UInt32.ofNat (field w 12 20)) 20 := by
  apply signExtend_congr (by decide) (by decide)
  have hw := w.toNat_lt
  simp only [UInt32.toNat_or, UInt32.toNat_shiftLeft, UInt32.reduceToNat, Nat.reduceMod,
    Nat.or_assoc, ImmFields.bit31_toNat, ImmFields.bits30_25_toNat, ImmFields.bits24_21_toNat,
    ImmFields.bit20_toNat, ImmFields.bits19_12_toNat, UInt32.toNat_ofNat']
  simp (disch := omega) only [shiftLeft_or_eq_add, Nat.mod_eq_of_lt]
  unfold field
  omega

theorem immediateOf_j :
    immediateOf w .j = signExtend (UInt32.ofNat (field w 31 1 * 2 ^ 19 + field w 12 8 * 2 ^ 11 +
      field w 20 1 * 2 ^ 10 + field w 21 10)) 20 := by
  apply signExtend_congr (by decide) (by decide)
  have hw := w.toNat_lt
  simp only [UInt32.toNat_or, UInt32.toNat_shiftLeft, UInt32.reduceToNat, Nat.reduceMod,
    Nat.or_assoc, ImmFields.bit31_toNat, ImmFields.bits30_25_toNat, ImmFields.bits24_21_toNat,
    ImmFields.bit20_toNat, ImmFields.bits19_12_toNat, UInt32.toNat_ofNat']
  simp (disch := omega) only [shiftLeft_or_eq_add, Nat.mod_eq_of_lt]
  rw [field_split w 21 4 6]
  simp only [field, Nat.reduceAdd]
  omega

end Immediates

section Encoders
open Encode

@[simp] theorem Encode.regBits_toNat (r : Reg) : (regBits r).toNat = r.index := by
  have := r.index_lt
  simp only [regBits, Nat.toUInt32_eq, UInt32.toNat_ofNat']
  omega

theorem Encode.rType_toNat (op : UInt32) (rd : Reg) (f3 : UInt32) (rs1 rs2 : Reg) (f7 : UInt32) :
    (rType op rd f3 rs1 rs2 f7).toNat = field f7 0 7 * 2 ^ 25 + rs2.index * 2 ^ 20 +
      rs1.index * 2 ^ 15 + field f3 0 3 * 2 ^ 12 + rd.index * 2 ^ 7 + field op 0 7 := by
  have := rd.index_lt; have := rs1.index_lt; have := rs2.index_lt
  simp only [rType, UInt32.toNat_or, UInt32.toNat_shiftLeft, UInt32.toNat_and, regBits_toNat,
    UInt32.reduceToNat, Nat.reduceMod, Nat.or_assoc]
  rw [Nat.and_two_pow_sub_one_eq_mod f7.toNat 7, Nat.and_two_pow_sub_one_eq_mod f3.toNat 3,
    Nat.and_two_pow_sub_one_eq_mod op.toNat 7]
  simp (disch := omega) only [shiftLeft_or_eq_add, Nat.mod_eq_of_lt]
  simp only [field]
  omega

theorem Encode.iType_toNat (op : UInt32) (rd : Reg) (f3 : UInt32) (rs1 : Reg) (imm : UInt32) :
    (iType op rd f3 rs1 imm).toNat = field imm 0 12 * 2 ^ 20 + rs1.index * 2 ^ 15 +
      field f3 0 3 * 2 ^ 12 + rd.index * 2 ^ 7 + field op 0 7 := by
  have := rd.index_lt; have := rs1.index_lt
  simp only [iType, UInt32.toNat_or, UInt32.toNat_shiftLeft, UInt32.toNat_and, regBits_toNat,
    UInt32.reduceToNat, Nat.reduceMod, Nat.or_assoc]
  rw [Nat.and_two_pow_sub_one_eq_mod imm.toNat 12, Nat.and_two_pow_sub_one_eq_mod f3.toNat 3,
    Nat.and_two_pow_sub_one_eq_mod op.toNat 7]
  simp (disch := omega) only [shiftLeft_or_eq_add, Nat.mod_eq_of_lt]
  simp only [field]
  omega

theorem Encode.sType_toNat (op f3 : UInt32) (rs1 rs2 : Reg) (imm : UInt32) :
    (sType op f3 rs1 rs2 imm).toNat = field imm 5 7 * 2 ^ 25 + rs2.index * 2 ^ 20 +
      rs1.index * 2 ^ 15 + field f3 0 3 * 2 ^ 12 + field imm 0 5 * 2 ^ 7 + field op 0 7 := by
  have := rs2.index_lt; have := rs1.index_lt
  simp only [sType, UInt32.toNat_or, UInt32.toNat_shiftLeft, UInt32.toNat_and,
    UInt32.toNat_shiftRight, regBits_toNat, UInt32.reduceToNat, Nat.reduceMod, Nat.or_assoc,
    Nat.shiftRight_eq_div_pow]
  rw [Nat.and_two_pow_sub_one_eq_mod (imm.toNat / 2 ^ 5) 7, Nat.and_two_pow_sub_one_eq_mod f3.toNat 3,
    Nat.and_two_pow_sub_one_eq_mod imm.toNat 5, Nat.and_two_pow_sub_one_eq_mod op.toNat 7]
  simp (disch := omega) only [shiftLeft_or_eq_add, Nat.mod_eq_of_lt]
  simp only [field]
  omega

theorem Encode.bType_toNat (f3 : UInt32) (rs1 rs2 : Reg) (off : UInt32) :
    (bType f3 rs1 rs2 off).toNat = field off 12 1 * 2 ^ 31 + field off 5 6 * 2 ^ 25 +
      rs2.index * 2 ^ 20 + rs1.index * 2 ^ 15 + field f3 0 3 * 2 ^ 12 + field off 1 4 * 2 ^ 8 +
      field off 11 1 * 2 ^ 7 + 0x63 := by
  have := rs2.index_lt; have := rs1.index_lt
  simp only [bType, opBranch, UInt32.toNat_or, UInt32.toNat_shiftLeft, UInt32.toNat_and,
    UInt32.toNat_shiftRight, regBits_toNat, UInt32.reduceToNat, Nat.reduceMod, Nat.or_assoc,
    Nat.shiftRight_eq_div_pow]
  rw [Nat.and_two_pow_sub_one_eq_mod (off.toNat / 2 ^ 12) 1,
    Nat.and_two_pow_sub_one_eq_mod (off.toNat / 2 ^ 5) 6, Nat.and_two_pow_sub_one_eq_mod f3.toNat 3,
    Nat.and_two_pow_sub_one_eq_mod (off.toNat / 2 ^ 1) 4,
    Nat.and_two_pow_sub_one_eq_mod (off.toNat / 2 ^ 11) 1]
  simp (disch := omega) only [shiftLeft_or_eq_add, Nat.mod_eq_of_lt]
  simp only [field]
  omega

theorem Encode.uType_toNat (op : UInt32) (rd : Reg) (imm : UInt32) :
    (uType op rd imm).toNat = field imm 0 20 * 2 ^ 12 + rd.index * 2 ^ 7 + field op 0 7 := by
  have := rd.index_lt
  simp only [uType, UInt32.toNat_or, UInt32.toNat_shiftLeft, UInt32.toNat_and, regBits_toNat,
    UInt32.reduceToNat, Nat.reduceMod, Nat.or_assoc]
  rw [Nat.and_two_pow_sub_one_eq_mod imm.toNat 20, Nat.and_two_pow_sub_one_eq_mod op.toNat 7]
  simp (disch := omega) only [shiftLeft_or_eq_add, Nat.mod_eq_of_lt]
  simp only [field]
  omega

theorem Encode.jType_toNat (rd : Reg) (off : UInt32) :
    (jType rd off).toNat = field off 20 1 * 2 ^ 31 + field off 1 10 * 2 ^ 21 +
      field off 11 1 * 2 ^ 20 + field off 12 8 * 2 ^ 12 + rd.index * 2 ^ 7 + 0x6f := by
  have := rd.index_lt
  simp only [jType, opJal, UInt32.toNat_or, UInt32.toNat_shiftLeft, UInt32.toNat_and,
    UInt32.toNat_shiftRight, regBits_toNat, UInt32.reduceToNat, Nat.reduceMod, Nat.or_assoc,
    Nat.shiftRight_eq_div_pow]
  rw [Nat.and_two_pow_sub_one_eq_mod (off.toNat / 2 ^ 20) 1,
    Nat.and_two_pow_sub_one_eq_mod (off.toNat / 2 ^ 1) 10,
    Nat.and_two_pow_sub_one_eq_mod (off.toNat / 2 ^ 11) 1,
    Nat.and_two_pow_sub_one_eq_mod (off.toNat / 2 ^ 12) 8]
  simp (disch := omega) only [shiftLeft_or_eq_add, Nat.mod_eq_of_lt]
  simp only [field]
  omega

end Encoders

theorem Int32.toNat_toUInt32 (x : Int32) : (x.toUInt32.toNat : Int) = x.toInt % 2 ^ 32 := by
  have h : x.toInt = Int.bmod x.toUInt32.toNat (2 ^ 32) := BitVec.toInt_eq_toNat_bmod _
  have := x.toUInt32.toNat_lt
  rw [h, Int.bmod_def]
  split <;> omega

theorem signExtend_toUInt32_mod (v : UInt32) {k : Nat} (hk : k ≤ 32) :
    (signExtend v k).toUInt32.toNat % 2 ^ k = v.toNat % 2 ^ k := by
  rcases Nat.eq_zero_or_pos k with rfl | hk₁
  · simp only [pow_zero, Nat.mod_one]
  have hd : ((2 ^ k : Nat) : Int) ∣ ((2 ^ 32 : Nat) : Int) :=
    Int.natCast_dvd_natCast.mpr (Nat.pow_dvd_pow 2 hk)
  have h := congrArg (· % ((2 ^ k : Nat) : Int)) (Int32.toNat_toUInt32 (signExtend v k))
  rw [toInt_signExtend v hk₁ hk, show (2 : Int) ^ 32 = ((2 ^ 32 : Nat) : Int) by norm_num,
    Int.emod_emod_of_dvd _ hd, Int.bmod_emod] at h
  exact_mod_cast h

theorem UInt32.toNat_ofInt_cast (z : Int) : ((UInt32.ofInt z).toNat : Int) = z % 2 ^ 32 := by
  simp only [UInt32.ofInt, UInt32.toNat_ofNat']
  omega

end RiscvCore
