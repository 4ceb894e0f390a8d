import RiscvCore.Proofs.Fields
import RiscvCore.Proofs.SignExtend

namespace RiscvCore

open Encode

section DecodeEncode
variable (rd rs1 rs2 : Reg)

theorem decode_rType (f3 f7 : UInt32) :
    let d := decode (rType opReg rd f3 rs1 rs2 f7)
    d.opcode = .op ∧ d.format = .r ∧ d.rd = rd ∧ d.rs1 = rs1 ∧ d.rs2 = rs2 ∧
      d.funct3 = field f3 0 3 ∧ d.funct7 = field f7 0 7 ∧ d.imm = 0 := by
  have hw := field_of_toNat (rType_toNat opReg rd f3 rs1 rs2 f7)
  have := rd.index_lt; have := rs1.index_lt; have := rs2.index_lt
  have := field_lt f3 0 3; have := field_lt f7 0 7
  have hop : field opReg 0 7 = 0x33 := rfl
  have ho : (decode (rType opReg rd f3 rs1 rs2 f7)).opcode = .op :=
    decode_opcode_eq (by rw [hw, hop, Opcode.bits]; omega)
  refine ⟨ho, by rw [decode_format, ho]; rfl, decode_rd_eq ?_, decode_rs1_eq ?_, decode_rs2_eq ?_,
    by rw [decode_funct3, hw]; omega, by rw [decode_funct7, hw]; omega,
    by rw [decode_imm, decode_format, ho]; rfl⟩
  all_goals rw [hw]; omega

theorem decode_iType {op : UInt32} {o : Opcode} (hop : field op 0 7 = o.bits * 4 + 3)
    (hf : o.format = .i) (f3 imm : UInt32) :
    let d := decode (iType op rd f3 rs1 imm)
    d.opcode = o ∧ d.format = .i ∧ d.rd = rd ∧ d.rs1 = rs1 ∧ d.funct3 = field f3 0 3 ∧
      d.funct7 = field imm 5 7 ∧ d.imm = signExtend imm 12 := by
  have hw := field_of_toNat (iType_toNat op rd f3 rs1 imm)
  have := rd.index_lt; have := rs1.index_lt; have := o.bits_lt
  have := field_lt f3 0 3; have := field_lt imm 0 5; have := field_lt imm 5 7
  have hs : field imm 0 12 = field imm 5 7 * 2 ^ 5 + field imm 0 5 := field_split imm 0 5 7
  have ho : (decode (iType op rd f3 rs1 imm)).opcode = o := decode_opcode_eq (by rw [hw]; omega)
  have hfmt : (decode (iType op rd f3 rs1 imm)).format = .i := by rw [decode_format, ho, hf]
  refine ⟨ho, hfmt, decode_rd_eq (by rw [hw]; omega), decode_rs1_eq (by rw [hw]; omega),
    by rw [decode_funct3, hw]; omega, by rw [decode_funct7, hw]; omega, ?_⟩
  rw [decode_imm, hfmt, immediateOf_i]
  apply signExtend_congr (by decide) (by decide)
  rw [UInt32.toNat_ofNat', hw]
  simp only [field] at hs ⊢
  omega

theorem decode_sType (f3 imm : UInt32) :
    let d := decode (sType opStore f3 rs1 rs2 imm)
    d.opcode = .store ∧ d.format = .s ∧ d.rs1 = rs1 ∧ d.rs2 = rs2 ∧ d.funct3 = field f3 0 3 ∧
      d.imm = signExtend imm 12 := by
  have hw := field_of_toNat (sType_toNat opStore f3 rs1 rs2 imm)
  have := rs1.index_lt; have := rs2.index_lt
  have := field_lt f3 0 3; have := field_lt imm 0 5; have := field_lt imm 5 7
  have hs : field imm 0 12 = field imm 5 7 * 2 ^ 5 + field imm 0 5 := field_split imm 0 5 7
  have hop : field opStore 0 7 = 0x23 := rfl
  have ho : (decode (sType opStore f3 rs1 rs2 imm)).opcode = .store :=
    decode_opcode_eq (by rw [hw, hop, Opcode.bits]; omega)
  have hfmt : (decode (sType opStore f3 rs1 rs2 imm)).format = .s := by rw [decode_format, ho]; rfl
  refine ⟨ho, hfmt, decode_rs1_eq (by rw [hw]; omega), decode_rs2_eq (by rw [hw]; omega),
    by rw [decode_funct3, hw]; omega, ?_⟩
  rw [decode_imm, hfmt, immediateOf_s]
  apply signExtend_congr (by decide) (by decide)
  rw [UInt32.toNat_ofNat', hw, hw]
  simp only [field] at hs ⊢
  omega

theorem decode_bType (f3 off : UInt32) :
    let d := decode (bType f3 rs1 rs2 off)
    d.opcode = .branch ∧ d.format = .b ∧ d.rs1 = rs1 ∧ d.rs2 = rs2 ∧ d.funct3 = field f3 0 3 ∧
      d.imm = signExtend (off >>> 1) 12 := by
  have hw := field_of_toNat (bType_toNat f3 rs1 rs2 off)
  have := rs1.index_lt; have := rs2.index_lt; have := field_lt f3 0 3
  have := field_lt off 12 1; have := field_lt off 11 1; have := field_lt off 5 6
  have := field_lt off 1 4
  have ho : (decode (bType f3 rs1 rs2 off)).opcode = .branch :=
    decode_opcode_eq (by rw [hw, Opcode.bits]; omega)
  have hfmt : (decode (bType f3 rs1 rs2 off)).format = .b := by rw [decode_format, ho]; rfl
  refine ⟨ho, hfmt, decode_rs1_eq (by rw [hw]; omega), decode_rs2_eq (by rw [hw]; omega),
    by rw [decode_funct3, hw]; omega, ?_⟩
  have e1 : field (bType f3 rs1 rs2 off) 31 1 = field off 12 1 := by rw [hw]; omega
  have e2 : field (bType f3 rs1 rs2 off) 7 1 = field off 11 1 := by rw [hw]; omega
  have e3 : field (bType f3 rs1 rs2 off) 25 6 = field off 5 6 := by rw [hw]; omega
  have e4 : field (bType f3 rs1 rs2 off) 8 4 = field off 1 4 := by rw [hw]; omega
  have h1 : field off 1 12 = field off 5 8 * 2 ^ 4 + field off 1 4 := field_split off 1 4 8
  have h2 : field off 5 8 = field off 11 2 * 2 ^ 6 + field off 5 6 := field_split off 5 6 2
  have h3 : field off 11 2 = field off 12 1 * 2 + field off 11 1 := field_split off 11 1 1
  have hr : (off >>> 1).toNat % 2 ^ 12 = field off 1 12 := by
    simp [field, Nat.shiftRight_eq_div_pow]
  rw [decode_imm, hfmt, immediateOf_b]
  apply signExtend_congr (by decide) (by decide)
  rw [UInt32.toNat_ofNat', hr, e1, e2, e3, e4]
  omega

theorem decode_uType {op : UInt32} {o : Opcode} (hop : field op 0 7 = o.bits * 4 + 3)
    (hf : o.format = .u) (imm : UInt32) :
    let d := decode (uType op rd imm)
    d.opcode = o ∧ d.format = .u ∧ d.rd = rd ∧ d.imm = signExtend imm 20 := by
  have hw := field_of_toNat (uType_toNat op rd imm)
  have := rd.index_lt; have := o.bits_lt; have := field_lt imm 0 20
  have ho : (decode (uType op rd imm)).opcode = o := decode_opcode_eq (by rw [hw]; omega)
  have hfmt : (decode (uType op rd imm)).format = .u := by rw [decode_format, ho, hf]
  refine ⟨ho, hfmt, decode_rd_eq (by rw [hw]; omega), ?_⟩
  rw [decode_imm, hfmt, immediateOf_u]
  apply signExtend_congr (by decide) (by decide)
  rw [UInt32.toNat_ofNat', hw]
  simp only [field]
  omega

theorem decode_jType (off : UInt32) :
    let d := decode (jType rd off)
    d.opcode = .jal ∧ d.format = .j ∧ d.rd = rd ∧ d.imm = signExtend (off >>> 1) 20 := by
  have hw := field_of_toNat (jType_toNat rd off)
  have := rd.index_lt
  have := field_lt off 20 1; have := field_lt off 12 8; have := field_lt off 11 1
  have := field_lt off 1 10
  have ho : (decode (jType rd off)).opcode = .jal :=
    decode_opcode_eq (by rw [hw, Opcode.bits]; omega)
  have hfmt : (decode (jType rd off)).format = .j := by rw [decode_format, ho]; rfl
  refine ⟨ho, hfmt, decode_rd_eq (by rw [hw]; omega), ?_⟩
  have e1 : field (jType rd off) 31 1 = field off 20 1 := by rw [hw]; omega
  have e2 : field (jType rd off) 12 8 = field off 12 8 := by rw [hw]; omega
  have e3 : field (jType rd off) 20 1 = field off 11 1 := by rw [hw]; omega
  have e4 : field (jType rd off) 21 10 = field off 1 10 := by rw [hw]; omega
  have h1 : field off 1 20 = field off 11 10 * 2 ^ 10 + field off 1 10 := field_split off 1 10 10
  have h2 : field off 11 10 = field off 12 9 * 2 + field off 11 1 := field_split off 11 1 9
  have h3 : field off 12 9 = field off 20 1 * 2 ^ 8 + field off 12 8 := field_split off 12 8 1
  have hr : (off >>> 1).toNat % 2 ^ 20 = field off 1 20 := by
    simp [field, Nat.shiftRight_eq_div_pow]
  rw [decode_imm, hfmt, immediateOf_j]
  apply signExtend_congr (by decide) (by decide)
  rw [UInt32.toNat_ofNat', hr, e1, e2, e3, e4]
  omega

end DecodeEncode

/-- The word a decoded instruction re-encodes to by the encoder of its format, the opcode taken
from the word's low seven bits and branch and jump offsets doubled back to bytes; a format with
no encoder gives none. -/
def Decoded.reencode (d : Decoded) : Option UInt32 :=
  let op := d.raw &&& 0x7f
  match d.format with
  | .r => some (rType op d.rd d.funct3.toUInt32 d.rs1 d.rs2 d.funct7.toUInt32)
  | .i => some (iType op d.rd d.funct3.toUInt32 d.rs1 d.imm.toUInt32)
  | .s => some (sType op d.funct3.toUInt32 d.rs1 d.rs2 d.imm.toUInt32)
  | .b => some (bType d.funct3.toUInt32 d.rs1 d.rs2 (2 * d.imm).toUInt32)
  | .u => some (uType op d.rd d.imm.toUInt32)
  | .j => some (jType d.rd (2 * d.imm).toUInt32)
  | .other | .undefined => none

theorem Opcode.format_ne_undefined (o : Opcode) : o.format ≠ .undefined := by
  cases o <;> decide

section Reencode
variable {w : UInt32}

theorem field_low_opcode : field (w &&& 0x7f) 0 7 = field w 0 7 := by
  simp only [field, UInt32.toNat_and, UInt32.reduceToNat, Nat.pow_zero, Nat.div_one]
  rw [Nat.and_two_pow_sub_one_eq_mod _ 7, Nat.mod_mod]

theorem field_funct3 : field (decode w).funct3.toUInt32 0 3 = field w 12 3 := by
  rw [decode_funct3]; exact field_zero_toUInt32 (field_lt w 12 3) (by decide)

theorem field_funct7 : field (decode w).funct7.toUInt32 0 7 = field w 25 7 := by
  rw [decode_funct7]; exact field_zero_toUInt32 (field_lt w 25 7) (by decide)

theorem imm_low_bits {fmt : InstFormat} {k v : Nat} (hk : k ≤ 32) (hv : v < 2 ^ k)
    (h : immediateOf w fmt = signExtend (UInt32.ofNat v) k) :
    (immediateOf w fmt).toUInt32.toNat % 2 ^ k = v := by
  have : 2 ^ k ≤ 2 ^ 32 := Nat.pow_le_pow_right (by decide) hk
  rw [h, signExtend_toUInt32_mod _ hk, UInt32.toNat_ofNat', Nat.mod_eq_of_lt (by omega : v < 2 ^ 32),
    Nat.mod_eq_of_lt hv]

theorem double_low_bits (x : Int32) (k : Nat) (hk : k < 32) :
    field (2 * x).toUInt32 1 k = x.toUInt32.toNat % 2 ^ k := by
  have h2 : (2 : Int32).toUInt32.toNat = 2 := rfl
  have e : 2 * x.toUInt32.toNat % 2 ^ 32 / 2 = x.toUInt32.toNat % 2 ^ 31 := by omega
  simp only [field, Int32.toUInt32_mul, UInt32.toNat_mul, h2, Nat.pow_one]
  rw [e, Nat.mod_mod_of_dvd _ (Nat.pow_dvd_pow 2 (by omega : k ≤ 31))]

theorem field_low_seven {o : Opcode} (h3 : w &&& 3 = 3) (ho : (decode w).opcode = o) :
    field w 0 7 = o.bits * 4 + 3 := by
  have hl : field w 0 2 = 3 := by
    have := congrArg UInt32.toNat h3
    simp only [UInt32.toNat_and, UInt32.reduceToNat] at this
    rw [Nat.and_two_pow_sub_one_eq_mod _ 2] at this
    simpa [field] using this
  have hs : field w 0 7 = field w 2 5 * 2 ^ 2 + field w 0 2 := field_split w 0 2 5
  rw [hs, hl, field_opcode, ho]
  omega

theorem rType_decode :
    rType (w &&& 0x7f) (decode w).rd (decode w).funct3.toUInt32 (decode w).rs1 (decode w).rs2
      (decode w).funct7.toUInt32 = w := by
  apply UInt32.toNat_inj.mp
  rw [rType_toNat, field_low_opcode, field_funct3, field_funct7, decode_rd_index,
    decode_rs1_index, decode_rs2_index, toNat_eq_field w]
  have s1 : field w 0 32 = field w 7 25 * 2 ^ 7 + field w 0 7 := field_split w 0 7 25
  have s2 : field w 7 25 = field w 12 20 * 2 ^ 5 + field w 7 5 := field_split w 7 5 20
  have s3 : field w 12 20 = field w 15 17 * 2 ^ 3 + field w 12 3 := field_split w 12 3 17
  have s4 : field w 15 17 = field w 20 12 * 2 ^ 5 + field w 15 5 := field_split w 15 5 12
  have s5 : field w 20 12 = field w 25 7 * 2 ^ 5 + field w 20 5 := field_split w 20 5 7
  omega

theorem iType_decode (hf : (decode w).format = .i) :
    iType (w &&& 0x7f) (decode w).rd (decode w).funct3.toUInt32 (decode w).rs1
      (decode w).imm.toUInt32 = w := by
  have hi : field (decode w).imm.toUInt32 0 12 = field w 20 12 := by
    rw [decode_imm, hf]
    simpa [field] using imm_low_bits (by decide) (field_lt w 20 12) (immediateOf_i w)
  apply UInt32.toNat_inj.mp
  rw [iType_toNat, field_low_opcode, field_funct3, hi, decode_rd_index, decode_rs1_index,
    toNat_eq_field w]
  have s1 : field w 0 32 = field w 7 25 * 2 ^ 7 + field w 0 7 := field_split w 0 7 25
  have s2 : field w 7 25 = field w 12 20 * 2 ^ 5 + field w 7 5 := field_split w 7 5 20
  have s3 : field w 12 20 = field w 15 17 * 2 ^ 3 + field w 12 3 := field_split w 12 3 17
  have s4 : field w 15 17 = field w 20 12 * 2 ^ 5 + field w 15 5 := field_split w 15 5 12
  omega

theorem sType_decode (hf : (decode w).format = .s) :
    sType (w &&& 0x7f) (decode w).funct3.toUInt32 (decode w).rs1 (decode w).rs2
      (decode w).imm.toUInt32 = w := by
  have := field_lt w 7 5; have := field_lt w 25 7
  have hi : field (decode w).imm.toUInt32 0 12 = field w 25 7 * 2 ^ 5 + field w 7 5 := by
    rw [decode_imm, hf]
    simpa [field] using imm_low_bits (by decide) (by omega) (immediateOf_s w)
  have hs : field (decode w).imm.toUInt32 0 12 = field (decode w).imm.toUInt32 5 7 * 2 ^ 5 +
      field (decode w).imm.toUInt32 0 5 := field_split _ 0 5 7
  have := field_lt (decode w).imm.toUInt32 0 5
  apply UInt32.toNat_inj.mp
  rw [sType_toNat, field_low_opcode, field_funct3, decode_rs1_index, decode_rs2_index,
    toNat_eq_field w]
  have s1 : field w 0 32 = field w 7 25 * 2 ^ 7 + field w 0 7 := field_split w 0 7 25
  have s2 : field w 7 25 = field w 12 20 * 2 ^ 5 + field w 7 5 := field_split w 7 5 20
  have s3 : field w 12 20 = field w 15 17 * 2 ^ 3 + field w 12 3 := field_split w 12 3 17
  have s4 : field w 15 17 = field w 20 12 * 2 ^ 5 + field w 15 5 := field_split w 15 5 12
  have s5 : field w 20 12 = field w 25 7 * 2 ^ 5 + field w 20 5 := field_split w 20 5 7
  omega

theorem bType_decode (h3 : w &&& 3 = 3) (hf : (decode w).format = .b) :
    bType (decode w).funct3.toUInt32 (decode w).rs1 (decode w).rs2 (2 * (decode w).imm).toUInt32 =
      w := by
  have ho : (decode w).opcode = .branch := by
    have := decode_format w; revert this; rw [hf]; cases (decode w).opcode <;> decide
  have hop := field_low_seven h3 ho
  have := field_lt w 31 1; have := field_lt w 7 1; have := field_lt w 25 6; have := field_lt w 8 4
  have hi : field (2 * (decode w).imm).toUInt32 1 12 =
      field w 31 1 * 2 ^ 11 + field w 7 1 * 2 ^ 10 + field w 25 6 * 2 ^ 4 + field w 8 4 := by
    rw [double_low_bits _ 12 (by decide), decode_imm, hf]
    exact imm_low_bits (by decide) (by omega) (immediateOf_b w)
  generalize (2 * (decode w).imm).toUInt32 = off at hi
  have o1 : field off 12 1 = field w 31 1 := by rw [field_field off 1 11 1 12 (by omega), hi]; omega
  have o2 : field off 11 1 = field w 7 1 := by rw [field_field off 1 10 1 12 (by omega), hi]; omega
  have o3 : field off 5 6 = field w 25 6 := by rw [field_field off 1 4 6 12 (by omega), hi]; omega
  have o4 : field off 1 4 = field w 8 4 := by rw [field_field off 1 0 4 12 (by omega), hi]; omega
  apply UInt32.toNat_inj.mp
  rw [bType_toNat, field_funct3, decode_rs1_index, decode_rs2_index, o1, o2, o3, o4,
    toNat_eq_field w]
  have s1 : field w 0 32 = field w 7 25 * 2 ^ 7 + field w 0 7 := field_split w 0 7 25
  have s2 : field w 7 25 = field w 8 24 * 2 + field w 7 1 := field_split w 7 1 24
  have s3 : field w 8 24 = field w 12 20 * 2 ^ 4 + field w 8 4 := field_split w 8 4 20
  have s4 : field w 12 20 = field w 15 17 * 2 ^ 3 + field w 12 3 := field_split w 12 3 17
  have s5 : field w 15 17 = field w 20 12 * 2 ^ 5 + field w 15 5 := field_split w 15 5 12
  have s6 : field w 20 12 = field w 25 7 * 2 ^ 5 + field w 20 5 := field_split w 20 5 7
  have s7 : field w 25 7 = field w 31 1 * 2 ^ 6 + field w 25 6 := field_split w 25 6 1
  simp only [Opcode.bits] at hop
  omega

theorem uType_decode (hf : (decode w).format = .u) :
    uType (w &&& 0x7f) (decode w).rd (decode w).imm.toUInt32 = w := by
  have hi : field (decode w).imm.toUInt32 0 20 = field w 12 20 := by
    rw [decode_imm, hf]
    simpa [field] using imm_low_bits (by decide) (field_lt w 12 20) (immediateOf_u w)
  apply UInt32.toNat_inj.mp
  rw [uType_toNat, field_low_opcode, hi, decode_rd_index, toNat_eq_field w]
  have s1 : field w 0 32 = field w 7 25 * 2 ^ 7 + field w 0 7 := field_split w 0 7 25
  have s2 : field w 7 25 = field w 12 20 * 2 ^ 5 + field w 7 5 := field_split w 7 5 20
  omega

theorem jType_decode (h3 : w &&& 3 = 3) (hf : (decode w).format = .j) :
    jType (decode w).rd (2 * (decode w).imm).toUInt32 = w := by
  have ho : (decode w).opcode = .jal := by
    have := decode_format w; revert this; rw [hf]; cases (decode w).opcode <;> decide
  have hop := field_low_seven h3 ho
  have := field_lt w 31 1; have := field_lt w 12 8; have := field_lt w 20 1
  have := field_lt w 21 10
  have hi : field (2 * (decode w).imm).toUInt32 1 20 =
      field w 31 1 * 2 ^ 19 + field w 12 8 * 2 ^ 11 + field w 20 1 * 2 ^ 10 + field w 21 10 := by
    rw [double_low_bits _ 20 (by decide), decode_imm, hf]
    exact imm_low_bits (by decide) (by omega) (immediateOf_j w)
  generalize (2 * (decode w).imm).toUInt32 = off at hi
  have o1 : field off 20 1 = field w 31 1 := by rw [field_field off 1 19 1 20 (by omega), hi]; omega
  have o2 : field off 12 8 = field w 12 8 := by rw [field_field off 1 11 8 20 (by omega), hi]; omega
  have o3 : field off 11 1 = field w 20 1 := by rw [field_field off 1 10 1 20 (by omega), hi]; omega
  have o4 : field off 1 10 = field w 21 10 := by rw [field_field off 1 0 10 20 (by omega), hi]; omega
  apply UInt32.toNat_inj.mp
  rw [jType_toNat, decode_rd_index, o1, o2, o3, o4, toNat_eq_field w]
  have s1 : field w 0 32 = field w 7 25 * 2 ^ 7 + field w 0 7 := field_split w 0 7 25
  have s2 : field w 7 25 = field w 12 20 * 2 ^ 5 + field w 7 5 := field_split w 7 5 20
  have s3 : field w 12 20 = field w 20 12 * 2 ^ 8 + field w 12 8 := field_split w 12 8 12
  have s4 : field w 20 12 = field w 21 11 * 2 + field w 20 1 := field_split w 20 1 11
  have s5 : field w 21 11 = field w 31 1 * 2 ^ 10 + field w 21 10 := field_split w 21 10 1
  simp only [Opcode.bits] at hop
  omega

theorem reencode_decode (h3 : w &&& 3 = 3) :
    (decode w).reencode = if (decode w).format = .other then none else some w := by
  have hraw : (decode w).raw = w := rfl
  unfold Decoded.reencode
  rw [hraw]
  cases hf : (decode w).format with
  | undefined => exact absurd (decode_format w ▸ hf) (Opcode.format_ne_undefined _)
  | r => simp [rType_decode]
  | i => simp [iType_decode hf]
  | s => simp [sType_decode hf]
  | b => rw [if_neg (by decide)]; exact congrArg some (bType_decode h3 hf)
  | u => simp [uType_decode hf]
  | j => rw [if_neg (by decide)]; exact congrArg some (jType_decode h3 hf)
  | other => rfl

end Reencode

theorem field_zero_of_lt {x : UInt32} {len : Nat} (h : x.toNat < 2 ^ len) :
    field x 0 len = x.toNat := by
  simp [field, Nat.mod_eq_of_lt h]

theorem field_zero_of_code {x : UInt32} {len : Nat} (h : x < (2 ^ len).toUInt32) (hl : len ≤ 32) :
    field x 0 len = x.toNat := by
  have : 2 ^ len ≤ 2 ^ 32 := Nat.pow_le_pow_right (by decide) hl
  apply field_zero_of_lt
  rw [UInt32.lt_iff_toNat_lt, Nat.toUInt32, UInt32.toNat_ofNat', Nat.mod_eq_of_lt (by omega)] at h
  exact h

theorem signExtend_toUInt32_of_range (x : Int32) {k : Nat} (hk : 1 ≤ k) (hk' : k ≤ 32)
    (h : -2 ^ (k - 1) ≤ x.toInt ∧ x.toInt < 2 ^ (k - 1)) : signExtend x.toUInt32 k = x := by
  have hh := two_pow_half hk
  apply Int32.toInt_inj.mp
  rw [toInt_signExtend _ hk hk', ← Int.bmod_bmod_of_dvd (Nat.pow_dvd_pow 2 hk'), toUInt32_toNat_bmod]
  apply Int.bmod_eq_of_le
  · rw [hh.1]; exact h.1
  · rw [hh.2]; exact h.2

theorem signExtend_double_shift (x : Int32) {k : Nat} (hk₁ : 1 ≤ k) (hk : k < 32) :
    signExtend ((2 * x).toUInt32 >>> 1) k = signExtend x.toUInt32 k := by
  apply signExtend_congr hk₁ (by omega)
  rw [← double_low_bits x k hk]
  simp [field, Nat.shiftRight_eq_div_pow]

/-- The format encoders and the decoder are mutual inverses. Decoding an encoded word gives
back every operand that fits its field: a funct3 below 8, a funct7 below 128, a 12-bit signed
I or S immediate, a branch offset twice a 12-bit signed number, a 20-bit signed U immediate
and a jump offset twice a 20-bit signed number. Conversely, every word with its low two bits
set is what the encoder of its format makes of its decoded fields, for every format that has
an encoder. -/
theorem encoders_decode_inverse :
    (∀ (rd rs1 rs2 : Reg) (f3 f7 : UInt32), f3 < 8 → f7 < 128 →
      let d := decode (rType opReg rd f3 rs1 rs2 f7)
      d.rd = rd ∧ d.rs1 = rs1 ∧ d.rs2 = rs2 ∧ d.funct3 = f3.toNat ∧ d.funct7 = f7.toNat ∧
        d.imm = 0) ∧
    (∀ op ∈ [opLoad, opImm, opJalr], ∀ (rd rs1 : Reg) (f3 : UInt32) (imm : Int32), f3 < 8 →
      -2048 ≤ imm.toInt → imm.toInt ≤ 2047 →
      let d := decode (iType op rd f3 rs1 imm.toUInt32)
      d.rd = rd ∧ d.rs1 = rs1 ∧ d.funct3 = f3.toNat ∧ d.imm = imm) ∧
    (∀ (rs1 rs2 : Reg) (f3 : UInt32) (imm : Int32), f3 < 8 →
      -2048 ≤ imm.toInt → imm.toInt ≤ 2047 →
      let d := decode (sType opStore f3 rs1 rs2 imm.toUInt32)
      d.rs1 = rs1 ∧ d.rs2 = rs2 ∧ d.funct3 = f3.toNat ∧ d.imm = imm) ∧
    (∀ (rs1 rs2 : Reg) (f3 : UInt32) (k : Int32), f3 < 8 →
      -2048 ≤ k.toInt → k.toInt ≤ 2047 →
      let d := decode (bType f3 rs1 rs2 (2 * k).toUInt32)
      d.rs1 = rs1 ∧ d.rs2 = rs2 ∧ d.funct3 = f3.toNat ∧ d.imm = k) ∧
    (∀ op ∈ [opLui, opAuipc], ∀ (rd : Reg) (imm : Int32),
      -2 ^ 19 ≤ imm.toInt → imm.toInt ≤ 2 ^ 19 - 1 →
      let d := decode (uType op rd imm.toUInt32)
      d.rd = rd ∧ d.imm = imm) ∧
    (∀ (rd : Reg) (k : Int32), -2 ^ 19 ≤ k.toInt → k.toInt ≤ 2 ^ 19 - 1 →
      let d := decode (jType rd (2 * k).toUInt32)
      d.rd = rd ∧ d.imm = k) ∧
    (∀ w : UInt32, w &&& 3 = 3 →
      (decode w).reencode = if (decode w).format = .other then none else some w) := by
  refine ⟨?r, ?i, ?s, ?b, ?u, ?j, fun w h3 => reencode_decode h3⟩
  case r =>
    intro rd rs1 rs2 f3 f7 h3 h7
    obtain ⟨-, -, hrd, hrs1, hrs2, hf3, hf7, himm⟩ := decode_rType rd rs1 rs2 f3 f7
    exact ⟨hrd, hrs1, hrs2, hf3.trans (field_zero_of_code h3 (by decide)),
      hf7.trans (field_zero_of_code h7 (by decide)), himm⟩
  case i =>
    intro op hop rd rs1 f3 imm h3 lo hi
    have key {o : Opcode} (hop : field op 0 7 = o.bits * 4 + 3) (hf : o.format = .i) :=
      decode_iType rd rs1 hop hf f3 imm.toUInt32
    obtain ⟨-, -, hrd, hrs1, hf3, -, himm⟩ : let d := decode (iType op rd f3 rs1 imm.toUInt32)
        d.opcode.format = .i ∧ d.format = .i ∧ d.rd = rd ∧ d.rs1 = rs1 ∧
          d.funct3 = field f3 0 3 ∧ d.funct7 = field imm.toUInt32 5 7 ∧
          d.imm = signExtend imm.toUInt32 12 := by
      simp only [List.mem_cons, List.not_mem_nil, or_false] at hop
      rcases hop with rfl | rfl | rfl
      · obtain ⟨ho, h⟩ := key (o := .load) rfl rfl; exact ⟨ho ▸ rfl, h⟩
      · obtain ⟨ho, h⟩ := key (o := .opImm) rfl rfl; exact ⟨ho ▸ rfl, h⟩
      · obtain ⟨ho, h⟩ := key (o := .jalr) rfl rfl; exact ⟨ho ▸ rfl, h⟩
    exact ⟨hrd, hrs1, hf3.trans (field_zero_of_code h3 (by decide)),
      himm.trans (signExtend_toUInt32_of_range imm (by decide) (by decide) ⟨lo, by omega⟩)⟩
  case s =>
    intro rs1 rs2 f3 imm h3 lo hi
    obtain ⟨-, -, hrs1, hrs2, hf3, himm⟩ := decode_sType rs1 rs2 f3 imm.toUInt32
    exact ⟨hrs1, hrs2, hf3.trans (field_zero_of_code h3 (by decide)),
      himm.trans (signExtend_toUInt32_of_range imm (by decide) (by decide) ⟨lo, by omega⟩)⟩
  case b =>
    intro rs1 rs2 f3 k h3 lo hi
    obtain ⟨-, -, hrs1, hrs2, hf3, himm⟩ := decode_bType rs1 rs2 f3 (2 * k).toUInt32
    rw [signExtend_double_shift k (by decide) (by decide)] at himm
    exact ⟨hrs1, hrs2, hf3.trans (field_zero_of_code h3 (by decide)),
      himm.trans (signExtend_toUInt32_of_range k (by decide) (by decide) ⟨lo, by omega⟩)⟩
  case u =>
    intro op hop rd imm lo hi
    have key {o : Opcode} (hop : field op 0 7 = o.bits * 4 + 3) (hf : o.format = .u) :=
      (decode_uType rd hop hf imm.toUInt32).2.2
    obtain ⟨hrd, himm⟩ : let d := decode (uType op rd imm.toUInt32)
        d.rd = rd ∧ d.imm = signExtend imm.toUInt32 20 := by
      simp only [List.mem_cons, List.not_mem_nil, or_false] at hop
      rcases hop with rfl | rfl
      · exact key (o := .lui) rfl rfl
      · exact key (o := .auipc) rfl rfl
    exact ⟨hrd,
      himm.trans (signExtend_toUInt32_of_range imm (by decide) (by decide) ⟨lo, by omega⟩)⟩
  case j =>
    intro rd k lo hi
    obtain ⟨-, -, hrd, himm⟩ := decode_jType rd (2 * k).toUInt32
    rw [signExtend_double_shift k (by decide) (by decide)] at himm
    exact ⟨hrd,
      himm.trans (signExtend_toUInt32_of_range k (by decide) (by decide) ⟨lo, by omega⟩)⟩

theorem encoders_decode_inverse_boundary :
    (decode (iType opImm .ra 0 .zero (-2048 : Int32).toUInt32)).imm = -2048 ∧
    (decode (bType 0 .ra .s0 (2 * 2047 : Int32).toUInt32)).imm = 2047 ∧
    (decode (jType .ra (2 * -2 ^ 19 : Int32).toUInt32)).imm = -2 ^ 19 :=
  ⟨(encoders_decode_inverse.2.1 opImm (by simp) .ra .zero 0 (-2048) (by decide) (by decide)
      (by decide)).2.2.2,
    (encoders_decode_inverse.2.2.2.1 .ra .s0 0 2047 (by decide) (by decide) (by decide)).2.2.2,
    (encoders_decode_inverse.2.2.2.2.2.1 .ra (-2 ^ 19) (by decide) (by decide)).2⟩

end RiscvCore
