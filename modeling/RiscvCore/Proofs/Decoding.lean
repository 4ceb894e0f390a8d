import Mathlib
import RiscvCore.Proofs.Reference

namespace RiscvCore

namespace Reference

/-- Bits 31:25 over bits 11:7, sign-extended from 12 bits. -/
def immS (w : UInt32) : Int := ((field w 25 7 * 2 ^ 5 + field w 7 5 : Nat) : Int).bmod (2 ^ 12)

/-- Bits 31:12, sign-extended from 20 bits: the U immediate before its shift by 12. -/
def immUpper (w : UInt32) : Int := (field w 12 20 : Int).bmod (2 ^ 20)

/-- The immediate the manual defines for a format, with B and J offsets halved; formats without
an immediate have 0. -/
def isaImm (w : UInt32) : InstFormat → Int
  | .i => immI w
  | .s => immS w
  | .b => immB w / 2
  | .u => immUpper w
  | .j => immJ w / 2
  | .r | .other | .undefined => 0

theorem toInt_immediateOf (w : UInt32) (fmt : InstFormat) :
    (immediateOf w fmt).toInt = isaImm w fmt := by
  cases fmt with
  | i => rw [immediateOf_i, toInt_signExtend_ofNat (field_lt w 20 12) (by decide) (by decide)]; rfl
  | s =>
    have := field_lt w 25 7
    have := field_lt w 7 5
    rw [immediateOf_s, toInt_signExtend_ofNat (by omega) (by decide) (by decide)]
    rfl
  | b => rw [isaImm, immB_eq, Int.mul_ediv_cancel_left _ (by decide)]
  | u => rw [immediateOf_u, toInt_signExtend_ofNat (field_lt w 12 20) (by decide) (by decide)]; rfl
  | j => rw [isaImm, immJ_eq, Int.mul_ediv_cancel_left _ (by decide)]
  | r | other | undefined => rfl

end Reference

open Reference

section LowBits
variable {w w' : UInt32}

theorem field_eq_of_shiftRight_two (h : w' >>> 2 = w >>> 2) {lo : Nat} (hlo : 2 ≤ lo)
    (len : Nat) : field w' lo len = field w lo len := by
  have hq : w'.toNat / 2 ^ 2 = w.toNat / 2 ^ 2 := by
    simpa only [UInt32.toNat_shiftRight, UInt32.reduceToNat, Nat.reduceMod,
      Nat.shiftRight_eq_div_pow] using congrArg UInt32.toNat h
  obtain ⟨k, rfl⟩ : ∃ k, lo = 2 + k := ⟨lo - 2, by omega⟩
  unfold field
  rw [Nat.pow_add, ← Nat.div_div_eq_div_mul, ← Nat.div_div_eq_div_mul, hq]

theorem immFields_eq_of_shiftRight_two (h : w' >>> 2 = w >>> 2) :
    ImmFields.ofWord w' = ImmFields.ofWord w := by
  have hf := fun lo len (hlo : 2 ≤ lo) => field_eq_of_shiftRight_two h hlo len
  have e : ∀ {a b : UInt32} {lo len : Nat}, a.toNat = field w' lo len → b.toNat = field w lo len →
      2 ≤ lo → a = b := fun ha hb hlo => UInt32.toNat_inj.mp (by rw [ha, hb, hf _ _ hlo])
  simp only [ImmFields.ofWord, ImmFields.mk.injEq]
  refine ⟨e (ImmFields.bit31_toNat w') (ImmFields.bit31_toNat w) (by omega),
    e (ImmFields.bits30_25_toNat w') (ImmFields.bits30_25_toNat w) (by omega),
    e (ImmFields.bits24_21_toNat w') (ImmFields.bits24_21_toNat w) (by omega),
    e (ImmFields.bit20_toNat w') (ImmFields.bit20_toNat w) (by omega),
    e (ImmFields.bits19_12_toNat w') (ImmFields.bits19_12_toNat w) (by omega),
    e (ImmFields.bits11_8_toNat w') (ImmFields.bits11_8_toNat w) (by omega),
    e (ImmFields.bit7_toNat w') (ImmFields.bit7_toNat w) (by omega)⟩

theorem regAt_eq_of_shiftRight_two (h : w' >>> 2 = w >>> 2) {lo : Nat} (hlo : 2 ≤ lo) :
    regAt w' lo = regAt w lo := by
  simp only [regAt, field_eq_of_shiftRight_two h hlo]

theorem decode_eq_of_shiftRight_two (h : w' >>> 2 = w >>> 2) :
    decode w' = { decode w with raw := w' } := by
  have hf := fun lo len (hlo : 2 ≤ lo) => field_eq_of_shiftRight_two h hlo len
  have hop : (decode w').opcode = (decode w).opcode := by
    rw [decode_opcode, decode_opcode, hf 2 5 le_rfl]
  have hrd : (decode w').rd = (decode w).rd := by
    rw [decode_rd_regAt, decode_rd_regAt, regAt_eq_of_shiftRight_two h (by omega)]
  have hrs1 : (decode w').rs1 = (decode w).rs1 := by
    rw [decode_rs1_regAt, decode_rs1_regAt, regAt_eq_of_shiftRight_two h (by omega)]
  have hrs2 : (decode w').rs2 = (decode w).rs2 := by
    rw [decode_rs2_regAt, decode_rs2_regAt, regAt_eq_of_shiftRight_two h (by omega)]
  have hf3 : (decode w').funct3 = (decode w).funct3 := by
    rw [decode_funct3, decode_funct3, hf 12 3 (by omega)]
  have hf7 : (decode w').funct7 = (decode w).funct7 := by
    rw [decode_funct7, decode_funct7, hf 25 7 (by omega)]
  have himm : (decode w').imm = (decode w).imm := by
    rw [decode_imm, decode_imm, decode_format, decode_format, hop, immediateOf, immediateOf,
      immFields_eq_of_shiftRight_two h]
  calc decode w' = ⟨w', (decode w').opcode, (decode w').rd, (decode w').funct3, (decode w').rs1,
        (decode w').rs2, (decode w').funct7, (decode w').opcode.format, (decode w').imm⟩ := rfl
    _ = { decode w with raw := w' } := by
      rw [hop, hrd, hf3, hrs1, hrs2, hf7, himm]
      rfl

end LowBits

/-- Decoding is the base instruction set's field decomposition of every word: the opcode and the
format are those of bits 6:2, `rd`, `rs1` and `rs2` are bits 11:7, 19:15 and 24:20, `funct3` and
`funct7` are bits 14:12 and 31:25, and the immediate is the manual's immediate of the format.
So two words that agree above bit 1 decode alike but for the raw word. -/
theorem decode_isa_fields (w : UInt32) :
    (decode w).raw = w ∧ (decode w).opcode = Opcode.ofBits (field w 2 5) ∧
      (decode w).rd = regAt w 7 ∧ (decode w).funct3 = field w 12 3 ∧
      (decode w).rs1 = regAt w 15 ∧ (decode w).rs2 = regAt w 20 ∧
      (decode w).funct7 = field w 25 7 ∧
      (decode w).format = InstFormat.classify (field w 2 5) ∧
      (decode w).imm.toInt = isaImm w (decode w).format ∧
      ∀ w' : UInt32, w' >>> 2 = w >>> 2 → decode w' = { decode w with raw := w' } := by
  have hfmt : (decode w).format = InstFormat.classify (field w 2 5) := by
    rw [decode_format, Opcode.format, ← field_opcode]
  exact ⟨rfl, decode_opcode w, decode_rd_regAt w, decode_funct3 w, decode_rs1_regAt w,
    decode_rs2_regAt w, decode_funct7 w, hfmt, toInt_immediateOf w (decode w).format,
    fun _ h => decode_eq_of_shiftRight_two h⟩

theorem decode_isa_fields_low_bits :
    (0x00750510 : UInt32) >>> 2 = (0x00750513 : UInt32) >>> 2 ∧
      decode 0x00750510 = { decode 0x00750513 with raw := 0x00750510 } :=
  ⟨by decide, (decode_isa_fields 0x00750513).2.2.2.2.2.2.2.2.2 _ (by decide)⟩

example : (decode (Encode.bType 0 Reg.zero Reg.zero 8)).imm.toInt = 4 := by decide

end RiscvCore
