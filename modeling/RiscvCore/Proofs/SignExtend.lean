import Mathlib
import RiscvCore.Immediate

namespace RiscvCore

theorem shift_amounts {s : Nat} (hs : s < 32) :
    (s.toUInt32.mod 32).toBitVec.toNat = s ∧ (s.toInt32.toBitVec.smod 32).toNat = s := by
  have hl : ∀ s : Fin 32, (s.val.toUInt32.mod 32).toBitVec.toNat = s.val := by decide
  have hr : ∀ s : Fin 32, (s.val.toInt32.toBitVec.smod 32).toNat = s.val := by decide
  exact ⟨hl ⟨s, hs⟩, hr ⟨s, hs⟩⟩

theorem signExtend_eq_ofBitVec (v : UInt32) {w : Nat} (hw₁ : 1 ≤ w) (hw : w ≤ 32) :
    signExtend v w = Int32.ofBitVec ((v.toBitVec.setWidth w).signExtend 32) := by
  obtain ⟨hl, hr⟩ := shift_amounts (s := 32 - w) (by omega)
  apply Int32.toBitVec_inj.mp
  show (v.toBitVec <<< ((32 - w).toUInt32.mod 32).toBitVec).sshiftRight'
      ((32 - w).toInt32.toBitVec.smod 32) = _
  rw [BitVec.sshiftRight', BitVec.shiftLeft_eq', hl, hr, Int32.toBitVec_ofBitVec]
  have hmsb : v.toBitVec.getMsbD (32 - w) = v.toBitVec.getLsbD (w - 1) := by
    rw [BitVec.getMsbD_eq_getLsbD, show 32 - 1 - (32 - w) = w - 1 by omega]
    simp only [Bool.and_eq_right_iff_imp, decide_eq_true_eq]
    intro _
    omega
  apply BitVec.eq_of_getLsbD_eq
  intro i hi
  simp only [BitVec.getLsbD_sshiftRight, BitVec.getLsbD_shiftLeft, BitVec.getLsbD_signExtend,
    BitVec.getLsbD_setWidth, BitVec.msb_shiftLeft, BitVec.msb_setWidth]
  by_cases hiw : i < w
  · have hlt : 32 - w + i < 32 := by omega
    simp [hlt, hiw, hi, show 32 - w + i - (32 - w) = i by omega]
  · have hge : ¬ 32 - w + i < 32 := by omega
    simp [hiw, hmsb, hi, hge, show 0 < w by omega]

theorem toInt_signExtend (v : UInt32) {w : Nat} (hw₁ : 1 ≤ w) (hw : w ≤ 32) :
    (signExtend v w).toInt = (v.toNat : Int).bmod (2 ^ w) := by
  rw [signExtend_eq_ofBitVec v hw₁ hw]
  show ((v.toBitVec.setWidth w).signExtend 32).toInt = _
  rw [BitVec.toInt_signExtend_of_le hw, BitVec.toInt_eq_toNat_bmod, BitVec.toNat_setWidth,
    Int.natCast_mod, Int.emod_bmod]
  rfl

theorem two_pow_half {w : Nat} (hw : 1 ≤ w) : ((2 ^ w : Nat) : Int) / 2 = 2 ^ (w - 1) ∧
    (((2 ^ w : Nat) : Int) + 1) / 2 = 2 ^ (w - 1) := by
  obtain ⟨k, rfl⟩ : ∃ k, w = k + 1 := ⟨w - 1, by omega⟩
  simp only [Nat.add_sub_cancel, pow_succ, Nat.cast_mul, Nat.cast_pow, Nat.cast_ofNat]
  omega

theorem bmod_two_pow_range (x : Int) {w : Nat} (hw : 1 ≤ w) :
    -2 ^ (w - 1) ≤ x.bmod (2 ^ w) ∧ x.bmod (2 ^ w) < 2 ^ (w - 1) := by
  have h := two_pow_half hw
  have hpos : 0 < 2 ^ w := Nat.two_pow_pos w
  constructor
  · have := Int.le_bmod (x := x) hpos
    rw [h.1] at this
    exact this
  · have := Int.bmod_lt (x := x) hpos
    rw [h.2] at this
    exact this

theorem eq_of_emod_eq_of_range {z r : Int} {w : Nat} (hw : 1 ≤ w)
    (hz : -2 ^ (w - 1) ≤ z ∧ z < 2 ^ (w - 1)) (hr : -2 ^ (w - 1) ≤ r ∧ r < 2 ^ (w - 1))
    (h : z % 2 ^ w = r % 2 ^ w) : z = r := by
  have hd : (2 : Int) ^ w ∣ z - r := Int.ModEq.dvd h.symm
  have h2 : (2 : Int) ^ w = 2 * 2 ^ (w - 1) := by
    obtain ⟨k, rfl⟩ : ∃ k, w = k + 1 := ⟨w - 1, by omega⟩
    simp [pow_succ, mul_comm]
  have := Int.eq_zero_of_abs_lt_dvd hd (abs_lt.mpr ⟨by linarith, by linarith⟩)
  linarith

theorem toUInt32_toNat_bmod (y : Int32) :
    ((y.toUInt32.toNat : Nat) : Int).bmod (2 ^ 32) = y.toInt := by
  show ((y.toBitVec.toNat : Nat) : Int).bmod (2 ^ 32) = y.toBitVec.toInt
  rw [BitVec.toInt_eq_toNat_bmod]

theorem signExtend_congr {u v : UInt32} {w : Nat} (hw₁ : 1 ≤ w) (hw : w ≤ 32)
    (h : u.toNat % 2 ^ w = v.toNat % 2 ^ w) : signExtend u w = signExtend v w := by
  apply Int32.toInt_inj.mp
  rw [toInt_signExtend _ hw₁ hw, toInt_signExtend _ hw₁ hw, ← Int.emod_bmod,
    ← Int.emod_bmod (v.toNat : Int), ← Int.natCast_mod, ← Int.natCast_mod, h]

theorem signExtend_signExtend (v : UInt32) {w₁ w₂ : Nat} (h₁ : 1 ≤ w₁) (h₁' : w₁ ≤ 32)
    (h₂ : 1 ≤ w₂) (h₂' : w₂ ≤ 32) :
    signExtend (signExtend v w₁).toUInt32 w₂ = signExtend v (min w₁ w₂) := by
  apply Int32.toInt_inj.mp
  rw [toInt_signExtend _ h₂ h₂', ← Int.bmod_bmod_of_dvd (Nat.pow_dvd_pow 2 h₂'),
    toUInt32_toNat_bmod, toInt_signExtend _ h₁ h₁',
    toInt_signExtend _ (le_min h₁ h₂) (by omega)]
  rcases Nat.le_total w₂ w₁ with h | h
  · rw [Int.bmod_bmod_of_dvd (Nat.pow_dvd_pow 2 h), min_eq_right h]
  · rw [min_eq_left h]
    have hr := bmod_two_pow_range (v.toNat : Int) h₁
    have hh := two_pow_half h₂
    have hm : (2 : Int) ^ (w₁ - 1) ≤ 2 ^ (w₂ - 1) := pow_le_pow_right₀ (by norm_num) (by omega)
    apply Int.bmod_eq_of_le
    · rw [hh.1]; linarith
    · rw [hh.2]; linarith

theorem signExtend_balanced_residue (v : UInt32) (w : Nat) (hw : 1 ≤ w) (hw' : w ≤ 32) :
    (-2 ^ (w - 1) ≤ (signExtend v w).toInt ∧ (signExtend v w).toInt < 2 ^ (w - 1)) ∧
    (signExtend v w).toInt % 2 ^ w = (v.toNat : Int) % 2 ^ w ∧
    (∀ z : Int, -2 ^ (w - 1) ≤ z → z < 2 ^ (w - 1) → z % 2 ^ w = (v.toNat : Int) % 2 ^ w →
      z = (signExtend v w).toInt) ∧
    (∀ u : UInt32, u.toNat % 2 ^ w = v.toNat % 2 ^ w → signExtend u w = signExtend v w) ∧
    (∀ w₂, 1 ≤ w₂ → w₂ ≤ 32 →
      signExtend (signExtend v w).toUInt32 w₂ = signExtend v (min w w₂)) := by
  have hv := toInt_signExtend v hw hw'
  have hr : -2 ^ (w - 1) ≤ (signExtend v w).toInt ∧ (signExtend v w).toInt < 2 ^ (w - 1) :=
    hv ▸ bmod_two_pow_range _ hw
  have hc : (signExtend v w).toInt % 2 ^ w = (v.toNat : Int) % 2 ^ w := by
    rw [hv]
    exact_mod_cast Int.bmod_emod
  refine ⟨hr, hc, fun z lo hi hz => ?_, fun u hu => signExtend_congr hw hw' hu,
    fun w₂ h₂ h₂' => signExtend_signExtend v hw hw' h₂ h₂'⟩
  exact eq_of_emod_eq_of_range hw ⟨lo, hi⟩ hr (hz.trans hc.symm)

theorem signExtend_balanced_residue_twelve :
    (1 ≤ 12 ∧ 12 ≤ 32) ∧
    (-2 ^ (12 - 1) ≤ (signExtend 0x12345fff 12).toInt ∧
      (signExtend 0x12345fff 12).toInt < 2 ^ (12 - 1)) ∧
    (signExtend 0x12345fff 12).toInt % 2 ^ 12 = ((0x12345fff : UInt32).toNat : Int) % 2 ^ 12 ∧
    (∀ z : Int, -2 ^ (12 - 1) ≤ z → z < 2 ^ (12 - 1) →
      z % 2 ^ 12 = ((0x12345fff : UInt32).toNat : Int) % 2 ^ 12 →
      z = (signExtend 0x12345fff 12).toInt) ∧
    (∀ u : UInt32, u.toNat % 2 ^ 12 = (0x12345fff : UInt32).toNat % 2 ^ 12 →
      signExtend u 12 = signExtend 0x12345fff 12) ∧
    (∀ w₂, 1 ≤ w₂ → w₂ ≤ 32 →
      signExtend (signExtend 0x12345fff 12).toUInt32 w₂ = signExtend 0x12345fff (min 12 w₂)) :=
  ⟨⟨by decide, by decide⟩, signExtend_balanced_residue 0x12345fff 12 (by decide) (by decide)⟩

end RiscvCore
