import Mathlib
import RiscvCore.Asm.Assemble
import RiscvCore.Proofs.MemoryLoad

namespace RiscvCore

namespace Memory

theorem toNat_wordOfBytes (bs : List UInt8) :
    (wordOfBytes bs).toNat = Nat.ofDigits 256 (bs.map UInt8.toNat) % 2 ^ 32 := by
  induction bs with
  | nil => rfl
  | cons b bs ih =>
    have hb : b.toNat < 2 ^ 8 := b.toNat_lt
    have hstep : wordOfBytes (b :: bs) = (wordOfBytes bs <<< 8) ||| b.toUInt32 := rfl
    have h8 : (8 : UInt32).toNat % 32 = 8 := rfl
    have hshift : (wordOfBytes bs <<< 8).toNat =
        (Nat.ofDigits 256 (bs.map UInt8.toNat) % 2 ^ 24) <<< 8 := by
      rw [UInt32.toNat_shiftLeft, ih, h8, Nat.shiftLeft_eq_mul_pow, Nat.shiftLeft_eq_mul_pow]
      omega
    rw [hstep, UInt32.toNat_or, hshift, UInt8.toNat_toUInt32, ← Nat.shiftLeft_add_eq_or_of_lt hb,
      Nat.shiftLeft_eq_mul_pow, List.map_cons, Nat.ofDigits_cons]
    omega

theorem ofDigits_eq_sum {l : List UInt8} (h : l.length ≤ 4) :
    Nat.ofDigits 256 (l.map UInt8.toNat) =
      ∑ k ∈ Finset.range 4, (l.getD k 0).toNat * 2 ^ (8 * k) := by
  match l, h with
  | [], _ => simp
  | [b₀], _ => simp [Finset.sum_range_succ]
  | [b₀, b₁], _ => simp [Finset.sum_range_succ, Nat.ofDigits_cons]; ring
  | [b₀, b₁, b₂], _ => simp [Finset.sum_range_succ, Nat.ofDigits_cons]; ring
  | [b₀, b₁, b₂, b₃], _ => simp [Finset.sum_range_succ, Nat.ofDigits_cons]; ring

theorem toNat_wordOfBytes_of_le {l : List UInt8} (h : l.length ≤ 4) :
    (wordOfBytes l).toNat = ∑ k ∈ Finset.range 4, (l.getD k 0).toNat * 2 ^ (8 * k) := by
  have hdigits : ∀ x ∈ l.map UInt8.toNat, x < 256 := fun x hx => by
    obtain ⟨b, -, rfl⟩ := List.mem_map.mp hx
    exact b.toNat_lt
  have hlt : Nat.ofDigits 256 (l.map UInt8.toNat) < 2 ^ 32 :=
    calc Nat.ofDigits 256 (l.map UInt8.toNat) < 256 ^ (l.map UInt8.toNat).length :=
          Nat.ofDigits_lt_base_pow_length (by norm_num) hdigits
      _ ≤ 256 ^ 4 := Nat.pow_le_pow_right (by norm_num) (by simpa using h)
      _ = 2 ^ 32 := by norm_num
  rw [toNat_wordOfBytes, Nat.mod_eq_of_lt hlt, ofDigits_eq_sum h]

@[simp] theorem wordOfBytes_leBytes (w : UInt32) : wordOfBytes (Asm.leBytes w) = w := by
  apply UInt32.toNat_inj.mp
  have hw := w.toNat_lt
  rw [toNat_wordOfBytes]
  simp [Asm.leBytes, Nat.ofDigits_cons, Nat.shiftRight_eq_div_pow]
  omega

theorem wordsOfBytes_eq (bs : List UInt8) :
    wordsOfBytes bs =
      (List.range ((bs.length + 3) / 4)).map fun i => wordOfBytes ((bs.drop (4 * i)).take 4) := by
  simp [wordsOfBytes, List.extract_eq_take_drop]

theorem length_wordsOfBytes (bs : List UInt8) : (wordsOfBytes bs).length = (bs.length + 3) / 4 := by
  simp [wordsOfBytes_eq]

theorem getD_group {bs : List UInt8} {i k : Nat} (hk : k < 4) :
    ((bs.drop (4 * i)).take 4).getD k 0 = bs.getD (4 * i + k) 0 := by
  simp [List.getD_eq_getElem?_getD, hk, List.getElem?_drop]

theorem wordsOfBytes_leBytes_append (w : UInt32) (bs : List UInt8) :
    wordsOfBytes (Asm.leBytes w ++ bs) = w :: wordsOfBytes bs := by
  have hlen : ((Asm.leBytes w ++ bs).length + 3) / 4 = (bs.length + 3) / 4 + 1 := by
    simp only [List.length_append, Asm.leBytes, List.length_cons, List.length_nil]
    omega
  rw [wordsOfBytes_eq, wordsOfBytes_eq, hlen, List.range_succ_eq_map, List.map_cons, List.map_map]
  have htake : (Asm.leBytes w ++ bs).take 4 = Asm.leBytes w := List.take_left' rfl
  have hdrop4 : (Asm.leBytes w ++ bs).drop 4 = bs := List.drop_left' rfl
  refine congrArg₂ (· :: ·) ?_ (List.map_congr_left fun i _ => ?_)
  · rw [Nat.mul_zero, List.drop_zero, htake, wordOfBytes_leBytes]
  · have hdrop : (Asm.leBytes w ++ bs).drop (4 * (i + 1)) = bs.drop (4 * i) := by
      rw [show 4 * (i + 1) = 4 + 4 * i by ring, ← List.drop_drop, hdrop4]
    simp only [Function.comp, Nat.succ_eq_add_one, hdrop]

theorem wordsOfBytes_flatMap_leBytes (ws : List UInt32) :
    wordsOfBytes (ws.flatMap Asm.leBytes) = ws := by
  induction ws with
  | nil => rfl
  | cons w ws ih => rw [List.flatMap_cons, wordsOfBytes_leBytes_append, ih]

theorem ofBytes_flatMap_leBytes (ws : List UInt32) :
    ofBytes (ws.flatMap Asm.leBytes) = ofWords ws := by
  rw [ofBytes, wordsOfBytes_flatMap_leBytes]

theorem ofBytes_ok_iff (bs : List UInt8) :
    (∃ m, ofBytes bs = .ok m) ↔ (bs.length + 3) / 4 ≤ wordCount := by
  rw [ofBytes, ofWords_ok_iff, length_wordsOfBytes]

theorem ofBytes_of_lt {bs : List UInt8} (h : wordCount < (bs.length + 3) / 4) :
    ofBytes bs = .error (.imageTooLarge 0 ((bs.length + 3) / 4) wordCount) := by
  rw [ofBytes, ofWords_of_lt (by rwa [length_wordsOfBytes]), length_wordsOfBytes]

theorem toNat_read_ofBytes {bs : List UInt8} {m : Memory} (h : ofBytes bs = .ok m) (a : UInt16) :
    (m.read a).toNat =
      ∑ k ∈ Finset.range 4, (bs.getD (4 * a.toNat + k) 0).toNat * 2 ^ (8 * k) := by
  rw [read_ofWords h]
  by_cases ha : a.toNat < (bs.length + 3) / 4
  · have hlt : a.toNat < (wordsOfBytes bs).length := by rwa [length_wordsOfBytes]
    rw [List.getD_eq_getElem _ _ hlt]
    simp only [wordsOfBytes_eq, List.getElem_map, List.getElem_range]
    rw [toNat_wordOfBytes_of_le (by simp)]
    exact Finset.sum_congr rfl fun k hk => by rw [getD_group (Finset.mem_range.mp hk)]
  · rw [List.getD_eq_default _ _ (by rw [length_wordsOfBytes]; omega)]
    symm
    apply Finset.sum_eq_zero
    intro k _
    rw [List.getD_eq_default _ _ (by omega)]
    simp

end Memory

theorem assembleCode_ofBytes (t : String) :
    (Asm.assembleCode t).map Memory.ofBytes = (Asm.assembleWords t).map Memory.ofWords := by
  unfold Asm.assembleCode
  cases Asm.assembleWords t with
  | error e => rfl
  | ok ws => exact congrArg Except.ok (Memory.ofBytes_flatMap_leBytes ws)

/-- Little-endian byte images. Words written as their little-endian bytes load as the memory of
the words, whatever their number. A byte string loads exactly when its words, one per started
group of four bytes, fit the address range, and is refused otherwise naming offset 0, that number
of words and the capacity; loaded, it reads at each address `a` the little-endian value of bytes
`4a` to `4a + 3`, a missing byte counting as 0. So the assembler's bytes for a text load as the
memory of its words. -/
theorem le_byte_image (ws : List UInt32) (bs : List UInt8) (t : String) :
    Memory.ofBytes (ws.flatMap Asm.leBytes) = Memory.ofWords ws ∧
    ((∃ m, Memory.ofBytes bs = .ok m) ↔ (bs.length + 3) / 4 ≤ wordCount) ∧
    (wordCount < (bs.length + 3) / 4 →
      Memory.ofBytes bs = .error (.imageTooLarge 0 ((bs.length + 3) / 4) wordCount)) ∧
    (∀ m, Memory.ofBytes bs = .ok m → ∀ a : UInt16,
      (m.read a).toNat =
        ∑ k ∈ Finset.range 4, (bs.getD (4 * a.toNat + k) 0).toNat * 2 ^ (8 * k)) ∧
    (Asm.assembleCode t).map Memory.ofBytes = (Asm.assembleWords t).map Memory.ofWords :=
  ⟨Memory.ofBytes_flatMap_leBytes ws, Memory.ofBytes_ok_iff bs, Memory.ofBytes_of_lt,
    fun _ h => Memory.toNat_read_ofBytes h, assembleCode_ofBytes t⟩

end RiscvCore
