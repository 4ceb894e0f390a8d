import Mathlib
import RiscvCore.Memory
import RiscvCore.Core.Report

namespace RiscvCore

namespace Memory

@[simp] theorem read_empty (a : UInt16) : empty.read a = 0 := by
  simp [empty, read]

theorem read_set (m : Memory) {i : Nat} (w : UInt32) (h : i < wordCount) (a : UInt16) :
    (⟨m.words.set i w h⟩ : Memory).read a = if a.toNat = i then w else m.read a := by
  simp only [read]
  by_cases ha : a.toNat = i
  · simp [ha]
  · rw [if_neg ha]
    exact Vector.getElem_set_ne _ _ (Ne.symm ha)

theorem read_place (m : Memory) (start : Nat) (ws : List UInt32) (a : UInt16) :
    (m.place start ws).read a =
      if start ≤ a.toNat then ws.getD (a.toNat - start) (m.read a) else m.read a := by
  induction ws generalizing m start with
  | nil => simp [place]
  | cons w ws ih =>
    have ha : a.toNat < wordCount := a.toNat_lt
    by_cases hs : start < wordCount
    · rw [place, dif_pos hs, ih, read_set]
      rcases Nat.lt_trichotomy a.toNat start with hlt | heq | hgt
      · simp [Nat.not_le.mpr hlt, Nat.not_le.mpr (Nat.lt_succ_of_lt hlt), Nat.ne_of_lt hlt]
      · simp [heq]
      · obtain ⟨k, hk⟩ : ∃ k, a.toNat - start = k + 1 := ⟨a.toNat - start - 1, by omega⟩
        have hk' : a.toNat - (start + 1) = k := by omega
        simp [Nat.le_of_lt hgt, Nat.succ_le_of_lt hgt, Nat.ne_of_gt hgt, hk, hk']
    · have hna : ¬ start ≤ a.toNat := by omega
      simp [place, hs, hna]

theorem ofWords_of_le {ws : List UInt32} (h : ws.length ≤ wordCount) :
    ofWords ws = .ok (empty.place 0 ws) := by
  simp [ofWords, load, h]

theorem ofWords_of_lt {ws : List UInt32} (h : wordCount < ws.length) :
    ofWords ws = .error (.imageTooLarge 0 ws.length wordCount) := by
  simp [ofWords, load, Nat.not_le.mpr h]

theorem read_place_empty (ws : List UInt32) (a : UInt16) :
    (empty.place 0 ws).read a = ws.getD a.toNat 0 := by
  simp [read_place]

end Memory

namespace Store

theorem read_slice (ws : List UInt32) (a : UInt16) :
    (slice ws.toArray).read a = ws.getD a.toNat 0 := by
  simp [read]

theorem read_slice_take (ws : List UInt32) :
    (slice ws.toArray).read = (slice (ws.take wordCount).toArray).read := by
  funext a
  have ha : a.toNat < wordCount := a.toNat_lt
  simp [read_slice, List.getD_eq_getElem?_getD, ha]

end Store

/-- A list of words that fits the address range loads into a full memory that fetches what the
slice fetches, the listed word or 0 past the end, so a core steps, runs and reports the same from
either. A longer list is refused, naming offset 0, its length and the capacity, and as a slice it
fetches what a full memory of its first `wordCount` words fetches. -/
theorem slice_full_fetch_agree (ws : List UInt32) :
    (ws.length ≤ wordCount → ∃ m, Memory.ofWords ws = .ok m ∧
      (∀ a : UInt16, (Store.slice ws.toArray).read a = m.read a ∧
        m.read a = if h : a.toNat < ws.length then ws[a.toNat] else 0) ∧
      ∀ (c : Core) (start : UInt16) (n : Nat),
        c.step (Store.slice ws.toArray).read = c.step (Store.full m).read ∧
        c.run start (Store.slice ws.toArray).read = c.run start (Store.full m).read ∧
        c.debugInfo (Store.slice ws.toArray).read n = c.debugInfo (Store.full m).read n) ∧
    (wordCount < ws.length →
      Memory.ofWords ws = .error (.imageTooLarge 0 ws.length wordCount) ∧
      ∃ m, Memory.ofWords (ws.take wordCount) = .ok m ∧
        (Store.slice ws.toArray).read = (Store.full m).read) := by
  refine ⟨fun h => ⟨_, Memory.ofWords_of_le h, ?_⟩, fun h => ⟨Memory.ofWords_of_lt h, ?_⟩⟩
  · have hread : (Store.slice ws.toArray).read = (Store.full (Memory.empty.place 0 ws)).read := by
      funext a
      rw [Store.read_slice, Store.read, Memory.read_place_empty]
    refine ⟨fun a => ⟨congrFun hread a, ?_⟩, fun c start n => by simp only [hread, and_self]⟩
    rw [Memory.read_place_empty, List.getD_eq_getElem?_getD]
    split <;> simp_all
  · refine ⟨_, Memory.ofWords_of_le (by simp), ?_⟩
    funext a
    rw [Store.read_slice_take, Store.read_slice, Store.read, Memory.read_place_empty]

theorem slice_full_fetch_agree_ret :
    ∃ m, Memory.ofWords [Encode.retWord] = .ok m ∧
      (Store.slice [Encode.retWord].toArray).read 0 = Encode.retWord ∧ m.read 0 = Encode.retWord ∧
      (Store.slice [Encode.retWord].toArray).read 1 = 0 ∧ m.read 1 = 0 := by
  obtain ⟨m, hm, hread, -⟩ := (slice_full_fetch_agree [Encode.retWord]).1 (by decide)
  obtain ⟨h0, h0'⟩ := hread 0
  obtain ⟨h1, h1'⟩ := hread 1
  simp only [List.length_singleton, UInt16.toNat_zero, UInt16.toNat_one] at h0' h1'
  simp_all

end RiscvCore
