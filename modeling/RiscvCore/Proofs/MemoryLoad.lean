import Mathlib
import RiscvCore.Proofs.Store

namespace RiscvCore

namespace Memory

theorem read_write (m : Memory) (a b : UInt16) (w : UInt32) :
    (m.write a w).read b = if b = a then w else m.read b := by
  rw [write, read_set m w a.toNat_lt]
  simp only [UInt16.toNat_inj]

/-- The addresses a call may change: a load's whole range, refused or not, and a write's
address. -/
def Call.covers : Call → UInt16 → Prop
  | .load offset ws, a => offset.toNat ≤ a.toNat ∧ a.toNat < offset.toNat + ws.length
  | .write address _, a => a = address

instance (c : Call) (a : UInt16) : Decidable (c.covers a) :=
  match c with
  | .load offset ws =>
    inferInstanceAs (Decidable (offset.toNat ≤ a.toNat ∧ a.toNat < offset.toNat + ws.length))
  | .write address _ => inferInstanceAs (Decidable (a = address))

section Load
variable (m : Memory) (offset : UInt16) (ws : List UInt32)

theorem exec_load_of_le (h : offset.toNat + ws.length ≤ wordCount) :
    m.exec (.load offset ws) = (.ok (), m.place offset.toNat ws) := by
  simp [exec, load, h]

theorem exec_load_of_lt (h : wordCount < offset.toNat + ws.length) :
    m.exec (.load offset ws) = (.error (.imageTooLarge offset.toNat ws.length wordCount), m) := by
  simp [exec, load, Nat.not_le.mpr h]

theorem exec_load_ok_iff :
    (m.exec (.load offset ws)).1 = .ok () ↔ offset.toNat + ws.length ≤ wordCount := by
  constructor
  · intro h
    by_contra hn
    rw [exec_load_of_lt m offset ws (Nat.lt_of_not_le hn)] at h
    cases h
  · intro h
    rw [exec_load_of_le m offset ws h]

theorem read_place_inside {a : UInt16} (hlo : offset.toNat ≤ a.toNat)
    (hhi : a.toNat < offset.toNat + ws.length) :
    ws[a.toNat - offset.toNat]? = some ((m.place offset.toNat ws).read a) := by
  have hlt : a.toNat - offset.toNat < ws.length := by omega
  rw [read_place, if_pos hlo, List.getD_eq_getElem _ _ hlt, List.getElem?_eq_getElem hlt]

theorem read_place_outside {a : UInt16}
    (hout : a.toNat < offset.toNat ∨ offset.toNat + ws.length ≤ a.toNat) :
    (m.place offset.toNat ws).read a = m.read a := by
  rw [read_place]
  split
  · rw [List.getD_eq_getElem?_getD, List.getElem?_eq_none (by omega), Option.getD_none]
  · rfl

end Load

theorem read_exec_frame (m : Memory) {c : Call} {a : UInt16} (h : ¬ c.covers a) :
    (m.exec c).2.read a = m.read a := by
  cases c with
  | load offset ws =>
    simp only [Call.covers, not_and, Nat.not_lt] at h
    by_cases hfit : offset.toNat + ws.length ≤ wordCount
    · rw [exec_load_of_le m offset ws hfit]
      apply read_place_outside
      omega
    · rw [exec_load_of_lt m offset ws (Nat.lt_of_not_le hfit)]
  | write address w =>
    simp only [Call.covers] at h
    simp only [exec, read_write, if_neg h]

theorem read_session_frame (m : Memory) {calls : List Call} {a : UInt16}
    (h : ∀ c ∈ calls, ¬ c.covers a) : (m.session calls).read a = m.read a := by
  induction calls generalizing m with
  | nil => rfl
  | cons c cs ih =>
    have hc : ¬ c.covers a := h c List.mem_cons_self
    have hcs : ∀ c' ∈ cs, ¬ c'.covers a := fun c' hc' => h c' (List.mem_cons_of_mem c hc')
    calc (m.session (c :: cs)).read a = ((m.exec c).2.session cs).read a := rfl
      _ = (m.exec c).2.read a := ih _ hcs
      _ = m.read a := read_exec_frame m hc

theorem ofWords_ok_iff (ws : List UInt32) : (∃ m, ofWords ws = .ok m) ↔ ws.length ≤ wordCount := by
  constructor
  · rintro ⟨m, hm⟩
    by_contra hn
    rw [ofWords_of_lt (Nat.lt_of_not_le hn)] at hm
    cases hm
  · intro h
    exact ⟨_, ofWords_of_le h⟩

theorem read_ofWords {ws : List UInt32} {m : Memory} (h : ofWords ws = .ok m) (a : UInt16) :
    m.read a = ws.getD a.toNat 0 := by
  have hfit : ws.length ≤ wordCount := (ofWords_ok_iff ws).mp ⟨m, h⟩
  rw [ofWords_of_le hfit, Except.ok.injEq] at h
  rw [← h, read_place_empty]

end Memory

/-- What loading does to a full memory. Every memory holds `wordCount` words, so every 16-bit
address is in range. A load answers `ok` exactly when the image fits; it then reads the image's
words from the offset on and keeps every other word, and otherwise it is refused whole, naming
the offset, the length and the capacity, with the memory unchanged. Over any sequence of loads
and writes an address none of them covers keeps its word. A list is loaded as a memory exactly
when it fits, which then reads the listed word below its length and 0 from there on. -/
theorem memory_load_contract (m : Memory) (offset : UInt16) (ws : List UInt32) :
    m.words.toArray.size = wordCount ∧ (∀ a : UInt16, a.toNat < m.words.toArray.size) ∧
    ((m.exec (.load offset ws)).1 = .ok () ↔ offset.toNat + ws.length ≤ wordCount) ∧
    (offset.toNat + ws.length ≤ wordCount →
      (∀ a : UInt16, offset.toNat ≤ a.toNat → a.toNat < offset.toNat + ws.length →
        ws[a.toNat - offset.toNat]? = some ((m.exec (.load offset ws)).2.read a)) ∧
      (∀ a : UInt16, a.toNat < offset.toNat ∨ offset.toNat + ws.length ≤ a.toNat →
        (m.exec (.load offset ws)).2.read a = m.read a)) ∧
    (wordCount < offset.toNat + ws.length →
      m.exec (.load offset ws) = (.error (.imageTooLarge offset.toNat ws.length wordCount), m)) ∧
    (∀ (calls : List Memory.Call) (a : UInt16), (∀ c ∈ calls, ¬ c.covers a) →
      (m.session calls).read a = m.read a) ∧
    ((∃ m', Memory.ofWords ws = .ok m') ↔ ws.length ≤ wordCount) ∧
    (∀ m', Memory.ofWords ws = .ok m' → ∀ a : UInt16, m'.read a = ws.getD a.toNat 0) := by
  refine ⟨m.words.size_toArray, fun a => ?_, Memory.exec_load_ok_iff m offset ws, fun hfit => ?_,
    Memory.exec_load_of_lt m offset ws, fun calls a h => Memory.read_session_frame m h,
    Memory.ofWords_ok_iff ws, fun m' h => Memory.read_ofWords h⟩
  · rw [m.words.size_toArray]
    exact a.toNat_lt
  · rw [Memory.exec_load_of_le m offset ws hfit]
    exact ⟨fun a hlo hhi => Memory.read_place_inside m offset ws hlo hhi,
      fun a hout => Memory.read_place_outside m offset ws hout⟩

theorem memory_load_contract_last :
    (Memory.empty.exec (.load 65535 [0xabcd])).2.read 65535 = 0xabcd ∧
    (Memory.empty.exec (.load 65535 [0xabcd])).2.read 65534 = 0 ∧
    Memory.empty.exec (.load 65535 [1, 2]) =
      (.error (.imageTooLarge 65535 2 wordCount), Memory.empty) ∧
    (Memory.empty.session [.write 3 7, .load 10 [1, 2]]).read 5 = 0 ∧
    ∃ m, Memory.ofWords [7, 8] = .ok m ∧ m.read 1 = 8 ∧ m.read 2 = 0 := by
  obtain ⟨-, -, -, hfits, -, hframe, -⟩ := memory_load_contract Memory.empty 65535 [0xabcd]
  obtain ⟨-, -, -, -, hrefused, -⟩ := memory_load_contract Memory.empty 65535 [1, 2]
  obtain ⟨-, -, -, -, -, -, hok, hread⟩ := memory_load_contract Memory.empty 0 [7, 8]
  obtain ⟨hinside, houtside⟩ := hfits (by decide)
  have hlast := hinside 65535 (by decide) (by decide)
  obtain ⟨m, hm⟩ := hok.mpr (by decide)
  refine ⟨by simpa using hlast.symm, by simpa using houtside 65534 (by decide),
    hrefused (by decide), by simpa using hframe [.write 3 7, .load 10 [1, 2]] 5 (by decide), m, hm,
    ?_, ?_⟩
  · simpa using hread m hm 1
  · simpa using hread m hm 2

end RiscvCore
