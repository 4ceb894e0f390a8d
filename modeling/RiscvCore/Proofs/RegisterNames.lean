import Mathlib
import RiscvCore.RegisterId
import RiscvCore.Proofs.HexImage

namespace RiscvCore

/-- The value of decimal digits, most significant first. -/
def decimalValue (ds : List Char) : Nat := Nat.ofDigits 10 (ds.reverse.map Text.hexValue)

/-- A numeral as an unsigned byte is read: one or more ASCII digits, with or without a `+` in
front, and their value. -/
inductive Numeral : List Char → Nat → Prop
  | plain (ds : List Char) (hne : ds ≠ []) (hdig : ∀ c ∈ ds, c.isDigit = true) :
      Numeral ds (decimalValue ds)
  | signed (ds : List Char) (hne : ds ≠ []) (hdig : ∀ c ∈ ds, c.isDigit = true) :
      Numeral ('+' :: ds) (decimalValue ds)

/-- The names a host register id answers to besides those of the general-purpose registers. -/
def RegisterId.specialNames : List String := ["pc", "mstatus", "mepc", "mcause", "mtvec"]

theorem ofDigitChars_eq_decimalValue {ds : List Char} (h : ∀ c ∈ ds, c.isDigit = true) :
    Nat.ofDigitChars 10 ds 0 = decimalValue ds := by
  rw [← Asm.numeralValue_eq_ofDigitChars h, Image.numeralValue_eq_ofDigits]
  rfl

@[simp] theorem decimalValue_toDigits (n : Nat) : decimalValue (Nat.toDigits 10 n) = n := by
  rw [decimalValue, ← Image.numeralValue_eq_ofDigits, Asm.numeralValue_toDigits]

theorem numeral_toDigits (n : Nat) : Numeral (Nat.toDigits 10 n) n := by
  have h := Numeral.plain (Nat.toDigits 10 n) Nat.toDigits_ne_nil fun _ => Asm.isDigit_of_mem_decimal
  rwa [decimalValue_toDigits] at h

namespace Reg

theorem digitsValue?_eq_some_iff {ds : List Char} {n : Nat} :
    readDecimal?.digitsValue? ds = some n ↔
      ds ≠ [] ∧ (∀ c ∈ ds, c.isDigit = true) ∧ decimalValue ds = n ∧ n ≤ 255 := by
  unfold readDecimal?.digitsValue?
  split
  · rename_i h
    simp only [Bool.and_eq_true, Bool.not_eq_true', List.isEmpty_eq_false_iff, List.all_eq_true]
      at h
    obtain ⟨hne, hdig⟩ := h
    have hv : ds.foldl (fun n d => 10 * n + (d.toNat - '0'.toNat)) 0 = decimalValue ds :=
      ofDigitChars_eq_decimalValue hdig
    simp only [hv]
    split
    · rename_i hbyte
      rw [Option.some.injEq]
      exact ⟨fun h => ⟨hne, hdig, h, h ▸ hbyte⟩, fun h => h.2.2.1⟩
    · rename_i hbig
      simp only [reduceCtorEq, false_iff, not_and]
      exact fun _ _ hn hle => hbig (hn ▸ hle)
  · rename_i h
    simp only [Bool.and_eq_true, Bool.not_eq_true', List.isEmpty_eq_false_iff, List.all_eq_true,
      not_and] at h
    simp only [reduceCtorEq, false_iff, not_and]
    exact fun hne hdig _ _ => h hne hdig

theorem readDecimal?_eq_some_iff {cs : List Char} {n : Nat} :
    readDecimal? cs = some n ↔ Numeral cs n ∧ n ≤ 255 := by
  unfold readDecimal?
  split
  · rename_i ds
    rw [digitsValue?_eq_some_iff]
    constructor
    · rintro ⟨hne, hdig, rfl, hbyte⟩
      exact ⟨.signed ds hne hdig, hbyte⟩
    · rintro ⟨h, hbyte⟩
      cases h with
      | plain _ _ hdig => exact absurd (hdig '+' List.mem_cons_self) (by decide)
      | signed _ hne hdig => exact ⟨hne, hdig, rfl, hbyte⟩
  · rename_i hplus
    rw [digitsValue?_eq_some_iff]
    constructor
    · rintro ⟨hne, hdig, rfl, hbyte⟩
      exact ⟨.plain cs hne hdig, hbyte⟩
    · rintro ⟨h, hbyte⟩
      cases h with
      | plain _ hne hdig => exact ⟨hne, hdig, rfl, hbyte⟩
      | signed ds => exact absurd rfl (hplus ds)

theorem ofNat?_eq_some_iff {n : Nat} {r : Reg} : ofNat? n = some r ↔ n = r.index := by
  unfold ofNat?
  split
  · rename_i h
    obtain ⟨⟨i, hi⟩⟩ := r
    simp [index, Fin.ext_iff]
  · rename_i h
    simp only [reduceCtorEq, false_iff]
    exact fun hn => h (hn ▸ r.index_lt)

theorem bind_ofNat?_eq_some_iff {o : Option Nat} {r : Reg} :
    o.bind ofNat? = some r ↔ o = some r.index := by
  cases o <;> simp [ofNat?_eq_some_iff]

theorem length_abiNames : abiNames.length = 32 := rfl

theorem abiName_mem (r : Reg) : r.abiName ∈ abiNames := by
  have hr : r.index < abiNames.length := r.index_lt
  rw [abiName, List.getD_eq_getElem _ _ hr]
  exact List.getElem_mem hr

theorem idxOf?_abiName (r : Reg) : abiNames.idxOf? r.abiName = some r.index := by
  obtain ⟨i⟩ := r
  revert i
  decide +kernel

theorem abiName_injective {r r' : Reg} (h : r.abiName = r'.abiName) : r = r' := by
  have hi := idxOf?_abiName r
  rw [h, idxOf?_abiName r', Option.some.injEq] at hi
  obtain ⟨⟨i, _⟩⟩ := r
  obtain ⟨⟨j, _⟩⟩ := r'
  simp only [index] at hi
  subst hi
  rfl

theorem exists_abiName_of_idxOf? {s : String} {i : Nat} (h : abiNames.idxOf? s = some i) :
    ∃ r : Reg, r.index = i ∧ r.abiName = s := by
  obtain ⟨hi, hs, -⟩ := List.idxOf?_eq_some_iff.mp h
  refine ⟨⟨⟨i, length_abiNames ▸ hi⟩⟩, rfl, ?_⟩
  show abiNames.getD i "" = s
  rw [List.getD_eq_getElem _ _ hi]
  exact hs

theorem abiNames_spelling :
    abiNames.all (fun n => n.toList.head? != some 'x') = true ∧ "fp" ∉ abiNames :=
  ⟨by decide +kernel, by decide +kernel⟩

theorem abiName_toList_ne {r : Reg} {cs : List Char} : r.abiName.toList ≠ 'x' :: cs := by
  intro h
  have hx := List.all_eq_true.mp abiNames_spelling.1 _ (abiName_mem r)
  simp [h] at hx

theorem abiName_ne_fp (r : Reg) : r.abiName ≠ "fp" := by
  intro h
  have hmem := abiName_mem r
  rw [h] at hmem
  exact abiNames_spelling.2 hmem

theorem ofName?_eq_some_iff (s : String) (r : Reg) :
    ofName? s = some r ↔
      s = r.abiName ∨ (s = "fp" ∧ r = s0) ∨ ∃ cs, s.toList = 'x' :: cs ∧ Numeral cs r.index := by
  unfold ofName?
  by_cases hfp : s = "fp"
  · subst hfp
    rw [if_pos (beq_self_eq_true _), Option.some.injEq]
    constructor
    · rintro rfl
      exact .inr (.inl ⟨rfl, rfl⟩)
    · rintro (h | ⟨-, rfl⟩ | ⟨cs, h, -⟩)
      · exact absurd h.symm (abiName_ne_fp r)
      · rfl
      · cases h
  · simp only [beq_iff_eq, hfp, if_false, false_and, false_or]
    cases hidx : abiNames.idxOf? s with
    | some i =>
      obtain ⟨r₀, rfl, rfl⟩ := exists_abiName_of_idxOf? hidx
      dsimp only
      rw [ofNat?_index, Option.some.injEq]
      constructor
      · rintro rfl
        exact .inl rfl
      · rintro (h | ⟨cs, h, -⟩)
        · exact abiName_injective h
        · exact absurd h abiName_toList_ne
    | none =>
      have hname : s ≠ r.abiName := fun h =>
        List.idxOf?_eq_none_iff.mp hidx (h ▸ abiName_mem r)
      simp only [hname, false_or]
      split
      · rename_i rest hs
        have hbyte : r.index ≤ 255 := Nat.le_of_lt (Nat.lt_of_lt_of_le r.index_lt (by decide))
        rw [bind_ofNat?_eq_some_iff, readDecimal?_eq_some_iff, hs]
        simp [hbyte]
      · rename_i hs
        simp only [reduceCtorEq, false_iff, not_exists, not_and]
        exact fun cs h _ => hs cs h

theorem ofName?_numbered (r : Reg) : ofName? ("x" ++ toString r.index) = some r := by
  rw [ofName?_eq_some_iff]
  refine .inr (.inr ⟨Nat.toDigits 10 r.index, ?_, numeral_toDigits r.index⟩)
  rw [String.toList_append]
  exact congrArg ('x' :: ·) Nat.toList_repr

end Reg

namespace RegisterId

theorem name_gpr (r : Reg) : (gpr r).name = "x" ++ toString r.index := rfl

theorem specialNames_spelling :
    specialNames.all (fun s => s.toList.head? != some 'x' && Reg.ofName? s == none) = true := by
  decide +kernel

theorem ofName?_special {s : String} (hs : s ∈ specialNames) :
    Reg.ofName? s = none ∧ ∀ r : Reg, (gpr r).name ≠ s := by
  have h := List.all_eq_true.mp specialNames_spelling s hs
  simp only [Bool.and_eq_true, bne_iff_ne, ne_eq, beq_iff_eq] at h
  refine ⟨h.2, fun r hr => h.1 ?_⟩
  rw [← hr, name_gpr, String.toList_append]
  rfl

theorem ofName?_special_iff {s : String} (hs : s ∈ specialNames) (id : RegisterId) :
    ofName? s = some id ↔ id.name = s := by
  cases id with
  | gpr r =>
    simp only [(ofName?_special hs).2 r, iff_false]
    simp only [specialNames, List.mem_cons, List.not_mem_nil, or_false] at hs
    rcases hs with rfl | rfl | rfl | rfl | rfl <;> simp [ofName?]
  | _ =>
    simp only [specialNames, List.mem_cons, List.not_mem_nil, or_false] at hs
    rcases hs with rfl | rfl | rfl | rfl | rfl <;> decide

theorem ofName?_eq_some_iff (s : String) (id : RegisterId) :
    ofName? s = some id ↔
      (∃ r, id = gpr r ∧ Reg.ofName? s = some r) ∨ (s ∈ specialNames ∧ id.name = s) := by
  by_cases hs : s ∈ specialNames
  · rw [ofName?_special_iff hs, (ofName?_special hs).1]
    simp [hs]
  · have hother : ofName? s = (Reg.ofName? s).map gpr := by
      simp only [specialNames, List.mem_cons, List.not_mem_nil, or_false, not_or] at hs
      obtain ⟨h₁, h₂, h₃, h₄, h₅⟩ := hs
      unfold ofName?
      split <;> simp_all
    rw [hother, Option.map_eq_some_iff]
    simp only [hs, false_and, or_false]
    constructor
    · rintro ⟨r, hr, rfl⟩
      exact ⟨r, rfl, hr⟩
    · rintro ⟨r, rfl, hr⟩
      exact ⟨r, hr, rfl⟩

end RegisterId

/-- Register names. A general-purpose register is read from its ABI name, from `fp` when it is
`s0`, or from `x` followed by an optional `+` and one or more ASCII digits whose value is its
number, and from nothing else. A host register id is read from any name of a general-purpose
register or from exactly `pc`, `mstatus`, `mepc`, `mcause` and `mtvec`, each as the id it names.
Every ABI name and every `x` with a register's number read back as that register, and every
canonical name as its id. -/
theorem register_name_language (s : String) (r : Reg) (id : RegisterId) :
    (Reg.ofName? s = some r ↔
      s = r.abiName ∨ (s = "fp" ∧ r = Reg.s0) ∨ ∃ cs, s.toList = 'x' :: cs ∧ Numeral cs r.index) ∧
    (RegisterId.ofName? s = some id ↔
      (∃ r', id = .gpr r' ∧ Reg.ofName? s = some r') ∨
        (s ∈ ["pc", "mstatus", "mepc", "mcause", "mtvec"] ∧ id.name = s)) ∧
    Reg.ofName? r.abiName = some r ∧ Reg.ofName? ("x" ++ toString r.index) = some r ∧
    RegisterId.ofName? id.name = some id := by
  refine ⟨Reg.ofName?_eq_some_iff s r, RegisterId.ofName?_eq_some_iff s id,
    Asm.ofName?_abiName r, Reg.ofName?_numbered r, ?_⟩
  rw [RegisterId.ofName?_eq_some_iff]
  cases id with
  | gpr r' => exact .inl ⟨r', rfl, Reg.ofName?_numbered r'⟩
  | _ => exact .inr ⟨by simp [RegisterId.specialNames, RegisterId.name], rfl⟩

end RiscvCore
