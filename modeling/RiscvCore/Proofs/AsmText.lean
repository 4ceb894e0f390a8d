import Mathlib
import RiscvCore.Asm.Assemble

namespace RiscvCore.Asm

/-- An operand as written: a register by its ABI name, a number in decimal, and a memory
operand as `offset(base)`. -/
def Operand.text : Operand → String
  | .reg r => r.abiName
  | .imm v => toString v
  | .mem off base => toString off ++ "(" ++ base.abiName ++ ")"

/-- A statement as written: its mnemonic, then a space and the operands separated by `, `. -/
def statementText (m : String) : List Operand → String
  | [] => m
  | o :: os => m ++ " " ++ ", ".intercalate ((o :: os).map Operand.text)

/-- The operands the reader takes back: numbers that fit 63 bits. -/
def Operand.Readable : Operand → Prop
  | .reg _ => True
  | .imm v | .mem v _ => v.natAbs ≤ maxValue

/-- A name the statement reader takes whole: not empty, and made of letters, digits, `.` and
`_`. -/
structure IsName (cs : List Char) : Prop where
  ne_nil : cs ≠ []
  ident : ∀ c ∈ cs, isIdentChar c = true

/-- A text that does not go on with a name character, so a name or number before it ends. -/
def Stops (cs : List Char) : Prop := ∀ c ∈ cs.head?, isIdentChar c = false

section Chars

theorem isIdentChar_of_isDigit {c : Char} (h : c.isDigit = true) : isIdentChar c = true := by
  simp [isIdentChar, Char.isAlphanum, h]

theorem isDigit_of_isIdentChar_false {c : Char} (h : isIdentChar c = false) :
    c.isDigit = false := by
  cases hd : c.isDigit
  · rfl
  · simp [isIdentChar_of_isDigit hd] at h

theorem isBlank_of_isIdentChar {c : Char} (h : isIdentChar c = true) : Text.isBlank c = false := by
  have hcodes : ∀ n ∈ Text.blankCodes, isIdentChar (Char.ofNat n) = false := by decide
  cases hb : Text.isBlank c
  · rfl
  · have hn : c.toNat ∈ Text.blankCodes := by simpa [Text.isBlank] using hb
    have := hcodes _ hn
    rw [Char.ofNat_toNat, h] at this
    exact absurd this (by decide)

theorem isBlank_of_isSpace {c : Char} (h : isSpace c = true) : Text.isBlank c = true := by
  simp only [isSpace, Bool.or_eq_true, beq_iff_eq] at h
  rcases h with rfl | rfl <;> decide

theorem isAlpha_of_isDigit {c : Char} (h : c.isDigit = true) : c.isAlpha = false := by
  simp [Char.isDigit, Char.isAlpha, Char.isUpper, Char.isLower, UInt32.le_iff_toNat_le] at h ⊢
  omega

theorem isDigit_of_isAlpha {c : Char} (h : c.isAlpha = true) : c.isDigit = false := by
  cases hd : c.isDigit
  · rfl
  · rw [isAlpha_of_isDigit hd] at h
    exact absurd h (by decide)

/-- The characters of written operands: name characters, `-` and parentheses. -/
def isOperandChar (c : Char) : Bool := isIdentChar c || c == '-' || c == '(' || c == ')'

theorem safe_of_isOperandChar {c : Char} (h : isOperandChar c = true) :
    Text.isBlank c = false ∧ c ≠ ',' ∧ c ≠ '#' ∧ c ≠ '/' := by
  simp only [isOperandChar, Bool.or_eq_true, beq_iff_eq] at h
  rcases h with ((h | rfl) | rfl) | rfl
  · refine ⟨isBlank_of_isIdentChar h, ?_, ?_, ?_⟩ <;> (rintro rfl; revert h; decide)
  all_goals decide

theorem not_space_of_isOperandChar {c : Char} (h : isOperandChar c = true) : isSpace c = false := by
  cases hs : isSpace c
  · rfl
  · have := (isBlank_of_isSpace hs).symm.trans (safe_of_isOperandChar h).1
    simp at this

end Chars

theorem span_append {p : Char → Bool} {ds rest : List Char} (hd : ∀ c ∈ ds, p c = true)
    (hr : ∀ c ∈ rest.head?, p c = false) : (ds ++ rest).span p = (ds, rest) := by
  rw [List.span_eq_takeWhile_dropWhile, List.takeWhile_append_of_pos hd,
    List.dropWhile_append_of_pos hd]
  cases rest with
  | nil => simp
  | cons c cs =>
    have hc : p c = false := hr c (by simp)
    simp [List.takeWhile_cons_of_neg, List.dropWhile_cons_of_neg, hc]

theorem dropWhile_of_head {p : Char → Bool} {cs : List Char} (h : ∀ c ∈ cs.head?, p c = false) :
    cs.dropWhile p = cs := by
  cases cs with
  | nil => rfl
  | cons c cs =>
    have hc : p c = false := h c (by simp)
    simp [List.dropWhile_cons_of_neg, hc]

theorem dropSpaces_of_head {cs : List Char} (h : ∀ c ∈ cs.head?, isSpace c = false) :
    dropSpaces cs = cs :=
  dropWhile_of_head h

theorem dropSpaces_space (cs : List Char) : dropSpaces (' ' :: cs) = dropSpaces cs := by
  simp [dropSpaces, isSpace]

section Numbers

theorem isDigit_of_mem_decimal {n : Nat} {c : Char} (h : c ∈ Nat.toDigits 10 n) :
    c.isDigit = true :=
  Nat.isDigit_of_mem_toDigits (by decide) (by decide) h

theorem decimal_head (n : Nat) : ∃ d ds, Nat.toDigits 10 n = d :: ds ∧ d.isDigit = true := by
  obtain ⟨d, ds, hds⟩ := List.exists_cons_of_ne_nil (Nat.toDigits_ne_nil (n := n) (b := 10))
  exact ⟨d, ds, hds, isDigit_of_mem_decimal (hds ▸ List.mem_cons_self ..)⟩

theorem numeralValue_eq_ofDigitChars {ds : List Char} (h : ∀ c ∈ ds, c.isDigit = true) :
    Text.numeralValue 10 ds = Nat.ofDigitChars 10 ds 0 := by
  unfold Text.numeralValue Nat.ofDigitChars
  exact List.foldl_ext _ _ 0 fun n c hc => by simp [Text.hexValue, h c hc]

@[simp] theorem numeralValue_toDigits (n : Nat) : Text.numeralValue 10 (Nat.toDigits 10 n) = n := by
  rw [numeralValue_eq_ofDigitChars fun _ => isDigit_of_mem_decimal, Nat.ofDigitChars_ten_toDigits]

theorem not_hexMark {x : Char} (h : x.isDigit = true ∨ isIdentChar x = false) :
    (x == 'x' || x == 'X') = false := by
  simp only [Bool.or_eq_false_iff, beq_eq_false_iff_ne]
  constructor <;> rintro rfl <;> revert h <;> decide

theorem second_of_digits {ds rest r : List Char} {c x : Char} (hne : ds ≠ [])
    (hd : ∀ c ∈ ds, c.isDigit = true) (hr : Stops rest) (h : ds ++ rest = c :: x :: r) :
    x.isDigit = true ∨ isIdentChar x = false := by
  match ds, hne, h with
  | [_], _, h =>
    simp only [List.cons_append, List.nil_append, List.cons.injEq] at h
    exact .inr (hr x (by simp [h.2]))
  | _ :: d :: _, _, h =>
    simp only [List.cons_append, List.cons.injEq] at h
    exact .inl (h.2.1 ▸ hd d (by simp))

theorem unsigned?_decimal {ds rest : List Char} (hne : ds ≠ []) (hd : ∀ c ∈ ds, c.isDigit = true)
    (hr : Stops rest) (hv : Text.numeralValue 10 ds ≤ maxValue) :
    unsigned? (ds ++ rest) = some (Text.numeralValue 10 ds, rest) := by
  have hspan : (ds ++ rest).span Char.isDigit = (ds, rest) :=
    span_append hd fun c hc => isDigit_of_isIdentChar_false (hr c hc)
  have hdec : (!ds.isEmpty && decide (Text.numeralValue 10 ds ≤ maxValue)) = true := by
    simp [hne, hv]
  unfold unsigned?
  split
  · rename_i h
    simp only [not_hexMark (second_of_digits hne hd hr h), Bool.false_eq_true, if_false, hspan, hdec,
      if_true]
  · simp only [hspan, hdec, if_true]

theorem immediate?_unsigned {cs : List Char} (h : ∀ c ∈ cs.head?, c ≠ '-' ∧ c ≠ '+') :
    immediate? cs = (unsigned? cs).map fun (v, r) => ((v : Int), r) := by
  unfold immediate?
  split <;> simp_all

theorem unsigned?_toDigits {n : Nat} (hn : n ≤ maxValue) {rest : List Char} (hr : Stops rest) :
    unsigned? (Nat.toDigits 10 n ++ rest) = some (n, rest) := by
  simpa using unsigned?_decimal Nat.toDigits_ne_nil (fun _ => isDigit_of_mem_decimal) hr
    (by simpa using hn)

theorem immediate?_text {v : Int} (hv : v.natAbs ≤ maxValue) {rest : List Char} (hr : Stops rest) :
    immediate? ((toString v).toList ++ rest) = some (v, rest) := by
  rw [Int.toString_eq_repr]
  cases v with
  | ofNat n =>
    obtain ⟨d, ds, hds, hdig⟩ := decimal_head n
    rw [Int.repr, Nat.toList_repr, immediate?_unsigned, unsigned?_toDigits (n := n) hv hr]
    · rfl
    · rw [hds]
      simp only [List.cons_append, List.head?_cons, Option.mem_def, Option.some.injEq, forall_eq']
      constructor <;> rintro rfl <;> revert hdig <;> decide
  | negSucc n =>
    simp only [Int.repr, String.toList_append, Nat.toList_repr]
    show immediate? ('-' :: (Nat.toDigits 10 (n + 1) ++ rest)) = _
    simp only [immediate?, unsigned?_toDigits (n := n + 1) hv hr, Option.map_some]
    rfl

theorem unsigned?_of_head {cs : List Char} (h : ∀ c ∈ cs.head?, c.isDigit = false) :
    unsigned? cs = none := by
  have hspan : cs.span Char.isDigit = ([], cs) := @span_append _ [] _ (by simp) h
  unfold unsigned?
  split
  · exact absurd (h '0' rfl) (by decide)
  · simp only [hspan, List.isEmpty_nil, Bool.not_true, Bool.false_and, Bool.false_eq_true, if_false]

theorem toString_chars (v : Int) : ∀ c ∈ (toString v).toList, c.isDigit = true ∨ c = '-' := by
  rw [Int.toString_eq_repr]
  cases v with
  | ofNat n =>
    intro c hc
    rw [Int.repr, Nat.toList_repr] at hc
    exact .inl (isDigit_of_mem_decimal hc)
  | negSucc n =>
    intro c hc
    simp only [Int.repr, String.toList_append, Nat.toList_repr] at hc
    rcases List.mem_cons.mp hc with rfl | hc
    · exact .inr rfl
    · exact .inl (isDigit_of_mem_decimal hc)

end Numbers

section Registers

theorem abiName_spelling (r : Reg) :
    (r.abiName.toList.head?.all Char.isAlpha && !r.abiName.toList.isEmpty &&
      r.abiName.toList.all isIdentChar) = true := by
  obtain ⟨i⟩ := r
  revert i
  decide +kernel

theorem abiName_isName (r : Reg) : IsName r.abiName.toList := by
  have h := abiName_spelling r
  simp only [Bool.and_eq_true, Bool.not_eq_true', List.isEmpty_eq_false_iff, List.all_eq_true] at h
  exact ⟨h.1.2, h.2⟩

theorem abiName_head (r : Reg) : ∃ c cs, r.abiName.toList = c :: cs ∧ c.isAlpha = true := by
  have h := abiName_spelling r
  cases hcs : r.abiName.toList with
  | nil => simp [hcs] at h
  | cons c cs => exact ⟨c, cs, rfl, by simp_all⟩

@[simp] theorem ofName?_abiName (r : Reg) : Reg.ofName? r.abiName = some r := by
  obtain ⟨i⟩ := r
  revert i
  decide +kernel

theorem ofName?_of_digit {s : String} {d : Char} {ds : List Char} (hs : s.toList = d :: ds)
    (hd : d.isDigit = true) : Reg.ofName? s = none := by
  have hnames : Reg.abiNames.all (fun n => n.toList.head?.all Char.isAlpha) = true := by
    decide +kernel
  have hletter : d.isAlpha = false := isAlpha_of_isDigit hd
  have hfp : (s == "fp") = false := by
    simp only [beq_eq_false_iff_ne]
    rintro rfl
    have hf : ("fp".toList).head? = some 'f' := rfl
    rw [hs] at hf
    simp only [List.head?_cons, Option.some.injEq] at hf
    exact absurd (hf ▸ hd) (by decide)
  have hidx : Reg.abiNames.idxOf? s = none := by
    rw [List.idxOf?_eq_none_iff]
    intro hmem
    have := List.all_eq_true.mp hnames s hmem
    simp [hs, hletter] at this
  unfold Reg.ofName?
  simp only [hfp, Bool.false_eq_true, if_false, hidx, hs]
  split
  · rename_i h
    simp only [List.cons.injEq] at h
    exact absurd (h.1 ▸ hd) (by decide)
  · rfl

theorem register?_name {name rest : List Char} (hn : IsName name) (hr : Stops rest) :
    register? (name ++ rest) = (Reg.ofName? (String.ofList name)).map (·, rest) := by
  unfold register?
  rw [span_append hn.ident hr]
  simp [hn.ne_nil]

theorem register?_abiName (r : Reg) {rest : List Char} (hr : Stops rest) :
    register? (r.abiName.toList ++ rest) = some (r, rest) := by
  simp [register?_name (abiName_isName r) hr]

end Registers

section Operands

theorem isSpace_of_isIdentChar {c : Char} (h : isIdentChar c = true) : isSpace c = false := by
  cases hs : isSpace c
  · rfl
  · have := (isBlank_of_isSpace hs).symm.trans (isBlank_of_isIdentChar h)
    simp at this

theorem isIdentChar_of_isAlpha {c : Char} (h : c.isAlpha = true) : isIdentChar c = true := by
  simp [isIdentChar, Char.isAlphanum, h]

theorem dropSpaces_name {cs : List Char} (hn : IsName cs) (rest : List Char) :
    dropSpaces (cs ++ rest) = cs ++ rest :=
  dropSpaces_of_head fun c hc => by
    rw [List.head?_append_of_ne_nil _ hn.ne_nil] at hc
    exact isSpace_of_isIdentChar (hn.ident c (List.mem_of_mem_head? hc))

theorem immediate?_of_alpha {c : Char} {cs : List Char} (h : c.isAlpha = true) :
    immediate? (c :: cs) = none := by
  rw [immediate?_unsigned, unsigned?_of_head]
  · rfl
  · simpa using isDigit_of_isAlpha h
  · simp only [List.head?_cons, Option.mem_def, Option.some.injEq, forall_eq']
    constructor <;> rintro rfl <;> revert h <;> decide

theorem memory?_of_alpha {c : Char} {cs : List Char} (h : c.isAlpha = true) :
    memory? (c :: cs) = none := by
  have hsp : dropSpaces (c :: cs) = c :: cs :=
    dropSpaces_of_head fun d hd => by
      simp only [List.head?_cons, Option.mem_def, Option.some.injEq] at hd
      exact hd ▸ isSpace_of_isIdentChar (isIdentChar_of_isAlpha h)
  unfold memory?
  simp only [immediate?_of_alpha h, hsp]
  split
  · rename_i heq
    simp only [List.cons.injEq] at heq
    exact absurd (heq.1 ▸ h) (by decide)
  · rfl

theorem toString_ne_nil (v : Int) : (toString v).toList ≠ [] := by
  rw [Int.toString_eq_repr]
  cases v with
  | ofNat n => simp [Int.repr, Nat.toList_repr, Nat.toDigits_ne_nil]
  | negSucc n => simp [Int.repr, String.toList_append]

theorem memory?_number {v : Int} (hv : v.natAbs ≤ maxValue) :
    memory? (toString v).toList = none := by
  have h := immediate?_text hv (show Stops [] by simp [Stops])
  rw [List.append_nil] at h
  unfold memory?
  simp only [h]
  rfl

theorem register?_number (v : Int) : register? (toString v).toList = none := by
  rw [Int.toString_eq_repr]
  cases v with
  | ofNat n =>
    obtain ⟨d, ds, hds, hdig⟩ := decimal_head n
    have hname : IsName (Nat.toDigits 10 n) :=
      ⟨Nat.toDigits_ne_nil, fun c hc => isIdentChar_of_isDigit (isDigit_of_mem_decimal hc)⟩
    have hstop : Stops [] := by simp [Stops]
    have hreg := register?_name hname hstop
    rw [List.append_nil, ofName?_of_digit (String.toList_ofList.trans hds) hdig] at hreg
    rw [Int.repr, Nat.toList_repr, hreg, Option.map_none]
  | negSucc n =>
    have hspan : ('-' :: (Nat.toDigits 10 (n + 1))).span isIdentChar =
        ([], '-' :: Nat.toDigits 10 (n + 1)) := @span_append _ [] _ (by simp) (by simp; decide)
    simp only [Int.repr, String.toList_append, Nat.toList_repr]
    show register? ('-' :: Nat.toDigits 10 (n + 1)) = none
    simp only [register?, hspan, List.isEmpty_nil, if_true]

theorem text_chars (o : Operand) : ∀ c ∈ o.text.toList, isOperandChar c = true := by
  have hnum (v : Int) : ∀ c ∈ (toString v).toList, isOperandChar c = true := fun c hc => by
    rcases toString_chars v c hc with h | rfl
    · simp [isOperandChar, isIdentChar_of_isDigit h]
    · decide
  have hreg (r : Reg) : ∀ c ∈ r.abiName.toList, isOperandChar c = true := fun c hc => by
    simp [isOperandChar, (abiName_isName r).ident c hc]
  cases o with
  | reg r => exact hreg r
  | imm v => exact hnum v
  | mem off base =>
    intro c hc
    simp only [Operand.text, String.toList_append, List.mem_append] at hc
    rcases hc with ((h | h) | h) | h
    · exact hnum off c h
    · obtain rfl : c = '(' := by simpa using h
      decide
    · exact hreg base c h
    · obtain rfl : c = ')' := by simpa using h
      decide

theorem text_ne_nil (o : Operand) : o.text.toList ≠ [] := by
  cases o with
  | reg r => exact (abiName_isName r).ne_nil
  | imm v => exact toString_ne_nil v
  | mem off base => simp [Operand.text, String.toList_append]

theorem operand?_text {o : Operand} (ho : o.Readable) : operand? o.text.toList = some (o, []) := by
  have hstop : Stops [] := by simp [Stops]
  cases o with
  | reg r =>
    obtain ⟨c, cs, hcs, hc⟩ := abiName_head r
    have hreg := register?_abiName r hstop
    rw [List.append_nil, hcs] at hreg
    simp only [Operand.text, operand?, hcs, memory?_of_alpha hc, hreg]
  | imm v =>
    have himm := immediate?_text ho hstop
    rw [List.append_nil] at himm
    simp only [Operand.text, operand?, memory?_number ho, register?_number, himm, Option.map_some]
  | mem off base =>
    have hoff := immediate?_text ho
      (show Stops ('(' :: (base.abiName.toList ++ [')'])) by simp [Stops]; decide)
    have hbase := register?_abiName base (show Stops [')'] by simp [Stops]; decide)
    have hopen : dropSpaces ('(' :: (base.abiName.toList ++ [')'])) =
        '(' :: (base.abiName.toList ++ [')']) := dropSpaces_of_head (by simp; decide)
    have hclose : dropSpaces [')'] = [')'] := dropSpaces_of_head (by simp; decide)
    have htext : (Operand.mem off base).text.toList =
        (toString off).toList ++ '(' :: (base.abiName.toList ++ [')']) := by
      simp [Operand.text, String.toList_append]
    unfold operand? memory?
    simp only [htext, hoff, hopen, dropSpaces_name (abiName_isName base), hbase, hclose]

theorem operandExact?_of_dropSpaces {cs : List Char} {o : Operand} (ho : o.Readable)
    (h : dropSpaces cs = o.text.toList) : operandExact? cs = some o := by
  unfold operandExact?
  rw [h, operand?_text ho]
  rfl

theorem dropSpaces_append_text (o : Operand) (rest : List Char) :
    dropSpaces (o.text.toList ++ rest) = o.text.toList ++ rest :=
  dropSpaces_of_head fun c hc => by
    rw [List.head?_append_of_ne_nil _ (text_ne_nil o)] at hc
    exact not_space_of_isOperandChar (text_chars o c (List.mem_of_mem_head? hc))

end Operands

section Statements

theorem forall_mem_intercalate {α : Type} {p : α → Prop} {sep : List α} {ls : List (List α)}
    (hs : ∀ a ∈ sep, p a) (hl : ∀ l ∈ ls, ∀ a ∈ l, p a) : ∀ a ∈ sep.intercalate ls, p a := by
  induction ls with
  | nil => simp
  | cons l ls ih =>
    cases ls with
    | nil => simpa using hl l (by simp)
    | cons l' ls =>
      rw [List.intercalate_cons_cons]
      intro a ha
      simp only [List.mem_append] at ha
      rcases ha with (ha | ha) | ha
      · exact hl l (by simp) a ha
      · exact hs a ha
      · exact ih (fun l hm => hl l (List.mem_cons_of_mem _ hm)) a ha

theorem intercalate_cons_eq_append {α : Type} (sep l : List α) (ls : List (List α)) :
    ∃ r, sep.intercalate (l :: ls) = l ++ r := by
  cases ls with
  | nil => exact ⟨[], by simp⟩
  | cons l' ls => exact ⟨_, by rw [List.intercalate_cons_cons, List.append_assoc]⟩

theorem getLast?_intercalate {α : Type} {sep : List α} {ls : List (List α)}
    (hne : ∀ l ∈ ls, l ≠ []) : ∀ a ∈ (sep.intercalate ls).getLast?, ∃ l ∈ ls, a ∈ l.getLast? := by
  induction ls with
  | nil => simp
  | cons l ls ih =>
    cases ls with
    | nil =>
      intro a ha
      exact ⟨l, by simp, by simpa using ha⟩
    | cons l' ls =>
      obtain ⟨r, hr⟩ := intercalate_cons_eq_append sep l' ls
      have hlast : (sep.intercalate (l' :: ls)).getLast? ≠ none := by
        rw [hr, Ne, List.getLast?_eq_none_iff]
        simp [hne l' (by simp)]
      intro a ha
      rw [List.intercalate_cons_cons, List.getLast?_append] at ha
      obtain ⟨b, hb⟩ := Option.ne_none_iff_exists'.mp hlast
      rw [hb, Option.some_or] at ha
      obtain ⟨k, hk, hak⟩ := ih (fun l hm => hne l (List.mem_cons_of_mem _ hm)) a (hb ▸ ha)
      exact ⟨k, List.mem_cons_of_mem _ hk, hak⟩

theorem intercalate_cons_head {α : Type} (sep : List α) (a : α) (t : List α)
    (ts : List (List α)) : sep.intercalate ((a :: t) :: ts) = a :: sep.intercalate (t :: ts) := by
  cases ts <;> simp [List.intercalate_cons_cons]

theorem intercalate_comma_space (t : List Char) (ts : List (List Char)) :
    [',', ' '].intercalate (t :: ts) = [','].intercalate (t :: ts.map (' ' :: ·)) := by
  induction ts generalizing t with
  | nil => simp
  | cons t' ts ih =>
    rw [List.intercalate_cons_cons, ih, List.map_cons, List.intercalate_cons_cons,
      intercalate_cons_head]
    simp

theorem toList_joined (o : Operand) (os : List Operand) :
    (", ".intercalate ((o :: os).map Operand.text)).toList =
      [','].intercalate (o.text.toList :: os.map fun o => ' ' :: o.text.toList) := by
  have hsep : ", ".toList = [',', ' '] := rfl
  rw [String.toList_intercalate, hsep, List.map_map, List.map_cons, intercalate_comma_space,
    List.map_map]
  rfl

theorem operands?_text {o : Operand} {os : List Operand} (h : ∀ p ∈ o :: os, p.Readable) :
    operands? (", ".intercalate ((o :: os).map Operand.text)).toList = some (o :: os) := by
  have hcomma : ∀ l ∈ o.text.toList :: os.map (fun o => ' ' :: o.text.toList), ',' ∉ l := by
    intro l hl hc
    simp only [List.mem_cons, List.mem_map] at hl
    rcases hl with rfl | ⟨o', -, rfl⟩
    · exact (safe_of_isOperandChar (text_chars o ',' hc)).2.1 rfl
    · rcases List.mem_cons.mp hc with h' | hc
      · exact absurd h' (by decide)
      · exact (safe_of_isOperandChar (text_chars o' ',' hc)).2.1 rfl
  have hne : ([','].intercalate (o.text.toList :: os.map fun o => ' ' :: o.text.toList)).isEmpty
      = false := by
    obtain ⟨r, hr⟩ := intercalate_cons_eq_append [','] o.text.toList
      (os.map fun o => ' ' :: o.text.toList)
    simp [hr, text_ne_nil o]
  have hrest : ∀ os : List Operand, (∀ p ∈ os, p.Readable) →
      (os.map fun o => ' ' :: o.text.toList).mapM operandExact? = some os := by
    intro os hos
    induction os with
    | nil => rfl
    | cons o' os ih =>
      have ho' := operandExact?_of_dropSpaces (hos o' (by simp))
        ((dropSpaces_space _).trans (by simpa using dropSpaces_append_text o' []))
      simp [ho', ih fun o hm => hos o (List.mem_cons_of_mem _ hm)]
  have hfirst := operandExact?_of_dropSpaces (h o (by simp))
    (by simpa using dropSpaces_append_text o [])
  unfold operands?
  rw [toList_joined, hne, List.splitOn_intercalate ',' hcomma (by simp)]
  simp [hfirst, hrest os fun o hm => h o (List.mem_cons_of_mem _ hm)]

theorem statement?_text {m : String} (hm : IsName m.toList) {ops : List Operand}
    (h : ∀ p ∈ ops, p.Readable) : statement? (statementText m ops).toList = some (m, ops) := by
  cases ops with
  | nil =>
    have hspan := span_append hm.ident (show Stops [] by simp [Stops])
    rw [List.append_nil] at hspan
    have hsp := dropSpaces_name hm []
    rw [List.append_nil] at hsp
    unfold statementText statement?
    rw [hsp, hspan]
    simp [hm.ne_nil, operands?, dropSpaces]
  | cons o os =>
    obtain ⟨r, hr⟩ := intercalate_cons_eq_append [','] o.text.toList
      (os.map fun o => ' ' :: o.text.toList)
    have hjoin : (", ".intercalate ((o :: os).map Operand.text)).toList = o.text.toList ++ r := by
      rw [← hr, toList_joined]
    have htext : (statementText m (o :: os)).toList =
        m.toList ++ ' ' :: (", ".intercalate ((o :: os).map Operand.text)).toList := by
      simp [statementText, String.toList_append]
    have hspan := span_append hm.ident
      (show Stops (' ' :: (", ".intercalate ((o :: os).map Operand.text)).toList) by
        simp [Stops]; decide)
    have hsp : dropSpaces (' ' :: (", ".intercalate ((o :: os).map Operand.text)).toList) =
        (", ".intercalate ((o :: os).map Operand.text)).toList := by
      rw [dropSpaces_space, hjoin, dropSpaces_append_text]
    unfold statement?
    rw [htext, dropSpaces_name hm, hspan]
    dsimp only
    rw [hsp, @operands?_text o os h]
    simp [hm.ne_nil]

theorem dropComment_of_forall {l : List Char} (h : ∀ c ∈ l, c ≠ '#' ∧ c ≠ '/') :
    Text.dropComment l = l := by
  induction l with
  | nil => rfl
  | cons c cs ih =>
    obtain ⟨h1, h2⟩ := h c (by simp)
    have ih' := ih fun d hd => h d (List.mem_cons_of_mem _ hd)
    unfold Text.dropComment
    split <;> simp_all

theorem trimBlank_of_ends {l : List Char} (hh : ∀ c ∈ l.head?, Text.isBlank c = false)
    (hl : ∀ c ∈ l.getLast?, Text.isBlank c = false) : Text.trimBlank l = l := by
  have hrev : ∀ c ∈ l.reverse.head?, Text.isBlank c = false := by rwa [List.head?_reverse]
  simp only [Text.trimBlank, dropWhile_of_head hh, dropWhile_of_head hrev, List.reverse_reverse]

theorem codeOf_of_chars {l : List Char} (h : ∀ c ∈ l, isOperandChar c = true ∨ c = ',' ∨ c = ' ')
    (hh : ∀ c ∈ l.head?, isOperandChar c = true) (hl : ∀ c ∈ l.getLast?, isOperandChar c = true) :
    Text.codeOf l = l := by
  have hcomment : ∀ c ∈ l, c ≠ '#' ∧ c ≠ '/' := by
    intro c hc
    rcases h c hc with h' | rfl | rfl
    · exact (safe_of_isOperandChar h').2.2
    all_goals decide
  rw [Text.codeOf, dropComment_of_forall hcomment]
  exact trimBlank_of_ends (fun c hc => (safe_of_isOperandChar (hh c hc)).1)
    (fun c hc => (safe_of_isOperandChar (hl c hc)).1)

theorem codeOf_text {m : String} (hm : IsName m.toList) (ops : List Operand) :
    Text.codeOf (statementText m ops).toList = (statementText m ops).toList := by
  have hname : ∀ c ∈ m.toList, isOperandChar c = true := fun c hc => by
    simp [isOperandChar, hm.ident c hc]
  have hhead : ∀ r, ∀ c ∈ (m.toList ++ r).head?, isOperandChar c = true := fun r c hc => by
    rw [List.head?_append_of_ne_nil _ hm.ne_nil] at hc
    exact hname c (List.mem_of_mem_head? hc)
  cases ops with
  | nil =>
    have hhead' := hhead []
    rw [List.append_nil] at hhead'
    exact codeOf_of_chars (fun c hc => .inl (hname c hc)) hhead'
      fun c hc => hname c (List.mem_of_mem_getLast? hc)
  | cons o os =>
    let J := [',', ' '].intercalate ((o :: os).map fun o => o.text.toList)
    have htext : (statementText m (o :: os)).toList = (m.toList ++ [' ']) ++ J := by
      simp [J, statementText, String.toList_append, String.toList_intercalate]
      rfl
    have hJ : ∀ c ∈ J, isOperandChar c = true ∨ c = ',' ∨ c = ' ' := by
      refine forall_mem_intercalate (by simp) ?_
      simp only [List.mem_map]
      rintro _ ⟨o', -, rfl⟩ c hc
      exact .inl (text_chars o' c hc)
    have hJne : J ≠ [] := by
      obtain ⟨r, hr⟩ := intercalate_cons_eq_append [',', ' '] o.text.toList
        (os.map fun o => o.text.toList)
      simp [J, hr, text_ne_nil o]
    have hJlast : ∀ c ∈ J.getLast?, isOperandChar c = true := by
      intro c hc
      have hne : ∀ l ∈ (o :: os).map (fun o => o.text.toList), l ≠ [] := fun l hl => by
        obtain ⟨o', -, rfl⟩ := List.mem_map.mp hl
        exact text_ne_nil o'
      obtain ⟨l, hl, hcl⟩ := getLast?_intercalate hne c hc
      obtain ⟨o', -, rfl⟩ := List.mem_map.mp hl
      exact text_chars o' c (List.mem_of_mem_getLast? hcl)
    rw [htext]
    refine codeOf_of_chars ?_ (by simpa using hhead (' ' :: J)) ?_
    · intro c hc
      simp only [List.mem_append, List.mem_singleton] at hc
      rcases hc with (hc | rfl) | hc
      · exact .inl (hname c hc)
      · exact .inr (.inr rfl)
      · exact hJ c hc
    · rwa [List.getLast?_append_of_ne_nil _ hJne]

end Statements

end RiscvCore.Asm
