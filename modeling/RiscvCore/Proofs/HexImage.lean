import Mathlib
import RiscvCore.Image
import RiscvCore.Proofs.AsmText

namespace RiscvCore.Image

/-- The value of hex digits, most significant first. -/
def digitsValue (ds : List Char) : Nat := Nat.ofDigits 16 (ds.reverse.map Text.hexValue)

/-- Separators only: commas and Unicode blanks. -/
def Seps (s : List Char) : Prop := ∀ c ∈ s, c = ',' ∨ Text.isBlank c = true

/-- A written word with its value: `0x`, `0X` or nothing, then one or more hex digits of a value
below `2^32`. -/
inductive Token : List Char → UInt32 → Prop
  | mk (pre ds : List Char) (hpre : pre = [] ∨ pre = ['0', 'x'] ∨ pre = ['0', 'X']) (hne : ds ≠ [])
      (hhex : ∀ c ∈ ds, Text.isHexDigit c = true) (hlt : digitsValue ds < 2 ^ 32) :
      Token (pre ++ ds) (digitsValue ds).toUInt32

/-- `tok (sep+ tok)*`, with the tokens' values. -/
inductive Words : List Char → List UInt32 → Prop
  | one {t : List Char} {v : UInt32} : Token t v → Words t [v]
  | cons {t s rest : List Char} {v : UInt32} {vs : List UInt32} :
      Token t v → s ≠ [] → Seps s → Words rest vs → Words (t ++ s ++ rest) (v :: vs)

/-- A line of an image without its comment, `sep* (tok (sep+ tok)*)? sep*`, with its tokens'
values. -/
inductive WordLine : List Char → List UInt32 → Prop
  | blank {s : List Char} : Seps s → WordLine s []
  | words {s₁ w s₂ : List Char} {vs : List UInt32} :
      Seps s₁ → Words w vs → Seps s₂ → WordLine (s₁ ++ w ++ s₂) vs

theorem seps_nil : Seps [] := fun _ h => absurd h List.not_mem_nil

theorem WordLine.of_token {t : List Char} {v : UInt32} (h : Token t v) : WordLine t [v] := by
  rw [show t = [] ++ t ++ [] by simp]
  exact .words seps_nil (.one h) seps_nil

theorem isSeparator_iff (c : Char) : isSeparator c = true ↔ c = ',' ∨ Text.isBlank c = true := by
  simp [isSeparator]

theorem seps_cons {c : Char} {s : List Char} : Seps (c :: s) ↔ isSeparator c = true ∧ Seps s := by
  simp only [Seps, List.forall_mem_cons, isSeparator_iff]

theorem isIdentChar_of_isHexDigit {c : Char} (h : Text.isHexDigit c = true) :
    Asm.isIdentChar c = true := by
  simp only [Text.isHexDigit, Bool.or_eq_true, Bool.and_eq_true, decide_eq_true_eq] at h
  rcases h with (h | ⟨h1, h2⟩) | ⟨h1, h2⟩
  · exact Asm.isIdentChar_of_isDigit h
  all_goals
    have hcodes : 'a'.val.toNat = 97 ∧ 'f'.val.toNat = 102 ∧ 'z'.val.toNat = 122 ∧
        'A'.val.toNat = 65 ∧ 'F'.val.toNat = 70 ∧ 'Z'.val.toNat = 90 :=
      ⟨rfl, rfl, rfl, rfl, rfl, rfl⟩
    apply Asm.isIdentChar_of_isAlpha
    simp only [Char.le_def, UInt32.le_iff_toNat_le] at h1 h2
    simp only [Char.isAlpha, Char.isUpper, Char.isLower, Bool.or_eq_true, Bool.and_eq_true,
      decide_eq_true_eq, UInt32.le_iff_toNat_le, ge_iff_le] at ⊢
    omega

theorem safe_of_isIdentChar {c : Char} (h : Asm.isIdentChar c = true) :
    isSeparator c = false ∧ c ≠ '#' ∧ c ≠ '/' := by
  obtain ⟨hb, hc, hh, hs⟩ := Asm.safe_of_isOperandChar (c := c) (by simp [Asm.isOperandChar, h])
  refine ⟨?_, hh, hs⟩
  simp [isSeparator, hb, hc]

theorem not_comment_of_isSeparator {c : Char} (h : isSeparator c = true) : c ≠ '#' ∧ c ≠ '/' := by
  constructor <;> (rintro rfl; revert h; decide)

theorem numeralValue_eq_ofDigits (b : Nat) (ds : List Char) :
    Text.numeralValue b ds = Nat.ofDigits b (ds.reverse.map Text.hexValue) := by
  -- the fold's accumulator stands in front of the digits still to come
  have key : ∀ acc, ds.foldl (fun n d => b * n + Text.hexValue d) acc =
      acc * b ^ ds.length + Nat.ofDigits b (ds.reverse.map Text.hexValue) := by
    induction ds with
    | nil => intro acc; simp
    | cons d ds ih =>
      intro acc
      rw [List.foldl_cons, ih, List.reverse_cons, List.map_append, Nat.ofDigits_append,
        List.length_map, List.length_reverse, List.map_singleton, Nat.ofDigits_singleton,
        List.length_cons, pow_succ]
      ring
  rw [Text.numeralValue, key, zero_mul, zero_add]

theorem Token.chars {t : List Char} {v : UInt32} (h : Token t v) :
    ∀ c ∈ t, Asm.isIdentChar c = true := by
  obtain ⟨pre, ds, hpre, -, hhex, -⟩ := h
  intro c hc
  rcases List.mem_append.mp hc with hc | hc
  · rcases hpre with rfl | rfl | rfl <;> simp at hc <;> rcases hc with rfl | rfl <;> decide
  · exact isIdentChar_of_isHexDigit (hhex c hc)

theorem Token.ne_nil {t : List Char} {v : UInt32} (h : Token t v) : t ≠ [] := by
  obtain ⟨pre, ds, -, hne, -, -⟩ := h
  simp [hne]

/-- Reading hex digits without a prefix: their value, if there are some and it fits 32 bits. -/
def digits? (ds : List Char) : Option UInt32 :=
  if (!ds.isEmpty && ds.all Text.isHexDigit && decide (Text.numeralValue 16 ds < 4294967296)) = true
  then some (Text.numeralValue 16 ds).toUInt32 else none

theorem digits?_eq_some_iff {ds : List Char} {v : UInt32} :
    digits? ds = some v ↔ ds ≠ [] ∧ (∀ c ∈ ds, Text.isHexDigit c = true) ∧
      digitsValue ds < 2 ^ 32 ∧ v = (digitsValue ds).toUInt32 := by
  rw [digits?, digitsValue, ← numeralValue_eq_ofDigits]
  split
  · rename_i h
    simp only [Bool.and_eq_true, Bool.not_eq_true', List.isEmpty_eq_false_iff, List.all_eq_true,
      decide_eq_true_eq] at h
    obtain ⟨⟨hne, hhex⟩, hlt⟩ := h
    simp only [Option.some.injEq]
    exact ⟨fun hv => ⟨hne, hhex, by omega, hv.symm⟩, fun ⟨_, _, _, hv⟩ => hv.symm⟩
  · rename_i h
    simp only [Bool.and_eq_true, Bool.not_eq_true', List.isEmpty_eq_false_iff, List.all_eq_true,
      decide_eq_true_eq, not_and] at h
    simp only [reduceCtorEq, false_iff, not_and]
    intro hne hhex hlt
    exact absurd (by omega) (h ⟨hne, hhex⟩)

theorem token?_marked {x : Char} (hx : x = 'x' ∨ x = 'X') (ds : List Char) :
    token? ('0' :: x :: ds) = digits? ds := by
  have hmark : (x == 'x' || x == 'X') = true := by
    rcases hx with rfl | rfl <;> rfl
  simp only [token?, hmark, if_true]
  rfl

theorem token?_plain {t : List Char}
    (h : ∀ x rest, t = '0' :: x :: rest → (x == 'x' || x == 'X') = false) :
    token? t = digits? t := by
  unfold token?
  split
  · rename_i x rest
    rw [h x rest rfl]
    rfl
  · rfl

theorem not_hexMark_of_isHexDigit {x : Char} (h : Text.isHexDigit x = true) :
    (x == 'x' || x == 'X') = false := by
  cases hx : (x == 'x' || x == 'X')
  · rfl
  · simp only [Bool.or_eq_true, beq_iff_eq] at hx
    rcases hx with rfl | rfl <;> exact absurd h (by decide)

theorem token?_eq_some_iff {t : List Char} {v : UInt32} : token? t = some v ↔ Token t v := by
  constructor
  · intro h
    by_cases hp : ∃ x rest, t = '0' :: x :: rest ∧ (x == 'x' || x == 'X') = true
    · obtain ⟨x, rest, rfl, hx⟩ := hp
      have hx' : x = 'x' ∨ x = 'X' := by simpa using hx
      rw [token?_marked hx' rest] at h
      obtain ⟨hne, hhex, hlt, rfl⟩ := digits?_eq_some_iff.mp h
      exact Token.mk ['0', x] rest (by rcases hx' with rfl | rfl <;> simp) hne hhex hlt
    · push Not at hp
      rw [token?_plain fun x rest ht => by simpa using hp x rest ht] at h
      obtain ⟨hne, hhex, hlt, rfl⟩ := digits?_eq_some_iff.mp h
      exact Token.mk [] t (.inl rfl) hne hhex hlt
  · rintro ⟨pre, ds, hpre, hne, hhex, hlt⟩
    rcases hpre with rfl | rfl | rfl
    · rw [List.nil_append,
        token?_plain fun x rest ht => not_hexMark_of_isHexDigit (hhex x (by simp [ht]))]
      exact digits?_eq_some_iff.mpr ⟨hne, hhex, hlt, rfl⟩
    · rw [show ['0', 'x'] ++ ds = '0' :: 'x' :: ds from rfl, token?_marked (.inl rfl)]
      exact digits?_eq_some_iff.mpr ⟨hne, hhex, hlt, rfl⟩
    · rw [show ['0', 'X'] ++ ds = '0' :: 'X' :: ds from rfl, token?_marked (.inr rfl)]
      exact digits?_eq_some_iff.mpr ⟨hne, hhex, hlt, rfl⟩

theorem Token.not_sep {t : List Char} {v : UInt32} (h : Token t v) :
    ∀ c ∈ t, isSeparator c = false := fun c hc => (safe_of_isIdentChar (h.chars c hc)).1

/-- The pieces of a line between its separators, empty ones dropped: what the parser reads as
tokens. -/
def pieces (cs : List Char) : List (List Char) := (cs.splitOnP isSeparator).filter (!·.isEmpty)

theorem lineWords?_eq (cs : List Char) : lineWords? cs = (pieces cs).mapM token? := rfl

@[simp] theorem pieces_nil : pieces [] = [] := by
  simp [pieces]

theorem pieces_append_sep (xs as : List Char) {c : Char} (hc : isSeparator c = true) :
    pieces (xs ++ c :: as) = pieces xs ++ pieces as := by
  simp only [pieces, List.splitOnP_append_cons xs as hc, List.filter_append]

theorem pieces_of_chunk {t : List Char} (ht : ∀ c ∈ t, isSeparator c = false) (hne : t ≠ []) :
    pieces t = [t] := by
  simp [pieces, List.splitOnP_eq_singleton ht, hne]

theorem pieces_seps_append {s : List Char} (hs : Seps s) (x : List Char) :
    pieces (s ++ x) = pieces x := by
  induction s with
  | nil => rfl
  | cons c s ih =>
    obtain ⟨hc, hs⟩ := seps_cons.mp hs
    rw [List.cons_append, ← List.nil_append (c :: (s ++ x)), pieces_append_sep [] _ hc, pieces_nil,
      List.nil_append]
    exact ih hs

theorem pieces_append_seps {s : List Char} (hs : Seps s) (x : List Char) :
    pieces (x ++ s) = pieces x := by
  cases s with
  | nil => rw [List.append_nil]
  | cons c s =>
    obtain ⟨hc, hs⟩ := seps_cons.mp hs
    rw [pieces_append_sep x s hc, ← List.append_nil s, pieces_seps_append hs, pieces_nil,
      List.append_nil]

theorem split_first (cs : List Char) :
    ∃ t rest, cs = t ++ rest ∧ (∀ c ∈ t, isSeparator c = false) ∧
      (rest = [] ∨ ∃ c r, rest = c :: r ∧ isSeparator c = true) := by
  refine ⟨cs.takeWhile (!isSeparator ·), cs.dropWhile (!isSeparator ·),
    List.takeWhile_append_dropWhile.symm, fun c hc => by simpa using List.mem_takeWhile_imp hc, ?_⟩
  cases hd : cs.dropWhile (!isSeparator ·) with
  | nil => exact .inl rfl
  | cons c r =>
    have hc := List.head_dropWhile_not (!isSeparator ·) (l := cs) (by simp [hd])
    simp only [hd, List.head_cons, Bool.not_eq_false'] at hc
    exact .inr ⟨c, r, rfl, by simpa using hc⟩

theorem Words.head {w : List Char} {vs : List UInt32} (h : Words w vs) :
    ∃ c w', w = c :: w' ∧ isSeparator c = false := by
  have key : ∀ {t : List Char} {v : UInt32} (x : List Char), Token t v →
      ∃ c w', t ++ x = c :: w' ∧ isSeparator c = false := by
    intro t v x ht
    obtain ⟨c, t', rfl⟩ := List.exists_cons_of_ne_nil ht.ne_nil
    exact ⟨c, t' ++ x, rfl, ht.not_sep c List.mem_cons_self⟩
  cases h with
  | one ht => simpa using key [] ht
  | cons ht _ _ _ => simpa [List.append_assoc] using key _ ht

theorem Words.mapM_pieces {w : List Char} {vs : List UInt32} (h : Words w vs) :
    (pieces w).mapM token? = some vs := by
  induction h with
  | one ht =>
    rw [pieces_of_chunk ht.not_sep ht.ne_nil]
    simp [token?_eq_some_iff.mpr ht]
  | @cons t s rest v vs ht hne hs _ ih =>
    obtain ⟨c, s', rfl⟩ := List.exists_cons_of_ne_nil hne
    obtain ⟨hc, hs'⟩ := seps_cons.mp hs
    rw [List.append_assoc, List.cons_append, pieces_append_sep _ _ hc,
      pieces_of_chunk ht.not_sep ht.ne_nil, pieces_seps_append hs']
    simp [token?_eq_some_iff.mpr ht, ih]

theorem lineWords?_of_wordLine {cs : List Char} {vs : List UInt32} (h : WordLine cs vs) :
    lineWords? cs = some vs := by
  rw [lineWords?_eq]
  cases h with
  | blank hs =>
    rw [← List.append_nil cs, pieces_seps_append hs, pieces_nil]
    rfl
  | words hs₁ hw hs₂ =>
    rw [List.append_assoc, pieces_seps_append hs₁, pieces_append_seps hs₂]
    exact hw.mapM_pieces

theorem WordLine.cons_sep {c : Char} {cs : List Char} {vs : List UInt32}
    (hc : isSeparator c = true) (h : WordLine cs vs) : WordLine (c :: cs) vs := by
  cases h with
  | blank hs => exact .blank (seps_cons.mpr ⟨hc, hs⟩)
  | words hs₁ hw hs₂ =>
    rw [← List.cons_append, ← List.cons_append]
    exact .words (seps_cons.mpr ⟨hc, hs₁⟩) hw hs₂

theorem WordLine.token_append {t rest : List Char} {v : UInt32} {vs : List UInt32}
    (ht : Token t v) (hr : ∀ c ∈ rest.head?, isSeparator c = true) (h : WordLine rest vs) :
    WordLine (t ++ rest) (v :: vs) := by
  cases h with
  | blank hs =>
    rw [show t ++ rest = [] ++ t ++ rest from rfl]
    exact .words seps_nil (.one ht) hs
  | @words s₁ w s₂ vs hs₁ hw hs₂ =>
    cases s₁ with
    | nil =>
      obtain ⟨c, w', rfl, hc⟩ := hw.head
      have := hr c (by simp)
      rw [hc] at this
      cases this
    | cons c s₁ =>
      have e : t ++ (c :: s₁ ++ w ++ s₂) = [] ++ (t ++ c :: s₁ ++ w) ++ s₂ := by simp
      rw [e]
      exact .words seps_nil (.cons ht (by simp) hs₁ hw) hs₂

theorem mapM_token?_cons {t : List Char} {ts : List (List Char)} {vs : List UInt32}
    (h : (t :: ts).mapM token? = some vs) :
    ∃ v vs', token? t = some v ∧ ts.mapM token? = some vs' ∧ vs = v :: vs' := by
  simp only [List.mapM_cons, Option.pure_def, Option.bind_eq_bind, Option.bind_eq_some_iff,
    Option.some.injEq] at h
  obtain ⟨v, hv, vs', hvs, rfl⟩ := h
  exact ⟨v, vs', hv, hvs, rfl⟩

theorem wordLine_of_lineWords? {cs : List Char} {vs : List UInt32} (h : lineWords? cs = some vs) :
    WordLine cs vs := by
  obtain ⟨t, rest, rfl, ht, hrest⟩ := split_first cs
  rw [lineWords?_eq] at h
  rcases hrest with rfl | ⟨c, r, rfl, hc⟩
  · rw [List.append_nil] at h ⊢
    by_cases hne : t = []
    · subst hne
      simp only [pieces_nil, List.mapM_nil, Option.pure_def, Option.some.injEq] at h
      subst h
      exact .blank seps_nil
    · rw [pieces_of_chunk ht hne] at h
      obtain ⟨v, vs', hv, hvs, rfl⟩ := mapM_token?_cons h
      simp only [List.mapM_nil, Option.pure_def, Option.some.injEq] at hvs
      subst hvs
      exact .of_token (token?_eq_some_iff.mp hv)
  · rw [pieces_append_sep t r hc] at h
    by_cases hne : t = []
    · subst hne
      rw [pieces_nil, List.nil_append, ← lineWords?_eq] at h
      exact (wordLine_of_lineWords? h).cons_sep hc
    · rw [pieces_of_chunk ht hne, List.singleton_append] at h
      obtain ⟨v, vs', hv, hvs, rfl⟩ := mapM_token?_cons h
      rw [← lineWords?_eq] at hvs
      exact .token_append (token?_eq_some_iff.mp hv) (by simp [hc])
        ((wordLine_of_lineWords? hvs).cons_sep hc)
termination_by cs.length
decreasing_by all_goals subst_vars; simp only [List.length_append, List.length_cons]; omega

theorem lineWords?_eq_some_iff {cs : List Char} {vs : List UInt32} :
    lineWords? cs = some vs ↔ WordLine cs vs :=
  ⟨wordLine_of_lineWords?, lineWords?_of_wordLine⟩

theorem WordLine.unique {cs : List Char} {vs vs' : List UInt32} (h : WordLine cs vs)
    (h' : WordLine cs vs') : vs = vs' := by
  have e := (lineWords?_of_wordLine h).symm.trans (lineWords?_of_wordLine h')
  exact Option.some.inj e

/-- The error for a line that is not a word line, numbered `n`: it shows the line's code. -/
def lineError (n : Nat) (l : List Char) : CoreError :=
  .imageParse n s!"expected 32-bit hex words, found `{String.ofList (Text.codeOf l)}`"

theorem append_map_eq_ok {vs ws : List UInt32} {x : Except CoreError (List UInt32)} :
    (vs ++ ·) <$> x = .ok ws ↔ ∃ ws', x = .ok ws' ∧ ws = vs ++ ws' := by
  cases x with
  | error e =>
    constructor
    · intro h
      cases h
    · rintro ⟨_, h, -⟩
      cases h
  | ok ws' =>
    constructor
    · intro h
      cases h
      exact ⟨ws', rfl, rfl⟩
    · rintro ⟨_, ⟨⟩, rfl⟩
      rfl

theorem append_map_eq_error {vs : List UInt32} {x : Except CoreError (List UInt32)}
    {e : CoreError} : (vs ++ ·) <$> x = .error e ↔ x = .error e := by
  cases x with
  | error e' =>
    constructor <;> (intro h; cases h; rfl)
  | ok ws' =>
    constructor <;> (intro h; cases h)

theorem wordsFrom_cons_of_wordLine {n : Nat} {l : List Char} {ls : List (List Char)}
    {vs : List UInt32} (h : WordLine (Text.dropComment l) vs) :
    wordsFrom n (l :: ls) = (vs ++ ·) <$> wordsFrom (n + 1) ls := by
  rw [wordsFrom, lineWords?_eq_some_iff.mpr h]

theorem wordsFrom_cons_of_not {n : Nat} {l : List Char} {ls : List (List Char)}
    (h : ¬ ∃ vs, WordLine (Text.dropComment l) vs) :
    wordsFrom n (l :: ls) = .error (lineError n l) := by
  have hnone : lineWords? (Text.dropComment l) = none := by
    cases hw : lineWords? (Text.dropComment l) with
    | none => rfl
    | some vs => exact absurd ⟨vs, lineWords?_eq_some_iff.mp hw⟩ h
  rw [wordsFrom, hnone]
  rfl

theorem exists_of_forall₂ {α β : Type} {R : α → β → Prop} {l : List α} {u : List β}
    (h : List.Forall₂ R l u) : ∀ a ∈ l, ∃ b, R a b :=
  ((List.forall₂_and_left _ _).mp (h.imp fun _ b hab => ⟨⟨b, hab⟩, hab⟩)).1

theorem wordsFrom_eq_ok_iff (n : Nat) (ls : List (List Char)) (ws : List UInt32) :
    wordsFrom n ls = .ok ws ↔
      ∃ vss, List.Forall₂ (fun l vs => WordLine (Text.dropComment l) vs) ls vss ∧ ws = vss.flatten := by
  induction ls generalizing n ws with
  | nil =>
    simp only [wordsFrom, Except.ok.injEq, List.forall₂_nil_left_iff, exists_eq_left,
      List.flatten_nil]
    exact eq_comm
  | cons l ls ih =>
    by_cases hl : ∃ vs, WordLine (Text.dropComment l) vs
    · obtain ⟨vs, hvs⟩ := hl
      rw [wordsFrom_cons_of_wordLine hvs, append_map_eq_ok]
      constructor
      · rintro ⟨ws', hws', rfl⟩
        obtain ⟨vss, hvss, rfl⟩ := (ih (n + 1) ws').mp hws'
        exact ⟨vs :: vss, .cons hvs hvss, rfl⟩
      · rintro ⟨_ | ⟨vs', vss⟩, hR, rfl⟩
        · cases hR
        · obtain ⟨hvs', hvss⟩ := List.forall₂_cons.mp hR
          exact ⟨vss.flatten, (ih (n + 1) _).mpr ⟨vss, hvss, rfl⟩, by rw [hvs.unique hvs']; rfl⟩
    · rw [wordsFrom_cons_of_not hl]
      constructor
      · intro h
        cases h
      rintro ⟨_ | ⟨vs, vss⟩, hR, -⟩
      · cases hR
      · exact absurd ⟨vs, (List.forall₂_cons.mp hR).1⟩ hl

theorem wordsFrom_eq_error_iff (n : Nat) (ls : List (List Char)) (e : CoreError) :
    wordsFrom n ls = .error e ↔ ∃ good bad rest, ls = good ++ bad :: rest ∧
      (∀ l ∈ good, ∃ vs, WordLine (Text.dropComment l) vs) ∧
      (¬ ∃ vs, WordLine (Text.dropComment bad) vs) ∧ e = lineError (n + good.length) bad := by
  induction ls generalizing n with
  | nil =>
    constructor
    · intro h
      cases h
    · rintro ⟨good, bad, rest, h, -⟩
      simp at h
  | cons l ls ih =>
    by_cases hl : ∃ vs, WordLine (Text.dropComment l) vs
    · obtain ⟨vs, hvs⟩ := hl
      rw [wordsFrom_cons_of_wordLine hvs, append_map_eq_error, ih (n + 1)]
      constructor
      · rintro ⟨good, bad, rest, rfl, hgood, hbad, rfl⟩
        refine ⟨l :: good, bad, rest, rfl, ?_, hbad, by simp [Nat.add_assoc, Nat.add_comm 1]⟩
        exact fun l' hl' => (List.mem_cons.mp hl').elim (fun e => e ▸ ⟨vs, hvs⟩) (hgood l')
      · rintro ⟨_ | ⟨g, good⟩, bad, rest, hls, hgood, hbad, rfl⟩
        · obtain ⟨rfl, -⟩ := List.cons.inj hls
          exact absurd ⟨vs, hvs⟩ hbad
        · obtain ⟨-, rfl⟩ := List.cons.inj hls
          refine ⟨good, bad, rest, rfl, fun l' hl' => hgood l' (List.mem_cons_of_mem g hl'), hbad,
            ?_⟩
          simp [Nat.add_assoc, Nat.add_comm 1]
    · rw [wordsFrom_cons_of_not hl]
      constructor
      · rintro ⟨⟩
        exact ⟨[], l, ls, rfl, fun _ h => absurd h List.not_mem_nil, hl, rfl⟩
      · rintro ⟨_ | ⟨g, good⟩, bad, rest, hls, hgood, hbad, rfl⟩
        · obtain ⟨rfl, -⟩ := List.cons.inj hls
          rfl
        · obtain ⟨rfl, -⟩ := List.cons.inj hls
          exact absurd (hgood _ List.mem_cons_self) hl

theorem wordsFrom_ok_iff (n : Nat) (ls : List (List Char)) :
    (∃ ws, wordsFrom n ls = .ok ws) ↔ ∀ l ∈ ls, ∃ vs, WordLine (Text.dropComment l) vs := by
  constructor
  · rintro ⟨ws, h⟩
    obtain ⟨vss, hR, -⟩ := (wordsFrom_eq_ok_iff n ls ws).mp h
    exact exists_of_forall₂ hR
  · intro h
    cases hw : wordsFrom n ls with
    | ok ws => exact ⟨ws, rfl⟩
    | error e =>
      obtain ⟨good, bad, rest, rfl, -, hbad, -⟩ := (wordsFrom_eq_error_iff n _ e).mp hw
      exact absurd (h bad (by simp)) hbad

/-- A comment: nothing, or the text from a `#` or a `//` on. -/
def IsComment (cs : List Char) : Prop :=
  cs = [] ∨ (∃ r, cs = '#' :: r) ∨ ∃ r, cs = '/' :: '/' :: r

/-- A line as written in an image: a word line with its values, then maybe a comment, and no
line feed. -/
def WrittenLine (l : List Char) (vs : List UInt32) : Prop :=
  '\n' ∉ l ∧ ∃ code comment, l = code ++ comment ∧ WordLine code vs ∧ IsComment comment

/-- A text of written lines joined by line feeds, with the values of each line. -/
def Written (text : String) (vss : List (List UInt32)) : Prop :=
  ∃ ls, text = String.ofList (['\n'].intercalate ls) ∧ List.Forall₂ WrittenLine ls vss

theorem Words.chars {w : List Char} {vs : List UInt32} (h : Words w vs) :
    ∀ c ∈ w, isSeparator c = true ∨ Asm.isIdentChar c = true := by
  induction h with
  | one ht => exact fun c hc => .inr (ht.chars c hc)
  | cons ht _ hs _ ih =>
    intro c hc
    simp only [List.mem_append] at hc
    rcases hc with (hc | hc) | hc
    · exact .inr (ht.chars c hc)
    · exact .inl ((isSeparator_iff c).mpr (hs c hc))
    · exact ih c hc

theorem WordLine.chars {cs : List Char} {vs : List UInt32} (h : WordLine cs vs) :
    ∀ c ∈ cs, isSeparator c = true ∨ Asm.isIdentChar c = true := by
  have hsep : ∀ {s : List Char}, Seps s →
      ∀ c ∈ s, isSeparator c = true ∨ Asm.isIdentChar c = true :=
    fun hs c hc => .inl ((isSeparator_iff c).mpr (hs c hc))
  cases h with
  | blank hs => exact hsep hs
  | words hs₁ hw hs₂ =>
    intro c hc
    simp only [List.mem_append] at hc
    rcases hc with (hc | hc) | hc
    · exact hsep hs₁ c hc
    · exact hw.chars c hc
    · exact hsep hs₂ c hc

theorem WordLine.no_comment {cs : List Char} {vs : List UInt32} (h : WordLine cs vs) :
    ∀ c ∈ cs, c ≠ '#' ∧ c ≠ '/' := by
  intro c hc
  rcases h.chars c hc with h | h
  · exact not_comment_of_isSeparator h
  · exact (safe_of_isIdentChar h).2

theorem dropComment_append {code comment : List Char} (h : ∀ c ∈ code, c ≠ '#' ∧ c ≠ '/')
    (hc : IsComment comment) : Text.dropComment (code ++ comment) = code := by
  induction code with
  | nil => rcases hc with rfl | ⟨r, rfl⟩ | ⟨r, rfl⟩ <;> rfl
  | cons c cs ih =>
    obtain ⟨h1, h2⟩ := h c List.mem_cons_self
    have ih' := ih fun d hd => h d (List.mem_cons_of_mem _ hd)
    rw [List.cons_append]
    unfold Text.dropComment
    split <;> simp_all

theorem WrittenLine.wordLine {l : List Char} {vs : List UInt32} (h : WrittenLine l vs) :
    WordLine (Text.dropComment l) vs := by
  obtain ⟨-, code, comment, rfl, hw, hc⟩ := h
  rw [dropComment_append hw.no_comment hc]
  exact hw

theorem IsComment.dropLast {cs : List Char} (h : IsComment cs) (hl : cs.getLast? = some '\r') :
    IsComment cs.dropLast := by
  rcases h with rfl | ⟨r, rfl⟩ | ⟨r, rfl⟩
  · cases hl
  · cases r with
    | nil => exact .inl rfl
    | cons x r => exact .inr (.inl ⟨(x :: r).dropLast, rfl⟩)
  · cases r with
    | nil => exact absurd hl (by decide)
    | cons x r => exact .inr (.inr ⟨(x :: r).dropLast, rfl⟩)

theorem WrittenLine.dropReturn {l : List Char} {vs : List UInt32} (h : WrittenLine l vs) :
    WrittenLine (Text.dropReturn l) vs := by
  unfold Text.dropReturn
  split
  · rename_i hr
    obtain ⟨hn, code, comment, rfl, hw, hc⟩ := h
    refine ⟨fun hm => hn (List.dropLast_subset _ hm), ?_⟩
    by_cases hcn : comment = []
    · subst hcn
      rw [List.append_nil] at hr ⊢
      obtain ⟨code', rfl⟩ := List.getLast?_eq_some_iff.mp hr
      refine ⟨code', [], by simp, ?_, .inl rfl⟩
      have hs : Seps ['\r'] := fun c hc => .inr (by rw [List.mem_singleton.mp hc]; decide)
      rw [← lineWords?_eq_some_iff, lineWords?_eq, ← pieces_append_seps hs, ← lineWords?_eq]
      exact lineWords?_of_wordLine hw
    · have hcr : comment.getLast? = some '\r' := by
        rw [List.getLast?_append, List.getLast?_eq_some_getLast hcn, Option.some_or] at hr
        rw [List.getLast?_eq_some_getLast hcn, hr]
      exact ⟨code, comment.dropLast, List.dropLast_append_of_ne_nil hcn, hw, hc.dropLast hcr⟩
  · exact h

theorem lines_intercalate {init : List (List Char)} {last : List Char}
    (h : ∀ l ∈ init ++ [last], '\n' ∉ l) :
    Text.lines (String.ofList (['\n'].intercalate (init ++ [last]))) =
      init.map Text.dropReturn ++ if last.isEmpty then [] else [last] := by
  rw [Text.lines, String.toList_ofList, List.splitOn_intercalate '\n' h (by simp),
    List.reverse_append, List.reverse_singleton, List.singleton_append]
  dsimp only
  rw [List.reverse_reverse]
  split <;> simp

theorem forall₂_concat_left {R : List Char → List UInt32 → Prop} {init : List (List Char)}
    {last : List Char} {vss : List (List UInt32)} (h : List.Forall₂ R (init ++ [last]) vss) :
    ∃ vinit vlast, vss = vinit ++ [vlast] ∧ List.Forall₂ R init vinit ∧ R last vlast := by
  have hrev := List.forall₂_reverse_iff.mpr h
  rw [List.reverse_append, List.reverse_singleton, List.singleton_append] at hrev
  obtain ⟨vlast, u, hlast, hu, hvss⟩ := List.forall₂_cons_left_iff.mp hrev
  refine ⟨u.reverse, vlast, ?_, List.forall₂_reverse_iff.mp (by rwa [List.reverse_reverse]), hlast⟩
  rw [← List.reverse_reverse vss, hvss, List.reverse_cons]

theorem parse_of_written {text : String} {vss : List (List UInt32)} (h : Written text vss) :
    parse text = .ok vss.flatten := by
  obtain ⟨ls, rfl, hls⟩ := h
  have hfeed : ∀ l ∈ ls, '\n' ∉ l := fun l hl => (exists_of_forall₂ hls l hl).elim fun _ hw => hw.1
  rw [parse, wordsFrom_eq_ok_iff]
  rcases List.eq_nil_or_concat ls with rfl | ⟨init, last, rfl⟩
  · rw [List.forall₂_nil_left_iff.mp hls, Text.lines, String.toList_ofList]
    exact ⟨[], .nil, rfl⟩
  · rw [List.concat_eq_append] at hls hfeed ⊢
    obtain ⟨vinit, vlast, rfl, hinit, hlast⟩ := forall₂_concat_left hls
    rw [lines_intercalate hfeed]
    have hfront : List.Forall₂ (fun l vs => WordLine (Text.dropComment l) vs)
        (init.map Text.dropReturn) vinit :=
      List.forall₂_map_left_iff.mpr (hinit.imp fun _ _ hw => hw.dropReturn.wordLine)
    by_cases hl : last = []
    · subst hl
      have hv : vlast = [] := hlast.wordLine.unique (.blank seps_nil)
      subst hv
      exact ⟨vinit, by simpa using hfront, by simp⟩
    · refine ⟨vinit ++ [vlast], ?_, rfl⟩
      rw [if_neg (by simpa using hl)]
      exact List.rel_append hfront (.cons hlast.wordLine .nil)

/-- A word written as a token: a leading `0`, then its hex digits. -/
def hexText (v : UInt32) : List Char := '0' :: (Nat.digits 16 v.toNat).reverse.map Nat.digitChar

/-- Words written one to a line. -/
def render (ws : List UInt32) : String := String.ofList (['\n'].intercalate (ws.map hexText))

theorem digitChar_hex : ∀ d < 16, Text.isHexDigit (Nat.digitChar d) = true ∧
    Text.hexValue (Nat.digitChar d) = d := by
  decide

theorem token_hexText (v : UInt32) : Token (hexText v) v := by
  have hd : ∀ d ∈ Nat.digits 16 v.toNat, d < 16 := fun d hd => Nat.digits_lt_base (by norm_num) hd
  have hval : digitsValue (hexText v) = v.toNat := by
    have hmap :
        (Nat.digits 16 v.toNat).map (Text.hexValue ∘ Nat.digitChar) = Nat.digits 16 v.toNat := by
      conv_rhs => rw [← List.map_id (Nat.digits 16 v.toNat)]
      exact List.map_congr_left fun d hd' => (digitChar_hex d (hd d hd')).2
    rw [digitsValue, hexText, List.reverse_cons, ← List.map_reverse, List.reverse_reverse,
      List.map_append, List.map_map, hmap, Nat.ofDigits_append]
    simp [Text.hexValue, Nat.ofDigits_digits]
  have hhex : ∀ c ∈ hexText v, Text.isHexDigit c = true := by
    intro c hc
    simp only [hexText, List.mem_cons, List.mem_map, List.mem_reverse] at hc
    rcases hc with rfl | ⟨d, hd', rfl⟩
    · rfl
    · exact (digitChar_hex d (hd d hd')).1
  have ht := Token.mk [] (hexText v) (.inl rfl) (List.cons_ne_nil _ _) hhex
    (by rw [hval]; exact v.toNat_lt)
  have hv : v.toNat.toUInt32 = v := UInt32.ofNat_toNat
  rwa [List.nil_append, hval, hv] at ht

theorem written_render (ws : List UInt32) : Written (render ws) (ws.map fun w => [w]) := by
  refine ⟨ws.map hexText, rfl, ?_⟩
  rw [List.forall₂_map_left_iff, List.forall₂_map_right_iff]
  refine List.forall₂_same.mpr fun v _ => ⟨?_, hexText v, [], (List.append_nil _).symm,
    .of_token (token_hexText v), .inl rfl⟩
  intro hn
  exact absurd ((token_hexText v).not_sep '\n' hn) (by decide)

/-- The grammar of hex images. Each line of a text, cut at its first `#` or `//`, is read as a
word line `sep* (tok (sep+ tok)*)? sep*`: the text parses exactly when every line is one, to the
values of all lines' tokens in order; otherwise it fails naming the first line that is not,
counted from 1, with that line's code. Words written as tokens over lines, with separators and
comments, read back, and every list of words is written so. -/
theorem hex_image_grammar :
    (∀ text ws, parse text = .ok ws ↔ ∃ vss,
      List.Forall₂ (fun l vs => WordLine (Text.dropComment l) vs) (Text.lines text) vss ∧
        ws = vss.flatten) ∧
    (∀ text, (∃ ws, parse text = .ok ws) ↔
      ∀ l ∈ Text.lines text, ∃ vs, WordLine (Text.dropComment l) vs) ∧
    (∀ text e, parse text = .error e ↔ ∃ good bad rest, Text.lines text = good ++ bad :: rest ∧
      (∀ l ∈ good, ∃ vs, WordLine (Text.dropComment l) vs) ∧
      (¬ ∃ vs, WordLine (Text.dropComment bad) vs) ∧ e = lineError (good.length + 1) bad) ∧
    (∀ text vss, Written text vss → parse text = .ok vss.flatten) ∧
    (∀ ws, Written (render ws) (ws.map fun w => [w])) := by
  refine ⟨fun text ws => wordsFrom_eq_ok_iff 1 _ ws, fun text => wordsFrom_ok_iff 1 _,
    fun text e => ?_, fun text vss h => parse_of_written h, written_render⟩
  rw [parse, wordsFrom_eq_error_iff]
  simp only [Nat.add_comm 1]

theorem hex_image_grammar_lines :
    parse (render [0x13, 0xdeadbeef]) = .ok [0x13, 0xdeadbeef] ∧
    parse "0x13,\n0x13 zz\n" = .error (lineError 2 "0x13 zz".toList) := by
  obtain ⟨-, -, herror, hwritten, hrender⟩ := hex_image_grammar
  refine ⟨hwritten _ _ (hrender _), (herror _ _).mpr ⟨["0x13,".toList], "0x13 zz".toList, [], ?_,
    ?_, ?_, rfl⟩⟩
  · rfl
  · intro l hl
    rw [List.mem_singleton.mp hl]
    exact ⟨[0x13], lineWords?_eq_some_iff.mp (by decide)⟩
  · rintro ⟨vs, hvs⟩
    have hnone : lineWords? (Text.dropComment "0x13 zz".toList) = none := by decide
    rw [lineWords?_eq_some_iff.mpr hvs] at hnone
    cases hnone

end RiscvCore.Image
