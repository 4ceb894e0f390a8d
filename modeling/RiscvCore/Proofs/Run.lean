import Mathlib
import RiscvCore.Core.Step

namespace RiscvCore

namespace Core

variable (fetch : UInt16 → UInt32)

/-- Whether the next step of `c` halts: the word at its pc is `ret` and the policy accepts the
pc it goes to. -/
def haltsNow (c : Core) : Bool :=
  halts c.policy (fetch c.pc) (execute (decode (fetch c.pc)) c.regs c.pc).nextPc

def after (i : Nat) (c : Core) : Core := (fun c => (c.advance fetch).2)^[i] c

section Advance
variable (c : Core)

@[simp] theorem advance_count : (c.advance fetch).2.count = c.count + 1 := rfl

@[simp] theorem advance_limit : (c.advance fetch).2.limit = c.limit := rfl

@[simp] theorem advance_policy : (c.advance fetch).2.policy = c.policy := rfl

theorem advance_state :
    (c.advance fetch).2.state = if c.haltsNow fetch then .stopped else c.state := rfl

theorem advance_pc : (c.advance fetch).2.pc = (execute (decode (fetch c.pc)) c.regs c.pc).nextPc :=
  rfl

theorem advance_running (hrun : c.state = .running) (h : c.haltsNow fetch = false) :
    (c.advance fetch).2.state = .running := by
  rw [advance_state, h]
  exact hrun

theorem haltsNow_spec (h : c.haltsNow fetch = true) :
    fetch c.pc = Encode.retWord ∧ (c.policy = .returnToZero → (c.advance fetch).2.pc = 0) := by
  simp only [haltsNow, halts, Bool.and_eq_true, beq_iff_eq, Bool.or_eq_true] at h
  refine ⟨h.1, fun hp => ?_⟩
  rw [advance_pc]
  rcases h.2 with h' | h'
  · rw [hp] at h'; cases h'
  · exact h'

end Advance

section Step
variable {c : Core}

theorem step_ok (hrun : c.state = .running) (hb : ∀ L, c.limit = some L → c.count < L) :
    c.step fetch = .ok (if c.haltsNow fetch then .halted else .proceed, (c.advance fetch).2) := by
  unfold step
  rw [if_neg (by rw [hrun]; decide)]
  cases hl : c.limit with
  | none => rfl
  | some L =>
    dsimp only
    rw [if_neg (Nat.not_le.mpr (hb L hl))]
    rfl

theorem step_limit (hrun : c.state = .running) {L : Nat} (hl : c.limit = some L)
    (hc : L ≤ c.count) :
    c.step fetch = .error (.limitExceeded L c.count c.pc c.regs.snapshot) := by
  unfold step
  rw [if_neg (by rw [hrun]; decide), hl]
  dsimp only
  rw [if_pos hc]

end Step

section After
variable (c : Core)

@[simp] theorem after_zero : c.after fetch 0 = c := rfl

theorem after_succ (i : Nat) : c.after fetch (i + 1) = (c.advance fetch).2.after fetch i :=
  Function.iterate_succ_apply _ i c

theorem after_succ' (i : Nat) : c.after fetch (i + 1) = ((c.after fetch i).advance fetch).2 :=
  Function.iterate_succ_apply' _ i c

@[simp] theorem after_count (i : Nat) : (c.after fetch i).count = c.count + i := by
  induction i with
  | zero => rfl
  | succ i ih => rw [after_succ', advance_count, ih, Nat.add_assoc]

@[simp] theorem after_limit (i : Nat) : (c.after fetch i).limit = c.limit := by
  induction i with
  | zero => rfl
  | succ i ih => rw [after_succ', advance_limit, ih]

@[simp] theorem after_policy (i : Nat) : (c.after fetch i).policy = c.policy := by
  induction i with
  | zero => rfl
  | succ i ih => rw [after_succ', advance_policy, ih]

theorem after_running {i : Nat} (hrun : c.state = .running)
    (h : ∀ j < i, (c.after fetch j).haltsNow fetch = false) :
    (c.after fetch i).state = .running := by
  induction i with
  | zero => exact hrun
  | succ i ih =>
    rw [after_succ']
    exact advance_running fetch _ (ih fun j hj => h j (Nat.lt_succ_of_lt hj))
      (h i (Nat.lt_succ_self i))

theorem noHalt_advance {m : Nat} (hnot : ∀ i < m + 1, (c.after fetch i).haltsNow fetch = false) :
    ∀ i < m, ((c.advance fetch).2.after fetch i).haltsNow fetch = false := fun i hi => by
  rw [← after_succ]
  exact hnot (i + 1) (by omega)

end After

section Runs
variable {c : Core}

theorem runFor_proceed (hrun : c.state = .running) (hb : ∀ L, c.limit = some L → c.count < L)
    (h : c.haltsNow fetch = false) (k : Nat) :
    runFor fetch (k + 1) c = runFor fetch k (c.advance fetch).2 := by
  rw [runFor, step_ok fetch hrun hb, if_neg (by rw [h]; decide)]

theorem runFor_halts {j : Nat} (hrun : c.state = .running)
    (hb : ∀ L, c.limit = some L → c.count + j < L)
    (hnot : ∀ i < j, (c.after fetch i).haltsNow fetch = false)
    (hhalt : (c.after fetch j).haltsNow fetch = true) {k : Nat} (hk : j < k) :
    runFor fetch k c = (c.after fetch (j + 1), .ok (c.count + j + 1)) := by
  -- induction on the advances before the halting one; each is a step that proceeds
  induction j generalizing c k with
  | zero =>
    obtain ⟨k, rfl⟩ : ∃ k', k = k' + 1 := ⟨k - 1, by omega⟩
    have h0 : c.haltsNow fetch = true := hhalt
    rw [runFor, step_ok fetch hrun (fun L hl => by simpa using hb L hl), if_pos h0]
    rfl
  | succ j ih =>
    obtain ⟨k, rfl⟩ : ∃ k', k = k' + 1 := ⟨k - 1, by omega⟩
    have h0 : c.haltsNow fetch = false := hnot 0 (by omega)
    rw [runFor_proceed fetch hrun (fun L hl => by have := hb L hl; omega) h0,
      ih (advance_running fetch c hrun h0)
        (fun L hl => by rw [advance_limit] at hl; have := hb L hl; simp; omega)
        (noHalt_advance fetch c hnot) (by rw [← after_succ]; exact hhalt) (by omega),
      ← after_succ, advance_count]
    simp only [Nat.add_assoc, Nat.add_comm 1]

theorem runFor_limit {m L : Nat} (hrun : c.state = .running) (hl : c.limit = some L)
    (hm : c.count + m = L) (hnot : ∀ i < m, (c.after fetch i).haltsNow fetch = false) {k : Nat}
    (hk : m < k) :
    runFor fetch k c =
      (c.after fetch m, .error (.limitExceeded L L (c.after fetch m).pc
        (c.after fetch m).regs.snapshot)) := by
  induction m generalizing c k with
  | zero =>
    obtain ⟨k, rfl⟩ : ∃ k', k = k' + 1 := ⟨k - 1, by omega⟩
    rw [runFor, step_limit fetch hrun hl (by omega)]
    simp only [after_zero, ← hm, Nat.add_zero]
  | succ m ih =>
    obtain ⟨k, rfl⟩ : ∃ k', k = k' + 1 := ⟨k - 1, by omega⟩
    have h0 : c.haltsNow fetch = false := hnot 0 (by omega)
    rw [runFor_proceed fetch hrun (fun L' hl' => by rw [hl] at hl'; cases hl'; omega) h0,
      ih (advance_running fetch c hrun h0) (by rw [advance_limit, hl])
        (by rw [advance_count]; omega) (noHalt_advance fetch c hnot) (by omega), ← after_succ]

theorem runFor_unlimited {k : Nat} (hrun : c.state = .running) (hl : c.limit = none)
    (hnot : ∀ i < k, (c.after fetch i).haltsNow fetch = false) :
    runFor fetch k c =
      (c.after fetch k, .error (.limitExceeded (c.count + k) (c.count + k) (c.after fetch k).pc
        (c.after fetch k).regs.snapshot)) := by
  induction k generalizing c with
  | zero => rfl
  | succ k ih =>
    have h0 : c.haltsNow fetch = false := hnot 0 (by omega)
    rw [runFor_proceed fetch hrun (fun L hL => by rw [hl] at hL; cases hL) h0,
      ih (advance_running fetch c hrun h0) (by rw [advance_limit, hl])
        (noHalt_advance fetch c hnot), ← after_succ, advance_count]
    simp only [Nat.add_assoc, Nat.add_comm 1]

end Runs

theorem run_eq_runFor (c : Core) (start : UInt16) :
    c.run start fetch = runFor fetch (c.limit.getD (2 ^ 64) + 1) (c.reset start) := rfl

/-- A run from `c₀` that halted on its `n`-th step and left the core `c'`: the `n`-th word
fetched was `ret`, no earlier step met the halt condition, the core is stopped with `n`
instructions retired, and under `returnToZero` it stopped at address 0. -/
structure HaltedAfter (c₀ : Core) (n : Nat) (c' : Core) : Prop where
  final : c' = c₀.after fetch n
  stopped : c'.state = .stopped
  count : c'.count = n
  fetchedRet : fetch (c₀.after fetch (n - 1)).pc = Encode.retWord
  noEarlierHalt : ∀ i < n - 1, (c₀.after fetch i).haltsNow fetch = false
  atZero : c₀.policy = .returnToZero → c'.pc = 0

theorem haltedAfter_first {c₀ : Core} {j : Nat} (h0 : c₀.count = 0)
    (hnot : ∀ i < j, (c₀.after fetch i).haltsNow fetch = false)
    (hhalt : (c₀.after fetch j).haltsNow fetch = true) :
    HaltedAfter fetch c₀ (j + 1) (c₀.after fetch (j + 1)) where
  final := rfl
  stopped := by rw [after_succ', advance_state, if_pos hhalt]
  count := by rw [after_count, h0, Nat.zero_add]
  fetchedRet := (haltsNow_spec fetch _ hhalt).1
  noEarlierHalt := hnot
  atZero := fun hp => by
    rw [after_succ']
    exact (haltsNow_spec fetch _ hhalt).2 (by rw [after_policy, hp])

theorem first_halt (c : Core) (B : Nat) :
    (∃ j < B, (∀ i < j, (c.after fetch i).haltsNow fetch = false) ∧
      (c.after fetch j).haltsNow fetch = true) ∨
    (∀ i < B, (c.after fetch i).haltsNow fetch = false) := by
  induction B with
  | zero => exact .inr fun i hi => absurd hi (Nat.not_lt_zero i)
  | succ B ih =>
    rcases ih with ⟨j, hj, hfirst⟩ | hnone
    · exact .inl ⟨j, by omega, hfirst⟩
    · cases hB : (c.after fetch B).haltsNow fetch with
      | true => exact .inl ⟨B, by omega, hnone, hB⟩
      | false =>
        refine .inr fun i hi => ?_
        rcases Nat.lt_succ_iff_lt_or_eq.mp hi with hi | rfl
        · exact hnone i hi
        · exact hB

/-- A run resets the core and steps it; with a limit `L` it makes at most `L + 1` steps, and it
either halts after `n` steps with `1 ≤ n ≤ L` or fails on the limit with exactly `L` retired,
still running, the error naming the core's pc and registers. Without a limit it halts, or it
has not halted within `2^64 + 1` steps, the range of the instruction counter. No other error
comes out of a run. -/
theorem run_contract (c : Core) (start : UInt16) :
    let c₀ := c.reset start
    let r := c.run start fetch
    (∀ L, c.limit = some L →
      (∀ k, L + 1 ≤ k → runFor fetch k c₀ = r) ∧
      ((∃ n, r.2 = .ok n ∧ 1 ≤ n ∧ n ≤ L ∧ HaltedAfter fetch c₀ n r.1) ∨
        (r.2 = .error (.limitExceeded L L r.1.pc r.1.regs.snapshot) ∧ r.1.state = .running ∧
          r.1.count = L))) ∧
    (c.limit = none →
      (∃ n, r.2 = .ok n ∧ 1 ≤ n ∧ HaltedAfter fetch c₀ n r.1) ∨
      ((∀ i < 2 ^ 64 + 1, (c₀.after fetch i).haltsNow fetch = false) ∧
        r.2 = .error (.limitExceeded (2 ^ 64 + 1) (2 ^ 64 + 1) r.1.pc r.1.regs.snapshot))) := by
  intro c₀ r
  have hrun : c₀.state = .running := rfl
  have h0 : c₀.count = 0 := rfl
  have hlim : c₀.limit = c.limit := rfl
  refine ⟨fun L hL => ?_, fun hL => ?_⟩
  · have hr : r = runFor fetch (L + 1) c₀ := by
      rw [show r = c.run start fetch from rfl, run_eq_runFor, hL, Option.getD_some]
    rcases first_halt fetch c₀ L with ⟨j, hj, hnot, hhalt⟩ | hnone
    · have hb : ∀ L', c₀.limit = some L' → c₀.count + j < L' := by
        intro L' hL'
        rw [hlim, hL] at hL'
        cases hL'
        omega
      have hfor := fun k (hk : j < k) => runFor_halts fetch hrun hb hnot hhalt hk
      refine ⟨fun k hk => by rw [hr, hfor k (by omega), hfor (L + 1) (by omega)], .inl ?_⟩
      rw [hr, hfor (L + 1) (by omega), h0, Nat.zero_add]
      exact ⟨j + 1, rfl, by omega, by omega, haltedAfter_first fetch h0 hnot hhalt⟩
    · have hl : c₀.limit = some L := by rw [hlim, hL]
      have hfor := fun k (hk : L < k) =>
        runFor_limit fetch hrun hl (by rw [h0, Nat.zero_add]) hnone hk
      refine ⟨fun k hk => by rw [hr, hfor k (by omega), hfor (L + 1) (by omega)], .inr ?_⟩
      rw [hr, hfor (L + 1) (by omega)]
      exact ⟨rfl, after_running fetch c₀ hrun hnone, by rw [after_count, h0, Nat.zero_add]⟩
  · have hr : r = runFor fetch (2 ^ 64 + 1) c₀ := by
      rw [show r = c.run start fetch from rfl, run_eq_runFor, hL, Option.getD_none]
    rcases first_halt fetch c₀ (2 ^ 64 + 1) with ⟨j, hj, hnot, hhalt⟩ | hnone
    · have hb : ∀ L', c₀.limit = some L' → c₀.count + j < L' := by
        intro L' hL'
        rw [hlim, hL] at hL'
        cases hL'
      rw [hr, runFor_halts fetch hrun hb hnot hhalt hj, h0, Nat.zero_add]
      exact .inl ⟨j + 1, rfl, by omega, haltedAfter_first fetch h0 hnot hhalt⟩
    · rw [hr, runFor_unlimited fetch hrun (by rw [hlim, hL]) hnone, h0, Nat.zero_add]
      exact .inr ⟨hnone, rfl⟩

theorem run_contract_self_jump :
    let c : Core := { limit := some 10 }
    let fetch : UInt16 → UInt32 := fun _ => Encode.jType .zero 0
    let r := c.run 0 fetch
    (∀ k, 10 + 1 ≤ k → runFor fetch k (c.reset 0) = r) ∧
      ((∃ n, r.2 = .ok n ∧ 1 ≤ n ∧ n ≤ 10 ∧ HaltedAfter fetch (c.reset 0) n r.1) ∨
        (r.2 = .error (.limitExceeded 10 10 r.1.pc r.1.regs.snapshot) ∧ r.1.state = .running ∧
          r.1.count = 10)) :=
  (run_contract _ _ 0).1 10 rfl

example : (Core.init.run 0 fun _ => Encode.retWord).2 = .ok 1 := by decide

section FirstHalt
variable {c : Core} {start : UInt16}

theorem run_of_first_halt {j : Nat} (hj : j < c.limit.getD (2 ^ 64 + 1))
    (hnot : ∀ i < j, ((c.reset start).after fetch i).haltsNow fetch = false)
    (hhalt : ((c.reset start).after fetch j).haltsNow fetch = true) :
    c.run start fetch = ((c.reset start).after fetch (j + 1), .ok (j + 1)) := by
  have hb : ∀ L, (c.reset start).limit = some L → (c.reset start).count + j < L := by
    intro L hL
    change c.limit = some L at hL
    rw [hL, Option.getD_some] at hj
    exact (Nat.zero_add j).symm ▸ hj
  have hk : j < c.limit.getD (2 ^ 64) + 1 := by
    cases hl : c.limit with
    | none => rw [hl, Option.getD_none] at hj; simp; omega
    | some L => rw [hl, Option.getD_some] at hj; simp; omega
  rw [run_eq_runFor, runFor_halts fetch rfl hb hnot hhalt hk,
    show (c.reset start).count = 0 from rfl, Nat.zero_add]

theorem run_of_no_halt
    (hnone : ∀ i < c.limit.getD (2 ^ 64 + 1), ((c.reset start).after fetch i).haltsNow fetch = false) :
    c.run start fetch =
      ((c.reset start).after fetch (c.limit.getD (2 ^ 64 + 1)),
        .error (.limitExceeded (c.limit.getD (2 ^ 64 + 1)) (c.limit.getD (2 ^ 64 + 1))
          ((c.reset start).after fetch (c.limit.getD (2 ^ 64 + 1))).pc
          ((c.reset start).after fetch (c.limit.getD (2 ^ 64 + 1))).regs.snapshot)) := by
  rw [run_eq_runFor]
  cases hl : c.limit with
  | none =>
    rw [hl, Option.getD_none] at hnone
    rw [Option.getD_none, Option.getD_none, runFor_unlimited (c := c.reset start) fetch rfl hl hnone,
      show (c.reset start).count = 0 from rfl, Nat.zero_add]
  | some L =>
    rw [hl, Option.getD_some] at hnone
    rw [Option.getD_some, Option.getD_some]
    exact runFor_limit (c := c.reset start) fetch rfl hl (Nat.zero_add L) hnone (Nat.lt_succ_self L)

theorem run_eq_ok {c' : Core} {n : Nat} (h : c.run start fetch = (c', .ok n)) :
    ∃ j < c.limit.getD (2 ^ 64 + 1), n = j + 1 ∧ c' = (c.reset start).after fetch (j + 1) ∧
      (∀ i < j, ((c.reset start).after fetch i).haltsNow fetch = false) ∧
      ((c.reset start).after fetch j).haltsNow fetch = true := by
  rcases first_halt fetch (c.reset start) (c.limit.getD (2 ^ 64 + 1)) with
    ⟨j, hj, hnot, hhalt⟩ | hnone
  · rw [run_of_first_halt fetch hj hnot hhalt, Prod.mk.injEq, Except.ok.injEq] at h
    exact ⟨j, hj, h.2.symm, h.1.symm, hnot, hhalt⟩
  · rw [run_of_no_halt fetch hnone] at h
    cases h

theorem run_eq_error {c' : Core} {e : CoreError} (h : c.run start fetch = (c', .error e)) :
    ∀ i < c.limit.getD (2 ^ 64 + 1), ((c.reset start).after fetch i).haltsNow fetch = false := by
  rcases first_halt fetch (c.reset start) (c.limit.getD (2 ^ 64 + 1)) with
    ⟨j, hj, hnot, hhalt⟩ | hnone
  · rw [run_of_first_halt fetch hj hnot hhalt] at h
    cases h
  · exact hnone

end FirstHalt

example : ((({ limit := some 10 } : Core).run 0 fun _ => Encode.jType .zero 0).2 matches
    .error (.limitExceeded 10 10 _ _)) := by decide

end Core

end RiscvCore
