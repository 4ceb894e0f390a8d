import Mathlib
import RiscvCore.Proofs.Run

namespace RiscvCore

namespace Core

variable (fetch : UInt16 → UInt32)

def withLimit (c : Core) (l : Option Nat) : Core := { c with limit := l }

section WithLimit
variable (c : Core) (l l' : Option Nat)

@[simp] theorem withLimit_limit : (c.withLimit l).limit = l := rfl
@[simp] theorem withLimit_withLimit : (c.withLimit l).withLimit l' = c.withLimit l' := rfl

theorem reset_withLimit (start : UInt16) :
    (c.withLimit l).reset start = (c.reset start).withLimit l :=
  rfl

theorem haltsNow_withLimit : (c.withLimit l).haltsNow fetch = c.haltsNow fetch := rfl

theorem advance_withLimit : ((c.withLimit l).advance fetch).2 = (c.advance fetch).2.withLimit l :=
  rfl

theorem after_withLimit (i : Nat) :
    (c.withLimit l).after fetch i = (c.after fetch i).withLimit l := by
  induction i with
  | zero => rfl
  | succ i ih => rw [after_succ', after_succ', ih, advance_withLimit]

end WithLimit

section Truncation
variable {c : Core} {start : UInt16}

theorem haltsNow_after_withLimit (l l' : Option Nat) (i : Nat) :
    (((c.withLimit l).reset start).after fetch i).haltsNow fetch =
      (((c.withLimit l').reset start).after fetch i).haltsNow fetch := by
  rw [reset_withLimit, reset_withLimit, after_withLimit, after_withLimit, haltsNow_withLimit,
    haltsNow_withLimit]

theorem run_withLimit_of_ok {l l' : Option Nat} {c' : Core} {n : Nat}
    (h : (c.withLimit l).run start fetch = (c', .ok n))
    (hfit : n ≤ l'.getD (2 ^ 64 + 1)) :
    (c.withLimit l').run start fetch = (c'.withLimit l', .ok n) := by
  obtain ⟨j, -, rfl, rfl, hnot, hhalt⟩ := run_eq_ok fetch h
  have hj : j < (c.withLimit l').limit.getD (2 ^ 64 + 1) := by rw [withLimit_limit]; omega
  rw [run_of_first_halt fetch hj
      (fun i hi => by rw [haltsNow_after_withLimit fetch l' l]; exact hnot i hi)
      (by rw [haltsNow_after_withLimit fetch l' l]; exact hhalt),
    reset_withLimit, reset_withLimit, after_withLimit, after_withLimit, withLimit_withLimit]

theorem run_withLimit_of_error {M L : Nat} (hle : L ≤ M) {c' : Core} {e : CoreError}
    (h : (c.withLimit (some M)).run start fetch = (c', .error e)) :
    (c.withLimit (some L)).run start fetch =
      (((c.reset start).after fetch L).withLimit (some L),
        .error (.limitExceeded L L ((c.reset start).after fetch L).pc
          ((c.reset start).after fetch L).regs.snapshot)) := by
  have hnone := run_eq_error fetch h
  rw [withLimit_limit, Option.getD_some] at hnone
  have hnone' : ∀ i < (c.withLimit (some L)).limit.getD (2 ^ 64 + 1),
      (((c.withLimit (some L)).reset start).after fetch i).haltsNow fetch = false := by
    intro i hi
    rw [withLimit_limit, Option.getD_some] at hi
    rw [haltsNow_after_withLimit fetch (some L) (some M)]
    exact hnone i (by omega)
  rw [run_of_no_halt fetch hnone', withLimit_limit, Option.getD_some, reset_withLimit,
    after_withLimit]
  rfl

end Truncation

/-- The instruction limit only truncates. Take limits `L ≤ L'`, where `L'` may be no limit (then
`L` is a 64-bit count). A run under `L` that halts after `n` instructions halts after `n` under
`L'`, leaving the same core but for the limit. A run under a finite `L'` that fails makes the run
under `L` fail on its limit with `L` executed, leaving the core the `L'` run had after `L`
instructions, but for the limit. -/
theorem limit_truncates (c : Core) (start : UInt16) (L : Nat) (L' : Option Nat)
    (hle : ∀ M, L' = some M → L ≤ M) (hword : L' = none → L < 2 ^ 64) :
    let rL := (c.withLimit (some L)).run start fetch
    let rL' := (c.withLimit L').run start fetch
    (∀ n, rL.2 = .ok n → rL'.2 = .ok n ∧ rL'.1 = rL.1.withLimit L') ∧
    (∀ M e, L' = some M → rL'.2 = .error e →
      rL.2 = .error (.limitExceeded L L rL.1.pc rL.1.regs.snapshot) ∧
        rL.1.withLimit L' = ((c.withLimit L').reset start).after fetch L) := by
  intro rL rL'
  refine ⟨fun n hn => ?_, fun M e hM he => ?_⟩
  · have hn' : n ≤ L := by
      obtain ⟨j, hj, rfl, -⟩ := run_eq_ok fetch (show rL = (rL.1, .ok n) from Prod.ext rfl hn)
      rw [withLimit_limit, Option.getD_some] at hj
      omega
    have hfit : n ≤ L'.getD (2 ^ 64 + 1) := by
      cases hL' : L' with
      | none => have := hword hL'; rw [Option.getD_none]; omega
      | some M => rw [Option.getD_some]; exact hn'.trans (hle M hL')
    have h : rL' = _ :=
      run_withLimit_of_ok fetch (show rL = (rL.1, .ok n) from Prod.ext rfl hn) hfit
    rw [h]
    exact ⟨rfl, rfl⟩
  · subst hM
    have h : rL = _ :=
      run_withLimit_of_error fetch (hle M rfl) (show rL' = (rL'.1, .error e) from Prod.ext rfl he)
    rw [h, withLimit_withLimit, reset_withLimit, after_withLimit]
    exact ⟨rfl, rfl⟩

theorem limit_truncates_ret :
    (1 ≤ 5 ∧ ((Core.init.withLimit (some 1)).run 0 fun _ => Encode.retWord).2 = .ok 1) ∧
      ((Core.init.withLimit (some 5)).run 0 fun _ => Encode.retWord).2 = .ok 1 :=
  have h1 : ((Core.init.withLimit (some 1)).run 0 fun _ => Encode.retWord).2 = .ok 1 := by decide
  ⟨⟨by decide, h1⟩, ((limit_truncates _ Core.init 0 1 (some 5) (fun M hM => by cases hM; decide)
    (fun h => by cases h)).1 1 h1).1⟩

end Core

end RiscvCore
