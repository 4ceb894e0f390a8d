import Mathlib
import RiscvCore.Core.Session
import RiscvCore.Proofs.Run
import RiscvCore.Expect

namespace RiscvCore

namespace Core

variable (fetch : UInt16 → UInt32)

theorem step_stopped {c : Core} (h : c.state = .stopped) :
    c.step fetch = .error (.notRunning c.pc c.regs.snapshot) := by
  unfold step
  rw [if_pos h]

theorem step_cases (c : Core) :
    (c.state = .running ∧ (∀ L, c.limit = some L → c.count < L) ∧
      c.step fetch = .ok (if c.haltsNow fetch then .halted else .proceed, (c.advance fetch).2)) ∨
    (c.state = .stopped ∧ c.step fetch = .error (.notRunning c.pc c.regs.snapshot)) ∨
    (c.state = .running ∧ ∃ L, c.limit = some L ∧ L ≤ c.count ∧
      c.step fetch = .error (.limitExceeded L c.count c.pc c.regs.snapshot)) := by
  cases hs : c.state with
  | stopped => exact .inr (.inl ⟨rfl, step_stopped fetch hs⟩)
  | running =>
    by_cases hb : ∀ L, c.limit = some L → c.count < L
    · exact .inl ⟨rfl, hb, step_ok fetch hs hb⟩
    · push Not at hb
      obtain ⟨L, hL, hc⟩ := hb
      exact .inr (.inr ⟨rfl, L, hL, hc, step_limit fetch hs hL hc⟩)

theorem step_eq_ok {c c' : Core} {r : StepResult} (h : c.step fetch = .ok (r, c')) :
    c.state = .running ∧ (∀ L, c.limit = some L → c.count < L) ∧
      r = (if c.haltsNow fetch then .halted else .proceed) ∧ c' = (c.advance fetch).2 := by
  rcases step_cases fetch c with ⟨hs, hb, hstep⟩ | ⟨-, hstep⟩ | ⟨-, _, -, -, hstep⟩
  · rw [hstep, Except.ok.injEq, Prod.mk.injEq] at h
    exact ⟨hs, hb, h.1.symm, h.2.symm⟩
  · rw [hstep] at h; cases h
  · rw [hstep] at h; cases h

theorem step_halted {c c' : Core} (h : c.step fetch = .ok (.halted, c')) : c'.state = .stopped := by
  obtain ⟨-, -, hr, rfl⟩ := step_eq_ok fetch h
  cases hh : c.haltsNow fetch
  · rw [hh] at hr; cases hr
  · rw [advance_state, if_pos hh]

theorem step_error_regs {c : Core} {e : CoreError} (h : c.step fetch = .error e) :
    e.regs? = some c.regs.snapshot := by
  rcases step_cases fetch c with ⟨-, -, hstep⟩ | ⟨-, hstep⟩ | ⟨-, _, -, -, hstep⟩ <;>
    rw [hstep] at h <;> cases h <;> rfl

theorem runFor_error_regs {c : Core} {e : CoreError} (n : Nat)
    (h : (runFor fetch n c).2 = .error e) : ∃ rf : RegFile, e.regs? = some rf.snapshot := by
  induction n generalizing c with
  | zero => cases h; exact ⟨c.regs, rfl⟩
  | succ n ih =>
    cases hstep : c.step fetch with
    | error e' =>
      rw [runFor, hstep] at h
      cases h
      exact ⟨c.regs, step_error_regs fetch hstep⟩
    | ok p =>
      obtain ⟨r, c'⟩ := p
      cases r with
      | halted => rw [runFor, hstep] at h; cases h
      | proceed => rw [runFor, hstep] at h; exact ih h

/-- What every command keeps: the log within its capacity, the counter within the limit. -/
structure Healthy (c : Core) : Prop where
  log_le : c.log.length ≤ logCapacity
  count_le : ∀ L, c.limit = some L → c.count ≤ L

theorem pushLog_of_lt {log : List Entry} (h : log.length < logCapacity) (e : Entry) :
    pushLog log e = log ++ [e] := by
  rw [pushLog, if_neg (Nat.not_le.mpr h)]

theorem pushLog_of_eq {log : List Entry} (h : log.length = logCapacity) (e : Entry) :
    pushLog log e = log.tail ++ [e] := by
  rw [pushLog, if_pos h.ge]

theorem pushLog_length_le {log : List Entry} (h : log.length ≤ logCapacity) (e : Entry) :
    (pushLog log e).length ≤ logCapacity := by
  rcases Nat.lt_or_eq_of_le h with hroom | hfull
  · rw [pushLog_of_lt hroom, List.length_append, List.length_singleton]
    omega
  · have hpos : 0 < logCapacity := by decide
    rw [pushLog_of_eq hfull, List.length_append, List.length_tail, List.length_singleton]
    omega

theorem healthy_reset (c : Core) (pc : UInt16) : (c.reset pc).Healthy :=
  ⟨by simp [reset, logCapacity], fun L _ => Nat.zero_le L⟩

theorem Healthy.frame {c c' : Core} (h : c.Healthy) (hlog : c'.log = c.log)
    (hcount : c'.count = c.count) (hlim : c'.limit = c.limit) : c'.Healthy :=
  ⟨hlog ▸ h.log_le, fun L hL => hcount ▸ h.count_le L (hlim ▸ hL)⟩

theorem Healthy.advance {c : Core} (h : c.Healthy) (hb : ∀ L, c.limit = some L → c.count < L) :
    (c.advance fetch).2.Healthy := by
  refine ⟨?_, fun L hL => ?_⟩
  · show (if _ then _ else c.log).length ≤ logCapacity
    split
    · exact pushLog_length_le h.log_le _
    · exact h.log_le
  · rw [advance_count]
    exact hb L hL

theorem Healthy.step {c c' : Core} {r : StepResult} (h : c.Healthy)
    (hstep : c.step fetch = .ok (r, c')) : c'.Healthy := by
  obtain ⟨-, hb, -, rfl⟩ := step_eq_ok fetch hstep
  exact h.advance fetch hb

theorem Healthy.runFor {c : Core} (h : c.Healthy) (n : Nat) : (runFor fetch n c).1.Healthy := by
  induction n generalizing c with
  | zero => exact h
  | succ n ih =>
    cases hstep : c.step fetch with
    | error e => rw [Core.runFor, hstep]; exact h
    | ok p =>
      obtain ⟨r, c'⟩ := p
      cases r with
      | halted => rw [Core.runFor, hstep]; exact h.step fetch hstep
      | proceed => rw [Core.runFor, hstep]; exact ih (h.step fetch hstep)

theorem healthy_run (c : Core) (start : UInt16) : (c.run start fetch).1.Healthy :=
  (healthy_reset c start).runFor fetch _

theorem Healthy.exec {c : Core} (h : c.Healthy) (cmd : Command) : (c.exec cmd).2.Healthy := by
  cases cmd with
  | step fetch =>
    cases hstep : c.step fetch with
    | error e => simp only [Core.exec, hstep]; exact h
    | ok p => simp only [Core.exec, hstep]; exact h.step fetch hstep
  | run start fetch => exact healthy_run fetch c start
  | reset pc => exact healthy_reset c pc
  | setPc | setRegister | setMachine => exact h.frame rfl rfl rfl
  | writeRegister id v => cases id <;> exact h.frame rfl rfl rfl
  | clearLogs => exact ⟨by simp [Core.exec, Core.clearLogs, logCapacity], h.count_le⟩

theorem Healthy.session {c : Core} (h : c.Healthy) (cmds : List Command) :
    (c.session cmds).Healthy := by
  induction cmds generalizing c with
  | nil => exact h
  | cons cmd cmds ih => exact ih (h.exec cmd)

theorem exec_step_stopped {c : Core} (h : c.state = .stopped) :
    c.exec (.step fetch) = (.error (.notRunning c.pc c.regs.snapshot), c) := by
  simp only [exec, step_stopped fetch h]

theorem exec_state_stopped {c : Core} (h : c.state = .stopped) {cmd : Command}
    (hcmd : cmd.restarts = false) : (c.exec cmd).2.state = .stopped := by
  cases cmd with
  | step fetch => rw [exec_step_stopped fetch h]; exact h
  | run | reset => cases hcmd
  | setPc | setRegister | setMachine | clearLogs => exact h
  | writeRegister id v => cases id <;> exact h

theorem session_state_stopped {c : Core} (h : c.state = .stopped) {cmds : List Command}
    (hcmds : ∀ cmd ∈ cmds, cmd.restarts = false) : (c.session cmds).state = .stopped := by
  induction cmds generalizing c with
  | nil => exact h
  | cons cmd cmds ih =>
    exact ih (exec_state_stopped h (hcmds cmd (List.mem_cons_self ..)))
      fun cmd' hm => hcmds cmd' (List.mem_cons_of_mem _ hm)

/-- The facts a session keeps of the core it leaves. -/
structure SessionInvariant (c : Core) : Prop where
  /-- `x0` reads zero, as a register and in the registers any failing command reports. -/
  zero_reads : c.regs.snapshot.get 0 = 0 ∧ c.regs.read Reg.zero = 0 ∧
    c.readRegister (.gpr Reg.zero) = 0
  zero_in_errors : ∀ cmd e v, (c.exec cmd).1 = .error e → e.regs? = some v → v.get 0 = 0
  log_le : c.log.length ≤ logCapacity
  /-- The counter stays within the limit, so a step counts one up to at most the limit. -/
  count_le : ∀ L, c.limit = some L → c.count ≤ L
  step_count : ∀ L fetch r c', c.limit = some L → c.step fetch = .ok (r, c') →
    c'.count = c.count + 1 ∧ c'.count ≤ L
  /-- A step that halts stops the core; until a reset or a run every step then fails at the
  current pc and registers and changes nothing. -/
  halted_stays : ∀ fetch c', c.step fetch = .ok (.halted, c') → c'.state = .stopped ∧
    ∀ more : List Command, (∀ cmd ∈ more, cmd.restarts = false) → ∀ fetch',
      (c'.session more).exec (.step fetch') =
        (.error (.notRunning (c'.session more).pc (c'.session more).regs.snapshot),
          c'.session more)
  /-- A step of a running core at its limit fails at its pc and registers and changes nothing. -/
  limit_stays : ∀ L fetch, c.limit = some L → c.state = .running → c.count = L →
    c.exec (.step fetch) = (.error (.limitExceeded L L c.pc c.regs.snapshot), c)

theorem zero_in_errors (c : Core) (cmd : Command) {e : CoreError} {v : Vector UInt32 32}
    (he : (c.exec cmd).1 = .error e) (hv : e.regs? = some v) : v.get 0 = 0 := by
  obtain ⟨rf, hrf⟩ : ∃ rf : RegFile, e.regs? = some rf.snapshot := by
    cases cmd with
    | step fetch =>
      cases hstep : c.step fetch with
      | error e' =>
        simp only [exec, hstep, Except.error.injEq] at he
        subst he
        exact ⟨c.regs, step_error_regs fetch hstep⟩
      | ok p => simp [exec, hstep] at he
    | run start fetch =>
      cases hr : (c.run start fetch).2 with
      | error e' =>
        simp only [exec, hr, Except.map, Except.error.injEq] at he
        subst he
        exact runFor_error_regs fetch _ hr
      | ok n => simp [exec, hr, Except.map] at he
    | _ => simp [exec] at he
  rw [hrf, Option.some.injEq] at hv
  subst hv
  exact rf.zero_eq

theorem Healthy.sessionInvariant {c : Core} (h : c.Healthy) : c.SessionInvariant where
  zero_reads := ⟨c.regs.zero_eq, c.regs.read_zero, c.regs.read_zero⟩
  zero_in_errors := fun cmd _ _ he hv => zero_in_errors c cmd he hv
  log_le := h.log_le
  count_le := h.count_le
  step_count := fun L fetch r c' hL hstep => by
    obtain ⟨-, hb, -, rfl⟩ := step_eq_ok fetch hstep
    exact ⟨advance_count fetch c, hb L hL⟩
  halted_stays := fun fetch c' hstep => by
    have hs := step_halted fetch hstep
    exact ⟨hs, fun more hmore fetch' => exec_step_stopped fetch' (session_state_stopped hs hmore)⟩
  limit_stays := fun L fetch hL hrun hc => by
    simp only [Core.exec, step_limit fetch hrun hL (Nat.le_of_eq hc.symm), hc]

/-- Every session from a core whose counter and log are clear keeps the session invariant:
`x0` reads zero, the log stays within 100 entries, the counter within the limit, and a failed
step, after a halt or at the limit, changes nothing. -/
theorem session_invariant (c₀ : Core) (h0 : c₀.count = 0) (hlog : c₀.log = [])
    (cmds : List Command) : (c₀.session cmds).SessionInvariant :=
  (Healthy.session ⟨by simp [hlog, logCapacity], fun L _ => h0 ▸ Nat.zero_le L⟩ cmds).sessionInvariant

theorem session_invariant_debug :
    Expect.debugCore.count = 0 ∧ Expect.debugCore.log = [] ∧
      (Expect.debugCore.session
        [.run 0 fun _ => Encode.retWord, .step fun _ => Encode.retWord]).SessionInvariant :=
  ⟨rfl, rfl, session_invariant _ rfl rfl _⟩

end Core

end RiscvCore
