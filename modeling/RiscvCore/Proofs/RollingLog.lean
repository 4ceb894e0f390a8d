import Mathlib
import RiscvCore.Proofs.Session

namespace RiscvCore

/-- Whether a level logs a step whose execution is, or is not, unsupported: every step from
`instructions` up, only unsupported ones at `errors`, none at `none`. -/
def LogLevel.logs : LogLevel → Bool → Bool
  | .none, _ => false
  | .errors, unsupported => unsupported
  | .instructions, _ | .verbose, _ => true

/-- Whether a command leaves the log to its steps: all but a reset, a run and clearing the log. -/
def Command.keepsLog : Command → Bool
  | .reset _ | .run _ _ | .clearLogs => false
  | _ => true

namespace Core

variable (fetch : UInt16 → UInt32)

/-- The record of a step of `c`: the cycle it retires as, its pc and word, and what it did, with
the registers as they were before write-back. -/
def stepEntry (c : Core) : Entry :=
  let d := decode (fetch c.pc)
  Entry.record (c.count + 1) c.pc d (execute d c.regs c.pc) (c.regs.read d.rs1)
    (c.regs.read d.rs2) (c.regs.read d.rd)

/-- What a step of `c` logs: its record, if the level logs a step like it. -/
def logged (c : Core) : List Entry :=
  if c.level.logs (execute (decode (fetch c.pc)) c.regs c.pc).unsupported then [c.stepEntry fetch]
  else []

/-- What a command logs: a step that succeeds logs as `logged` says, everything else nothing. -/
def entriesOf (c : Core) : Command → List Entry
  | .step fetch =>
    match c.step fetch with
    | .ok _ => c.logged fetch
    | .error _ => []
  | _ => []

/-- The entries the commands of a session log, in order. -/
def history (c : Core) : List Command → List Entry
  | [] => []
  | cmd :: cmds => c.entriesOf cmd ++ (c.exec cmd).2.history cmds

theorem entryLevel_le_iff (o : Outcome) (level : LogLevel) :
    entryLevel o ≤ level ↔ level.logs o.unsupported = true := by
  cases level <;> cases h : o.unsupported <;>
    simp only [entryLevel, h, LogLevel.logs, if_true] <;> decide

theorem pushLog_rtake (H : List Entry) (e : Entry) :
    pushLog (H.rtake logCapacity) e = (H ++ [e]).rtake logCapacity := by
  have hpos : 0 < logCapacity := by decide
  rw [List.rtake, List.rtake, List.length_append, List.length_singleton]
  rcases Nat.lt_or_ge H.length logCapacity with hshort | hlong
  · have hroom : (H.drop (H.length - logCapacity)).length < logCapacity := by
      rw [List.length_drop]
      omega
    rw [pushLog_of_lt hroom, show H.length - logCapacity = 0 by omega,
      show H.length + 1 - logCapacity = 0 by omega, List.drop_zero, List.drop_zero]
  · have hfull : (H.drop (H.length - logCapacity)).length = logCapacity := by
      rw [List.length_drop]
      omega
    rw [pushLog_of_eq hfull, List.tail_drop,
      show H.length + 1 - logCapacity = H.length - logCapacity + 1 by omega,
      List.drop_append_of_le_length (by omega)]

theorem foldl_pushLog_rtake (H es : List Entry) :
    es.foldl pushLog (H.rtake logCapacity) = (H ++ es).rtake logCapacity := by
  induction es generalizing H with
  | nil => rw [List.foldl_nil, List.append_nil]
  | cons e es ih => rw [List.foldl_cons, pushLog_rtake, ih, List.append_assoc, List.singleton_append]

theorem advance_log (c : Core) : (c.advance fetch).2.log = (c.logged fetch).foldl pushLog c.log := by
  show (if entryLevel _ ≤ c.level then _ else c.log) = _
  by_cases h : c.level.logs (execute (decode (fetch c.pc)) c.regs c.pc).unsupported = true
  · rw [if_pos ((entryLevel_le_iff _ _).mpr h), logged, if_pos h]
    rfl
  · rw [if_neg (mt (entryLevel_le_iff _ _).mp h), logged, if_neg h]
    rfl

theorem step_log {c c' : Core} {r : StepResult} (h : c.step fetch = .ok (r, c')) :
    c'.log = (c.logged fetch).foldl pushLog c.log := by
  obtain ⟨-, -, -, rfl⟩ := step_eq_ok fetch h
  exact advance_log fetch c

theorem logged_unsupported {c : Core} (hl : c.level = .errors) :
    ∀ e ∈ c.logged fetch, ∃ o f3 f7, e.event = .unsupported o f3 f7 := by
  intro e he
  simp only [logged, hl, LogLevel.logs] at he
  split at he
  · rename_i hu
    rw [List.mem_singleton.mp he]
    simp [stepEntry, Entry.record, hu]
  · cases he

section Keep
variable {c : Core} {cmd : Command}

theorem exec_log (hk : cmd.keepsLog = true) :
    (c.exec cmd).2.log = (c.entriesOf cmd).foldl pushLog c.log := by
  cases cmd with
  | step fetch =>
    rcases hstep : c.step fetch with e | ⟨r, c'⟩
    · simp only [exec, entriesOf, hstep, List.foldl_nil]
    · simp only [exec, entriesOf, hstep]
      exact step_log fetch hstep
  | writeRegister id v => cases id <;> rfl
  | setPc | setRegister | setMachine => rfl
  | reset | run | clearLogs => cases hk

theorem exec_level (hk : cmd.keepsLog = true) : (c.exec cmd).2.level = c.level := by
  cases cmd with
  | step fetch =>
    rcases hstep : c.step fetch with e | ⟨r, c'⟩
    · simp only [exec, hstep]
    · simp only [exec, hstep]
      obtain ⟨-, -, -, rfl⟩ := step_eq_ok fetch hstep
      rfl
  | writeRegister id v => cases id <;> rfl
  | setPc | setRegister | setMachine => rfl
  | reset | run | clearLogs => cases hk

theorem entriesOf_cycles (hl : LogLevel.instructions ≤ c.level) (hk : cmd.keepsLog = true) :
    c.count ≤ (c.exec cmd).2.count ∧
      (c.entriesOf cmd).map Entry.cycle = List.range' (c.count + 1) ((c.exec cmd).2.count - c.count) := by
  have hlogs : ∀ b, c.level.logs b = true := fun b => by
    revert hl
    cases c.level <;> cases b <;> decide
  cases cmd with
  | step fetch =>
    rcases hstep : c.step fetch with e | ⟨r, c'⟩
    · simp only [exec, entriesOf, hstep, List.map_nil, Nat.sub_self, List.range'_zero, and_self,
        Nat.le_refl]
    · obtain ⟨-, -, -, rfl⟩ := step_eq_ok fetch hstep
      simp only [exec, entriesOf, hstep, logged, hlogs, if_true, advance_count]
      exact ⟨Nat.le_succ _, by simp [stepEntry, Entry.record]⟩
  | writeRegister id v =>
    cases id <;> exact ⟨Nat.le_refl _, by simp [exec, entriesOf, writeRegister]⟩
  | setPc | setRegister | setMachine =>
    exact ⟨Nat.le_refl _, by simp [exec, entriesOf, setPc, setRegister, setMachine]⟩
  | reset | run | clearLogs => cases hk

end Keep

section Session
variable {cmds : List Command}

theorem session_log {c : Core} {H : List Entry} (h : c.log = H.rtake logCapacity)
    (hk : ∀ cmd ∈ cmds, cmd.keepsLog = true) :
    (c.session cmds).log = (H ++ c.history cmds).rtake logCapacity := by
  induction cmds generalizing c H with
  | nil => rw [history, List.append_nil]; exact h
  | cons cmd cmds ih =>
    have hcmd := hk cmd (List.mem_cons_self ..)
    have hlog : (c.exec cmd).2.log = (H ++ c.entriesOf cmd).rtake logCapacity := by
      rw [exec_log hcmd, h, foldl_pushLog_rtake]
    rw [history, ← List.append_assoc]
    exact ih hlog fun cmd' hm => hk cmd' (List.mem_cons_of_mem _ hm)

theorem history_unsupported {c : Core} (hl : c.level = .errors)
    (hk : ∀ cmd ∈ cmds, cmd.keepsLog = true) :
    ∀ e ∈ c.history cmds, ∃ o f3 f7, e.event = .unsupported o f3 f7 := by
  induction cmds generalizing c with
  | nil => intro e he; cases he
  | cons cmd cmds ih =>
    have hcmd := hk cmd (List.mem_cons_self ..)
    intro e he
    rcases List.mem_append.mp he with he | he
    · cases cmd with
      | step fetch =>
        rcases hstep : c.step fetch with e' | ⟨r, c'⟩ <;> simp only [entriesOf, hstep] at he
        · cases he
        · exact logged_unsupported fetch hl e he
      | _ => cases he
    · exact ih (by rw [exec_level hcmd, hl]) (fun cmd' hm => hk cmd' (List.mem_cons_of_mem _ hm)) e he

theorem history_cycles {c : Core} (hl : LogLevel.instructions ≤ c.level)
    (hk : ∀ cmd ∈ cmds, cmd.keepsLog = true) :
    c.count ≤ (c.session cmds).count ∧ (c.history cmds).map Entry.cycle =
      List.range' (c.count + 1) ((c.session cmds).count - c.count) := by
  induction cmds generalizing c with
  | nil => simp [history, session]
  | cons cmd cmds ih =>
    have hcmd := hk cmd (List.mem_cons_self ..)
    obtain ⟨hle, hcyc⟩ := entriesOf_cycles hl hcmd
    obtain ⟨hle', hcyc'⟩ := ih (c := (c.exec cmd).2) (by rw [exec_level hcmd]; exact hl)
      fun cmd' hm => hk cmd' (List.mem_cons_of_mem _ hm)
    have hs : c.session (cmd :: cmds) = (c.exec cmd).2.session cmds := rfl
    refine ⟨hs ▸ hle.trans hle', ?_⟩
    have hmid : (c.exec cmd).2.count + 1 = c.count + 1 + ((c.exec cmd).2.count - c.count) := by
      omega
    rw [history, List.map_append, hcyc, hcyc', hs, hmid, List.range'_append_1]
    congr 1
    omega

theorem session_log_of_empty {c : Core} (hlog : c.log = [])
    (hk : ∀ cmd ∈ cmds, cmd.keepsLog = true) :
    (c.session cmds).log = (c.history cmds).rtake logCapacity := by
  rw [← List.nil_append (history _ _)]
  exact session_log (by rw [hlog, List.rtake_nil]) hk

theorem range'_rtake (n : Nat) :
    (List.range' 1 n).rtake logCapacity = List.range' (max 1 (n - 99)) (min n 100) := by
  have hs : 1 + (n - logCapacity) * 1 = max 1 (n - 99) := by simp only [logCapacity]; omega
  have hl : n - (n - logCapacity) = min n 100 := by simp only [logCapacity]; omega
  rw [List.rtake, List.length_range', List.drop_range', hs, hl]

theorem session_log_cycles {c : Core} (hlog : c.log = []) (hk : ∀ cmd ∈ cmds, cmd.keepsLog = true)
    (hl : LogLevel.instructions ≤ c.level) (h0 : c.count = 0) :
    (c.session cmds).log.map Entry.cycle =
      List.range' (max 1 ((c.session cmds).count - 99)) (min (c.session cmds).count 100) := by
  obtain ⟨-, hcyc⟩ := history_cycles hl hk
  rw [h0, Nat.sub_zero, Nat.zero_add] at hcyc
  rw [session_log_of_empty hlog hk, List.rtake, List.map_drop, ← List.length_map Entry.cycle, hcyc,
    ← List.rtake, range'_rtake]

end Session

theorem session_steps_of_error {c : Core} {e : CoreError} (h : c.step fetch = .error e) (n : Nat) :
    c.session (List.replicate n (.step fetch)) = c := by
  induction n with
  | zero => rfl
  | succ n ih =>
    rw [List.replicate_succ, session, List.foldl_cons]
    simp only [exec, h]
    exact ih

theorem runFor_eq_session (n : Nat) (c : Core) :
    (runFor fetch n c).1 = c.session (List.replicate n (.step fetch)) := by
  induction n generalizing c with
  | zero => rfl
  | succ n ih =>
    rw [List.replicate_succ]
    show _ = ((c.exec (.step fetch)).2).session _
    rcases hstep : c.step fetch with e | ⟨r, c'⟩
    · simp only [runFor, exec, hstep]
      exact (session_steps_of_error fetch hstep n).symm
    · cases r with
      | halted =>
        simp only [runFor, exec, hstep]
        exact (session_steps_of_error fetch (step_stopped fetch (step_halted fetch hstep)) n).symm
      | proceed =>
        simp only [runFor, exec, hstep]
        exact ih c'

theorem run_eq_session (c : Core) (start : UInt16) :
    (c.run start fetch).1 = (c.reset start).session (List.replicate c.stepBound (.step fetch)) :=
  runFor_eq_session fetch _ _

/-- The rolling log holds the last `logCapacity` entries logged since it was last cleared. From a
core with an empty log, through any session of steps and host writes, the log is the last
`min |E| 100` entries of the history `E` the session logged, in order: the records of the
successful steps that the level logs. At `errors` every entry is an unsupported one. With every
step logged and no entry since the last reset, the cycles in the log are `max 1 (c - 99)` to `c`,
`c` the instructions retired, and so they are after every run. -/
theorem log_last_entries (c : Core) (hlog : c.log = []) (cmds : List Command)
    (hk : ∀ cmd ∈ cmds, cmd.keepsLog = true) :
    let c' := c.session cmds
    c'.log = (c.history cmds).rtake logCapacity ∧
      (c.level = .errors → ∀ e ∈ c'.log, ∃ o f3 f7, e.event = .unsupported o f3 f7) ∧
      (LogLevel.instructions ≤ c.level → c.count = 0 →
        c'.log.map Entry.cycle = List.range' (max 1 (c'.count - 99)) (min c'.count 100)) ∧
      (∀ start fetch, LogLevel.instructions ≤ c.level →
        let r := (c.run start fetch).1
        r.log.map Entry.cycle = List.range' (max 1 (r.count - 99)) (min r.count 100)) := by
  intro c'
  refine ⟨session_log_of_empty hlog hk, fun hl e he => ?_, session_log_cycles hlog hk,
    fun start fetch hl => ?_⟩
  · rw [session_log_of_empty hlog hk, List.rtake] at he
    exact history_unsupported hl hk e (List.mem_of_mem_drop he)
  · intro r
    rw [show r = _ from run_eq_session fetch c start]
    exact session_log_cycles rfl (fun cmd hm => by rw [List.eq_of_mem_replicate hm]; rfl) hl rfl

theorem log_last_entries_nops :
    let c : Core := { level := .instructions }
    let cmds : List Command := [.step fun _ => Encode.nopWord, .step fun _ => Encode.nopWord]
    (c.log = [] ∧ ∀ cmd ∈ cmds, cmd.keepsLog = true) ∧
      (c.session cmds).log.map Entry.cycle =
        List.range' (max 1 ((c.session cmds).count - 99)) (min (c.session cmds).count 100) := by
  intro c cmds
  have hk : ∀ cmd ∈ cmds, cmd.keepsLog = true := by
    intro cmd hm
    simp only [cmds, List.mem_cons, List.not_mem_nil, or_false] at hm
    rcases hm with rfl | rfl <;> rfl
  exact ⟨⟨rfl, hk⟩, (log_last_entries c rfl cmds hk).2.2.1 (by decide) rfl⟩

end Core

end RiscvCore
