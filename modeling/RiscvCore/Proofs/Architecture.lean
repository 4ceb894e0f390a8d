import Mathlib
import RiscvCore.Core.Report
import RiscvCore.Proofs.Session

namespace RiscvCore

namespace Core

variable (fetch : UInt16 → UInt32)

/-- The fields a step computes from: the core with its machine registers, log level and log
cleared. -/
def arch (c : Core) : Core := { c with machine := {}, level := .none, log := [] }

section Arch
variable (c : Core)

@[simp] theorem arch_regs : c.arch.regs = c.regs := rfl
@[simp] theorem arch_pc : c.arch.pc = c.pc := rfl
@[simp] theorem arch_state : c.arch.state = c.state := rfl
@[simp] theorem arch_count : c.arch.count = c.count := rfl
@[simp] theorem arch_limit : c.arch.limit = c.limit := rfl
@[simp] theorem arch_policy : c.arch.policy = c.policy := rfl
@[simp] theorem arch_arch : c.arch.arch = c.arch := rfl

theorem step_arch :
    (c.step fetch).map (Prod.map id arch) = (c.arch.step fetch).map (Prod.map id arch) := by
  rcases step_cases fetch c with ⟨hs, hb, hstep⟩ | ⟨hs, hstep⟩ | ⟨hs, L, hL, hc, hstep⟩
  · rw [hstep, step_ok fetch (c := c.arch) hs hb]
    rfl
  · rw [hstep, step_stopped fetch (c := c.arch) hs]
    rfl
  · rw [hstep, step_limit fetch (c := c.arch) hs hL hc]
    rfl

theorem step_machine {r : StepResult} {c' : Core} (h : c.step fetch = .ok (r, c')) :
    c'.machine = c.machine := by
  obtain ⟨-, -, -, rfl⟩ := step_eq_ok fetch h
  rfl

theorem runFor_machine (n : Nat) : (runFor fetch n c).1.machine = c.machine := by
  induction n generalizing c with
  | zero => rfl
  | succ n ih =>
    rcases hstep : c.step fetch with e | ⟨r, c'⟩
    · rw [runFor, hstep]
    · have hm := step_machine fetch c hstep
      cases r with
      | halted => rw [runFor, hstep]; exact hm
      | proceed => rw [runFor, hstep, ih, hm]

theorem run_machine (start : UInt16) : (c.run start fetch).1.machine = c.machine :=
  runFor_machine fetch _ _

end Arch

section Congr
variable {a b : Core}

theorem step_congr (h : a.arch = b.arch) :
    (∃ e, a.step fetch = .error e ∧ b.step fetch = .error e) ∨
    (∃ r a' b', a.step fetch = .ok (r, a') ∧ b.step fetch = .ok (r, b') ∧ a'.arch = b'.arch) := by
  have hmap := step_arch fetch a
  rw [h, ← step_arch fetch b] at hmap
  rcases ha : a.step fetch with e | ⟨r, a'⟩ <;> rcases hb : b.step fetch with e' | ⟨r', b'⟩ <;>
    rw [ha, hb] at hmap <;> simp only [Except.map, Except.error.injEq, Except.ok.injEq,
      Prod.map, Prod.mk.injEq, id, reduceCtorEq] at hmap
  · exact .inl ⟨e, rfl, hmap ▸ rfl⟩
  · obtain ⟨rfl, h'⟩ := hmap
    exact .inr ⟨r, a', b', rfl, rfl, h'⟩

theorem count_eq_of_arch (h : a.arch = b.arch) : a.count = b.count := (congrArg Core.count h :)

theorem runFor_congr (h : a.arch = b.arch) (n : Nat) :
    (runFor fetch n a).2 = (runFor fetch n b).2 ∧
      (runFor fetch n a).1.arch = (runFor fetch n b).1.arch := by
  induction n generalizing a b with
  | zero =>
    have hpc : a.pc = b.pc := (congrArg Core.pc h :)
    have hregs : a.regs = b.regs := (congrArg Core.regs h :)
    refine ⟨?_, h⟩
    simp only [runFor, count_eq_of_arch h, hpc, hregs]
  | succ n ih =>
    rcases step_congr fetch h with ⟨e, ha, hb⟩ | ⟨r, a', b', ha, hb, h'⟩
    · simp only [runFor, ha, hb, true_and]
      exact h
    · cases r with
      | halted =>
        simp only [runFor, ha, hb]
        exact ⟨by rw [count_eq_of_arch h'], h'⟩
      | proceed =>
        simp only [runFor, ha, hb]
        exact ih h'

theorem reset_arch_eq (hregs : a.regs = b.regs) (hpol : a.policy = b.policy)
    (hlim : a.limit = b.limit) (start : UInt16) : (a.reset start).arch = (b.reset start).arch := by
  simp only [arch, reset, hregs, hpol, hlim]

theorem run_congr (hregs : a.regs = b.regs) (hpol : a.policy = b.policy)
    (hlim : a.limit = b.limit) (start : UInt16) :
    (a.run start fetch).2 = (b.run start fetch).2 ∧
      (a.run start fetch).1.arch = (b.run start fetch).1.arch := by
  rw [run_eq_runFor, run_eq_runFor, hlim]
  exact runFor_congr fetch (reset_arch_eq hregs hpol hlim start) _

end Congr

theorem exec_arch (c : Core) (cmd : Command) :
    (c.exec cmd).1 = (c.arch.exec cmd).1 ∧ (c.exec cmd).2.arch = (c.arch.exec cmd).2.arch := by
  cases cmd with
  | step fetch =>
    rcases step_congr fetch (arch_arch c).symm with ⟨e, ha, hb⟩ | ⟨r, a', b', ha, hb, h'⟩
    · simp only [exec, ha, hb, arch_arch, and_self]
    · simp only [exec, ha, hb, true_and]
      exact h'
  | run start fetch =>
    obtain ⟨hr, h'⟩ := run_congr fetch (a := c) (b := c.arch) rfl rfl rfl start
    simp only [exec, hr, true_and]
    exact h'
  | writeRegister id v => cases id <;> exact ⟨rfl, rfl⟩
  | reset | setPc | setRegister | setMachine | clearLogs => exact ⟨rfl, rfl⟩

theorem exec_machine {a b : Core} (h : a.machine = b.machine) (cmd : Command) :
    (a.exec cmd).2.machine = (b.exec cmd).2.machine := by
  cases cmd with
  | step fetch =>
    have hm : ∀ c : Core, (c.exec (.step fetch)).2.machine = c.machine := fun c => by
      rcases hstep : c.step fetch with e | ⟨r, c'⟩
      · simp only [exec, hstep]
      · simp only [exec, hstep]
        exact step_machine fetch c hstep
    rw [hm, hm, h]
  | run start fetch => exact (run_machine fetch a start).trans (h.trans (run_machine fetch b start).symm)
  | writeRegister id v => cases id <;> simp only [exec, writeRegister, h]
  | reset | setPc | setRegister | clearLogs => exact h
  | setMachine => rfl

theorem session_congr {a b : Core} (h : a.arch = b.arch) (hm : a.machine = b.machine)
    (cmds : List Command) :
    (a.session cmds).arch = (b.session cmds).arch ∧
      (a.session cmds).machine = (b.session cmds).machine ∧
      ∀ cmd, ((a.session cmds).exec cmd).1 = ((b.session cmds).exec cmd).1 := by
  induction cmds generalizing a b with
  | nil =>
    refine ⟨h, hm, fun cmd => ?_⟩
    rw [session, session, List.foldl_nil, List.foldl_nil, (exec_arch a cmd).1, h,
      ← (exec_arch b cmd).1]
  | cons cmd cmds ih =>
    have ha := exec_arch a cmd
    have hb := exec_arch b cmd
    rw [h] at ha
    exact ih (ha.2.trans hb.2.symm) (exec_machine hm cmd)

theorem erase_log_eq {a b : Core} (h : a.arch = b.arch) (hm : a.machine = b.machine) :
    ({ a with level := .none, log := [] } : Core) = { b with level := .none, log := [] } := by
  have e : ∀ c : Core, ({ c with level := .none, log := [] } : Core) =
      { c.arch with machine := c.machine } := fun c => rfl
  rw [e, e, h, hm]

theorem dumpState_eq {a b : Core} (h : a.arch = b.arch) (hm : a.machine = b.machine) :
    a.dumpState = b.dumpState := by
  have e : ∀ c : Core, c.dumpState = ({ c with level := .none, log := [] } : Core).dumpState :=
    fun c => rfl
  rw [e a, e b, erase_log_eq h hm]

/-- The outcome of a run depends only on the registers, the halt policy and the limit: two cores
that share them, whatever their pcs, run states, counts, logs, log levels and machine registers,
give the same answer and end with the same registers, pc, run state and count. Steps and runs
never write the machine registers. And a core whose log level alone is changed answers every
command of every session alike and ends equal to it but for the log, with the same state
report. -/
theorem run_noninterference (a b : Core) (hregs : a.regs = b.regs) (hpol : a.policy = b.policy)
    (hlim : a.limit = b.limit) (start : UInt16) (fetch : UInt16 → UInt32) :
    let ra := a.run start fetch
    let rb := b.run start fetch
    (ra.2 = rb.2 ∧ ra.1.regs = rb.1.regs ∧ ra.1.pc = rb.1.pc ∧ ra.1.state = rb.1.state ∧
      ra.1.count = rb.1.count) ∧
    (ra.1.machine = a.machine ∧ ∀ r a', a.step fetch = .ok (r, a') → a'.machine = a.machine) ∧
    ∀ (level : LogLevel) (cmds : List Command),
      let x := a.session cmds
      let y := ({ a with level := level } : Core).session cmds
      { x with level := .none, log := [] } = { y with level := .none, log := [] } ∧
        x.dumpState = y.dumpState ∧ ∀ cmd, (x.exec cmd).1 = (y.exec cmd).1 := by
  intro ra rb
  obtain ⟨hr, h⟩ := run_congr fetch hregs hpol hlim start
  refine ⟨⟨hr, (congrArg Core.regs h :), (congrArg Core.pc h :), (congrArg Core.state h :),
    count_eq_of_arch h⟩, ⟨run_machine fetch a start, fun r a' => step_machine fetch a⟩,
    fun level cmds => ?_⟩
  obtain ⟨hx, hm, hexec⟩ := session_congr (a := a) (b := { a with level := level }) rfl rfl cmds
  exact ⟨erase_log_eq hx hm, dumpState_eq hx hm, hexec⟩

theorem run_noninterference_stale :
    let a : Core :=
      { pc := 9, state := .stopped, count := 4, level := .verbose, machine := { mtvec := 0x100 } }
    (a.regs = Core.init.regs ∧ a.policy = Core.init.policy ∧ a.limit = Core.init.limit) ∧
      (a.run 0 fun _ => Encode.retWord).2 = (Core.init.run 0 fun _ => Encode.retWord).2 := by
  intro a
  exact ⟨⟨rfl, rfl, rfl⟩, (run_noninterference a Core.init rfl rfl rfl 0 _).1.1⟩

end Core

end RiscvCore
