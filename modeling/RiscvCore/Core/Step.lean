import RiscvCore.Core.Basic
import RiscvCore.Encode

namespace RiscvCore

inductive StepResult where
  | proceed | halted
deriving DecidableEq, Repr

namespace Core

def entryLevel (o : Outcome) : LogLevel := if o.unsupported then .errors else .instructions

/-- Whether a step that fetched `raw` and goes to `next` halts. -/
def halts (p : HaltPolicy) (raw : UInt32) (next : UInt16) : Bool :=
  raw == Encode.retWord && (p == .onReturn || next == 0)

/-- The step of a core that may step: running and below its limit. -/
def advance (c : Core) (fetch : UInt16 → UInt32) : StepResult × Core :=
  let raw := fetch c.pc
  let d := decode raw
  let o := execute d c.regs c.pc
  let regs := match o.writeBack with
    | some (rd, v) => c.regs.write rd v
    | none => c.regs
  let count := c.count + 1
  let log := if entryLevel o ≤ c.level then
      pushLog c.log (Entry.record count c.pc d o (c.regs.read d.rs1) (c.regs.read d.rs2)
        (c.regs.read d.rd))
    else c.log
  let stop := halts c.policy raw o.nextPc
  (if stop then .halted else .proceed,
    { c with regs, pc := o.nextPc, count, log, state := if stop then .stopped else c.state })

def step (c : Core) (fetch : UInt16 → UInt32) : Except CoreError (StepResult × Core) :=
  if c.state = .stopped then .error (.notRunning c.pc c.regs.snapshot) else
  match c.limit with
  | some l =>
    if l ≤ c.count then .error (.limitExceeded l c.count c.pc c.regs.snapshot) else .ok (c.advance fetch)
  | none => .ok (c.advance fetch)

/-- Steps until a halt or a failure, for at most `fuel` steps. -/
def runFor (fetch : UInt16 → UInt32) : Nat → Core → Core × Except CoreError Nat
  | 0, c => (c, .error (.limitExceeded c.count c.count c.pc c.regs.snapshot))
  | n + 1, c =>
    match c.step fetch with
    | .error e => (c, .error e)
    | .ok (.halted, c') => (c', .ok c'.count)
    | .ok (.proceed, c') => runFor fetch n c'

/-- Steps a run can take: one past the limit, or past the range of a 64-bit counter. -/
def stepBound (c : Core) : Nat := c.limit.getD 18446744073709551616 + 1

/-- Runs from `start` until the core halts, giving the instructions retired, or fails. -/
def run (c : Core) (start : UInt16) (fetch : UInt16 → UInt32) : Core × Except CoreError Nat :=
  let c := c.reset start
  runFor fetch c.stepBound c

end Core

end RiscvCore
