import RiscvCore.Core.Step

namespace RiscvCore

/-- A call of the host that may change a core. -/
inductive Command where
  | step (fetch : UInt16 → UInt32)
  | run (start : UInt16) (fetch : UInt16 → UInt32)
  | reset (pc : UInt16)
  | setPc (pc : UInt16)
  | setRegister (r : Reg) (v : UInt32)
  | writeRegister (id : RegisterId) (v : UInt32)
  | setMachine (m : MachineRegs)
  | clearLogs

/-- Whether a command sets the core running again: a reset, or a run, which starts with one. -/
def Command.restarts : Command → Bool
  | .reset _ | .run _ _ => true
  | _ => false

/-- What a command answers besides the core it leaves. -/
inductive Reply where
  | stepped (r : StepResult)
  | ran (count : Nat)
  | done
deriving DecidableEq, Repr

namespace Core

def exec (c : Core) : Command → Except CoreError Reply × Core
  | .step fetch =>
    match c.step fetch with
    | .ok (r, c') => (.ok (.stepped r), c')
    | .error e => (.error e, c)
  | .run start fetch =>
    let (c', r) := c.run start fetch
    (r.map .ran, c')
  | .reset pc => (.ok .done, c.reset pc)
  | .setPc pc => (.ok .done, c.setPc pc)
  | .setRegister r v => (.ok .done, c.setRegister r v)
  | .writeRegister id v => (.ok .done, c.writeRegister v id)
  | .setMachine m => (.ok .done, c.setMachine m)
  | .clearLogs => (.ok .done, c.clearLogs)

def session (c : Core) (cmds : List Command) : Core := cmds.foldl (fun c cmd => (c.exec cmd).2) c

end Core

end RiscvCore
