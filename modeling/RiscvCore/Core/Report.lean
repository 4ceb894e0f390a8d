import RiscvCore.Core.Step

namespace RiscvCore

namespace Core

def stateName : RunState → String
  | .running => "Running"
  | .stopped => "Stopped"

/-- A pc as a word address and as a byte address. -/
def pcLine (pc : UInt16) : String :=
  s!"0x{Text.hex 4 pc.toNat} (byte 0x{Text.hex 5 (pc.toNat * 4)})"

def dumpState (c : Core) : String :=
  let regLines := c.regs.nonZero.map fun (r, v) =>
    s!"  {r.abiName} (x{r.index}) = 0x{Text.hex 8 v.toNat} ({Entry.signed v})\n"
  let m := c.machine
  let machine :=
    if m == {} then ""
    else s!"\nMachine registers:\n  mstatus = 0x{Text.hex 8 m.mstatus.toNat}\n" ++
      s!"  mepc = 0x{Text.hex 8 m.mepc.toNat}\n  mcause = 0x{Text.hex 8 m.mcause.toNat}\n" ++
      s!"  mtvec = 0x{Text.hex 8 m.mtvec.toNat}\n"
  s!"PC: {pcLine c.pc}\nState: {stateName c.state}\nInstructions executed: {c.count}\n" ++
  "\nRegisters:\n  zero (x0) = 0x00000000 (0)\n" ++ String.join regLines ++ machine

/-- Every log entry, each followed by a line break. -/
def formatLogs (c : Core) : String := String.join (c.log.map (·.render ++ "\n"))

/-- The words from five before to five after the pc (within the address range), the pc marked,
then the last `count` log entries if the log is not empty, then in verbose mode the state. -/
def debugInfo (c : Core) (fetch : UInt16 → UInt32) (count : Nat) : String :=
  let lo := c.pc.toNat - 5
  let hi := min (c.pc.toNat + 5) 65535
  let words := (List.range (hi + 1 - lo)).map fun k =>
    let a := (lo + k).toUInt16
    let mark := if a == c.pc then ">>> " else "    "
    s!"{mark}0x{Text.hex 4 a.toNat}: 0x{Text.hex 8 (fetch a).toNat}\n"
  let logs :=
    if c.log.isEmpty then ""
    else "\nLast execution logs:\n" ++
      String.join ((c.log.drop (c.log.length - count)).map (·.render ++ "\n"))
  let verbose := if c.level == .verbose then "\n" ++ c.dumpState else ""
  "Memory around pc:\n" ++ String.join words ++ logs ++ verbose

end Core

end RiscvCore
