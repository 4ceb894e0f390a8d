import RiscvCore.Log
import RiscvCore.RegisterId

namespace RiscvCore

/-- Machine-mode status and trap registers: storage for the host, nothing raises traps. -/
structure MachineRegs where
  mstatus : UInt32 := 0
  mepc : UInt32 := 0
  mcause : UInt32 := 0
  mtvec : UInt32 := 0
deriving DecidableEq, Repr, Inhabited

inductive RunState where
  | running | stopped
deriving DecidableEq, Repr

/-- When a fetched `ret` stops the core. -/
inductive HaltPolicy where
  /-- Only when it goes to word address 0. -/
  | returnToZero
  /-- Always. -/
  | onReturn
deriving DecidableEq, Repr

/-- Entries the rolling log keeps. -/
def logCapacity : Nat := 100

structure Core where
  regs : RegFile := RegFile.empty
  machine : MachineRegs := {}
  pc : UInt16 := 0
  state : RunState := .running
  count : Nat := 0
  limit : Option Nat := none
  policy : HaltPolicy := .returnToZero
  level : LogLevel := .none
  log : List Entry := []

namespace Core

/-- A running core at address 0 with cleared registers, no limit, and no logging. -/
def init : Core := {}

/-- Restarts at `pc`: running, counter and log cleared, registers kept. -/
def reset (c : Core) (pc : UInt16) : Core :=
  { c with pc, state := .running, count := 0, log := [] }

/-- The log with `e` pushed, its oldest entry removed first when it already holds
`logCapacity` entries. -/
def pushLog (log : List Entry) (e : Entry) : List Entry :=
  (if logCapacity ≤ log.length then log.tail else log) ++ [e]

def readRegister (c : Core) : RegisterId → UInt32
  | .gpr r => c.regs.read r
  | .pc => c.pc.toUInt32
  | .mstatus => c.machine.mstatus
  | .mepc => c.machine.mepc
  | .mcause => c.machine.mcause
  | .mtvec => c.machine.mtvec

def writeRegister (c : Core) (v : UInt32) : RegisterId → Core
  | .gpr r => { c with regs := c.regs.write r v }
  | .pc => { c with pc := v.toUInt16 }
  | .mstatus => { c with machine.mstatus := v }
  | .mepc => { c with machine.mepc := v }
  | .mcause => { c with machine.mcause := v }
  | .mtvec => { c with machine.mtvec := v }

/-- A general-purpose register as a signed word. -/
def getRegister (c : Core) (r : Reg) : Int32 := (c.regs.read r).toInt32

def setRegister (c : Core) (r : Reg) (v : UInt32) : Core := { c with regs := c.regs.write r v }

def setPc (c : Core) (pc : UInt16) : Core := { c with pc }

/-- The machine-mode registers replaced, as a host writes them through their storage. -/
def setMachine (c : Core) (m : MachineRegs) : Core := { c with machine := m }

def clearLogs (c : Core) : Core := { c with log := [] }

end Core

end RiscvCore
