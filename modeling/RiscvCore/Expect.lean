import RiscvCore.Core.Report
import RiscvCore.Asm.Assemble
import RiscvCore.Memory

namespace RiscvCore.Expect

/-- Instructions an expectation lets a program run. -/
def instructionLimit : Nat := 100000

/-- A core that logs every instruction and stops after `instructionLimit` of them. -/
def debugCore : Core := { level := .instructions, limit := some instructionLimit }

/-- The program's words and a fresh debug core for them. -/
def load (asm : String) : Except AsmError (Core × List UInt32) :=
  (Asm.assembleWords asm).map (debugCore, ·)

def failureReport (c : Core) (e : CoreError) (words : List UInt32) : String :=
  "=== RV32I Execution Error ===\n\n" ++ s!"Error: {e.message}\n\n" ++
    c.debugInfo (Store.slice words.toArray).read 10 ++ "\n" ++ c.dumpState

/-- Runs a program to its return, or fails with a report. -/
def run (asm : String) : Except String (Core × Nat) :=
  match load asm with
  | .error e => .error s!"Failed to assemble code: {e.message}\n\nCode:\n{asm}"
  | .ok (c, words) =>
    match c.run 0 (Store.slice words.toArray).read with
    | (c, .ok n) => .ok (c, n)
    | (c, .error e) => .error (failureReport c e words ++ s!"\nCode:\n{asm}")

/-- The program runs to its return; gives the stopped core. -/
def ok (asm : String) : Except String Core := (run asm).map (·.1)

/-- The program runs to its return and leaves each listed value in its register. -/
def registers (asm : String) (expected : List (Reg × UInt32)) : Except String Unit := do
  let c ← ok asm
  for (r, v) in expected do
    let actual := c.regs.read r
    if actual != v then
      throw (s!"Register {r.abiName} mismatch: expected {Entry.signed v}, got {Entry.signed actual}" ++
        s!"\n\n{c.dumpState}\nCode:\n{asm}")

/-- The program halts after exactly `expected` instructions. -/
def instructionCount (asm : String) (expected : Nat) : Except String Unit := do
  let (c, n) ← run asm
  if n != expected then
    throw (s!"Instruction count mismatch: expected {expected}, got {n}\n\n{c.formatLogs}\nCode:\n{asm}")

end RiscvCore.Expect
