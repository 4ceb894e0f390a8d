import RiscvCore.Text.Digits

namespace RiscvCore

/-- Words a 16-bit word address reaches. -/
def wordCount : Nat := 65536

inductive CoreError where
  | limitExceeded (limit executed : Nat) (pc : UInt16) (regs : Vector UInt32 32)
  | invalidRegister (index : Nat)
  | notRunning (pc : UInt16) (regs : Vector UInt32 32)
  | imageTooLarge (offset words capacity : Nat)
  | imageParse (line : Nat) (reason : String)
deriving DecidableEq, Repr

namespace CoreError

def message : CoreError → String
  | limitExceeded limit executed pc _ =>
    s!"instruction limit exceeded: executed {executed} instructions (limit: {limit}) " ++
    s!"at pc 0x{Text.hex 4 pc.toNat}"
  | invalidRegister index => s!"invalid register index {index}"
  | notRunning pc _ => s!"core is stopped at pc 0x{Text.hex 4 pc.toNat}"
  | imageTooLarge offset words capacity =>
    s!"image of {words} words at word offset {offset} exceeds {capacity} words"
  | imageParse line reason => s!"line {line}: {reason}"

/-- The word address where a running core failed. -/
def pc? : CoreError → Option UInt16
  | limitExceeded _ _ pc _ | notRunning pc _ => some pc
  | _ => none

/-- The registers of a running core when it failed. -/
def regs? : CoreError → Option (Vector UInt32 32)
  | limitExceeded _ _ _ regs | notRunning _ regs => some regs
  | _ => none

end CoreError

end RiscvCore
