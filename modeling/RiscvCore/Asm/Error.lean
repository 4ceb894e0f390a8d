
namespace RiscvCore

inductive AsmError where
  /-- The line does not have the shape of a statement; `text` is its code. -/
  | malformed (line : Nat) (text : String)
  | unknownMnemonic (line : Nat) (mnemonic : String)
  | invalidOperands (line : Nat) (mnemonic : String) (expected : String)
  | immediateOutOfRange (line : Nat) (mnemonic : String) (value min max : Int)
  | misalignedOffset (line : Nat) (mnemonic : String) (value : Int)
deriving DecidableEq, Repr

namespace AsmError

def line : AsmError → Nat
  | malformed l _ | unknownMnemonic l _ | invalidOperands l _ _ | immediateOutOfRange l _ _ _ _
  | misalignedOffset l _ _ => l

def message : AsmError → String
  | malformed l text => s!"line {l}: syntax error near `{text}`"
  | unknownMnemonic l m => s!"line {l}: unknown mnemonic `{m}`"
  | invalidOperands l m expected => s!"line {l}: invalid operands for `{m}`, expected {expected}"
  | immediateOutOfRange l m v lo hi => s!"line {l}: immediate {v} out of range [{lo}, {hi}] for `{m}`"
  | misalignedOffset l m v => s!"line {l}: offset {v} for `{m}` is not a multiple of 2"

end AsmError

end RiscvCore
