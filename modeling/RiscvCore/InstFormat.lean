import RiscvCore.Opcode

namespace RiscvCore

inductive InstFormat where
  | undefined | r | i | s | b | u | j | other
deriving DecidableEq, Repr, Inhabited

namespace InstFormat

/-- Formats whose bits 11:7 name a destination register. -/
def writesRd : InstFormat → Bool
  | r | i | u | j => true
  | _ => false

def name : InstFormat → String
  | undefined => "undefined" | r => "R" | i => "I" | s => "S"
  | b => "B" | u => "U" | j => "J" | other => "other"

/-- The format of a number taken as a major opcode: `undefined` from 32 on. -/
def classify (n : Nat) : InstFormat :=
  if n < 32 then
    match (Opcode.ofBits n) with
    | .load | .opImm | .jalr => i
    | .auipc | .lui => u
    | .store => s
    | .op => r
    | .branch => b
    | .jal => j
    | _ => other
  else undefined

end InstFormat

def Opcode.format (o : Opcode) : InstFormat := InstFormat.classify o.bits

end RiscvCore
