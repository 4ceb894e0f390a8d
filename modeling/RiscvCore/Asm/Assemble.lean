import RiscvCore.Asm.Build
import RiscvCore.Text.Blank

namespace RiscvCore.Asm

/-- The instruction of one line, `none` for a line without code. -/
def assembleLine (line : Nat) (text : List Char) : Except AsmError (Option Inst) :=
  let code := Text.codeOf text
  if code.isEmpty then .ok none else
  match statement? code with
  | none => .error (.malformed line (String.ofList code))
  | some (m, ops) => some <$> Site.build ⟨line, m.toLower⟩ ops

/-- One instruction; a text without code is malformed as a whole. -/
def assembleInstruction (text : String) : Except AsmError Inst := do
  match ← assembleLine 1 text.toList with
  | some i => pure i
  | none => throw (.malformed 1 text)

/-- The instructions of the lines from number `line` on. -/
def assembleFrom (line : Nat) : List (List Char) → Except AsmError (List Inst)
  | [] => .ok []
  | l :: ls => do
    let i? ← assembleLine line l
    let rest ← assembleFrom (line + 1) ls
    return i?.toList ++ rest

def assembleWords (text : String) : Except AsmError (List UInt32) :=
  (assembleFrom 1 (Text.lines text)).map (·.map Inst.encode)

/-- The four bytes of a word, least significant first. -/
def leBytes (w : UInt32) : List UInt8 :=
  [w.toUInt8, (w >>> 8).toUInt8, (w >>> 16).toUInt8, (w >>> 24).toUInt8]

def assembleCode (text : String) : Except AsmError (List UInt8) :=
  (assembleWords text).map (·.flatMap leBytes)

end RiscvCore.Asm
