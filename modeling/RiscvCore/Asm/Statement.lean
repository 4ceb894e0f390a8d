import RiscvCore.Reg
import RiscvCore.Text.Digits

namespace RiscvCore.Asm

inductive Operand where
  | reg (r : Reg)
  | imm (value : Int)
  | mem (offset : Int) (base : Reg)
deriving DecidableEq, Repr

/-- Space and tab, the blanks allowed inside a statement. -/
def isSpace (c : Char) : Bool := c == ' ' || c == '\t'

def isIdentChar (c : Char) : Bool := c.isAlphanum || c == '.' || c == '_'

/-- The largest value a 64-bit signed number holds. -/
def maxValue : Nat := 9223372036854775807

def dropSpaces (cs : List Char) : List Char := cs.dropWhile isSpace

def register? (cs : List Char) : Option (Reg × List Char) :=
  let (name, rest) := cs.span isIdentChar
  if name.isEmpty then none else (Reg.ofName? (String.ofList name)).map (·, rest)

/-- A number without sign: `0x` or `0X` and hexadecimal digits, else decimal digits. -/
def unsigned? (cs : List Char) : Option (Nat × List Char) :=
  let hex? : Option (Nat × List Char) :=
    match cs with
    | '0' :: x :: rest =>
      if x == 'x' || x == 'X' then
        let (ds, after) := rest.span Text.isHexDigit
        let v := Text.numeralValue 16 ds
        if !ds.isEmpty && v ≤ maxValue then some (v, after) else none
      else none
    | _ => none
  match hex? with
  | some r => some r
  | none =>
    let (ds, after) := cs.span Char.isDigit
    let v := Text.numeralValue 10 ds
    if !ds.isEmpty && v ≤ maxValue then some (v, after) else none

/-- A number with an optional sign. -/
def immediate? (cs : List Char) : Option (Int × List Char) :=
  match cs with
  | '-' :: rest => (unsigned? rest).map fun (v, r) => (-(v : Int), r)
  | '+' :: rest => (unsigned? rest).map fun (v, r) => ((v : Int), r)
  | _ => (unsigned? cs).map fun (v, r) => ((v : Int), r)

/-- `offset(base)`, the offset optional, spaces allowed before and inside the parentheses. -/
def memory? (cs : List Char) : Option (Operand × List Char) :=
  let (offset, rest) := match immediate? cs with
    | some (v, r) => (v, r)
    | none => (0, cs)
  match dropSpaces rest with
  | '(' :: inner =>
    match register? (dropSpaces inner) with
    | some (base, after) =>
      match dropSpaces after with
      | ')' :: rest => some (.mem offset base, rest)
      | _ => none
    | none => none
  | _ => none

/-- The first reading of an operand: memory, register, immediate. -/
def operand? (cs : List Char) : Option (Operand × List Char) :=
  match memory? cs with
  | some r => some r
  | none =>
    match register? cs with
    | some (r, rest) => some (.reg r, rest)
    | none => (immediate? cs).map fun (v, rest) => (.imm v, rest)

/-- One operand with blanks around it and nothing else. -/
def operandExact? (cs : List Char) : Option Operand :=
  match operand? (dropSpaces cs) with
  | some (o, rest) => if (dropSpaces rest).isEmpty then some o else none
  | none => none

/-- The operands after a mnemonic; no text means no operands. -/
def operands? (cs : List Char) : Option (List Operand) :=
  if cs.isEmpty then some [] else (cs.splitOn ',').mapM operandExact?

/-- A statement: its mnemonic as written, and its operands. -/
def statement? (cs : List Char) : Option (String × List Operand) :=
  let (name, rest) := (dropSpaces cs).span isIdentChar
  if name.isEmpty then none else (operands? (dropSpaces rest)).map (String.ofList name, ·)

end RiscvCore.Asm
