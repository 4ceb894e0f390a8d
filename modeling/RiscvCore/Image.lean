import RiscvCore.CoreError
import RiscvCore.Text.Blank

namespace RiscvCore.Image

def isSeparator (c : Char) : Bool := c == ',' || Text.isBlank c

/-- One written word: an optional `0x` or `0X`, then hex digits of a value below 2^32. -/
def token? (cs : List Char) : Option UInt32 :=
  let ds := match cs with
    | '0' :: x :: rest => if x == 'x' || x == 'X' then rest else cs
    | _ => cs
  let v := Text.numeralValue 16 ds
  if !ds.isEmpty && ds.all Text.isHexDigit && v < 4294967296 then some v.toUInt32 else none

/-- The words of a line whose comment is cut off. -/
def lineWords? (code : List Char) : Option (List UInt32) :=
  ((code.splitOnP isSeparator).filter (!·.isEmpty)).mapM token?

/-- The words of the lines from number `line` on, or the first line that is not a word list. -/
def wordsFrom (line : Nat) : List (List Char) → Except CoreError (List UInt32)
  | [] => .ok []
  | l :: ls =>
    let code := Text.dropComment l
    match lineWords? code with
    | some ws => (ws ++ ·) <$> wordsFrom (line + 1) ls
    | none => .error (.imageParse line
        s!"expected 32-bit hex words, found `{String.ofList (Text.trimBlank code)}`")

def parse (text : String) : Except CoreError (List UInt32) := wordsFrom 1 (Text.lines text)

end RiscvCore.Image
