
namespace RiscvCore.Text

/-- The digits of `n` in base `b`, with zeros in front up to `width` digits. -/
def padDigits (b width n : Nat) : String :=
  let ds := Nat.toDigits b n
  String.ofList (List.replicate (width - ds.length) '0' ++ ds)

/-- Lowercase hexadecimal digits of `n`, at least `width` of them. -/
def hex (width n : Nat) : String := padDigits 16 width n

/-- Binary digits of `n`, at least `width` of them. -/
def bin (width n : Nat) : String := padDigits 2 width n

/-- The text `s` right-aligned in a field of `width` characters. -/
def alignRight (width : Nat) (s : String) : String :=
  String.ofList (List.replicate (width - s.length) ' ') ++ s

/-- An ASCII hexadecimal digit, either case. -/
def isHexDigit (c : Char) : Bool :=
  c.isDigit || ('a' ≤ c && c ≤ 'f') || ('A' ≤ c && c ≤ 'F')

def hexValue (c : Char) : Nat :=
  if c.isDigit then c.toNat - '0'.toNat
  else if 'a' ≤ c && c ≤ 'f' then c.toNat - 'a'.toNat + 10
  else c.toNat - 'A'.toNat + 10

def numeralValue (b : Nat) (ds : List Char) : Nat :=
  ds.foldl (fun n d => b * n + hexValue d) 0

end RiscvCore.Text
