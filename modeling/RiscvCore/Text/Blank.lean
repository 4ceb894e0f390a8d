
namespace RiscvCore.Text

/-- Code points with the Unicode White_Space property. -/
def blankCodes : List Nat :=
  [0x09, 0x0A, 0x0B, 0x0C, 0x0D, 0x20, 0x85, 0xA0, 0x1680,
   0x2000, 0x2001, 0x2002, 0x2003, 0x2004, 0x2005, 0x2006, 0x2007, 0x2008, 0x2009, 0x200A,
   0x2028, 0x2029, 0x202F, 0x205F, 0x3000]

def isBlank (c : Char) : Bool := blankCodes.contains c.toNat

/-- The characters with the blanks at both ends removed. -/
def trimBlank (cs : List Char) : List Char :=
  ((cs.dropWhile isBlank).reverse.dropWhile isBlank).reverse

/-- The text up to its first comment mark, `#` or `//`. -/
def dropComment : List Char → List Char
  | [] => []
  | '#' :: _ => []
  | '/' :: '/' :: _ => []
  | c :: cs => c :: dropComment cs

/-- One line without its ending: a carriage return before the line feed is part of the ending. -/
def dropReturn (line : List Char) : List Char :=
  if line.getLast? = some '\r' then line.dropLast else line

/-- The lines of a text, each without its line ending; a final line ending adds no line. -/
def lines (s : String) : List (List Char) :=
  match s.toList.splitOn '\n' |>.reverse with
  | [] => []
  | last :: before =>
    let ended := before.reverse.map dropReturn
    if last.isEmpty then ended else ended ++ [last]

/-- The code of a line: its comment dropped and its blanks at both ends removed. -/
def codeOf (line : List Char) : List Char := trimBlank (dropComment line)

end RiscvCore.Text
