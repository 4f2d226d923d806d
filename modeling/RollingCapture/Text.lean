/-! Decimal text of a least width, as file names and time stamps print it, white space in the sense of the
Unicode property `White_Space`, and filter programs as files hold them: lines with comments. -/
namespace RollingCapture.Text

/-- The decimal digits of `n`, most significant first. -/
def digits (n : Nat) : List Char := Nat.toDigits 10 n

/-- Decimal text of `n`, filled with zeros up to `width` characters. A minus sign counts as one
character and stays in front of the zeros. -/
def zeroPadded (width : Nat) (n : Int) : List Char :=
  let sign := if n < 0 then ['-'] else []
  let body := digits n.natAbs
  sign ++ List.replicate (width - sign.length - body.length) '0' ++ body

/-- The code point ranges of `White_Space`, both ends included. -/
def blankRanges : List (Nat × Nat) :=
  [(0x09, 0x0D), (0x20, 0x20), (0x85, 0x85), (0xA0, 0xA0), (0x1680, 0x1680), (0x2000, 0x200A),
    (0x2028, 0x2029), (0x202F, 0x202F), (0x205F, 0x205F), (0x3000, 0x3000)]

def isBlank (c : Char) : Bool :=
  blankRanges.any fun range => range.1 ≤ c.toNat && c.toNat ≤ range.2

def trimEnd (text : List Char) : List Char := (text.reverse.dropWhile isBlank).reverse

def trim (text : List Char) : List Char := trimEnd (text.dropWhile isBlank)

namespace Program

/-- A line without the carriage return that ends it. -/
def chomp (line : List Char) : List Char := if line.getLast? = some '\r' then line.dropLast else line

/-- The lines of a text. A line feed ends a line, perhaps with a carriage return in front of it. What is
behind the last one is a line if there is anything. -/
def lines (text : List Char) : List (List Char) :=
  let pieces := text.splitOn '\n'
  pieces.dropLast.map chomp ++ (pieces.getLast?.filter (· ≠ [])).toList

/-- A line without its comment and without white space around it. -/
def bare (line : List Char) : List Char := trim (line.takeWhile (· ≠ '#'))

/-- The program as one line: what the lines say, with a space between. -/
def strip (text : List Char) : List Char :=
  [' '].intercalate (((lines text).map bare).filter (· ≠ []))

def read? (text : String) : Option String :=
  let program := strip text.toList
  if program = [] then none else some (String.ofList program)

end Program

end RollingCapture.Text
