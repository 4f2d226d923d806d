import RollingCapture.Calendar
import RollingCapture.Text

/-! Patterns for output file names. A percent sign and one of the letters `y Y m d H M S` stand for
a field of the time of a file's first packet. Before any other character the sign is dropped, so
that two of them stand for one, and at the very end it stands for itself. -/
namespace RollingCapture

inductive TimeField where
  | shortYear | year | month | day | hour | minute | second
  deriving DecidableEq, Repr

namespace TimeField

def ofLetter? : Char → Option TimeField
  | 'y' => some shortYear
  | 'Y' => some year
  | 'm' => some month
  | 'd' => some day
  | 'H' => some hour
  | 'M' => some minute
  | 'S' => some second
  | _ => none

/-- The field's text: four characters at least for a year, two for the rest. -/
def render (t : CivilTime) : TimeField → List Char
  | shortYear => Text.zeroPadded 2 (t.year % 100)
  | year => Text.zeroPadded 4 t.year
  | month => Text.zeroPadded 2 t.month
  | day => Text.zeroPadded 2 t.day
  | hour => Text.zeroPadded 2 t.hour
  | minute => Text.zeroPadded 2 t.minute
  | second => Text.zeroPadded 2 t.second

end TimeField

namespace FilePattern

inductive Token where
  | literal (c : Char)
  | field (f : TimeField)
  deriving DecidableEq, Repr

def tokens : List Char → List Token
  | [] => []
  | ['%'] => [.literal '%']
  | '%' :: c :: rest =>
    (match TimeField.ofLetter? c with
      | some f => .field f
      | none => .literal c) :: tokens rest
  | c :: rest => .literal c :: tokens rest

def Token.render (t : CivilTime) : Token → List Char
  | literal c => [c]
  | field f => f.render t

/-- The name for a file whose first packet came `sec` seconds after the epoch, in a time zone
`offset` seconds ahead of UTC. -/
def expand (pattern : String) (offset sec : Int) : String :=
  String.ofList
    ((tokens pattern.toList).flatMap (Token.render (CivilTime.ofSeconds offset sec)))

def letters : List Char := ['y', 'Y', 'm', 'd', 'H', 'M', 'S']

/-- Whether a percent sign has such a letter behind it. It takes the character behind it along, so
that the second of two percent signs names nothing. -/
def namesField : List Char → Bool
  | [] => false
  | ['%'] => false
  | '%' :: c :: rest => letters.contains c || namesField rest
  | _ :: rest => namesField rest

/-- Whether any field of the time occurs in the pattern. Without one all names are the same. -/
def hasFields (pattern : String) : Bool := namesField pattern.toList

end FilePattern

end RollingCapture
