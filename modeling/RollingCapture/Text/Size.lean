import RollingCapture.Text

/-! Sizes as people write them: a number, decimal or hexadecimal, and a letter for thousands,
millions or billions. No number on the way to a size may reach the limit. -/
namespace RollingCapture.Text.Size

/-- Sizes stay below this bound, the 64th power of two. -/
def limit : Nat := 18446744073709551616

/-- A number that stays below the limit. -/
def checked (n : Nat) : Option Nat := if n < limit then some n else none

def factor? : Char → Option Nat
  | 'k' | 'K' => some 1000
  | 'm' | 'M' => some 1000000
  | 'g' | 'G' => some 1000000000
  | _ => none

/-- The value of an ASCII digit, letters counted from ten on. -/
def digit? (c : Char) : Option Nat :=
  if '0' ≤ c ∧ c ≤ '9' then some (c.toNat - 48)
  else if 'a' ≤ c ∧ c ≤ 'z' then some (c.toNat - 87)
  else if 'A' ≤ c ∧ c ≤ 'Z' then some (c.toNat - 55)
  else none

def append? (base n : Nat) (c : Char) : Option Nat := do
  let d ← (digit? c).filter (· < base)
  checked ((← checked (n * base)) + d)

/-- A number below the limit: one digit at least, and perhaps a plus sign in front. -/
def number? (base : Nat) (text : List Char) : Option Nat :=
  let digits := match text with
    | '+' :: rest => rest
    | text => text
  if digits.isEmpty then none else digits.foldlM (append? base) 0

/-- The number in front of the letter, hexadecimal after `0x` or `0X`. -/
def body? : List Char → Option Nat
  | '0' :: 'x' :: rest | '0' :: 'X' :: rest => number? 16 rest
  | text => number? 10 text

def split (text : List Char) : List Char × Nat :=
  match text.getLast? >>= factor? with
  | some factor => (text.dropLast, factor)
  | none => (text, 1)

/-- Reads a size, with white space around it. -/
def parse? (text : String) : Option Nat := do
  let (body, factor) := split (trim text.toList)
  checked ((← body? body) * factor)

end RollingCapture.Text.Size
