/-! File paths as slash-separated names, and the extension that ends the last of them. -/
namespace RollingCapture.Path

/-- One name on the way from a starting directory to a file. -/
inductive Part where
  | current
  | parent
  | named (name : String)
  deriving DecidableEq, Repr

/-- The text between slashes, empty runs included. -/
def segments (path : String) : List String :=
  (path.toList.splitOn '/').map String.ofList

/-- The steps of a path, one after the other. Repeated and closing slashes mean nothing. -/
def steps (path : String) : List Part :=
  (segments path).filterMap fun
    | "" => none
    | "." => some .current
    | ".." => some .parent
    | name => some (.named name)

/-- The parts of a path: its steps without those that stay in place, except one in front of a
relative path. -/
def parts (path : String) : List Part :=
  let moves := (steps path).filter (· ≠ .current)
  if path = "." ∨ path.startsWith "./" then .current :: moves else moves

def fileName? (path : String) : Option String :=
  match (parts path).getLast? with
  | some (.named name) => some name
  | _ => none

/-- What follows the last dot of the file name. A dot that begins the name begins no extension. -/
def extension? (path : String) : Option String := do
  let name := (← fileName? path).toList
  let tail := name.reverse.takeWhile (· ≠ '.')
  if tail.length + 1 < name.length then some (String.ofList tail.reverse) else none

end RollingCapture.Path
