import RollingCapture.Disk.Failure
import RollingCapture.Path
import RollingCapture.Text.Utf8

/-! The files a run reads and writes, as one value: a tree of names, and the bytes of each file by a
number of its own, so that a file keeps its bytes for whoever has it open while its name is removed
or given to another file. -/
namespace RollingCapture

/-- A file that is no place for bytes. -/
inductive SpecialFile where
  /-- Swallows what is written and is empty to read. -/
  | null
  /-- Swallows what is written and reads as zeros. -/
  | zero
  /-- Refuses what is written and reads as zeros. -/
  | full
  deriving DecidableEq, Repr

inductive Entry where
  | directory
  | file (id : Nat)
  | special (kind : SpecialFile)
  deriving DecidableEq, Repr

namespace Entry

def refuses : Entry → Bool
  | special .full => true
  | _ => false

end Entry

/-- A place in the tree: the names on the way from the root. -/
abbrev Location := List String

/-- All files, and where relative paths begin. -/
structure Disk where
  /-- Everything but the root, which is a directory. -/
  entries : List (Location × Entry)
  /-- The bytes of each file ever made, by its number. -/
  contents : Array (Array UInt8) := #[]
  /-- The directory in which relative paths begin. -/
  home : Location
  /-- Every file in the tree has its bytes. -/
  kept : ∀ loc id, (loc, .file id) ∈ entries → id < contents.size := by simp
  /-- No file has two names. -/
  unshared : ∀ a b id, (a, .file id) ∈ entries → (b, .file id) ∈ entries → a = b := by simp
  deriving Repr

namespace Disk

def maxNameBytes : Nat := 255

def pathLimit : Nat := 4096

/-- A disk with the usual top directories and devices, and an empty home directory. -/
def fresh : Disk where
  entries := ["dev", "etc", "home", "tmp", "usr", "var"].map (fun name => ([name], .directory))
    ++ [(["dev", "null"], .special .null), (["dev", "zero"], .special .zero),
      (["dev", "full"], .special .full), (["tmp", "home"], .directory)]
  home := ["tmp", "home"]

def find? (d : Disk) (loc : Location) : Option Entry :=
  if loc = [] then some .directory else d.entries.lookup loc

def addDirectory (d : Disk) (loc : Location) : Disk where
  entries := (loc, .directory) :: d.entries.filter (·.1 ≠ loc)
  contents := d.contents
  home := d.home
  kept := by
    intro at' id found
    simp only [List.mem_cons, Prod.mk.injEq, reduceCtorEq, and_false, false_or,
      List.mem_filter] at found
    exact d.kept _ _ found.1
  unshared := by
    intro a b id atA atB
    simp only [List.mem_cons, Prod.mk.injEq, reduceCtorEq, and_false, false_or,
      List.mem_filter] at atA atB
    exact d.unshared _ _ _ atA.1 atB.1

/-- Takes away what is at `loc`. Its bytes stay for those who have them open. -/
def removeEntry (d : Disk) (loc : Location) : Disk where
  entries := d.entries.filter (·.1 ≠ loc)
  contents := d.contents
  home := d.home
  kept := fun _ _ found => d.kept _ _ (List.mem_filter.1 found).1
  unshared := fun _ _ _ atA atB =>
    d.unshared _ _ _ (List.mem_filter.1 atA).1 (List.mem_filter.1 atB).1

/-- Where a chain of directories leads. A parent of the root is the root. -/
def walk (d : Disk) (loc : Location) : List Path.Part → Except SystemError Location
  | [] => .ok loc
  | .current :: rest => d.walk loc rest
  | .parent :: rest => d.walk loc.dropLast rest
  | .named name :: rest =>
    if maxNameBytes < name.utf8ByteSize then .error .nameTooLong
    else match d.find? (loc ++ [name]) with
      | none => .error .notFound
      | some .directory => d.walk (loc ++ [name]) rest
      | some _ => .error .notDirectory

/-- Where a path leads. The last name need not exist. -/
structure Place where
  location : Location
  /-- The path is written so that it can only mean a directory. -/
  isDirectoryOnly : Bool

/-- Resolves a path. Every step but a last name goes through a directory that exists, also one that
stays in place. The last name is not looked at. -/
def locate (d : Disk) (path : String) : Except IoFailure Place :=
  if path.toList.contains '\x00' then .error .nulInPath
  else if path = "" then .error (.system .notFound)
  else if pathLimit ≤ path.utf8ByteSize then .error (.system .nameTooLong)
  else
    let start := if path.startsWith "/" then [] else d.home
    let steps := Path.steps path
    match steps.getLast? with
    | some (.named name) =>
      match d.walk start steps.dropLast with
      | .error e => .error (.system e)
      | .ok loc => .ok ⟨loc ++ [name], path.endsWith "/"⟩
    | _ =>
      match d.walk start steps with
      | .error e => .error (.system e)
      | .ok loc => .ok ⟨loc, true⟩

def lookUp (d : Disk) (place : Place) : Except IoFailure (Option Entry) :=
  if place.location.getLast?.any (maxNameBytes < ·.utf8ByteSize) then .error (.system .nameTooLong)
  else .ok (d.find? place.location)

/-- The bytes of an entry. Endless zeros are cut where no reader looks further. -/
def content (d : Disk) : Entry → Array UInt8
  | .file id => d.contents.getD id #[]
  | .special .null | .directory => #[]
  | .special .zero | .special .full => Array.replicate 8192 0

/-- Replaces the bytes of a file. Other entries keep none. -/
def store (d : Disk) (e : Entry) (bytes : Array UInt8) : Disk :=
  match e with
  | .file id =>
    { d with
      contents := d.contents.setIfInBounds id bytes
      kept := fun _ _ found => by simpa using d.kept _ _ found }
  | _ => d

/-- Lets go of the bytes of a file while `a` holds them, so that they are there once and can be added
to in place. -/
@[noinline] def lend (d : Disk) (e : Entry) (a : α) : α × Disk := (a, d.store e #[])

def addFile (d : Disk) (loc : Location) : Entry × Disk :=
  (.file d.contents.size,
    { entries := (loc, .file d.contents.size) :: d.entries.filter (·.1 ≠ loc)
      contents := d.contents.push #[]
      home := d.home
      kept := by
        intro at' id found
        rw [Array.size_push]
        rcases List.mem_cons.1 found with new | old
        · obtain ⟨-, file_eq⟩ := Prod.mk.inj new
          obtain rfl := Entry.file.inj file_eq
          exact Nat.lt_succ_self _
        · exact Nat.lt_succ_of_lt (d.kept _ _ (List.mem_filter.1 old).1)
      unshared := by
        -- The number of the new file is not in use yet.
        have fresh (a : Location) : (a, .file d.contents.size) ∉ d.entries :=
          fun found => Nat.lt_irrefl _ (d.kept _ _ found)
        intro a b id atA atB
        rcases List.mem_cons.1 atA with newA | oldA <;> rcases List.mem_cons.1 atB with newB | oldB
        · exact (Prod.mk.inj newA).1.trans (Prod.mk.inj newB).1.symm
        · obtain rfl := Entry.file.inj (Prod.mk.inj newA).2
          exact absurd (List.mem_filter.1 oldB).1 (fresh b)
        · obtain rfl := Entry.file.inj (Prod.mk.inj newB).2
          exact absurd (List.mem_filter.1 oldA).1 (fresh a)
        · exact d.unshared _ _ _ (List.mem_filter.1 oldA).1 (List.mem_filter.1 oldB).1 })

/-- Opens `path` for writing: a new file, or an existing one made empty. A path that can only mean a
directory is refused before its last name is looked at. -/
def create (d : Disk) (path : String) : Except IoFailure (Entry × Disk) := do
  let place ← d.locate path
  if place.isDirectoryOnly then throw (.system .isDirectory)
  match ← d.lookUp place with
  | some .directory => throw (.system .isDirectory)
  | some e => return (e, d.store e #[])
  | none => return d.addFile place.location

/-- Opens `path` for reading. Directories open too; reading them fails. -/
def openToRead (d : Disk) (path : String) : Except IoFailure Entry := do
  let place ← d.locate path
  match ← d.lookUp place with
  | none => throw (.system .notFound)
  | some .directory => return .directory
  | some e => if place.isDirectoryOnly then throw (.system .notDirectory) else return e

def remove (d : Disk) (path : String) : Except IoFailure Disk := do
  let place ← d.locate path
  match ← d.lookUp place with
  | none => throw (.system .notFound)
  | some .directory => throw (.system .isDirectory)
  | some (.special _) => throw (.system .permissionDenied)
  | some (.file _) =>
    if place.isDirectoryOnly then throw (.system .notDirectory)
    return d.removeEntry place.location

def makeDirectory (d : Disk) (path : String) : Except IoFailure Disk := do
  let place ← d.locate path
  match ← d.lookUp place with
  | some _ => throw (.system .alreadyExists)
  | none => return d.addDirectory place.location

def named (d : Disk) (path : String) : Location :=
  (Path.steps path).foldl (fun loc step =>
    match step with
    | .current => loc
    | .parent => loc.dropLast
    | .named name => loc ++ [name]) (if path.startsWith "/" then [] else d.home)

def makeDirectories (d : Disk) (loc : Location) : Disk :=
  (List.range loc.length).foldl (fun d n =>
    let above := loc.take (n + 1)
    if (d.find? above).isSome then d else d.addDirectory above) d

/-- Puts a file with the given bytes on the disk, along with the directories it needs. -/
def addFileWith (d : Disk) (path : String) (bytes : Array UInt8) : Disk :=
  let loc := d.named path
  let (e, d) := (d.makeDirectories loc.dropLast).addFile loc
  d.store e bytes

def read (d : Disk) (path : String) : Except IoFailure (Array UInt8) := do
  match ← d.openToRead path with
  | .directory => throw (.system .isDirectory)
  | e => return d.content e

def readText (d : Disk) (path : String) : Except IoFailure String := do
  let bytes ← d.read path
  match Text.Utf8.decode bytes.toList with
  | .ok text => return text
  | .error _ => throw .notUtf8

/-- The files below home: path from there, and bytes. -/
def files (d : Disk) : List (String × Array UInt8) :=
  d.entries.filterMap fun (loc, e) =>
    match e with
    | .file _ =>
      if d.home.isPrefixOf loc then
        some ("/".intercalate (loc.drop d.home.length), d.content e)
      else none
    | _ => none

end Disk

end RollingCapture
