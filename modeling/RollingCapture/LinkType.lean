/-! Link-layer types, as a capture handle reports them and as file headers store them. -/
namespace RollingCapture

structure LinkType where
  code : Int32
  deriving DecidableEq, Repr

namespace LinkType

def ethernet : LinkType := ⟨1⟩

/-- Handle values that have another number in files: ATM RFC 1483, two raw IP values, the BSD/OS
variants of SLIP and PPP, and Classical IP over ATM. -/
def fileCodes : List (Int32 × Int32) :=
  [(11, 100), (12, 101), (14, 101), (15, 102), (16, 103), (19, 106)]

/-- The type that belongs into a file header for a value that a handle reports. -/
def ofHandle (code : Int32) : LinkType := ⟨(fileCodes.lookup code).getD code⟩

def names : List (Int32 × String) :=
  [(0, "NULL"), (1, "EN10MB"), (6, "IEEE802"), (9, "PPP"), (101, "RAW"), (105, "IEEE802_11"),
    (108, "LOOP"), (113, "LINUX_SLL"), (127, "IEEE802_11_RADIO"), (228, "IPV4"), (229, "IPV6"),
    (276, "LINUX_SLL2")]

def knownName (t : LinkType) : Option String := names.lookup t.code

def describe (t : LinkType) : String :=
  match t.knownName with
  | some name => s!"{name} ({t.code.toInt})"
  | none => s!"{t.code.toInt}"

end LinkType

end RollingCapture
