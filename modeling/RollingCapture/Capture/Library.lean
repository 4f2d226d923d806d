import RollingCapture.Device
import RollingCapture.Error
import RollingCapture.Log
import RollingCapture.Packet

/-! The capture library: which of its operations could be bound, how it answers, and every call made
to it. Answers are settled beforehand, so that a run against the library is a function. -/
namespace RollingCapture.Capture

/-- A text as the library hands it out: null, or bytes that a zero byte may end early. -/
abbrev RawText := Option (List UInt8)

namespace RawText

def read (t : RawText) : Except Error (Option String) :=
  match t with
  | none => .ok none
  | some bytes =>
    match Text.Utf8.decode (bytes.takeWhile (· ≠ 0)) with
    | .ok text => .ok (some text)
    | .error e => .error (.malformedText e)

def get (t : RawText) : Except Error String :=
  match t.read with
  | .error e => .error e
  | .ok none => .error .nullString
  | .ok (some text) => .ok text

def getD (t : RawText) : String :=
  match t.read with
  | .ok (some text) => text
  | _ => ""

def complaint (t : RawText) : Error :=
  match t.read with
  | .ok text => .library (text.getD "")
  | .error e => e

end RawText

structure Handle where
  id : Nat
  deriving DecidableEq, Repr

structure RawDevice where
  name : RawText
  desc : RawText := none
  flags : UInt32 := 0
  deriving Repr

/-- A device whose texts can be read. Only its name must not be null. -/
def RawDevice.read (d : RawDevice) : Except Error Device := do
  let name ← d.name.get
  let desc ← d.desc.read
  return { name, desc, flags := .ofBits d.flags }

/-- What a read of the next packet gives. -/
inductive Read where
  | packet (p : Packet)
  | code (n : Int)
  deriving Repr

/-- A list of devices or, with a code other than zero, a complaint. -/
structure Listing where
  code : Int := 0
  complaint : RawText := none
  devices : List RawDevice := []
  deriving Repr

/-- How the library answers. Codes are zero where all is well. -/
structure Behaviour where
  /-- The complaint with which opening fails. -/
  openLive : Option RawText := none
  create : Option RawText := none
  activate : Int := 0
  compile : Int := 0
  setFilter : Int := 0
  setSnaplen : Int := 0
  setPromisc : Int := 0
  setTimeout : Int := 0
  setRfmon : Int := 0
  datalink : Int32 := 1
  lastError : RawText := none
  version : RawText := none
  names : List (Int × RawText) := []
  descriptions : List (Int × RawText) := []
  listing : Listing := {}
  /-- What the reads give, one after the other; then the input is over. -/
  reads : List Read := []
  /-- What the requests for statistics give, one after the other; then they fail. -/
  stats : List (Option Statistics) := []
  deriving Repr

/-- A call of the library, with what matters of its outcome. -/
inductive Call where
  | openLive (device : String) (snaplen : Int32) (promisc : Bool) (timeoutMs : Int32)
      (result : Option Handle)
  | create (device : String) (result : Option Handle)
  | setSnaplen (h : Handle) (n : Int32)
  | setPromisc (h : Handle) (on : Bool)
  | setTimeout (h : Handle) (ms : Int32)
  | setRfmon (h : Handle) (on : Bool)
  | activate (h : Handle)
  | datalink (h : Handle)
  | nextPacket (h : Handle)
  | compile (h : Handle) (program : String) (optimize done : Bool)
  | setFilter (h : Handle)
  | freeCode
  | stats (h : Handle)
  | getErr (h : Handle)
  | close (h : Handle)
  | findAllDevs (found : Bool)
  | freeAllDevs
  | datalinkName (n : Int32)
  | datalinkDescription (n : Int32)
  | libVersion
  deriving DecidableEq, Repr

namespace Call

def capability : Call → Capability
  | openLive .. => .openLive
  | create .. => .create
  | setSnaplen .. => .setSnaplen
  | setPromisc .. => .setPromisc
  | setTimeout .. => .setTimeout
  | setRfmon .. => .setRfmon
  | activate _ => .activate
  | datalink _ => .datalink
  | nextPacket _ => .nextPacket
  | compile .. => .compile
  | setFilter _ => .setFilter
  | freeCode => .freeCode
  | stats _ => .stats
  | getErr _ => .getErr
  | close _ => .close
  | findAllDevs _ => .findAllDevs
  | freeAllDevs => .freeAllDevs
  | datalinkName _ => .datalinkName
  | datalinkDescription _ => .datalinkDescription
  | libVersion => .libVersion

end Call

structure Library where
  loadError : Option String := none
  missing : List Capability := []
  behaviour : Behaviour := {}
  calls : Array Call := #[]
  handles : Nat := 0
  held : List Handle := []
  deriving Repr

namespace Library

/-- A library that is not there. Every operation is missing. -/
def absent (reason : String) : Library where
  loadError := some reason
  missing := Capability.all

/-- A file that may be a capture library. -/
inductive File where
  | unusable (reason : String)
  /-- A library without the symbols of some operations. -/
  | usable (lacks : List Capability)
  deriving Repr

def fileNames : List String := ["libpcap.so.1", "libpcap.so.0.8", "libpcap.so"]

/-- Where the library is looked for, in `directory` or wherever the system looks. -/
def candidates (directory : Option String) : List String :=
  fileNames.map fun name => (directory.map (· ++ "/")).getD "" ++ name

def fileAt (files : List (String × File)) (path : String) : File :=
  (files.lookup path).getD
    (.unusable s!"{path}: cannot open shared object file: No such file or directory")

/-- Binds the first of the paths that is usable. If none is, the last reason is kept. -/
def bind (files : List (String × File)) (reason : String) : List String → Library
  | [] => absent reason
  | path :: rest =>
    match fileAt files path with
    | .usable lacks => { missing := Capability.bindingOrder.filter lacks.contains }
    | .unusable reason => bind files s!"{path}: {reason}" rest

def load (files : List (String × File)) (directory : Option String) : Library :=
  bind files "no candidate library paths" (candidates directory)

def has (l : Library) (c : Capability) : Bool :=
  l.loadError.isNone && !l.missing.contains c

def isAvailable (l : Library) : Bool := l.loadError.isNone && !l.missing.any Capability.isRequired

def loadMessage (l : Library) : Severity × String :=
  match l.loadError with
  | some reason => (.debug, s!"libpcap not loaded: {reason}")
  | none =>
    if l.missing.isEmpty then (.trace, "libpcap loaded")
    else (.debug, "libpcap loaded without " ++ Capability.listText l.missing)

def describe (l : Library) : String :=
  let loadError := match l.loadError with
    | none => "None"
    | some reason => "Some(\"" ++ reason ++ "\")"
  "LibpcapProvider \x7b load_error: " ++ loadError ++ ", missing: "
    ++ Capability.listText l.missing ++ " \x7d"

/-- Fails unless the library is there and all of `cs` are bound; the first that is not is named. -/
def require (l : Library) (cs : List Capability) : Except Error Unit :=
  match l.loadError with
  | some reason => .error (.libraryUnavailable reason)
  | none =>
    match cs.find? l.missing.contains with
    | some c => .error (.unsupported c)
    | none => .ok ()

def called (l : Library) (c : Call) : Library := { l with calls := l.calls.push c }

def hand (l : Library) : Handle × Library :=
  let h : Handle := ⟨l.handles⟩
  (h, { l with handles := l.handles + 1, held := h :: l.held })

def complaintBytes : Nat := 255

/-- What fits of a complaint; none is an empty text. -/
def cut (t : RawText) : RawText := some ((Option.getD t []).take complaintBytes)

/-- Gives a handle up. It is closed where the library can do that. -/
def release (l : Library) (h : Handle) : Library :=
  let l := { l with held := l.held.filter (· ≠ h) }
  if l.has .close then l.called (.close h) else l

def lastError (l : Library) (h : Handle) : RawText × Library :=
  if l.has .getErr then (l.behaviour.lastError, l.called (.getErr h))
  else (some (Text.Utf8.encode "unknown libpcap error"), l)

def failWith (l : Library) (h : Handle) : Error × Library :=
  let (t, l) := l.lastError h
  (t.complaint, l)

end Library

end RollingCapture.Capture
