import RollingCapture.Device
import RollingCapture.Error
import RollingCapture.Host
import RollingCapture.Rotation.Plan
import RollingCapture.Text
import RollingCapture.Text.Size

/-! The settings of a run, and what makes them fit together. -/
namespace RollingCapture

structure Settings where
  /-- The interface to capture from; the first device if none is named. -/
  interface : Option String := none
  pattern : String
  maxBytes : Nat := 0
  period : Nat := 0
  maxFiles : Nat := 0
  /-- Compress, whatever the names end in. -/
  compress : Bool := false
  calendar : Calendar := .local
  snaplen : Int32 := 65536
  promisc : Bool := true
  monitor : Bool := false
  timeoutMs : Int32 := 10
  filter : Option String := none
  filterFile : Option String := none
  /-- Capture files to read in place of an interface. -/
  inputs : List String := []
  /-- The account to go on as once the capture is open. -/
  user : Option String := none
  statsIntervalMs : Nat := 100
  statusLine : Bool := false
  deriving DecidableEq, Repr

/-- Settings that fit together. -/
structure Config where
  settings : Settings
  compression : Compression
  deriving DecidableEq, Repr

def Settings.problem? (s : Settings) : Option ConfigProblem :=
  if s.pattern = "" then some .noOutput
  else if s.snaplen ≤ 0 then some (.snaplenNotPositive s.snaplen.toInt)
  else if s.timeoutMs < 0 then some (.negativeTimeout s.timeoutMs.toInt)
  else if s.filter.isSome && s.filterFile.isSome then some .twoFilters
  else if s.interface.isSome && !s.inputs.isEmpty then some .twoInputs
  else if s.statsIntervalMs = 0 then some .zeroStatsInterval
  else none

def Settings.size (text : String) : Except Error Nat :=
  match Text.Size.parse? text with
  | some n => .ok n
  | none => .error (.invalidConfig (.notASize text))

namespace Config

/-- Accepts settings that fit together. Output is compressed on demand or by its name. -/
def ofSettings (s : Settings) : Except Error Config :=
  match s.problem? with
  | some p => .error (.invalidConfig p)
  | none =>
    let compression := if s.compress then .lz4 else .ofPath s.pattern
    .ok { settings := s, compression }

def isReplay (c : Config) : Bool := !c.settings.inputs.isEmpty

def plan (c : Config) : Rotation.Plan where
  pattern := c.settings.pattern
  calendar := c.settings.calendar
  compression := c.compression
  maxBytes := c.settings.maxBytes
  period := c.settings.period
  maxFiles := c.settings.maxFiles

/-- The filter program, read from its file if that is where it is. A program without any text is
none. -/
def filterProgram (c : Config) (d : Disk) : Except Error (Option String) :=
  match c.settings.filter, c.settings.filterFile with
  | some program, _ => .ok (some program)
  | none, none => .ok none
  | none, some path =>
    match d.readText path with
    | .error f => .error (.fileOpen path f)
    | .ok text => .ok (Text.Program.read? text)

def request (c : Config) (device : Device) : Capture.Request where
  device
  snaplen := c.settings.snaplen
  promisc := c.settings.promisc
  timeoutMs := c.settings.timeoutMs
  monitor := c.settings.monitor

/-- The settings line by line, each as name and value. -/
def listing (c : Config) : List (String × String) :=
  let s := c.settings
  [("filesize", toString s.maxBytes), ("filetime", toString s.period),
    ("maxfiles", toString s.maxFiles), ("interface", s.interface.getD ""),
    ("writefile", s.pattern), ("bpf", s.filter.getD ""), ("bpf-file", s.filterFile.getD ""),
    ("compress", toString c.compression.isCompressed),
    ("gmt", toString (decide (s.calendar = .utc))), ("monitor-mode", toString s.monitor),
    ("no-promiscuous-mode", toString !s.promisc), ("relinquish-privileges", s.user.getD "")]
    ++ s.inputs.map fun path => ("readfile", path)

def describe (c : Config) : String :=
  String.join (c.listing.map fun (name, value) => s!"{name} = {value}\n")

end Config

end RollingCapture
