import RollingCapture.CaptureFile.Summary
import RollingCapture.CommandLine.Options
import RollingCapture.Run

/-! The program: what it does for its arguments, and what it prints. -/
namespace RollingCapture.CommandLine

open Capture (World Provider)

/-- What a program leaves behind besides files. -/
structure Outcome where
  code : Nat := 0
  out : String := ""
  err : String := ""
  deriving DecidableEq, Repr

namespace Outcome

def failure (message : String) : Outcome := { code := 1, err := message ++ "\n" }

def usage : Outcome := { code := 2 }

/-- What two parts of a program leave behind. A failure of either counts. -/
def both (a b : Outcome) : Outcome := ⟨max a.code b.code, a.out ++ b.out, a.err ++ b.err⟩

end Outcome

def version (w : World) : Outcome × World :=
  let (result, library) := w.library.version
  let banner := match result with
    | .ok text => text
    | .error e => e.message
  ({ out := s!"packetdump version = 1.0.0\n{banner}\nLZ4 = lz4_flex (frame format)\n" },
    { w with library })

def listDevices (w : World) : Outcome × World :=
  match Provider.live.devices w with
  | (.error e, w) => (.failure e.message, w)
  | (.ok [], w) => (.failure "no adapters found, are you sure you are root?", w)
  | (.ok devices, w) =>
    ({ out := String.join (devices.zipIdx.map fun (d, i) => s!" {i}  {d.describe}\n") }, w)

def echo (o : Options) : Outcome :=
  match Config.ofSettings o.settings with
  | .error e => .failure e.message
  | .ok c => { out := c.describe }

def inform (o : Options) (w : World) : Outcome × World :=
  let (version, w) := if o.version then version w else ({}, w)
  let (devices, w) := if o.list then listDevices w else ({}, w)
  (version.both (devices.both (if o.echo then echo o else {})), w)

/-- Prints the totals of files, whatever becomes of each. -/
def summarize (d : Disk) (paths : List String) : Outcome :=
  (paths.map fun path =>
    match CaptureFile.Summary.ofPath d path with
    | .ok s => { out := s.describe ++ "\n" }
    | .error e => Outcome.failure e.message).foldr Outcome.both {}

def totals (s : Run.Summary) : String :=
  match s.stats with
  | some stats => s!"read {s.packets} packets, {stats.totalDropped} dropped\n"
  | none => s!"read {s.packets} packets\n"

def capture (c : Config) (w : World) : Outcome × World :=
  match c.isReplay, w.library.loadError with
  | false, some reason => (.failure s!"FAIL: libpcap: {reason}", w)
  | _, _ =>
    match Run.run c .live w with
    | (.error e, w) => (.failure e.message, w)
    | (.ok s, w) => ({ err := totals s }, w)

def run (args : List String) (w : World) : Outcome × World :=
  match Options.parse args with
  | none => (.usage, w)
  | some o =>
    if o.version || o.list || o.echo then inform o w
    else if o.writes then
      match Config.ofSettings o.settings with
      | .error e => (.failure e.message, w)
      | .ok c => capture c w
    else if o.settings.inputs.isEmpty then
      (.failure ("FAIL: no output files specified\n"
        ++ "  hint: use the '-w' option to specify a file pattern"), w)
    else (summarize w.disk o.settings.inputs, w)

end RollingCapture.CommandLine
