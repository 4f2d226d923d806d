import RollingCapture.Capture.Provider
import RollingCapture.Rotation.Rotator
import RollingCapture.Sampler
import RollingCapture.Settings

/-! A run: open a session, move its packets into files until there are no more, something fails or a
stop is requested, and leave every file complete. -/
namespace RollingCapture.Run

open Capture (Provider Session World)
open Rotation (Rotator)

structure Summary where
  packets : Nat
  filesOpened : Nat
  /-- How many bytes the files accepted for packets. -/
  bytes : Nat
  /-- What the session says of its packets in the end, or else what it said last while it was sampled. -/
  stats : Option Statistics
  deriving DecidableEq, Repr

def chooseDevice (c : Config) (provider : Provider) (w : World) :
    Except Error (Option Device) × World :=
  match c.settings.interface with
  | some name => (.ok (some { name }), w)
  | none => provider.firstDevice w

def openInterface (c : Config) (provider : Provider) (w : World) :
    Except Error Session × World :=
  match chooseDevice c provider w with
  | (.error e, w) => (.error e, w)
  | (.ok none, w) =>
    (.error (.captureUnavailable "default" "no adapters found, are you sure you are root?"), w)
  | (.ok (some device), w) =>
    match provider.openLive w (c.request device) with
    | (.error e, w) => (.error e, w)
    | (.ok s, w) =>
      let (text, w) := provider.linkText w s.linkType
      (.ok s, w.note .info (s.name ++ ": link type " ++ text))

/-- Opens the input of a run: the files to replay, if any are named, or an interface. -/
def openInput (c : Config) (provider : Provider) (w : World) : Except Error Session × World :=
  if c.isReplay then
    let (result, toHost) := Capture.Replay.ofPaths w.toHost c.settings.inputs
    (result.map .replay, { w with toHost })
  else openInterface c provider w

def installFilter (c : Config) (s : Session) (w : World) : Except Error Unit × World :=
  match c.filterProgram w.disk with
  | .error e => (.error e, w)
  | .ok none => (.ok (), w)
  | .ok (some program) =>
    match s.filter w program true with
    | (.error e, w) => (.error e, w)
    | (.ok (), w) => (.ok (), w.note .debug (s.name ++ ": filter \"" ++ program ++ "\""))

/-- Opens the session of a run, filter included. Nothing stays open on failure. -/
def openSession (c : Config) (provider : Provider) (w : World) : Except Error Session × World :=
  match openInput c provider w with
  | (.error e, w) => (.error e, w)
  | (.ok s, w) =>
    match installFilter c s w with
    | (.error e, w) => (.error e, s.close w)
    | (.ok (), w) => (.ok s, w.note .info (s.name ++ ": capture started"))

/-- Moves packets into files, one after the other. A stop is looked for before every read, so that
what was read is also written. The answer holds the error that ended it, if one did. -/
def pump (s : Session) (r : Rotator) (w : World) : Option Error × Session × Rotator × World :=
  if w.stop.isStopped then (none, s, r, w)
  else
    match _found : s.next w with
    | (.ok p, s, w) =>
      match r.write w.toHost p with
      | (.error e, r, toHost) => (some e, s, r, { w with toHost })
      | (.ok (), r, toHost) => pump s r { w with toHost }
    | (.error .timeoutExpired, s, w) => pump s r w
    | (.error .noMorePackets, s, w) => (none, s, r, w.note .debug (s.name ++ ": end of input"))
    | (.error e, s, w) => (some e, s, r, w)
  termination_by s.backlog w
  decreasing_by
    · have less := Session.backlog_next _found (.inl rfl)
      cases s <;> exact less
    · exact Session.backlog_next _found (.inr rfl)

/-- Writes the packets of a session, completes the files, and sums up. What the session answered when it was
sampled meanwhile is taken in before the files are completed. An error that ended the writing is the answer,
and a further one on completing is only noted. -/
def dump (c : Config) (s : Session) (w : World) : Except Error Summary × Session × World :=
  let (r, toHost) := Rotator.new c.plan s.linkType s.snaplen w.toHost
  let (failure, s, r, w) := pump s r { w with toHost }
  let (sampler, log) := ({} : Sampler).takeAll w.log w.sampled
  let (closed, r, toHost) := r.close { w.toHost with log }
  let (stats, w) := s.statistics { w with toHost }
  let summary : Summary := ⟨r.packets, r.filesOpened, r.bytes, stats.toOption.or sampler.last⟩
  let w := w.note .info s!"read {r.packets} packets into {r.filesOpened} files"
  match failure, closed with
  | none, closed => (closed.map fun () => summary, s, w)
  | some e, .ok () => (.error e, s, w.note .error e.message)
  | some e, .error e' => (.error e, s, (w.note .warn e'.message).note .error e.message)

def changeUser (c : Config) (w : World) : Except Error Unit × World :=
  match c.settings.user with
  | none => (.ok (), w)
  | some user =>
    match Account.find w.accounts user with
    | .error e => (.error e, w)
    | .ok account => (.ok (), w.note .info account.changeText)

/-- A whole run. The session is closed in any case. -/
def run (c : Config) (provider : Provider) (w : World) : Except Error Summary × World :=
  match openSession c provider w with
  | (.error e, w) => (.error e, w)
  | (.ok s, w) =>
    match changeUser c w with
    | (.error e, w) => (.error e, s.close w)
    | (.ok (), w) =>
      let (result, s, w) := dump c s w
      (result, s.close w)

end RollingCapture.Run
