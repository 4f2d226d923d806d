import RollingCapture.Capture.Interface
import RollingCapture.Capture.Replay
import RollingCapture.Capture.Script
import RollingCapture.Host
import RollingCapture.StopSignal

/-! Open captures of every kind, and the world around them. -/
namespace RollingCapture.Capture

/-- Everything that a run can change: a host, a capture library, a stop signal, and what scripts have
seen. The clock decides how often a session is sampled while a run lasts, so the world has the answers. -/
structure World extends Host where
  stop : StopSignal := {}
  library : Library := .absent "no candidate library paths"
  witnessed : Witnessed := {}
  /-- What the session answers when it is sampled in the background, in order. -/
  sampled : List (Except Error Statistics) := []
  deriving Repr

namespace World

def note (w : World) (severity : Severity) (text : String) : World :=
  { w with toHost := w.toHost.note severity text }

def asked (w : World) (q : Question) : World :=
  { w with witnessed := { w.witnessed with questions := w.witnessed.questions.push q } }

end World

inductive Session where
  | scripted (s : Script)
  | replay (r : Replay)
  | live (s : InterfaceSession)
  deriving Repr

namespace Session

def name : Session → String
  | scripted s => s.name
  | replay r => r.name
  | live s => s.name

def linkType : Session → LinkType
  | scripted s => s.linkType
  | replay r => r.linkType
  | live s => s.linkType

def snaplen : Session → UInt32
  | scripted s => s.snaplen
  | replay r => r.snaplen
  | live s => s.snaplen

def next (w : World) : Session → Except Error Packet × Session × World
  | scripted s =>
    match s.steps with
    | [] => (.error .noMorePackets, .scripted s, w)
    | step :: steps =>
      let delivered := s.delivered + (if step.outcome.isOk then 1 else 0)
      let witnessed := { w.witnessed with pulled := w.witnessed.pulled + 1 }
      (step.outcome, .scripted { s with steps, delivered },
        { w with stop := w.stop.requestTimes step.stops, witnessed })
  | replay r =>
    let (result, r, toHost) := r.next w.toHost
    (result, .replay r, { w with toHost })
  | live s =>
    let (result, library) := w.library.nextPacket s.handle
    (result, .live s, { w with library })

/-- Installs a filter program. Replays have no filters. -/
def filter (w : World) (program : String) (optimize : Bool) :
    Session → Except Error Unit × World
  | scripted s =>
    ((match s.filterError with
      | some e => .error e
      | none => .ok ()), w.asked (.filter program optimize))
  | replay _ => (.error (.unsupported .setFilter), w)
  | live s =>
    let (result, library) := w.library.installFilter s.handle program optimize
    (result, { w with library })

def statistics (w : World) : Session → Except Error Statistics × World
  | scripted s => (s.statistics, w)
  | replay r => (.ok ⟨r.received.toNat, 0, 0⟩, w)
  | live s =>
    let (result, library) := w.library.statistics s.handle
    (result, { w with library })

def close (w : World) : Session → World
  | live s => { w with library := w.library.release s.handle }
  | _ => w

def backlog (w : World) : Session → Nat × Nat × Nat
  | scripted s => (s.steps.length, 0, 0)
  | replay r => r.backlog
  | live _ => (w.library.behaviour.reads.length, 0, 0)

/-- A session that delivers a packet, or has waited in vain, has less left to give. -/
theorem backlog_next {s s' : Session} {w w' : World} {result : Except Error Packet}
    (found : s.next w = (result, s', w'))
    (goesOn : result.isOk ∨ result = .error .timeoutExpired) :
    Replay.Less (s'.backlog w') (s.backlog w) := by
  cases s with
  | scripted s =>
    simp only [next] at found
    split at found
    · simp only [Prod.mk.injEq] at found
      obtain ⟨rfl, -⟩ := found
      simp [Except.isOk, Except.toBool] at goesOn
    · rename_i more
      simp only [Prod.mk.injEq] at found
      obtain ⟨-, rfl, -⟩ := found
      exact .left _ _ (by simp [more])
  | replay r =>
    simp only [next, Prod.mk.injEq] at found
    obtain ⟨rfl, rfl, rfl⟩ := found
    rcases played : r.next w.toHost with ⟨result, r', h'⟩
    rw [played] at goesOn
    cases result with
    | ok p => simpa only [backlog, played] using Replay.backlog_next played
    | error e =>
      have fatal := Replay.isFatal_of_next played
      rcases goesOn with ok | timeout
      · simp [Except.isOk, Except.toBool] at ok
      · simp only [Except.error.injEq] at timeout
        subst timeout
        simp [Error.isFatal] at fatal
  | live s =>
    simp only [next, Prod.mk.injEq] at found
    obtain ⟨rfl, rfl, rfl⟩ := found
    exact .left _ _ (Library.length_nextPacket rfl goesOn)

end Session

end RollingCapture.Capture
