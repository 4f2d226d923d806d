import RollingCapture.Proofs.Capture.Handles
import Mathlib.Data.List.InsertIdx

/-! Everything that can be done with live captures, in any order: devices are listed, sessions are
opened, read, filtered and closed, and sources of statistics outlive the sessions they were taken from.
What the library handed out is given back once, whatever it lacks and however it answers. -/
namespace RollingCapture.Capture

/-- A library with the sessions that are open on it, and the handles that sources of statistics were
taken for. A source does not keep its session open. -/
structure Client where
  library : Library
  sessions : List InterfaceSession := []
  sources : List Handle := []

/-- What a client can do. Sessions and sources go by their positions. -/
inductive Operation where
  | devices
  | linkName (t : LinkType)
  | linkDescription (t : LinkType)
  | version
  | openLive (r : Request)
  | nextPacket (session : Nat)
  | filter (session : Nat) (program : String) (optimize : Bool)
  | takeSource (session : Nat)
  | statistics (source : Nat)
  | close (session : Nat)
  | dropSource (source : Nat)

namespace Client

def start (missing : List Capability) : Client where
  library := { missing }

def calls (c : Client) : List Call := c.library.calls.toList

def handles (c : Client) : List Handle := c.sessions.map (·.handle)

/-- The library answers anew. -/
def answering (c : Client) (b : Behaviour) : Client :=
  { c with library := { c.library with behaviour := b } }

def opening (c : Client) (r : Request) : Client :=
  match c.library.openLive r with
  | (.ok s, library) => { c with library, sessions := s :: c.sessions }
  | (.error _, library) => { c with library }

def withSession (c : Client) (i : Nat) (f : InterfaceSession → Client) : Client :=
  match c.sessions[i]? with
  | some s => f s
  | none => c

def perform (c : Client) : Operation → Client
  | .devices => { c with library := c.library.listDevices.2 }
  | .linkName t => { c with library := (c.library.linkName t).2 }
  | .linkDescription t => { c with library := (c.library.linkDescription t).2 }
  | .version => { c with library := c.library.version.2 }
  | .openLive r => c.opening r
  | .nextPacket i => c.withSession i fun s =>
    { c with library := (c.library.nextPacket s.handle).2 }
  | .filter i program optimize => c.withSession i fun s =>
    { c with library := (c.library.installFilter s.handle program optimize).2 }
  | .takeSource i => c.withSession i fun s => { c with sources := s.handle :: c.sources }
  | .statistics j =>
    match c.sources[j]? with
    | some h => { c with library := (c.library.statistics h).2 }
    | none => c
  | .close i => c.withSession i fun s =>
    { c with library := c.library.release s.handle, sessions := c.sessions.eraseIdx i }
  | .dropSource j => { c with sources := c.sources.eraseIdx j }

/-- Performs operations one after the other, each with the answers that the library has for it. -/
def run (c : Client) (turns : List (Behaviour × Operation)) : Client :=
  turns.foldl (fun c turn => (c.answering turn.1).perform turn.2) c

def leave (c : Client) : Client := c.run (c.sessions.map fun _ => ({}, .close 0))

/-- The handles that are open are those of the sessions. -/
structure Sound (c : Client) : Prop where
  library : c.library.Sound
  held : c.library.held = c.handles

variable {c : Client} {l : Library} {s : InterfaceSession} {i : Nat}

theorem sound_start {missing : List Capability} (closes : Capability.close ∉ missing) :
    (start missing).Sound := by
  refine ⟨⟨?_, ?_, ?_, List.nodup_nil, .nil⟩, rfl⟩
  · simpa [start, Library.has] using closes
  · intro h
    have unknown : (start missing).library.stage h = .unknown := if_pos (Nat.zero_le _)
    exact unknown ▸ .start
  · intro h member
    exact absurd member List.not_mem_nil

namespace Sound

theorem uses (sound : c.Sound) (uses : c.library.Uses l) : ({ c with library := l } : Client).Sound :=
  ⟨uses.sound sound.library, uses.held.trans sound.held⟩

theorem answering (sound : c.Sound) (b : Behaviour) : (c.answering b).Sound :=
  sound.uses ⟨rfl, rfl, rfl, [], by simp, .nil, by simp⟩

theorem mem_held (sound : c.Sound) (found : c.sessions[i]? = some s) :
    s.handle ∈ c.library.held := by
  rw [sound.held]
  exact List.mem_map_of_mem (List.mem_of_getElem? found)

theorem withSession (sound : c.Sound) {f : InterfaceSession → Client}
    (keeps : ∀ s, c.sessions[i]? = some s → (f s).Sound) : (c.withSession i f).Sound := by
  unfold Client.withSession
  split
  · exact keeps _ ‹_›
  · exact sound

theorem opening (sound : c.Sound) (r : Request) : (c.opening r).Sound := by
  have opens := Library.opens_openLive sound.library r
  unfold Client.opening
  generalize c.library.openLive r = outcome at opens
  cases opens with
  | failed library held_eq => exact ⟨library, held_eq.trans sound.held⟩
  | opened library more => exact ⟨library, by rw [more, sound.held]; rfl⟩

theorem close (sound : c.Sound) (found : c.sessions[i]? = some s) :
    ({ c with library := c.library.release s.handle, sessions := c.sessions.eraseIdx i }
      : Client).Sound := by
  refine ⟨sound.library.release (sound.mem_held found), ?_⟩
  have nodup : c.handles.Nodup := sound.held ▸ sound.library.nodup
  have there : c.handles[i]? = some s.handle := by
    rw [handles, List.getElem?_map, found]
    rfl
  obtain ⟨bound, handle_eq⟩ := List.getElem?_eq_some_iff.1 there
  calc (c.library.release s.handle).held
      = c.handles.filter (· ≠ s.handle) := by
        rw [Library.release_eq sound.library.closes, ← sound.held]
        rfl
    _ = c.handles.erase s.handle := by
        rw [nodup.erase_eq_filter]
        exact List.filter_congr fun h _ => by simp [bne, beq_eq_decide]
    _ = c.handles.eraseIdx i := by rw [← handle_eq, nodup.erase_getElem]
    _ = (c.sessions.eraseIdx i).map (·.handle) := List.eraseIdx_map ..

/-- What one operation preserves. -/
theorem perform (sound : c.Sound) (o : Operation) : (c.perform o).Sound := by
  cases o with
  | devices => exact sound.uses (Library.uses_listDevices _)
  | linkName t => exact sound.uses (Library.uses_linkName _ t)
  | linkDescription t => exact sound.uses (Library.uses_linkDescription _ t)
  | version => exact sound.uses (Library.uses_version _)
  | openLive r => exact sound.opening r
  | nextPacket i =>
    exact sound.withSession fun s found =>
      sound.uses (Library.uses_nextPacket (sound.mem_held found))
  | filter i program optimize =>
    exact sound.withSession fun s found =>
      sound.uses (Library.uses_installFilter (sound.mem_held found) program optimize)
  | takeSource i => exact sound.withSession fun s _ => ⟨sound.library, sound.held⟩
  | statistics j =>
    simp only [Client.perform]
    split
    · exact sound.uses (Library.uses_statistics _ _)
    · exact sound
  | close i => exact sound.withSession fun s found => sound.close found
  | dropSource j => exact ⟨sound.library, sound.held⟩

theorem run (sound : c.Sound) (turns : List (Behaviour × Operation)) : (c.run turns).Sound := by
  induction turns generalizing c with
  | nil => exact sound
  | cons turn turns ih => exact ih ((sound.answering turn.1).perform turn.2)

end Sound

theorem sessions_leave (c : Client) : c.leave.sessions = [] := by
  generalize left : c.sessions = sessions
  unfold leave
  rw [left]
  induction sessions generalizing c with
  | nil => exact left
  | cons s sessions ih =>
    refine ih (((c.answering {}).perform (.close 0))) ?_
    simp [perform, withSession, answering, left]

theorem Sound.accounts (sound : c.Sound) : Accounts c.calls c.handles :=
  sound.held ▸ sound.library.accounts

/-- Whatever a client does with a library that can close handles, and whatever the library answers,
what it is handed is given back once. At any time a handle is open or was closed once, and was passed
to nothing since; compiled programs and lists of devices are freed right after they were made. Once all
sessions are closed, so is every handle. A source whose session is closed leaves the library alone. -/
theorem resources_released_once (missing : List Capability) (closes : Capability.close ∉ missing)
    (turns : List (Behaviour × Operation)) :
    let c := (start missing).run turns
    Accounts c.calls c.handles ∧ Accounts c.leave.calls [] ∧
      ∀ h ∈ c.sources, h ∉ c.handles → ∀ b : Behaviour,
        (c.answering b).library.statistics h =
          (.error (.readFailure "capture closed"), (c.answering b).library) := by
  intro c
  have sound : c.Sound := (sound_start closes).run turns
  refine ⟨sound.accounts, ?_, ?_⟩
  · have left := (sound.run (c.sessions.map fun _ => ({}, .close 0))).accounts
    have empty : c.leave.handles = [] := by rw [handles, sessions_leave, List.map_nil]
    exact empty ▸ left
  · intro h _ dropped b
    have closed : h ∉ (c.answering b).library.held := by
      rw [(sound.answering b).held]
      exact dropped
    exact if_neg (by simpa using closed)

/-- A capture that cannot be activated, and one that is filtered in vain and closed while a source of
statistics is left. -/
def unlucky : List (Behaviour × Operation) :=
  [({ activate := -1 }, .openLive { device := { name := "wlan0" }, monitor := true }),
    ({}, .openLive { device := { name := "eth0" } }), ({}, .takeSource 0),
    ({ setFilter := -1 }, .filter 0 "ip" true),
    ({ listing := { devices := [{ name := none }] } }, .devices), ({}, .close 0)]

/-- The second capture is also given up where it cannot be asked for its link type. -/
theorem unlucky_captures_released :
    let c := (start []).run unlucky
    let d := (start [.datalink]).run unlucky
    (∀ h ∈ [⟨0⟩, ⟨1⟩], ClosedOnce c.calls h) ∧ c.calls.count .freeCode = 1 ∧
      c.calls.count .freeAllDevs = 1 ∧
      (c.answering {}).library.statistics ⟨1⟩ =
        (.error (.readFailure "capture closed"), (c.answering {}).library) ∧
      d.handles = [] ∧ ∀ h ∈ [⟨0⟩, ⟨1⟩], ClosedOnce d.calls h := by
  intro c d
  obtain ⟨accounts, -, sources⟩ := resources_released_once [] (by decide) unlucky
  obtain ⟨accounts', -, -⟩ := resources_released_once [.datalink] (by decide) unlucky
  have empty : c.handles = [] := by decide +kernel
  have empty' : d.handles = [] := by decide +kernel
  have handed : ∀ h ∈ [⟨0⟩, ⟨1⟩], HandedOut c.calls h := by unfold HandedOut; decide +kernel
  have handed' : ∀ h ∈ [⟨0⟩, ⟨1⟩], HandedOut d.calls h := by unfold HandedOut; decide +kernel
  refine ⟨?_, ?_, ?_, ?_, empty', ?_⟩
  · intro h member
    exact Accounts.closedOnce (empty ▸ accounts) (handed h member)
  · exact (accounts.frees .freeCode (by simp)).trans (by decide +kernel)
  · exact (accounts.frees .freeAllDevs (by simp)).trans (by decide +kernel)
  · exact sources ⟨1⟩ (by decide +kernel) (by decide +kernel) {}
  · intro h member
    exact Accounts.closedOnce (empty' ▸ accounts') (handed' h member)

end Client

end RollingCapture.Capture
