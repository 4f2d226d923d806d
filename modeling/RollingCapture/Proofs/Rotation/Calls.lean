import Mathlib.Data.List.Induction
import RollingCapture.Proofs.CaptureFile.Writing
import RollingCapture.Rotation.Rotator

/-! Calls to a rotator, one after the other, each on whatever host it finds: others may change the
disk in between. All that a single call can come to is said once, in `Rotator.Readies`,
`Rotator.Writes` and `Rotator.Closes`. -/
namespace RollingCapture.Rotation

open CaptureFile (Writer)

/-- What becomes of the file for a packet, before the packet goes into it. -/
inductive Choice where
  /-- The current file goes on. -/
  | keeps (f : OpenFile)
  /-- The current file is over and cannot be completed. -/
  | unclosed (e : Error)
  /-- A file is due and cannot be opened. -/
  | unopened (e : Error)
  /-- A file was opened. On `disk` none of the files that are too many then is removed yet. -/
  | opens (writer : Writer) (disk : Disk)

/-- The name of the file that was opened. -/
def Choice.path? : Choice → Option String
  | opens writer _ => some writer.path
  | _ => none

def Choice.ofCreate : Except Error Writer × Disk → Choice
  | (.error e, _) => .unopened e
  | (.ok writer, disk) => .opens writer disk

/-- A disk without those of the named files that can be removed. -/
def discarded (d : Disk) (paths : List String) : Disk :=
  paths.foldl (fun d path => (d.remove path).toOption.getD d) d

namespace Rotator

/-- The files to remember once `path` is open, with those that are too many. -/
def listed (r : Rotator) (path : String) : List String := r.retained.filter (· ≠ path) ++ [path]

def surplus (r : Rotator) (path : String) : Nat :=
  if r.plan.maxFiles = 0 then 0 else (r.listed path).length - r.plan.maxFiles

def kept (r : Rotator) (path : String) : List String := (r.listed path).drop (r.surplus path)

def dropped (r : Rotator) (path : String) : List String := (r.listed path).take (r.surplus path)

def create (r : Rotator) (d : Disk) (localOffset sec : Int) : Except Error Writer × Disk :=
  Writer.create d (FilePattern.expand r.plan.pattern (r.plan.calendar.offset localOffset) sec)
    r.linkType r.snaplen r.plan.compression

/-- How the file for a packet is chosen, as far as the disk alone decides it. -/
def choice (r : Rotator) (h : Host) (header : PacketHeader) : Choice :=
  match r.current with
  | none => .ofCreate (r.create h.disk h.localOffset header.sec)
  | some f =>
    if f.isOver r.plan header.sec header.caplen then
      match f.writer.close h.disk with
      | (.error e, _) => .unclosed e
      | (.ok _, disk) => .ofCreate (r.create disk h.localOffset header.sec)
    else .keeps f

variable {r r' : Rotator} {h h' : Host} {header : PacketHeader} {p : Packet} {f : OpenFile}
  {result : Except Error OpenFile}

/-- The file just opened is never too many. -/
theorem surplus_lt (r : Rotator) (path : String) : r.surplus path < (r.listed path).length := by
  have positive : 0 < (r.listed path).length := by
    rw [listed, List.length_append]
    exact Nat.succ_pos _
  unfold surplus
  split <;> omega

theorem length_kept_le (r : Rotator) (path : String) :
    (r.kept path).length ≤ r.retained.length + 1 := by
  have fewer := List.length_filter_le (fun old => decide (old ≠ path)) r.retained
  rw [kept, List.length_drop, listed, List.length_append, List.length_singleton]
  omega

theorem getLast?_kept (r : Rotator) (path : String) : (r.kept path).getLast? = some path := by
  rw [kept, List.getLast?_drop, if_neg (Nat.not_le.2 (r.surplus_lt path)), listed,
    List.getLast?_concat]

theorem not_isOver_of_keeps (now : r.current = some f) (chosen : r.choice h header = .keeps f) :
    f.isOver r.plan header.sec header.caplen = false := by
  cases ended : f.isOver r.plan header.sec header.caplen with
  | false => rfl
  | true =>
    simp only [choice, now, ended, if_true] at chosen
    split at chosen
    · contradiction
    · rename_i disk _
      rcases created : r.create disk h.localOffset header.sec with ⟨_ | _, _⟩ <;>
        simp [created, Choice.ofCreate] at chosen

/-- A file is due, and the next is opened on the disk `d`. -/
inductive Clears (r : Rotator) (h : Host) (header : PacketHeader) : Disk → Prop
  | idle : r.current = none → Clears r h header h.disk
  | closed {f : OpenFile} {size : Nat} {d : Disk} : r.current = some f →
      f.isOver r.plan header.sec header.caplen = true →
      f.writer.close h.disk = (.ok size, d) → Clears r h header d

/-- What getting the file for a packet ready comes to. -/
inductive Readies (r : Rotator) (h : Host) (header : PacketHeader) :
    Except Error OpenFile × Rotator × Host → Prop
  | keeps {f : OpenFile} : r.current = some f → r.choice h header = .keeps f →
      Readies r h header (.ok f, { r with current := none }, h)
  | unclosed {f : OpenFile} {e : Error} {h' : Host} : r.current = some f →
      r.choice h header = .unclosed e → f.writer.close h.disk = (.error e, h'.disk) →
      Readies r h header (.error e, { r with current := none }, h')
  | unopened {e : Error} {d : Disk} {h' : Host} : Clears r h header d →
      r.choice h header = .unopened e → r.create d h.localOffset header.sec = (.error e, h'.disk) →
      Readies r h header (.error e, { r with current := none }, h')
  | opens {writer : Writer} {d disk : Disk} {h' : Host} : Clears r h header d →
      r.choice h header = .opens writer disk →
      r.create d h.localOffset header.sec = (.ok writer, disk) →
      h'.disk = discarded disk (r.dropped writer.path) →
      Readies r h header
        (.ok { writer, deadline := windowEnd header.sec r.plan.period },
          { r with current := none, filesOpened := r.filesOpened + 1, retained := r.kept writer.path },
          h')

inductive Writes (r : Rotator) (h : Host) (p : Packet) :
    Except Error Unit × Rotator × Host → Prop
  | unready {e : Error} {r' : Rotator} {h' : Host} :
      Readies r h p.header (.error e, r', h') → Writes r h p (.error e, r', h')
  | refused {f : OpenFile} {r' : Rotator} {h₁ h' : Host} {e : Error} {writer : Writer} :
      Readies r h p.header (.ok f, r', h₁) → f.writer.write h₁.disk p = (.error e, writer, h'.disk) →
      Writes r h p (.error e, { r' with current := some { f with writer } }, h')
  | accepted {f : OpenFile} {r' : Rotator} {h₁ h' : Host} {size : Nat} {writer : Writer} :
      Readies r h p.header (.ok f, r', h₁) → f.writer.write h₁.disk p = (.ok size, writer, h'.disk) →
      Writes r h p
        (.ok (),
          { r' with
            current := some { f with writer, bytes := f.bytes + size, packets := f.packets + 1 }
            bytes := r'.bytes + size
            packets := r'.packets + 1 },
          h')

inductive Closes (r : Rotator) (h : Host) : Except Error Unit × Rotator × Host → Prop
  | idle : r.current = none → Closes r h (.ok (), r, h)
  | closed {f : OpenFile} {size : Except Error Nat} {h' : Host} :
      r.current = some f → f.writer.close h.disk = (size, h'.disk) →
      Closes r h (size.map fun _ => (), { r with current := none }, h')

theorem disk_foldl_discard (paths : List String) (h : Host) :
    (paths.foldl discard h).disk = discarded h.disk paths := by
  induction paths generalizing h with
  | nil => rfl
  | cons path paths ih =>
    have one : (discard h path).disk = (h.disk.remove path).toOption.getD h.disk := by
      unfold discard
      rcases h.disk.remove path with e | disk
      · simp only [Except.toOption, Option.getD_none]
        split <;> rfl
      · rfl
    rw [List.foldl_cons, ih, one]
    rfl

theorem path_of_create {d d' : Disk} {localOffset sec : Int} {writer : Writer}
    (created : r.create d localOffset sec = (.ok writer, d')) :
    writer.path = FilePattern.expand r.plan.pattern (r.plan.calendar.offset localOffset) sec := by
  obtain ⟨sink, d₁, bytes, -, writer_eq, -⟩ := CaptureFile.Writer.exists_of_create created
  rw [writer_eq]

theorem readies_openFile {d : Disk} {h₁ : Host} (cleared : Clears r h header d)
    (chosen : r.choice h header = .ofCreate (r.create d h.localOffset header.sec))
    (disk : h₁.disk = d) (offset : h₁.localOffset = h.localOffset) :
    Readies r h header ({ r with current := none }.openFile h₁ header.sec) := by
  rcases created : r.create d h.localOffset header.sec with ⟨e | writer, d'⟩
  · have failed : { r with current := none }.openFile h₁ header.sec =
        (.error e, { r with current := none }, { h₁ with disk := d' }) := by
      simp only [create] at created
      simp only [openFile, disk, offset, created]
    rw [failed]
    exact .unopened cleared (by rw [chosen, created, Choice.ofCreate]) created
  · have path := path_of_create created
    have opened : ∃ h', { r with current := none }.openFile h₁ header.sec =
        (.ok { writer, deadline := windowEnd header.sec r.plan.period },
          { r with current := none, filesOpened := r.filesOpened + 1, retained := r.kept writer.path },
          h') ∧ h'.disk = discarded d' (r.dropped writer.path) := by
      rw [path]
      simp only [create] at created
      simp only [openFile, disk, offset, created, retain]
      exact ⟨_, rfl, disk_foldl_discard _ _⟩
    obtain ⟨h', opened, without⟩ := opened
    rw [opened]
    exact .opens cleared (by rw [chosen, created, Choice.ofCreate]) created without

theorem readies (r : Rotator) (h : Host) (header : PacketHeader) :
    r.Readies h header (r.fileFor h header) := by
  cases now : r.current with
  | none =>
    have rotator_eq : { r with current := none } = r := by rw [← now]
    have opened : r.Readies h header ({ r with current := none }.openFile h header.sec) :=
      readies_openFile (.idle now) (by simp only [choice, now]) rfl rfl
    rw [rotator_eq] at opened
    simpa only [fileFor, now] using opened
  | some f =>
    cases full : f.isOver r.plan header.sec header.caplen with
    | false =>
      simp only [fileFor, now, full, Bool.false_eq_true, if_false]
      exact .keeps now (by simp only [choice, now, full, Bool.false_eq_true, if_false])
    | true =>
      rcases closed : f.writer.close h.disk with ⟨e | size, d⟩
      · simp only [fileFor, now, full, if_true, OpenFile.finish, Host.note, closed]
        exact .unclosed now (by simp only [choice, now, full, if_true, closed]) closed
      · simp only [fileFor, now, full, if_true, OpenFile.finish, Host.note, closed]
        exact readies_openFile (.closed now full closed)
          (by simp only [choice, now, full, if_true, closed]) rfl rfl

theorem create_kind {d d' : Disk} {localOffset sec : Int} {writer : Writer}
    (created : r.create d localOffset sec = (.ok writer, d')) :
    writer.sink.kind = r.plan.compression := by
  obtain ⟨sink, d₁, bytes, -, writer_eq, kind, -⟩ := Writer.exists_of_create created
  rw [writer_eq]
  exact kind

theorem Readies.counters (ready : r.Readies h header (result, r', h')) :
    r'.plan = r.plan ∧ r'.packets = r.packets ∧ r'.bytes = r.bytes ∧ r'.current = none := by
  cases ready <;> exact ⟨rfl, rfl, rfl, rfl⟩

theorem Readies.of_error {err : Error} (ready : r.Readies h header (.error err, r', h')) :
    r' = { r with current := none } ∧
      (r.choice h header = .unclosed err ∨ r.choice h header = .unopened err) := by
  cases ready with
  | unclosed now chosen failed => exact ⟨rfl, .inl chosen⟩
  | unopened cleared chosen failed => exact ⟨rfl, .inr chosen⟩

/-- The file that is ready is the current one, or a new one that is remembered as the last. -/
theorem Readies.of_ok (ready : r.Readies h header (.ok f, r', h')) :
    (r.current = some f ∧ r.choice h header = .keeps f ∧ r'.retained = r.retained ∧
      r'.filesOpened = r.filesOpened) ∨
    (∃ disk, r.choice h header = .opens f.writer disk ∧
      f = { writer := f.writer, deadline := windowEnd header.sec r.plan.period } ∧
      f.writer.sink.kind = r.plan.compression ∧ r'.retained = r.kept f.writer.path ∧
      r'.filesOpened = r.filesOpened + 1) := by
  cases ready with
  | keeps now chosen => exact .inl ⟨now, chosen, rfl, rfl⟩
  | opens cleared chosen created without =>
    exact .inr ⟨_, chosen, rfl, create_kind created, rfl, rfl⟩

theorem writes (r : Rotator) (h : Host) (p : Packet) : r.Writes h p (r.write h p) := by
  have ready := r.readies h p.header
  rcases chosen : r.fileFor h p.header with ⟨e | f, r', h₁⟩
  · rw [chosen] at ready
    simp only [write, chosen]
    exact .unready ready
  · rw [chosen] at ready
    rcases written : f.writer.write h₁.disk p with ⟨e | size, writer, d⟩
    · simp only [write, chosen, written]
      exact .refused ready written
    · simp only [write, chosen, written]
      exact .accepted ready written

/-- Once a file is ready the packet is written into it, and it is current then, whatever came of it. -/
theorem Writes.recorded {answer : Except Error Unit} (wrote : r.Writes h p (answer, r', h')) :
    (∃ err, answer = .error err ∧ r.Readies h p.header (.error err, r', h')) ∨
      ∃ f r₁ h₁ size f', r.Readies h p.header (.ok f, r₁, h₁) ∧
        f.writer.write h₁.disk p = (size, f'.writer, h'.disk) ∧ r'.current = some f' := by
  cases wrote with
  | unready failed => exact .inl ⟨_, rfl, failed⟩
  | refused ready written => exact .inr ⟨_, _, _, _, _, ready, written, rfl⟩
  | accepted ready written => exact .inr ⟨_, _, _, _, _, ready, written, rfl⟩

theorem closes (r : Rotator) (h : Host) : r.Closes h (r.close h) := by
  cases now : r.current with
  | none =>
    simp only [close, now]
    exact .idle now
  | some f =>
    rcases closed : f.writer.close h.disk with ⟨size, d⟩
    have outcome : ∃ h', r.close h = (size.map fun _ => (), { r with current := none }, h') ∧
        h'.disk = d := by
      simp only [close, now, OpenFile.finish, closed]
      cases size <;> exact ⟨_, rfl, rfl⟩
    obtain ⟨h', outcome, rfl⟩ := outcome
    rw [outcome]
    exact .closed now closed

end Rotator

inductive Call where
  | write (p : Packet)
  | close
  deriving DecidableEq, Repr

/-- A call to the rotator `before` on the host `found`. -/
structure Event where
  before : Rotator
  found : Host
  call : Call

namespace Event

variable {e : Event} {p : Packet} {f : OpenFile}

def outcome (e : Event) : Except Error Unit × Rotator × Host :=
  match e.call with
  | .write p => e.before.write e.found p
  | .close => e.before.close e.found

def answer (e : Event) : Except Error Unit := e.outcome.1

def after (e : Event) : Rotator := e.outcome.2.1

def left (e : Event) : Host := e.outcome.2.2

/-- What became of the file for the packet, if one was to be written. -/
def choice? (e : Event) : Option Choice :=
  match e.call with
  | .write p => some (e.before.choice e.found p.header)
  | .close => none

def opened? (e : Event) : Option String := e.choice?.bind Choice.path?

/-- No file could be made ready for the packet: the old one was not completed, or the new one not
opened. -/
def Unready (e : Event) (err : Error) : Prop :=
  e.choice? = some (.unclosed err) ∨ e.choice? = some (.unopened err)

def acknowledged? (e : Event) : Option Packet :=
  match e.call, e.answer with
  | .write p, .ok () => some p
  | _, _ => none

theorem writes (wrote : e.call = .write p) :
    e.before.Writes e.found p (e.answer, e.after, e.left) := by
  have outcome_eq : e.outcome = e.before.write e.found p := by rw [outcome, wrote]
  rw [answer, after, left, outcome_eq]
  exact e.before.writes e.found p

theorem closes (closed : e.call = .close) : e.before.Closes e.found (e.answer, e.after, e.left) := by
  have outcome_eq : e.outcome = e.before.close e.found := by rw [outcome, closed]
  rw [answer, after, left, outcome_eq]
  exact e.before.closes e.found

theorem opened?_of_close (called : e.call = .close) : e.opened? = none := by
  simp [Event.opened?, Event.choice?, called]

theorem opened?_of_opens {writer : Writer} {disk : Disk} (called : e.call = .write p)
    (chosen : e.before.choice e.found p.header = .opens writer disk) :
    e.opened? = some writer.path := by
  simp [Event.opened?, Event.choice?, called, chosen, Choice.path?]

theorem opened?_of_keeps (called : e.call = .write p)
    (chosen : e.before.choice e.found p.header = .keeps f) : e.opened? = none := by
  simp [Event.opened?, Event.choice?, called, chosen, Choice.path?]

theorem opened?_of_failed {err : Error} (called : e.call = .write p)
    (failed : e.before.choice e.found p.header = .unclosed err ∨
      e.before.choice e.found p.header = .unopened err) : e.opened? = none := by
  rcases failed with chosen | chosen <;>
    simp [Event.opened?, Event.choice?, called, chosen, Choice.path?]

theorem after_of_close (called : e.call = .close) : e.after = { e.before with current := none } := by
  have closed := e.closes called
  generalize e.answer = answer, e.after = r', e.left = h' at closed ⊢
  cases closed with
  | idle absent => rw [← absent]
  | closed => rfl

/-- Files are counted and remembered as they are opened. -/
theorem files_after (e : Event) :
    (e.opened? = none ∧ e.after.filesOpened = e.before.filesOpened ∧
      e.after.retained = e.before.retained) ∨
    (∃ path, e.opened? = some path ∧ e.after.filesOpened = e.before.filesOpened + 1 ∧
      e.after.retained = e.before.kept path) := by
  cases called : e.call with
  | close =>
    rw [after_of_close called]
    exact .inl ⟨opened?_of_close called, rfl, rfl⟩
  | write p =>
    have wrote := e.writes called
    generalize e.answer = answer, e.after = r', e.left = h' at wrote ⊢
    have ready {f : OpenFile} {r₁ : Rotator} {h₁ : Host}
        (ready : e.before.Readies e.found p.header (.ok f, r₁, h₁))
        (opened : r'.filesOpened = r₁.filesOpened) (retained : r'.retained = r₁.retained) :
        (e.opened? = none ∧ r'.filesOpened = e.before.filesOpened ∧
          r'.retained = e.before.retained) ∨
        (∃ path, e.opened? = some path ∧ r'.filesOpened = e.before.filesOpened + 1 ∧
          r'.retained = e.before.kept path) := by
      rw [opened, retained]
      rcases ready.of_ok with ⟨-, chosen, retained_eq, count⟩ | ⟨disk, chosen, -, -, retained_eq, count⟩
      · exact .inl ⟨opened?_of_keeps called chosen, count, retained_eq⟩
      · exact .inr ⟨_, opened?_of_opens called chosen, count, retained_eq⟩
    cases wrote with
    | unready failed =>
      obtain ⟨rfl, chosen⟩ := failed.of_error
      exact .inl ⟨opened?_of_failed called chosen, rfl, rfl⟩
    | refused made written => exact ready made rfl rfl
    | accepted made written => exact ready made rfl rfl

end Event

def opened (events : List Event) : List String := events.filterMap Event.opened?

def acknowledged (events : List Event) : List Packet := events.filterMap Event.acknowledged?

namespace Rotator

def after (r : Rotator) : List (Host × Call) → Rotator
  | [] => r
  | (found, call) :: calls => (Event.after ⟨r, found, call⟩).after calls

/-- Calls with all that they find. -/
def history (r : Rotator) : List (Host × Call) → List Event
  | [] => []
  | (found, call) :: calls => ⟨r, found, call⟩ :: (Event.after ⟨r, found, call⟩).history calls

theorem history_concat (r : Rotator) (calls : List (Host × Call)) (found : Host) (call : Call) :
    r.history (calls ++ [(found, call)]) = r.history calls ++ [⟨r.after calls, found, call⟩] ∧
      r.after (calls ++ [(found, call)]) = Event.after ⟨r.after calls, found, call⟩ := by
  induction calls generalizing r with
  | nil => exact ⟨rfl, rfl⟩
  | cons first calls ih =>
    obtain ⟨events, last⟩ := ih (Event.after ⟨r, first.1, first.2⟩)
    constructor
    · rw [List.cons_append, history, events, history, List.cons_append, after]
    · rw [List.cons_append, after, last, after]

/-- What holds of a rotator before any call, and is kept by each call, holds after all of them. -/
theorem history_induction {motive : List Event → Rotator → Prop} (r : Rotator) (start : motive [] r)
    (step : ∀ events e, motive events e.before → motive (events ++ [e]) e.after)
    (calls : List (Host × Call)) : motive (r.history calls) (r.after calls) := by
  induction calls using List.reverseRecOn with
  | nil => exact start
  | append_singleton calls last ih =>
    obtain ⟨events, rotator⟩ := r.history_concat calls last.1 last.2
    rw [events, rotator]
    exact step _ _ ih

end Rotator

end RollingCapture.Rotation
