import RollingCapture.Proofs.Disk.Changes
import RollingCapture.Proofs.Rotation.Counters

/-! What a call to a rotator changes on the disk: the place that the opened file is created at, the
places that the dropped files are removed from, and the bytes of the file that is being written. -/
namespace RollingCapture.Rotation

open CaptureFile (Writer)

/-- Some of the paths lead there. -/
def Reached (d : Disk) (paths : List String) (loc : Location) : Prop :=
  ∃ path ∈ paths, d.Leads path loc

/-- The files that are dropped as another is opened. -/
def Rotator.droppedBy (r : Rotator) (c : Choice) : List String := c.path?.toList.flatMap r.dropped

/-- The entry is that of the file that is being written. -/
def Rotator.Busy (r : Rotator) (e : Entry) : Prop := ∃ f, r.current = some f ∧ f.writer.entry = e

/-- What a call may change on the disk `d`, if it chooses `c` for the file. -/
def Rotator.Touches (r : Rotator) (c : Choice) (d d' : Disk) : Prop :=
  d.Changes (Reached d (r.droppedBy c)) (Reached d c.path?.toList) r.Busy d'

variable {r r' : Rotator} {h h' : Host} {header : PacketHeader} {p : Packet} {d d' : Disk}
  {e : Entry} {c : Choice} {f : OpenFile} {result : Except Error OpenFile} {paths : List String}
  {loc : Location} {gone come : Location → Prop} {written : Entry → Prop}

theorem reached_congr (changes : d.Changes gone come written d') :
    Reached d' paths loc ↔ Reached d paths loc := by
  unfold Reached
  simp only [changes.leads_iff]

theorem changes_discarded (d : Disk) (paths : List String) :
    d.Changes (Reached d paths) come written (discarded d paths) := by
  induction paths generalizing d with
  | nil => exact .refl d
  | cons path paths ih =>
    have first : d.Changes (Reached d (path :: paths)) come written
        ((d.remove path).toOption.getD d) := by
      rcases removed : d.remove path with failure | d₁
      · exact .refl d
      · apply (Disk.changes_remove removed).mono
        · intro loc here
          exact ⟨path, List.mem_cons_self, here⟩
        · exact fun _ made => made
        · exact fun _ wrote => wrote
    have rest := ih ((d.remove path).toOption.getD d)
    refine first.trans (rest.mono ?_ (fun _ made => made) (fun _ wrote => wrote))
    intro loc later
    obtain ⟨other, member, there⟩ := (reached_congr first).1 later
    exact ⟨other, List.mem_cons_of_mem path member, there⟩

/-- Completing the current file leaves everything at its place. -/
theorem Rotator.changes_close {result : Except Error Nat} (now : r.current = some f)
    (closed : f.writer.close d = (result, d')) : d.Changes gone come r.Busy d' := by
  obtain ⟨bytes, rfl⟩ := Writer.exists_store_of_close closed
  apply Disk.changes_store
  intro loc id entry _
  exact .inr ⟨f, now, entry⟩

theorem Rotator.Clears.changes (cleared : r.Clears h header d) :
    h.disk.Changes gone come r.Busy d := by
  cases cleared with
  | idle => exact .refl _
  | closed now full closed => exact changes_close now closed

/-- A file that was just created is found under its name. -/
theorem Rotator.openToRead_of_create {localOffset sec : Int} {writer : Writer}
    (created : r.create d localOffset sec = (.ok writer, d')) :
    d'.openToRead writer.path = .ok writer.entry := by
  have path := path_of_create created
  obtain ⟨sink, d₁, bytes, made, -, -, rfl⟩ := Writer.exists_of_create created
  rw [← path] at made
  exact (Disk.extends_store d₁ _ bytes).openToRead (Disk.openToRead_create made)

theorem Rotator.changes_create {localOffset sec : Int} {writer : Writer}
    (created : r.create d localOffset sec = (.ok writer, d')) :
    d.Changes gone (d.Leads writer.path) written d' := by
  have path := path_of_create created
  obtain ⟨sink, d₁, bytes, made, -, -, rfl⟩ := Writer.exists_of_create created
  rw [← path] at made
  have first : d.Changes gone (d.Leads writer.path) written d₁ := Disk.changes_create made
  apply first.trans
  apply Disk.changes_store
  intro loc id entry found
  obtain ⟨place, located, here⟩ := Disk.find?_of_openToRead (Disk.openToRead_create made)
  rw [entry] at here
  rw [Disk.location_eq found here]
  exact .inl ⟨place, (first.locate_iff place).1 located, rfl⟩

theorem Rotator.path_of_choice {path : String} (opened : (r.choice h header).path? = some path) :
    path = FilePattern.expand r.plan.pattern (r.plan.calendar.offset h.localOffset) header.sec := by
  have named {d : Disk}
      (opened : (Choice.ofCreate (r.create d h.localOffset header.sec)).path? = some path) :
      path = FilePattern.expand r.plan.pattern (r.plan.calendar.offset h.localOffset) header.sec := by
    rcases created : r.create d h.localOffset header.sec with ⟨err | writer, disk⟩
    · rw [created] at opened
      contradiction
    · rw [created] at opened
      obtain rfl := Option.some.inj opened
      exact path_of_create created
  unfold choice at opened
  split at opened
  · exact named opened
  · split at opened
    · split at opened
      · contradiction
      · exact named opened
    · contradiction

/-- What getting a file ready changes. The file that is ready then is not found at any other place. -/
theorem Rotator.Readies.touches (ready : r.Readies h header (result, r', h')) :
    r.Touches (r.choice h header) h.disk h'.disk ∧
      ∀ f, result = .ok f → ∀ loc id, f.writer.entry = .file id →
        h'.disk.find? loc = some (.file id) →
        Reached h.disk (r.choice h header).path?.toList loc ∨ r.Busy (.file id) := by
  cases ready with
  | @keeps f now chosen =>
    refine ⟨.refl _, ?_⟩
    intro f' result_eq loc id entry _
    cases result_eq
    exact .inr ⟨f, now, entry⟩
  | unclosed now chosen failed => exact ⟨changes_close now failed, by simp⟩
  | unopened cleared chosen failed =>
    refine ⟨?_, by simp⟩
    rw [Touches, Writer.eq_of_create_error failed]
    exact cleared.changes
  | @opens writer d disk h' cleared chosen created without =>
    have first : h.disk.Changes (Reached h.disk (r.dropped writer.path)) (h.disk.Leads writer.path)
        r.Busy _ := cleared.changes
    have both : h.disk.Changes (Reached h.disk (r.dropped writer.path)) (h.disk.Leads writer.path)
        r.Busy disk := by
      apply first.trans
      apply (changes_create created).mono
      · exact fun _ lost => lost
      · exact fun _ made => first.leads_iff.1 made
      · exact fun _ wrote => wrote
    have opened := openToRead_of_create created
    have removed : disk.Changes (Reached disk (r.dropped writer.path)) (fun _ => False) r.Busy _ :=
      changes_discarded disk (r.dropped writer.path)
    have names : (Choice.opens writer disk).path?.toList = [writer.path] := rfl
    have leads (loc : Location) : Reached h.disk [writer.path] loc ↔ h.disk.Leads writer.path loc := by
      simp [Reached]
    rw [Touches, chosen, droppedBy, names, List.flatMap_singleton, without]
    constructor
    · apply (both.mono (fun _ lost => lost) (fun _ made => (leads _).2 made) (fun _ wrote => wrote)).trans
      apply removed.mono
      · exact fun _ lost => (reached_congr both).1 lost
      · exact fun _ never => never.elim
      · exact fun _ wrote => wrote
    · intro f result_eq loc id entry found
      cases result_eq
      have before := removed.old loc _ (fun never => never) found
      obtain ⟨place, located, here⟩ := Disk.find?_of_openToRead opened
      rw [entry] at here
      rw [Disk.location_eq before here]
      exact .inl ((leads _).2 ⟨place, (both.locate_iff place).1 located, rfl⟩)

theorem Rotator.Writes.touches {answer : Except Error Unit} (wrote : r.Writes h p (answer, r', h')) :
    r.Touches (r.choice h p.header) h.disk h'.disk := by
  rcases wrote.recorded with ⟨err, -, failed⟩ | ⟨f, r₁, h₁, size, f', ready, written, -⟩
  · exact failed.touches.1
  · obtain ⟨touches, known⟩ := ready.touches
    obtain ⟨-, -, -, bytes, stored⟩ := Writer.keeps_of_write written
    rw [stored]
    apply Disk.Changes.trans touches
    apply Disk.changes_store
    intro loc id entry found
    exact known f rfl loc id entry found

/-- What a write changes that opens a file, step by step: the file is created, the dropped ones are
removed, and last the new one is written. -/
theorem Rotator.Writes.of_opens {answer : Except Error Unit} {writer : Writer}
    (wrote : r.Writes h p (answer, r', h')) (chosen : r.choice h p.header = .opens writer d) :
    h.disk.Changes gone (h.disk.Leads writer.path) r.Busy d ∧
      d.openToRead writer.path = .ok writer.entry ∧
      (discarded d (r.dropped writer.path)).Changes gone come (fun _ => True) h'.disk ∧
      ∀ f, r'.current = some f → f.writer.path = writer.path ∧ f.writer.entry = writer.entry := by
  rcases wrote.recorded with ⟨err, -, failed⟩ | ⟨f, r₁, h₁, size, f', ready, written, now'⟩
  · obtain ⟨-, other | other⟩ := failed.of_error <;> rw [chosen] at other <;> contradiction
  · cases ready with
    | keeps now other =>
      rw [chosen] at other
      contradiction
    | opens cleared other created without =>
      cases chosen.symm.trans other
      have first : h.disk.Changes gone (h.disk.Leads writer.path) r.Busy _ := cleared.changes
      obtain ⟨path, entry, -, bytes, stored⟩ := Writer.keeps_of_write written
      refine ⟨?_, openToRead_of_create created, ?_, ?_⟩
      · apply first.trans
        apply (changes_create created).mono
        · exact fun _ lost => lost
        · exact fun _ made => first.leads_iff.1 made
        · exact fun _ wrote => wrote
      · rw [← without, stored]
        exact Disk.changes_store _ _ _ fun _ _ _ _ => .inr trivial
      · intro f'' now
        obtain rfl := Option.some.inj (now'.symm.trans now)
        exact ⟨path, entry⟩

namespace Event

variable {e : Event} {path : String}

def dropped (e : Event) : List String := e.opened?.toList.flatMap e.before.dropped

theorem touches (e : Event) :
    e.found.disk.Changes (Reached e.found.disk e.dropped) (Reached e.found.disk e.opened?.toList)
      e.before.Busy e.left.disk := by
  cases called : e.call with
  | close =>
    have closed := e.closes called
    generalize e.answer = answer, e.after = r', e.left = h' at closed ⊢
    cases closed with
    | idle => exact .refl _
    | closed now closed => exact Rotator.changes_close now closed
  | write p =>
    have opened_eq : e.opened? = (e.before.choice e.found p.header).path? := by
      simp [opened?, choice?, called]
    rw [dropped, opened_eq]
    exact (e.writes called).touches

/-- The current file after a call that opened none was current before. -/
theorem current_of_kept {f' : OpenFile} (kept : e.opened? = none) (now : e.after.current = some f') :
    ∃ f, e.before.current = some f ∧ f'.writer.path = f.writer.path ∧
      f'.writer.entry = f.writer.entry := by
  cases called : e.call with
  | close => simp [after_of_close called] at now
  | write p =>
    obtain ⟨f, r₁, h₁, ready, -, -, path, entry, -⟩ := (e.writes called).current now
    rcases ready.of_ok with ⟨before, -⟩ | ⟨disk, chosen, -⟩
    · exact ⟨f, before, path, entry⟩
    · rw [opened?_of_opens called chosen] at kept
      contradiction

theorem exists_of_opened (opening : e.opened? = some path) :
    ∃ writer disk, e.choice? = some (.opens writer disk) ∧ writer.path = path ∧
      e.found.disk.Changes (fun _ => False) (e.found.disk.Leads path) e.before.Busy disk ∧
      disk.openToRead path = .ok writer.entry ∧
      (discarded disk (e.before.dropped path)).Changes (fun _ => False) (fun _ => False)
        (fun _ => True) e.left.disk ∧
      ∀ f, e.after.current = some f → f.writer.path = path ∧ f.writer.entry = writer.entry := by
  cases called : e.call with
  | close =>
    rw [opened?_of_close called] at opening
    contradiction
  | write p =>
    have choice : e.choice? = some (e.before.choice e.found p.header) := by
      rw [choice?, called]
    rw [opened?, choice, Option.bind_some] at opening
    cases chosen : e.before.choice e.found p.header with
    | keeps => simp [chosen, Choice.path?] at opening
    | unclosed => simp [chosen, Choice.path?] at opening
    | unopened => simp [chosen, Choice.path?] at opening
    | opens writer disk =>
      rw [chosen] at opening choice
      obtain rfl := Option.some.inj opening
      exact ⟨writer, disk, choice, rfl, (e.writes called).of_opens chosen⟩

theorem exists_expand_of_opened (opening : e.opened? = some path) :
    ∃ offset sec, path = FilePattern.expand e.before.plan.pattern offset sec := by
  rw [opened?, choice?] at opening
  cases called : e.call with
  | close =>
    rw [called] at opening
    contradiction
  | write p =>
    rw [called] at opening
    exact ⟨_, p.header.sec, Rotator.path_of_choice opening⟩

/-- A file is found under its name after the call that opened it, if no file is removed. -/
theorem exists_openToRead_left (opening : e.opened? = some path) (keepsAll : e.before.plan.maxFiles = 0) :
    ∃ entry, e.left.disk.openToRead path = .ok entry := by
  obtain ⟨writer, disk, -, -, -, opens, later, -⟩ := exists_of_opened opening
  have empty : e.before.dropped path = [] := by
    rw [Rotator.dropped, Rotator.surplus, if_pos keepsAll, List.take_zero]
  rw [empty] at later
  exact ⟨writer.entry, later.openToRead (fun _ _ never => never) opens⟩

/-- Completing a file leaves everything under its name. -/
theorem openToRead_left_of_close {entry : Entry} (called : e.call = .close)
    (opened : e.found.disk.openToRead path = .ok entry) : e.left.disk.openToRead path = .ok entry := by
  refine e.touches.openToRead (fun loc _ lost => ?_) opened
  simp [Reached, dropped, opened?_of_close called] at lost

end Event

/-! A file that a rotator leaves alone. -/

/-- The file `id` is at `loc`, where no file leads that the rotator may remove, and it is not the one that
is being written. -/
structure Rotator.Spares (r : Rotator) (d : Disk) (loc : Location) (id : Nat) : Prop where
  here : d.find? loc = some (.file id)
  elsewhere : ∀ path ∈ r.retained, ¬ d.Leads path loc
  idle : ¬ r.Busy (.file id)

theorem Rotator.of_mem_listed {path other : String} (member : other ∈ r.listed path) :
    other ∈ r.retained ∨ other = path :=
  (List.mem_append.1 member).imp (fun kept => (List.mem_filter.1 kept).1) List.mem_singleton.1

/-- A call that opens no file where the spared one is leaves it, and its bytes, alone. -/
theorem Event.spares_after {e : Event} {id : Nat} (spares : e.before.Spares e.found.disk loc id)
    (apart : ∀ path ∈ e.opened?, ¬ e.found.disk.Leads path loc) :
    e.after.Spares e.left.disk loc id ∧
      e.left.disk.content (.file id) = e.found.disk.content (.file id) := by
  have touches := e.touches
  have listed (path : String) (opening : e.opened? = some path) (other : String)
      (member : other ∈ e.before.listed path) : ¬ e.found.disk.Leads other loc := by
    rcases Rotator.of_mem_listed member with old | rfl
    · exact spares.elsewhere other old
    · exact apart other opening
  have stays : ¬ Reached e.found.disk e.dropped loc := by
    rintro ⟨other, member, leads⟩
    obtain ⟨path, opening, dropped⟩ := List.mem_flatMap.1 member
    exact listed path (Option.mem_toList.1 opening) other (List.mem_of_mem_take dropped) leads
  have old : ¬ Reached e.found.disk e.opened?.toList loc := by
    rintro ⟨path, member, leads⟩
    exact apart path (Option.mem_toList.1 member) leads
  have here := touches.kept loc _ stays spares.here
  refine ⟨⟨here, ?elsewhere, ?idle⟩, touches.content loc id stays old spares.here spares.idle⟩
  case elsewhere =>
    intro other member leads
    have before := touches.leads_iff.1 leads
    rcases e.files_after with ⟨-, -, retained_eq⟩ | ⟨path, opening, -, kept⟩
    · exact spares.elsewhere other (retained_eq ▸ member) before
    · rw [kept] at member
      exact listed path opening other (List.mem_of_mem_drop member) before
  case idle =>
    rintro ⟨f, now, entry⟩
    cases opening : e.opened? with
    | none =>
      obtain ⟨g, current, -, entry_eq⟩ := current_of_kept opening now
      exact spares.idle ⟨g, current, entry_eq ▸ entry⟩
    | some path =>
      obtain ⟨writer, disk, -, -, made, opens, -, written⟩ := exists_of_opened opening
      rw [(written f now).2] at entry
      -- The new file and the spared one would be one file, at one place.
      obtain ⟨place, located, found⟩ := Disk.find?_of_openToRead opens
      rw [entry] at found
      have still := made.kept loc _ (fun never => never) spares.here
      have location_eq := Disk.location_eq found still
      exact apart path opening (made.leads_iff.1 ⟨place, located, location_eq⟩)

/-- None of the names that the pattern gives for these packets leads to `loc`. -/
def Plan.Avoids (plan : Plan) (d : Disk) (localOffset : Int) (packets : List Packet) (loc : Location) :
    Prop :=
  ∀ p ∈ packets,
    ¬ d.Leads (FilePattern.expand plan.pattern (plan.calendar.offset localOffset) p.header.sec) loc

/-- A file is spared as long as packets are written whose names do not lead to it. -/
theorem Rotator.Spares.write {id : Nat} {packets : List Packet} {answer : Except Error Unit}
    (spares : r.Spares h.disk loc id)
    (avoids : r.plan.Avoids h.disk h.localOffset (p :: packets) loc)
    (wrote : r.write h p = (answer, r', h')) :
    r'.Spares h'.disk loc id ∧ h'.disk.content (.file id) = h.disk.content (.file id) ∧
      r'.plan.Avoids h'.disk h.localOffset packets loc := by
  let e : Event := ⟨r, h, .write p⟩
  have outcome : e.outcome = (answer, r', h') := wrote
  have touches := e.touches
  have spared := Event.spares_after (e := e) spares (by
    intro path opening
    rw [Rotator.path_of_choice (r := r) (h := h) opening]
    exact avoids p List.mem_cons_self)
  have plan : e.after.plan = r.plan := (e.writes rfl).counters.1
  rw [Event.after, outcome] at plan
  rw [Event.left, outcome] at touches
  rw [Event.after, Event.left, outcome] at spared
  refine ⟨spared.1, spared.2, fun q member => ?_⟩
  rw [plan, touches.leads_iff]
  exact avoids q (List.mem_cons_of_mem p member)

end RollingCapture.Rotation
