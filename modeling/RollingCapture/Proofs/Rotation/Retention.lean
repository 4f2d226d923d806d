import Mathlib.Data.List.Chain
import Mathlib.Data.List.Dedup
import Mathlib.Data.List.DropRight
import RollingCapture.Proofs.FilePattern
import RollingCapture.Proofs.Rotation.Footprint

/-! Which files a rotator keeps. What it remembers are the names opened last, and it removes the others
under the names that they were opened by. Names of one place are different files to it: where none are
opened, the files on the disk are those that it remembers. -/
namespace RollingCapture.Rotation

open CaptureFile (Writer)

variable {names : List String} {path : String} {n : Nat}

/-! The names opened last, each once. -/

/-- Opening a file again makes it the last. -/
theorem dedup_concat (names : List String) (path : String) :
    (names ++ [path]).dedup = names.dedup.filter (· ≠ path) ++ [path] := by
  induction names with
  | nil => rfl
  | cons name names ih =>
    rw [List.cons_append]
    by_cases again : name ∈ names
    · rw [List.dedup_cons_of_mem (List.mem_append_left _ again), ih, List.dedup_cons_of_mem again]
    · rw [List.dedup_cons_of_notMem again]
      by_cases name_eq : name = path
      · rw [List.dedup_cons_of_mem (by simp [name_eq]), ih, List.filter_cons_of_neg (by simp [name_eq])]
      · rw [List.dedup_cons_of_notMem (by simp [again, name_eq]), ih,
          List.filter_cons_of_pos (by simp [name_eq]), List.cons_append]

theorem rtake_append_of_le {front back : List String} (long : n ≤ back.length) :
    (front ++ back).rtake n = back.rtake n := by
  unfold List.rtake
  rw [List.length_append, Nat.add_sub_assoc long, List.drop_append]
  simp

/-- What is too old to be kept is too old once another file is opened. -/
theorem rtake_filter_concat (once : names.Nodup) (path : String) (n : Nat) :
    ((names.rtake n).filter (· ≠ path) ++ [path]).rtake n =
      (names.filter (· ≠ path) ++ [path]).rtake n := by
  by_cases few : names.length ≤ n
  · have rtake_eq : names.rtake n = names := by
      rw [List.rtake, Nat.sub_eq_zero_of_le few, List.drop_zero]
    rw [rtake_eq]
  · have split : names = names.take (names.length - n) ++ names.rtake n :=
      (List.take_append_drop _ _).symm
    have last : (names.rtake n).length = n := by
      rw [List.rtake, List.length_drop]
      omega
    have distinct : (names.rtake n).Nodup := once.sublist (List.drop_sublist _ _)
    have long : n ≤ ((names.rtake n).filter (· ≠ path) ++ [path]).length := by
      have one : (names.rtake n).filter (· ≠ path) = (names.rtake n).erase path := by
        rw [distinct.erase_eq_filter path]
        apply List.filter_congr
        intro name _
        rw [Bool.eq_iff_iff, decide_eq_true_eq, bne_iff_ne]
      rw [List.length_append, List.length_singleton, one, List.length_erase, last]
      split <;> omega
    conv_rhs => rw [split, List.filter_append, List.append_assoc]
    exact (rtake_append_of_le long).symm

variable {plan : Plan} {events : List Event} {e : Event} {r : Rotator} {d d' : Disk}

/-- What is dropped was remembered, is not any more, and is not the file that was opened. -/
theorem Rotator.of_mem_dropped {name : String} (once : r.retained.Nodup)
    (dropped : name ∈ r.dropped path) : name ∈ r.retained ∧ name ∉ r.kept path ∧ name ≠ path := by
  have listed : (r.listed path).Nodup := by
    rw [listed, List.nodup_append]
    refine ⟨once.filter _, List.nodup_singleton path, ?_⟩
    intro a member b last
    rw [List.mem_singleton.1 last]
    exact of_decide_eq_true (List.mem_filter.1 member).2
  have older : name ∈ r.retained.filter (· ≠ path) := by
    have short : r.surplus path ≤ (r.retained.filter (· ≠ path)).length := by
      have bound := r.surplus_lt path
      rw [Rotator.listed, List.length_append, List.length_singleton] at bound
      omega
    rw [Rotator.dropped, Rotator.listed, List.take_append_of_le_length short] at dropped
    exact List.mem_of_mem_take dropped
  refine ⟨(List.mem_filter.1 older).1, ?_, of_decide_eq_true (List.mem_filter.1 older).2⟩
  intro kept
  exact List.disjoint_take_drop listed (Nat.le_refl _) dropped kept

theorem Rotator.mem_retained_iff (r : Rotator) {name : String} (other : name ≠ path) :
    name ∈ r.retained ↔ name ∈ r.kept path ∨ name ∈ r.dropped path := by
  rw [Rotator.kept, Rotator.dropped, or_comm, ← List.mem_append, List.take_append_drop, Rotator.listed]
  simp [other]

/-- A rotator with a limit remembers the files that were opened last. -/
structure Remembers (plan : Plan) (events : List Event) (r : Rotator) : Prop where
  plan_eq : r.plan = plan
  retained : r.retained = (opened events).dedup.rtake plan.maxFiles
  current : ∀ f, r.current = some f → r.retained.getLast? = some f.writer.path
  named : ∀ name ∈ opened events, ∃ offset sec, name = FilePattern.expand plan.pattern offset sec

namespace Remembers

theorem nodup (remembers : Remembers plan events r) : r.retained.Nodup := by
  rw [remembers.retained]
  exact (List.nodup_dedup _).sublist (List.drop_sublist _ _)

theorem mem_opened (remembers : Remembers plan events r) {name : String} (kept : name ∈ r.retained) :
    name ∈ opened events := by
  rw [remembers.retained] at kept
  exact List.mem_dedup.1 (List.mem_of_mem_drop kept)

theorem new (plan : Plan) (linkType : LinkType) (snaplen : UInt32) (h : Host) :
    Remembers plan [] (Rotator.new plan linkType snaplen h).1 :=
  ⟨rfl, (List.rtake_nil _).symm, fun _ now => by contradiction, by simp [opened]⟩

theorem snoc (limited : 0 < plan.maxFiles) (remembers : Remembers plan events e.before) :
    Remembers plan (events ++ [e]) e.after := by
  have more : opened (events ++ [e]) = opened events ++ e.opened?.toList := by
    rw [opened_append, opened_singleton]
  have plan_eq : e.after.plan = e.before.plan := by
    cases called : e.call with
    | close => rw [Event.after_of_close called]
    | write p => exact (e.writes called).counters.1
  have named : ∀ name ∈ opened (events ++ [e]),
      ∃ offset sec, name = FilePattern.expand plan.pattern offset sec := by
    intro name member
    rw [more] at member
    rcases List.mem_append.1 member with old | new
    · exact remembers.named name old
    · rw [← remembers.plan_eq]
      exact Event.exists_expand_of_opened (Option.mem_toList.1 new)
  rcases e.files_after with ⟨absent, -, kept⟩ | ⟨path, present, -, kept⟩
  · refine ⟨plan_eq.trans remembers.plan_eq, ?_, ?_, named⟩
    · rw [kept, remembers.retained, more, absent, Option.toList_none, List.append_nil]
    · intro f' now
      obtain ⟨f, before, path, -⟩ := Event.current_of_kept absent now
      rw [kept, path]
      exact remembers.current f before
  · refine ⟨plan_eq.trans remembers.plan_eq, ?_, ?_, named⟩
    · have listed : e.before.kept path = (e.before.listed path).rtake plan.maxFiles := by
        rw [Rotator.kept, Rotator.surplus, remembers.plan_eq, if_neg (Nat.ne_of_gt limited)]
        rfl
      rw [kept, listed, Rotator.listed, remembers.retained, more, present, Option.toList_some,
        dedup_concat, rtake_filter_concat (List.nodup_dedup _)]
    · intro f now
      obtain ⟨writer, disk, -, -, -, -, -, current⟩ := Event.exists_of_opened present
      rw [kept, Rotator.getLast?_kept, (current f now).1]

theorem of_mem_dropped (remembers : Remembers plan events e.before) {name : String}
    (dropped : name ∈ e.dropped) :
    name ∈ opened events ∧ name ∉ e.after.retained ∧ name ∉ e.opened? := by
  obtain ⟨path, opening, dropped⟩ := List.mem_flatMap.1 dropped
  have present := Option.mem_toList.1 opening
  obtain ⟨old, gone, other⟩ := Rotator.of_mem_dropped remembers.nodup dropped
  refine ⟨remembers.mem_opened old, ?_, ?_⟩
  · rcases e.files_after with ⟨absent, -⟩ | ⟨path', present', -, kept⟩
    · rw [absent] at present
      contradiction
    · rw [present] at present'
      rw [kept, ← Option.some.inj present']
      exact gone
  · intro mem
    rw [present] at mem
    exact other (Option.some.inj mem).symm

end Remembers

/-- Different ones of the names lead to different places. -/
def Apart (d : Disk) (names : List String) : Prop :=
  ∀ a ∈ names, ∀ b ∈ names, a ≠ b → ∀ loc, d.Leads a loc → ¬ d.Leads b loc

/-- Under each of the names both disks have the same. -/
def SameUnder (names : List String) (d d' : Disk) : Prop :=
  ∀ name ∈ names, ∀ x, d'.openToRead name = .ok x ↔ d.openToRead name = .ok x

/-- Between the calls nobody else has moved, removed or made what the names lead to. -/
def Undisturbed (names : List String) (events : List Event) : Prop :=
  events.IsChain fun e e' => SameUnder names e.left.disk e'.found.disk

def removable (d : Disk) : List String → Bool
  | [] => true
  | path :: paths =>
    match d.remove path with
    | .ok d => removable d paths
    | .error _ => false

def Event.removesAll (e : Event) : Bool :=
  match e.choice? with
  | some (.opens writer disk) => removable disk (e.before.dropped writer.path)
  | _ => true

/-- Names of a pattern that does not climb lead to different places. -/
theorem apart_of_level (level : ¬ FilePattern.Climbs plan.pattern)
    (named : ∀ name ∈ names, ∃ offset sec, name = FilePattern.expand plan.pattern offset sec) :
    Apart d names := by
  intro a memberA b memberB other loc leadsA leadsB
  obtain ⟨offset, sec, rfl⟩ := named a memberA
  obtain ⟨offset', sec', rfl⟩ := named b memberB
  obtain ⟨place, located, rfl⟩ := leadsA
  obtain ⟨place', located', location_eq⟩ := leadsB
  apply other
  apply FilePattern.expand_eq_of_names_eq
  have start : (FilePattern.expand plan.pattern offset sec).startsWith "/" =
      (FilePattern.expand plan.pattern offset' sec').startsWith "/" := by
    rw [Bool.eq_iff_iff, FilePattern.startsWith_expand_iff, FilePattern.startsWith_expand_iff]
  rw [Disk.locate_eq_append (FilePattern.parent_not_mem_steps level _ _) located,
    Disk.locate_eq_append (FilePattern.parent_not_mem_steps level _ _) located', start] at location_eq
  exact (List.append_cancel_left location_eq).symm

/-- Nothing is left under the names of files that could be removed. -/
theorem openToRead_discarded {paths : List String} {x : Entry} (checked : removable d paths = true)
    {name : String} (member : name ∈ paths) : (discarded d paths).openToRead name ≠ .ok x := by
  induction paths generalizing d with
  | nil => contradiction
  | cons path paths ih =>
    obtain ⟨d₁, removed, rest⟩ : ∃ d₁, d.remove path = .ok d₁ ∧ removable d₁ paths = true := by
      rw [removable] at checked
      split at checked
      · exact ⟨_, by assumption, checked⟩
      · contradiction
    have step : discarded d (path :: paths) = discarded d₁ paths := by
      rw [discarded, List.foldl_cons, removed]
      rfl
    rw [step]
    rcases List.mem_cons.1 member with rfl | later
    · intro opened
      have changes : d₁.Changes (Reached d₁ paths) (fun _ => False) (fun _ => False) _ :=
        changes_discarded d₁ paths
      exact Disk.openToRead_ne_of_remove removed
        (changes.openToRead_before (fun _ _ never => never) opened)
    · exact ih rest later

/-- What is not removed is still found, as it leads to none of the places that lose their file. -/
theorem openToRead_discarded_of_apart {paths : List String} {name : String} {x : Entry}
    (apart : Apart d names) (inside : ∀ other ∈ paths, other ∈ names) (member : name ∈ names)
    (keeps : name ∉ paths) (opens : d.openToRead name = .ok x) :
    (discarded d paths).openToRead name = .ok x := by
  have removed : d.Changes (Reached d paths) (fun _ => False) (fun _ => False) (discarded d paths) :=
    changes_discarded d paths
  apply removed.openToRead _ opens
  rintro loc leads ⟨other, gone, there⟩
  have different : name ≠ other := by
    rintro rfl
    exact keeps gone
  exact apart name member other (inside other gone) different loc leads there

/-- What is found under the names that were opened: the file that is being written under its own, and,
if no removal failed, nothing but the files that are remembered. -/
structure Retains (d : Disk) (events : List Event) (r : Rotator) : Prop where
  current : ∀ f, r.current = some f → d.openToRead f.writer.path = .ok f.writer.entry
  found : (∀ e ∈ events, e.removesAll = true) → ∀ name ∈ opened events,
    (∃ x, d.openToRead name = .ok x) ↔ name ∈ r.retained

namespace Retains

theorem congr (retains : Retains d events r) (remembers : Remembers plan events r)
    (sameUnder : SameUnder (opened events) d d') : Retains d' events r := by
  constructor
  · intro f now
    have last := remembers.current f now
    have member := remembers.mem_opened (List.mem_of_getLast? last)
    exact (sameUnder _ member _).2 (retains.current f now)
  · intro removed name member
    rw [← retains.found removed name member]
    exact exists_congr (sameUnder name member)

theorem of_kept (retains : Retains e.found.disk events e.before) (absent : e.opened? = none)
    (kept : e.after.retained = e.before.retained) : Retains e.left.disk (events ++ [e]) e.after := by
  have touches := e.touches
  rw [Event.dropped, absent] at touches
  have nowhere (loc : Location) : ¬ Reached e.found.disk [] loc := by simp [Reached]
  have opens (name : String) (x : Entry) :
      e.left.disk.openToRead name = .ok x ↔ e.found.disk.openToRead name = .ok x :=
    touches.openToRead_iff (fun loc _ => nowhere loc) (fun loc _ => nowhere loc)
  constructor
  · intro f' now
    obtain ⟨f, before, path, entry⟩ := Event.current_of_kept absent now
    rw [path, entry]
    exact (opens _ _).2 (retains.current f before)
  · intro removed name member
    rw [opened_append, opened_singleton, absent, Option.toList_none, List.append_nil] at member
    rw [kept, ← retains.found (fun e' old => removed e' (List.mem_append_left _ old)) name member]
    exact exists_congr (opens name)

/-- A call that opens a file: it is found then, those remembered still are, and those dropped are not,
unless their removal failed. -/
theorem of_opened (retains : Retains e.found.disk events e.before)
    (remembers : Remembers plan events e.before) (opening : e.opened? = some path)
    (kept : e.after.retained = e.before.kept path)
    (apart : Apart e.found.disk (opened (events ++ [e]))) :
    Retains e.left.disk (events ++ [e]) e.after := by
  have more : opened (events ++ [e]) = opened events ++ [path] := by
    rw [opened_append, opened_singleton, opening]
    rfl
  have here : path ∈ opened (events ++ [e]) := by simp [more]
  obtain ⟨writer, disk, chosen, path_eq, made, found, rest, current⟩ := Event.exists_of_opened opening
  have dropped {name : String} (gone : name ∈ e.before.dropped path) :
      name ∈ opened (events ++ [e]) ∧ name ∉ e.before.kept path ∧ name ≠ path := by
    obtain ⟨old, out, other⟩ := Rotator.of_mem_dropped remembers.nodup gone
    exact ⟨by rw [more]; exact List.mem_append_left _ (remembers.mem_opened old), out, other⟩
  have removed : disk.Changes (Reached disk (e.before.dropped path)) (fun _ => False) (fun _ => False)
      (discarded disk (e.before.dropped path)) := changes_discarded disk _
  have apart' : Apart disk (opened (events ++ [e])) := by
    intro a memberA b memberB other loc leads leads'
    exact apart a memberA b memberB other loc (made.leads_iff.1 leads) (made.leads_iff.1 leads')
  have stays {name : String} {x : Entry} (member : name ∈ opened (events ++ [e]))
      (keeps : name ∉ e.before.dropped path) (opens : disk.openToRead name = .ok x) :
      e.left.disk.openToRead name = .ok x :=
    rest.openToRead (fun _ _ never => never)
      (openToRead_discarded_of_apart apart' (fun _ gone => (dropped gone).1) member keeps opens)
  constructor
  · intro f now
    obtain ⟨named, entry⟩ := current f now
    rw [named, entry]
    exact stays here (fun gone => (dropped gone).2.2 rfl) found
  · intro removes name member
    rw [kept]
    by_cases new : name = path
    · subst new
      constructor
      · intro _
        exact List.mem_of_getLast? (e.before.getLast?_kept name)
      · intro _
        exact ⟨_, stays here (fun gone => (dropped gone).2.2 rfl) found⟩
    · have old : name ∈ opened events := by
        rw [more] at member
        exact (List.mem_append.1 member).resolve_right (fun last => new (List.mem_singleton.1 last))
      have before := retains.found (fun e' old => removes e' (List.mem_append_left _ old)) name old
      have elsewhere (loc : Location) (leads : e.found.disk.Leads name loc) :
          ¬ e.found.disk.Leads path loc := apart name member path here new loc leads
      have listed := e.before.mem_retained_iff new
      constructor
      · rintro ⟨x, opens⟩
        have afterRemoval := rest.openToRead_before (fun _ _ never => never) opens
        have beforeRemoval := removed.openToRead_before (fun _ _ never => never) afterRemoval
        have was := made.openToRead_before elsewhere beforeRemoval
        rcases listed.1 (before.1 ⟨x, was⟩) with keeps | gone
        · exact keeps
        · have last : e.removesAll = true := removes e (by simp)
          simp only [Event.removesAll, chosen, path_eq] at last
          exact absurd afterRemoval (openToRead_discarded last gone)
      · intro keeps
        obtain ⟨x, opens⟩ := before.2 (listed.2 (.inl keeps))
        exact ⟨x, stays member (fun gone => (dropped gone).2.1 keeps)
          (made.openToRead (fun _ _ never => never) opens)⟩

end Retains

/-- While nobody else disturbs them, and different names lead to different places, the names lead to
what the rotator remembers, after any number of calls. -/
theorem retains_history {start : Rotator} (limited : 0 < plan.maxFiles)
    (first : Remembers plan [] start) (idle : start.current = none) (calls : List (Host × Call))
    (names : List String) :
    (∀ name ∈ opened (start.history calls), name ∈ names) →
    Undisturbed names (start.history calls) →
    (∀ e ∈ start.history calls, Apart e.found.disk names) →
    ∀ d, (∀ e, (start.history calls).getLast? = some e → SameUnder names e.left.disk d) →
      Retains d (start.history calls) (start.after calls) := by
  have both := start.history_induction
    (motive := fun events r => Remembers plan events r ∧
      ((∀ name ∈ opened events, name ∈ names) → Undisturbed names events →
        (∀ e ∈ events, Apart e.found.disk names) →
        ∀ d, (∀ e, events.getLast? = some e → SameUnder names e.left.disk d) →
          Retains d events r)) ?_ ?_ calls
  · exact both.2
  · refine ⟨first, ?_⟩
    intro _ _ _ d _
    exact ⟨fun f now => by rw [idle] at now; contradiction, by simp [opened]⟩
  · rintro events e ⟨remembers, before⟩
    refine ⟨remembers.snoc limited, ?_⟩
    intro each undisturbed apart d last
    have more : opened (events ++ [e]) = opened events ++ e.opened?.toList := by
      rw [opened_append, opened_singleton]
    obtain ⟨earlier, -, joint⟩ := List.isChain_append.mp undisturbed
    have old (name : String) (member : name ∈ opened events) : name ∈ names :=
      each name (by rw [more]; exact List.mem_append_left _ member)
    have retains : Retains e.found.disk events e.before := by
      apply before old earlier
      · intro e' member
        exact apart e' (List.mem_append_left _ member)
      · intro e' previous
        exact joint e' previous e rfl
    have next : Retains e.left.disk (events ++ [e]) e.after := by
      rcases e.files_after with ⟨absent, -, kept⟩ | ⟨path, present, -, kept⟩
      · exact retains.of_kept absent kept
      · apply retains.of_opened remembers present kept
        intro a memberA b memberB
        exact apart e (by simp) a (each a memberA) b (each b memberB)
    apply next.congr (remembers.snoc limited)
    intro name member
    exact last e (by simp) name (each name member)

theorem remembers_history {start : Rotator} (limited : 0 < plan.maxFiles)
    (first : Remembers plan [] start) (calls : List (Host × Call)) :
    Remembers plan (start.history calls) (start.after calls) :=
  start.history_induction first (fun _ _ before => before.snoc limited) calls

/-- After any calls on any hosts, of which some may have failed, a rotator with a limit remembers just
the names that it opened last, each once, and last the one that it is writing. In each call a path
ceases to lead where it led only if it leads to where a name led that was opened before and is not
remembered any more; and a path reads as before that leads neither to where an opened name leads nor to
the file that is being written. Where different names lead to different places, as those of a pattern
without a parent part do, and nobody else disturbs what they lead to, the file that is being written is
found under its name, and, if no removal fails, what is left under the opened names are the files that
are remembered. -/
theorem retention_keeps_last_opened (limited : 0 < plan.maxFiles) (linkType : LinkType)
    (snaplen : UInt32) (h : Host) (calls : List (Host × Call)) (found : Host) (call : Call) :
    let start := (Rotator.new plan linkType snaplen h).1
    let earlier := start.history calls
    let e : Event := ⟨start.after calls, found, call⟩
    let names := opened (earlier ++ [e])
    let disk := e.left.disk
    e.after.retained = names.dedup.rtake plan.maxFiles ∧ e.after.retained.Nodup ∧
      (∀ f, e.after.current = some f → e.after.retained.getLast? = some f.writer.path) ∧
      (∀ path x, found.disk.openToRead path = .ok x → disk.openToRead path ≠ .ok x →
        ∃ name ∈ opened earlier, name ∉ e.after.retained ∧
          ∃ loc, found.disk.Leads name loc ∧ found.disk.Leads path loc) ∧
      (∀ path, (∀ name ∈ names, ∀ loc, found.disk.Leads name loc → ¬ found.disk.Leads path loc) →
        (∀ f, e.before.current = some f → found.disk.openToRead path ≠ .ok f.writer.entry) →
        (disk.read path).toOption = (found.disk.read path).toOption) ∧
      (Undisturbed names (earlier ++ [e]) → (∀ e' ∈ earlier ++ [e], Apart e'.found.disk names) →
        (∀ f, e.after.current = some f → disk.openToRead f.writer.path = .ok f.writer.entry) ∧
        ((∀ e' ∈ earlier ++ [e], e'.removesAll = true) →
          ∀ name ∈ names, (∃ x, disk.openToRead name = .ok x) ↔ name ∈ e.after.retained)) ∧
      (¬ FilePattern.Climbs plan.pattern → ∀ d, Apart d names) := by
  intro start earlier e names disk
  have first := Remembers.new plan linkType snaplen h
  have remembers : Remembers plan earlier e.before := remembers_history limited first calls
  have now : Remembers plan (earlier ++ [e]) e.after := remembers.snoc limited
  have reached : names = opened earlier ++ e.opened?.toList := by
    rw [← opened_singleton, ← opened_append]
  refine ⟨now.retained, now.nodup, now.current, ?_, ?_, ?_, ?_⟩
  · intro path x before after
    have lost : ¬ ∀ loc, found.disk.Leads path loc → ¬ Reached found.disk e.dropped loc := by
      intro stays
      exact after (e.touches.openToRead stays before)
    push Not at lost
    obtain ⟨loc, leads, name, dropped, there⟩ := lost
    obtain ⟨old, out, -⟩ := remembers.of_mem_dropped dropped
    exact ⟨name, old, out, loc, there, leads⟩
  · intro path apart idle
    have elsewhere (paths : List String) (among : ∀ name ∈ paths, name ∈ names) (loc : Location)
        (leads : found.disk.Leads path loc) : ¬ Reached found.disk paths loc := by
      rintro ⟨name, member, there⟩
      exact apart name (among name member) loc there leads
    apply e.touches.read_eq
    · apply elsewhere
      intro name dropped
      rw [reached]
      exact List.mem_append_left _ (remembers.of_mem_dropped dropped).1
    · apply elsewhere
      intro name opening
      rw [reached]
      exact List.mem_append_right _ opening
    · rintro id opens ⟨f, current, entry⟩
      exact idle f current (entry ▸ opens)
  · intro undisturbed apart
    obtain ⟨events, last⟩ := start.history_concat calls found call
    have retains := retains_history limited first rfl (calls ++ [(found, call)]) names
    rw [events, last] at retains
    have held : Retains disk (earlier ++ [e]) e.after := by
      apply retains (fun name member => member) undisturbed apart
      intro e' last_eq
      rw [List.getLast?_concat] at last_eq
      obtain rfl := Option.some.inj last_eq
      exact fun _ _ _ => Iff.rfl
    exact ⟨held.current, held.found⟩
  · intro level d
    exact apart_of_level level now.named

/-- Two calls a second apart, each of which opens a file, where there are the directories `00` and `01`
and room for a single file. -/
def twoOpenings (pattern : String) : Event × Event :=
  let plan : Plan := { pattern, calendar := .utc, period := 1, maxFiles := 1 }
  let disk := (Disk.fresh.addDirectory ["tmp", "home", "00"]).addDirectory ["tmp", "home", "01"]
  let first : Event :=
    ⟨(Rotator.new plan .ethernet 65535 { disk }).1, { disk }, .write ⟨⟨0, 0, 1, 1⟩, [1]⟩⟩
  (first, ⟨first.after, first.left, .write ⟨⟨1, 0, 1, 1⟩, [2]⟩⟩)

/-- Names that climb back from two directories lead to one file: the second opening removes, under the
first name, what it has just created. Its packet is acknowledged all the same. Names that do not climb
leave the file that is being written, and no other. -/
theorem climbing_name_removes_written_file :
    let climbing := (twoOpenings "%S/../x.pcap").2
    let level := (twoOpenings "%S/x.pcap").2
    0 < climbing.before.plan.maxFiles ∧
      climbing.answer.toOption = some () ∧ climbing.after.currentPath = some "01/../x.pcap" ∧
      climbing.after.retained = ["01/../x.pcap"] ∧
      (climbing.left.disk.openToRead "01/../x.pcap").toOption = none ∧
      level.after.retained = ["01/x.pcap"] ∧
      (∃ x, level.left.disk.openToRead "01/x.pcap" = .ok x) ∧
      ¬ ∃ x, level.left.disk.openToRead "00/x.pcap" = .ok x := by
  intro climbing level
  let plan (pattern : String) : Plan := { pattern, calendar := .utc, period := 1, maxFiles := 1 }
  have limited (pattern : String) : 0 < (plan pattern).maxFiles := Nat.one_pos
  let before (pattern : String) := (twoOpenings pattern).1
  let calls (pattern : String) := [((before pattern).found, (before pattern).call)]
  obtain ⟨retained, -⟩ := retention_keeps_last_opened (limited "%S/../x.pcap") .ethernet 65535
    (before "%S/../x.pcap").found (calls "%S/../x.pcap") climbing.found climbing.call
  obtain ⟨retained', -, -, -, -, found, apart⟩ := retention_keeps_last_opened (limited "%S/x.pcap")
    .ethernet 65535 (before "%S/x.pcap").found (calls "%S/x.pcap") level.found level.call
  have level' : ¬ FilePattern.Climbs (plan "%S/x.pcap").pattern := by decide +kernel
  have undisturbed (names : List String) : Undisturbed names [before "%S/x.pcap", level] :=
    List.isChain_pair.2 fun _ _ _ => Iff.rfl
  have removes : ∀ e ∈ [before "%S/x.pcap", level], e.removesAll = true := by decide +kernel
  have names : opened [before "%S/x.pcap", level] = ["00/x.pcap", "01/x.pcap"] := by decide +kernel
  have left (name : String) (member : name ∈ ["00/x.pcap", "01/x.pcap"]) :
      (∃ x, level.left.disk.openToRead name = .ok x) ↔ name ∈ level.after.retained :=
    (found (undisturbed _) fun _ _ => apart level' _).2 removes name (names ▸ member)
  have kept : level.after.retained = ["01/x.pcap"] := retained'.trans (by decide +kernel)
  refine ⟨by decide +kernel, by decide +kernel, by decide +kernel, ?_, by decide +kernel, kept, ?_, ?_⟩
  · exact retained.trans (by decide +kernel)
  · exact (left "01/x.pcap" (by simp)).2 (by simp [kept])
  · rw [left "00/x.pcap" (by simp), kept]
    decide

end RollingCapture.Rotation
