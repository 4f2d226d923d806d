import Mathlib.Algebra.Order.BigOperators.Group.List
import Mathlib.Algebra.Order.Ring.Nat
import RollingCapture.Proofs.Rotation.Counters
import RollingCapture.Proofs.Run.Pulling

/-! The bytes that a rotator counts, against the sizes that its files are found to have when they are
complete. It counts what a file accepts while records go in. What goes out on completion is not counted:
of a plain file that is nothing, but under compression it is the last block and the end of the frame. -/
namespace RollingCapture

namespace Rotation

open CaptureFile (Writer)
open CaptureFile.Sink (IsTail)

namespace Event

/-- How many bytes the file that was opened has accepted for its header. -/
def header? (e : Event) : Option Nat :=
  match e.choice? with
  | some (.opens writer _) => some writer.bytesWritten
  | _ => none

/-- The file that a call completes: the current one, if it is to be closed or a packet belongs into
another. -/
def completes? (e : Event) : Option OpenFile :=
  match e.call with
  | .write p => e.before.current.filter (·.isOver e.before.plan p.header.sec p.header.caplen)
  | .close => e.before.current

def size? (e : Event) : Option Nat :=
  e.completes?.bind fun f => (f.writer.close e.found.disk).1.toOption

/-- How many bytes the completed file has accepted behind its last record. -/
def tail? (e : Event) : Option Nat :=
  e.completes?.bind fun f =>
    (f.writer.close e.found.disk).1.toOption.map (· - f.writer.bytesWritten)

end Event

def headers (events : List Event) : List Nat := events.filterMap Event.header?

def sizes (events : List Event) : List Nat := events.filterMap Event.size?

def tails (events : List Event) : List Nat := events.filterMap Event.tail?

def Rotator.pending (r : Rotator) : Nat := r.current.elim 0 (·.writer.bytesWritten)

/-- What a call that leaves the rotator `r'` adds. Every byte that the files accept is counted, or belongs
to a header or to a tail. -/
structure Event.Adds (e : Event) (r' : Rotator) : Prop where
  opened : r'.filesOpened = e.before.filesOpened + e.header?.toList.length
  completed : e.size?.toList.length + r'.current.toList.length =
    e.before.current.toList.length + e.header?.toList.length
  tails : e.tail?.toList.length = e.size?.toList.length
  total : r'.bytes + e.header?.toList.sum + e.tail?.toList.sum + e.before.pending =
    e.before.bytes + e.size?.toList.sum + r'.pending
  isTail : ∀ n ∈ e.tail?.toList, IsTail e.before.plan.compression n

/-- What calls add up to, if none of them failed. -/
structure Balanced (plan : Plan) (events : List Event) (r : Rotator) : Prop where
  opened : (headers events).length = r.filesOpened
  completed : (sizes events).length + r.current.toList.length = r.filesOpened
  tails : (tails events).length = (sizes events).length
  total : r.bytes + (headers events).sum + (Rotation.tails events).sum =
    (sizes events).sum + r.pending
  isTail : ∀ n ∈ Rotation.tails events, IsTail plan.compression n

variable {plan : Plan} {events : List Event} {e : Event} {p : Packet} {r r' : Rotator} {f : OpenFile}
  {size : Nat} {d d' : Disk}

theorem isTail_of_close (closed : f.writer.close d = (.ok size, d')) :
    f.writer.bytesWritten ≤ size ∧ IsTail f.writer.sink.kind (size - f.writer.bytesWritten) := by
  rcases f.writer.close_cases d with ⟨n, d₁, done, isTail⟩ | ⟨e, d₁, failed, -⟩
  · obtain ⟨result_eq, -⟩ := Prod.mk.inj (closed.symm.trans done)
    obtain rfl := Except.ok.inj result_eq
    exact ⟨Nat.le_add_right _ _, by rwa [Nat.add_sub_cancel_left]⟩
  · simp [failed] at closed

namespace Event

theorem completed (completes : e.completes? = some f)
    (closed : f.writer.close e.found.disk = (.ok size, d)) :
    e.size? = some size ∧ e.tail? = some (size - f.writer.bytesWritten) := by
  simp [size?, tail?, completes, closed, Except.toOption]

theorem not_completed (idle : e.completes? = none) : e.size? = none ∧ e.tail? = none := by
  simp [size?, tail?, idle]

theorem adds_of_not_completed (grown : Nat) (idle : e.completes? = none)
    (opened : r'.filesOpened = e.before.filesOpened + e.header?.toList.length)
    (files : r'.current.toList.length = e.before.current.toList.length + e.header?.toList.length)
    (bytes : r'.bytes = e.before.bytes + grown)
    (pending : r'.pending = e.before.pending + e.header?.toList.sum + grown) : e.Adds r' := by
  obtain ⟨size, tail⟩ := not_completed idle
  constructor
  · exact opened
  · rw [size, files]
    simp
  · rw [size, tail]
  · rw [size, tail, bytes, pending]
    simp
    omega
  · simp [tail]

theorem adds_of_completed (grown : Nat) (now : e.before.current = some f)
    (kind : f.writer.sink.kind = e.before.plan.compression) (completes : e.completes? = some f)
    (closed : f.writer.close e.found.disk = (.ok size, d))
    (opened : r'.filesOpened = e.before.filesOpened + e.header?.toList.length)
    (files : r'.current.toList.length = e.header?.toList.length)
    (bytes : r'.bytes = e.before.bytes + grown)
    (pending : r'.pending = e.header?.toList.sum + grown) : e.Adds r' := by
  obtain ⟨size, tail⟩ := completed completes closed
  obtain ⟨more, isTail⟩ := isTail_of_close closed
  have before : e.before.pending = f.writer.bytesWritten := by
    simp [Rotator.pending, now]
  constructor
  · exact opened
  · rw [size, files, now]
    simp
  · rw [size, tail]
    rfl
  · rw [size, tail, bytes, pending, before]
    simp
    omega
  · rw [tail, ← kind]
    simpa using isTail

theorem adds_of_close (called : e.call = .close) (fine : e.answer = .ok ())
    (kind : ∀ f, e.before.current = some f → f.writer.sink.kind = e.before.plan.compression) :
    e.Adds e.after := by
  have header : e.header? = none := by simp [header?, choice?, called]
  have completes : e.completes? = e.before.current := by rw [completes?, called]
  have closes := e.closes called
  rw [fine] at closes
  generalize e.after = r', e.left = h' at closes ⊢
  generalize result_eq : (Except.ok () : Except Error Unit) = answer at closes
  cases closes with
  | idle idle =>
    exact adds_of_not_completed 0 (by rw [completes, idle]) (by simp [header]) (by simp [header])
      rfl (by simp [header])
  | @closed f size _ now closed =>
    cases size with
    | error e => simp [Except.map] at result_eq
    | ok size =>
      exact adds_of_completed 0 now (kind f now) (by rw [completes, now]) closed (by simp [header])
        (by simp [header]) rfl (by simp [header, Rotator.pending])

theorem adds_of_write (called : e.call = .write p) (fine : e.answer = .ok ())
    (kind : ∀ f, e.before.current = some f → f.writer.sink.kind = e.before.plan.compression) :
    e.Adds e.after := by
  have wrote := e.writes called
  rw [fine] at wrote
  generalize e.after = r', e.left = h' at wrote ⊢
  cases wrote with
  | @accepted f r₁ h₁ _ size writer ready written =>
    have grown := Writer.bytesWritten_of_write written
    cases ready with
    | keeps now chosen =>
      have header : e.header? = none := by simp [header?, choice?, called, chosen]
      have completes : e.completes? = none := by
        simp [completes?, called, now, Rotator.not_isOver_of_keeps now chosen]
      exact adds_of_not_completed size completes (by simp [header]) (by simp [header, now]) rfl
        (by simp [header, Rotator.pending, now, grown])
    | @opens opened _ _ _ cleared chosen =>
      have header : e.header? = some opened.bytesWritten := by simp [header?, choice?, called, chosen]
      cases cleared with
      | idle idle =>
        have completes : e.completes? = none := by simp [completes?, called, idle]
        exact adds_of_not_completed size completes (by simp [header]) (by simp [header, idle]) rfl
          (by simp [header, Rotator.pending, idle, grown])
      | @closed g _ _ now ended closed =>
        have completes : e.completes? = some g := by
          simp only [completes?, called, now, Option.filter_some, ended, if_true]
        exact adds_of_completed size now (kind g now) completes closed (by simp [header]) (by simp [header]) rfl
          (by simp [header, Rotator.pending, grown])

end Event

theorem filterMap_concat {α β : Type} (f : α → Option β) (l : List α) (a : α) :
    (l ++ [a]).filterMap f = l.filterMap f ++ (f a).toList := by
  rw [List.filterMap_append, List.filterMap_cons, List.filterMap_nil]
  cases f a <;> rfl

theorem headers_concat (events : List Event) (e : Event) :
    headers (events ++ [e]) = headers events ++ e.header?.toList := filterMap_concat ..

theorem sizes_concat (events : List Event) (e : Event) :
    sizes (events ++ [e]) = sizes events ++ e.size?.toList := filterMap_concat ..

theorem tails_concat (events : List Event) (e : Event) :
    tails (events ++ [e]) = tails events ++ e.tail?.toList := filterMap_concat ..

theorem Balanced.snoc (balanced : Balanced plan events e.before) (adds : e.Adds e.after)
    (plan_eq : e.before.plan = plan) : Balanced plan (events ++ [e]) e.after := by
  obtain ⟨before, files, ends, sum, each⟩ := balanced
  obtain ⟨opened, completed, tails, total, isTail⟩ := adds
  constructor
  · rw [headers_concat, List.length_append, opened, before]
  · rw [sizes_concat, List.length_append]
    omega
  · rw [sizes_concat, tails_concat, List.length_append, List.length_append, ends, tails]
  · rw [headers_concat, sizes_concat, tails_concat, List.sum_append, List.sum_append, List.sum_append]
    omega
  · intro n member
    rw [tails_concat] at member
    rcases List.mem_append.1 member with old | new
    · exact each n old
    · exact plan_eq ▸ isTail n new

theorem balanced_new (plan : Plan) (linkType : LinkType) (snaplen : UInt32) (h : Host) :
    Balanced plan [] (Rotator.new plan linkType snaplen h).1 :=
  ⟨rfl, rfl, rfl, rfl, fun _ member => by contradiction⟩

/-- Calls keep the balance as long as none of them fails. -/
theorem balanced_history (plan : Plan) (linkType : LinkType) (snaplen : UInt32) (h : Host)
    (calls : List (Host × Call)) :
    let start := (Rotator.new plan linkType snaplen h).1
    (∀ e ∈ start.history calls, e.answer = .ok ()) →
      Balanced plan (start.history calls) (start.after calls) := by
  intro start
  refine (start.history_induction (motive := fun events r => Counts plan events r ∧
    ((∀ e ∈ events, e.answer = .ok ()) → Balanced plan events r))
    ⟨Counts.new plan linkType snaplen h, fun _ => balanced_new plan linkType snaplen h⟩ ?_ calls).2
  rintro events e ⟨counts, balanced⟩
  refine ⟨counts.snoc, fun fine => ?_⟩
  have before := balanced fun e' member => fine e' (List.mem_append_left _ member)
  have answer := fine e (List.mem_append_right _ List.mem_cons_self)
  refine before.snoc ?_ counts.plan_eq
  cases called : e.call with
  | close => exact Event.adds_of_close called answer counts.kind
  | write p => exact Event.adds_of_write called answer counts.kind

end Rotation

namespace Run

open Capture (Session World)
open Rotation (Call Rotator)

variable {s s' : Session} {r : Rotator} {w w' : World} {packets : List Packet} {c : Config}
  {summary : Summary}

/-- A loop without an error writes the packets that it pulls, each by a call without an error. -/
theorem Pumps.exists_calls {x : Option Error × Session × Rotator × World} (pumps : Pumps s r w packets x)
    (unfailed : x.1 = none) :
    ∃ calls : List (Host × Call), calls.map Prod.snd = packets.map Call.write ∧
      x.2.2.1 = r.after calls ∧ ∀ e ∈ r.history calls, e.answer = .ok () := by
  induction pumps with
  | stopped => exact ⟨[], rfl, rfl, fun e member => by contradiction⟩
  | refused => contradiction
  | @written s s' r r' w w' p h packets x found wrote more ih =>
    obtain ⟨calls, calls_eq, after, fine⟩ := ih unfailed
    have outcome : Rotation.Event.outcome ⟨r, w'.toHost, .write p⟩ = (.ok (), r', h) := wrote
    refine ⟨(w'.toHost, .write p) :: calls, by rw [List.map_cons, calls_eq, List.map_cons], ?_, ?_⟩
    · rw [Rotator.after, Rotation.Event.after, outcome, after]
    · rw [Rotator.history, Rotation.Event.after, outcome]
      refine List.forall_mem_cons.2 ⟨?_, fine⟩
      rw [Rotation.Event.answer, outcome]
  | waited found more ih => exact ih unfailed
  | ended => exact ⟨[], rfl, rfl, fun e member => by contradiction⟩
  | failed => contradiction

/-- What a run that succeeds reports was counted by calls that all succeeded, the last of them to
close. -/
theorem exists_calls_of_dump (dumped : dump c s w = (.ok summary, s', w')) :
    let start := (Rotator.new c.plan s.linkType s.snaplen w.toHost).1
    ∃ calls found, calls.map Prod.snd = (pulls c s w).map Call.write ∧
      (∀ e ∈ start.history (calls ++ [(found, .close)]), e.answer = .ok ()) ∧
      summary.filesOpened = (start.after (calls ++ [(found, .close)])).filesOpened ∧
      summary.bytes = (start.after (calls ++ [(found, .close)])).bytes := by
  intro start
  obtain ⟨failure, s₁, r, w₁, closed, r', h', stats, w₂, turns, finished, answered, -⟩ :=
    exists_turns c s w
  obtain ⟨succeeded, -⟩ := Prod.mk.inj (answered.symm.trans dumped)
  obtain ⟨unfailed, rfl, rfl⟩ := eq_of_answer succeeded
  obtain ⟨calls, calls_eq, rfl, fine⟩ := turns.exists_calls unfailed
  obtain ⟨events, now⟩ := start.history_concat calls w₁.toHost .close
  have outcome : Rotation.Event.outcome ⟨start.after calls, w₁.toHost, .close⟩ = (.ok (), r', h') :=
    finished
  have after : start.after (calls ++ [(w₁.toHost, .close)]) = r' := by
    rw [now, Rotation.Event.after, outcome]
  refine ⟨calls, w₁.toHost, calls_eq, ?_, by rw [after], by rw [after]⟩
  rw [events]
  intro e member
  rcases List.mem_append.1 member with old | new
  · exact fine e old
  · rw [List.mem_singleton.1 new, Rotation.Event.answer, outcome]

end Run

namespace Rotation

open CaptureFile.Sink (IsTail)
open Run (dump pulls)

variable {e : Event} {f : OpenFile}

/-- After calls that all succeed, the last of them to close, each file that was opened is complete. The
bytes that the rotator counts, the headers and the tails make up the sizes of the files together. So
the count is the sizes less the headers just if nothing is compressed, or no file was opened. What a
run that succeeds reports comes from such calls. -/
theorem counted_bytes_lack_tails (plan : Plan) (linkType : LinkType) (snaplen : UInt32) (h : Host) :
    (∀ calls found,
      let start := (Rotator.new plan linkType snaplen h).1
      let events := start.history (calls ++ [(found, .close)])
      let now := start.after (calls ++ [(found, .close)])
      (∀ e ∈ events, e.answer = .ok ()) →
      (headers events).length = now.filesOpened ∧ (sizes events).length = now.filesOpened ∧
        (tails events).length = now.filesOpened ∧
        now.bytes + (headers events).sum + (tails events).sum = (sizes events).sum ∧
        (∀ n ∈ tails events, IsTail plan.compression n) ∧
        (now.bytes + (headers events).sum = (sizes events).sum ↔
          plan.compression = .plain ∨ now.filesOpened = 0)) ∧
    ∀ (c : Config) s w summary s' w', dump c s w = (.ok summary, s', w') →
      let start := (Rotator.new c.plan s.linkType s.snaplen w.toHost).1
      ∃ calls found, calls.map Prod.snd = (pulls c s w).map Call.write ∧
        (∀ e ∈ start.history (calls ++ [(found, .close)]), e.answer = .ok ()) ∧
        summary.filesOpened = (start.after (calls ++ [(found, .close)])).filesOpened ∧
        summary.bytes = (start.after (calls ++ [(found, .close)])).bytes := by
  refine ⟨?_, fun c s w summary s' w' dumped => Run.exists_calls_of_dump dumped⟩
  intro calls found start events now fine
  have idle : now.current = none := by
    obtain ⟨-, last⟩ := start.history_concat calls found .close
    rw [show now = _ from last, Event.after_of_close rfl]
  obtain ⟨opened, completed, ends, total, isTail⟩ :=
    balanced_history plan linkType snaplen h (calls ++ [(found, .close)]) fine
  have completed : (sizes events).length = now.filesOpened := by
    rw [← completed, idle]
    rfl
  have total : now.bytes + (headers events).sum + (tails events).sum = (sizes events).sum := by
    rw [total, Rotator.pending, idle]
    rfl
  have ends : (tails events).length = now.filesOpened := ends.trans completed
  refine ⟨opened, completed, ends, total, isTail, ?_⟩
  have balanced : now.bytes + (headers events).sum = (sizes events).sum ↔ (tails events).sum = 0 := by
    omega
  rw [balanced, ← ends, List.sum_eq_zero_iff, List.length_eq_zero_iff]
  cases mode : plan.compression with
  | plain =>
    rw [mode] at isTail
    exact ⟨fun _ => .inl rfl, fun _ => isTail⟩
  | lz4 =>
    rw [mode] at isTail
    constructor
    · intro zeros
      refine .inr (List.eq_nil_iff_forall_not_mem.2 fun n member => ?_)
      have tail : 4 ≤ n := isTail n member
      have zero := zeros n member
      omega
    · rintro (plain | empty)
      · contradiction
      · rw [empty]
        exact fun n member => by contradiction

/-- A packet that was written can be followed by a call to close, on any host, if its file is on a device
that accepts bytes. -/
theorem Event.answer_of_accepts (found : Host) (wrote : e.answer = .ok ())
    (now : e.after.current = some f) (accepts : f.writer.sink.out.refuses = false) :
    let calls := [(e.found, e.call), (found, .close)]
    (∀ e' ∈ e.before.history calls, e'.answer = .ok ()) ∧
      (e.before.after calls).filesOpened = e.after.filesOpened := by
  have closes := e.after.closes found
  have closed : (e.after.close found).1 = .ok () := by
    rcases outcome : e.after.close found with ⟨answer, r', h'⟩
    rw [outcome] at closes
    cases closes with
    | idle idle => rfl
    | closed now' closed =>
      obtain rfl := Option.some.inj (now.symm.trans now')
      rcases f.writer.close_cases found.disk with ⟨n, d, done, -⟩ | ⟨e, d, -, refuses⟩
      · obtain ⟨rfl, -⟩ := Prod.mk.inj (closed.symm.trans done)
        rfl
      · simp [accepts] at refuses
  have after : e.before.after [(e.found, e.call), (found, .close)] = { e.after with current := none } :=
    Event.after_of_close (e := ⟨e.after, found, .close⟩) rfl
  exact ⟨List.forall_mem_cons.2 ⟨wrote, List.forall_mem_singleton.2 closed⟩,
    by rw [after]⟩

/-- The packet goes into a block that is not full, so nothing goes out for it before the file is closed. -/
theorem compressed_packet_not_counted :
    let plan : Plan := { pattern := "a.pcap.lz4", calendar := .utc, compression := .lz4 }
    let start := (Rotator.new plan .ethernet 65535 { disk := .fresh }).1
    let first : Event := ⟨start, { disk := .fresh }, .write ⟨⟨0, 0, 1, 1⟩, [1]⟩⟩
    ∃ found, let calls := [(first.found, first.call), (found, .close)]
      (∀ e ∈ start.history calls, e.answer = .ok ()) ∧ (start.after calls).filesOpened = 1 ∧
        (start.after calls).bytes + (headers (start.history calls)).sum ≠
          (sizes (start.history calls)).sum := by
  intro plan start first
  have now : first.after.current.map (·.writer.sink.out.refuses) = some false := by decide +kernel
  obtain ⟨f, now, accepts⟩ := Option.map_eq_some_iff.1 now
  have wrote : first.answer = .ok () := Disk.eq_ok_of_toOption (by decide +kernel)
  have one : first.after.filesOpened = 1 := by decide +kernel
  obtain ⟨fine, opened⟩ := Event.answer_of_accepts first.left wrote now accepts
  generalize first.left = found at fine opened
  rw [one] at opened
  refine ⟨found, fine, opened, fun balance => ?_⟩
  obtain ⟨-, -, -, -, -, iff⟩ :=
    (counted_bytes_lack_tails plan .ethernet 65535 { disk := .fresh }).1 [(first.found, first.call)]
      found fine
  rcases iff.1 balance with plain | zero
  · exact absurd plain (by decide)
  · exact absurd (opened.symm.trans zero) (by decide)

end Rotation

end RollingCapture
