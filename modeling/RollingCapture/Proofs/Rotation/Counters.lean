import Mathlib.Algebra.GroupWithZero.Nat
import RollingCapture.Proofs.CaptureFile.Intake
import RollingCapture.Proofs.Rotation.Calls

/-! What a rotator counts, after any calls on any hosts, those that failed included. -/
namespace RollingCapture.Rotation

open CaptureFile

def Event.gain (e : Event) : Nat := e.after.bytes - e.before.bytes

def recordBytes (packets : List Packet) : Nat :=
  (packets.map fun p => Record.headerSize + p.header.caplen.toNat).sum

/-- The calls `own` began with the one that opened `f`, and `f` counts what they wrote. -/
structure Spans (plan : Plan) (own : List Event) (f : OpenFile) : Prop where
  opening : ∃ e later p, own = e :: later ∧ e.call = .write p ∧ e.opened? = some f.writer.path ∧
    opened later = [] ∧ f.deadline = windowEnd p.header.sec plan.period
  packets : f.packets = (acknowledged own).length
  bytes : f.bytes = (own.map Event.gain).sum

structure Current (plan : Plan) (events : List Event) (retained : List String) (f : OpenFile) :
    Prop where
  kind : f.writer.sink.kind = plan.compression
  last : retained.getLast? = some f.writer.path
  spans : ∃ own, own <:+ events ∧ Spans plan own f

/-- The rotator counts what came of the calls so far. -/
structure Counts (plan : Plan) (events : List Event) (r : Rotator) : Prop where
  plan_eq : r.plan = plan
  packets : r.packets = (acknowledged events).length
  bytes : r.bytes = (events.map Event.gain).sum
  gains : plan.compression = .plain → ∀ e ∈ events, e.gain = recordBytes (acknowledged [e])
  filesOpened : r.filesOpened = (opened events).length
  remembered : r.retained.length ≤ r.filesOpened
  current : ∀ f, r.current = some f → Current plan events r.retained f

variable {plan : Plan} {events own : List Event} {e : Event} {p : Packet} {r r' : Rotator}
  {h h' : Host} {header : PacketHeader} {f : OpenFile} {result : Except Error OpenFile}

theorem acknowledged_append (events more : List Event) :
    acknowledged (events ++ more) = acknowledged events ++ acknowledged more :=
  List.filterMap_append

theorem opened_append (events more : List Event) :
    opened (events ++ more) = opened events ++ opened more :=
  List.filterMap_append

theorem recordBytes_append (packets more : List Packet) :
    recordBytes (packets ++ more) = recordBytes packets + recordBytes more := by
  simp [recordBytes]

theorem acknowledged_singleton (e : Event) : acknowledged [e] = e.acknowledged?.toList := by
  rw [acknowledged, List.filterMap_cons]
  cases e.acknowledged? <;> rfl

theorem opened_singleton (e : Event) : opened [e] = e.opened?.toList := by
  rw [opened, List.filterMap_cons]
  cases e.opened? <;> rfl

/-- Calls that each gain the records they write gain them together. -/
theorem sum_gain (gains : ∀ e ∈ events, e.gain = recordBytes (acknowledged [e])) :
    (events.map Event.gain).sum = recordBytes (acknowledged events) := by
  induction events with
  | nil => rfl
  | cons e events ih =>
    have rest := ih fun e' member => gains e' (List.mem_cons_of_mem e member)
    rw [List.map_cons, List.sum_cons, rest, gains e List.mem_cons_self, ← recordBytes_append,
      ← acknowledged_append, List.singleton_append]

/-! What a single call does to the counters. -/

/-- A failing write counts nothing, any other counts its packet. -/
theorem Rotator.Writes.counters {answer : Except Error Unit} (wrote : r.Writes h p (answer, r', h')) :
    r'.plan = r.plan ∧ r.bytes ≤ r'.bytes ∧
      (answer = .ok () → r'.packets = r.packets + 1) ∧
      ∀ err, answer = .error err → r'.packets = r.packets ∧ r'.bytes = r.bytes := by
  cases wrote with
  | unready ready =>
    obtain ⟨plan, packets, bytes, -⟩ := ready.counters
    exact ⟨plan, Nat.le_of_eq bytes.symm, by simp, fun _ _ => ⟨packets, bytes⟩⟩
  | refused ready written =>
    obtain ⟨plan, packets, bytes, -⟩ := ready.counters
    exact ⟨plan, Nat.le_of_eq bytes.symm, by simp, fun _ _ => ⟨packets, bytes⟩⟩
  | accepted ready written =>
    obtain ⟨plan, packets, bytes, -⟩ := ready.counters
    refine ⟨plan, ?_, ?_, by simp⟩
    · rw [← bytes]
      exact Nat.le_add_right _ _
    · intro _
      rw [← packets]

/-- The file that is current after a write was made ready for it, and counts what the rotator does. -/
theorem Rotator.Writes.current {answer : Except Error Unit} {f' : OpenFile}
    (wrote : r.Writes h p (answer, r', h')) (now : r'.current = some f') :
    ∃ f r₁ h₁, r.Readies h p.header (.ok f, r₁, h₁) ∧ r'.retained = r₁.retained ∧
      r'.filesOpened = r₁.filesOpened ∧ f'.writer.path = f.writer.path ∧
      f'.writer.entry = f.writer.entry ∧ f'.writer.sink.kind = f.writer.sink.kind ∧
      f'.deadline = f.deadline ∧
      f'.packets = f.packets + (r'.packets - r.packets) ∧
      f'.bytes = f.bytes + (r'.bytes - r.bytes) := by
  cases wrote with
  | unready ready => simp [ready.counters] at now
  | @refused f r₁ h₁ _ err writer ready written =>
    obtain ⟨plan, packets, bytes, -⟩ := ready.counters
    obtain ⟨path, entry, kind, -⟩ := Writer.keeps_of_write written
    obtain rfl := Option.some.inj now
    refine ⟨f, r₁, h₁, ready, rfl, rfl, path, entry, kind, rfl, ?_, ?_⟩
    · simp [packets]
    · simp [bytes]
  | @accepted f r₁ h₁ _ size writer ready written =>
    obtain ⟨plan, packets, bytes, -⟩ := ready.counters
    obtain ⟨path, entry, kind, -⟩ := Writer.keeps_of_write written
    obtain rfl := Option.some.inj now
    refine ⟨f, r₁, h₁, ready, rfl, rfl, path, entry, kind, rfl, ?_, ?_⟩
    · simp [packets]
    · simp [bytes]

theorem Rotator.Writes.bytes_of_plain (wrote : r.Writes h p (.ok (), r', h'))
    (plain : r.plan.compression = .plain)
    (kind : ∀ f, r.current = some f → f.writer.sink.kind = r.plan.compression) :
    r'.bytes = r.bytes + (Record.headerSize + p.header.caplen.toNat) := by
  cases wrote with
  | @accepted f r₁ h₁ _ size writer ready written =>
    obtain ⟨plan, packets, bytes, -⟩ := ready.counters
    have plainFile : f.writer.sink.kind = .plain := by
      rcases ready.of_ok with ⟨now, -⟩ | ⟨disk, -, -, new, -⟩
      · rw [kind f now, plain]
      · rw [new, plain]
    rw [← Writer.size_of_write written plainFile, ← bytes]

/-! What calls add to what they find. -/

theorem Event.acknowledged?_of_close (called : e.call = .close) : e.acknowledged? = none := by
  simp [Event.acknowledged?, called]

/-- Each acknowledged packet is counted once. -/
theorem Event.packets_after (called : e.call = .write p) :
    e.after.packets = e.before.packets + (acknowledged [e]).length := by
  obtain ⟨-, -, one, failed⟩ := (e.writes called).counters
  rw [acknowledged_singleton, Event.acknowledged?, called]
  cases answer : e.answer with
  | ok => exact one answer
  | error err => exact (failed err answer).1

theorem Event.bytes_after (called : e.call = .write p) :
    e.after.bytes = e.before.bytes + e.gain := by
  obtain ⟨-, more, -⟩ := (e.writes called).counters
  exact (Nat.add_sub_of_le more).symm

theorem Spans.snoc {f' : OpenFile} (spans : Spans plan own f) (called : e.call = .write p)
    (kept : e.opened? = none) (path : f'.writer.path = f.writer.path)
    (deadline : f'.deadline = f.deadline)
    (packets : f'.packets = f.packets + (e.after.packets - e.before.packets))
    (bytes : f'.bytes = f.bytes + (e.after.bytes - e.before.bytes)) :
    Spans plan (own ++ [e]) f' := by
  obtain ⟨⟨first, later, q, rfl, wrote, opening, empty, due⟩, count, size⟩ := spans
  constructor
  · refine ⟨first, later ++ [e], q, rfl, wrote, path ▸ opening, ?_, deadline.trans due⟩
    rw [opened_append, empty, opened_singleton, kept]
    rfl
  · rw [packets, count, e.packets_after called, Nat.add_sub_cancel_left, acknowledged_append,
      List.length_append]
  · rw [bytes, size, List.map_append, List.sum_append]
    rfl

theorem Spans.first {f' : OpenFile} (called : e.call = .write p)
    (opening : e.opened? = some f'.writer.path)
    (deadline : f'.deadline = windowEnd p.header.sec plan.period)
    (packets : f'.packets = e.after.packets - e.before.packets)
    (bytes : f'.bytes = e.after.bytes - e.before.bytes) : Spans plan [e] f' := by
  constructor
  · exact ⟨e, [], p, rfl, called, opening, rfl, deadline⟩
  · rw [packets, e.packets_after called, Nat.add_sub_cancel_left]
  · rw [bytes, List.map_singleton, List.sum_singleton]
    rfl

namespace Counts

theorem kind (counts : Counts plan events r) (f : OpenFile) (now : r.current = some f) :
    f.writer.sink.kind = r.plan.compression := by
  rw [counts.plan_eq]
  exact (counts.current f now).kind

theorem current_after {f' : OpenFile} (counts : Counts plan events e.before)
    (called : e.call = .write p) (now : e.after.current = some f') :
    Current plan (events ++ [e]) e.after.retained f' := by
  obtain ⟨f, r₁, h₁, ready, retained, -, path, -, kind, deadline, packets, bytes⟩ :=
    (e.writes called).current now
  rcases ready.of_ok with ⟨before, chosen, retained_eq, -⟩ | ⟨disk, chosen, new, fresh, retained_eq, -⟩
  · obtain ⟨kind', last, own, suffix, spans⟩ := counts.current f before
    constructor
    · rw [kind, kind']
    · rw [retained, retained_eq, path, last]
    · obtain ⟨earlier, rfl⟩ := suffix
      exact ⟨own ++ [e], ⟨earlier, List.append_assoc .. |>.symm⟩,
        spans.snoc called (Event.opened?_of_keeps called chosen) path deadline packets bytes⟩
  · constructor
    · rw [kind, fresh, counts.plan_eq]
    · rw [retained, retained_eq, path, Rotator.getLast?_kept]
    · refine ⟨[e], List.suffix_append events [e], Spans.first called ?_ ?_ ?_ ?_⟩
      · rw [path]
        exact Event.opened?_of_opens called chosen
      · rw [deadline, new, counts.plan_eq]
      · rw [packets, new, Nat.zero_add]
      · rw [bytes, new, Nat.zero_add]

theorem new (plan : Plan) (linkType : LinkType) (snaplen : UInt32) (h : Host) :
    Counts plan [] (Rotator.new plan linkType snaplen h).1 :=
  ⟨rfl, rfl, rfl, by simp, rfl, Nat.le_refl 0, fun _ now => by contradiction⟩

theorem snoc (counts : Counts plan events e.before) : Counts plan (events ++ [e]) e.after := by
  have files : e.after.filesOpened = (opened (events ++ [e])).length ∧
      e.after.retained.length ≤ e.after.filesOpened := by
    have before := counts.filesOpened
    have fewer := counts.remembered
    rw [opened_append, List.length_append, opened_singleton]
    rcases e.files_after with ⟨absent, count, retained_eq⟩ | ⟨path, present, count, retained_eq⟩
    · rw [absent, retained_eq, Option.toList_none, List.length_nil]
      omega
    · have one := e.before.length_kept_le path
      rw [present, retained_eq, Option.toList_some, List.length_singleton]
      omega
  cases called : e.call with
  | close =>
    have closed := Event.after_of_close called
    have gain : e.gain = 0 := by rw [Event.gain, closed, Nat.sub_self]
    have idle : acknowledged [e] = [] := by
      rw [acknowledged_singleton, Event.acknowledged?_of_close called]
      rfl
    refine ⟨?_, ?_, ?_, ?_, files.1, files.2, by simp [closed]⟩
    · rw [closed, counts.plan_eq]
    · rw [closed, counts.packets, acknowledged_append, idle, List.append_nil]
    · rw [closed, counts.bytes, List.map_append, List.sum_append, List.map_singleton,
        List.sum_singleton, gain, Nat.add_zero]
    · intro plain e' member
      rcases List.mem_append.1 member with old | new
      · exact counts.gains plain e' old
      · rw [List.mem_singleton.1 new, gain, idle]
        rfl
  | write p =>
    obtain ⟨plan, -, -, failed⟩ := (e.writes called).counters
    refine ⟨plan.trans counts.plan_eq, ?_, ?_, ?_, files.1, files.2, ?_⟩
    · rw [e.packets_after called, counts.packets, acknowledged_append, List.length_append]
    · rw [e.bytes_after called, counts.bytes, List.map_append, List.sum_append, List.map_singleton,
        List.sum_singleton]
    · intro plain e' member
      rcases List.mem_append.1 member with old | new
      · exact counts.gains plain e' old
      · rw [List.mem_singleton.1 new, acknowledged_singleton, Event.acknowledged?, called, Event.gain]
        cases answer : e.answer with
        | error err => rw [(failed err answer).2, Nat.sub_self]; rfl
        | ok =>
          have wrote := e.writes called
          rw [answer] at wrote
          rw [wrote.bytes_of_plain (by rw [counts.plan_eq, plain]) counts.kind, Nat.add_sub_cancel_left]
          rfl
    · intro f' now
      exact counts.current_after called now

end Counts

/-- After a call no file is current if the call was to close it, or if none could be made ready. Then
nothing was opened, and nothing is forgotten. -/
theorem Event.current_after (e : Event) :
    (e.after.current = none ↔ e.call = .close ∨ ∃ err, e.Unready err) ∧
    (e.after.current = none →
      e.after.retained = e.before.retained ∧ e.after.filesOpened = e.before.filesOpened) ∧
    ∀ err, e.Unready err → e.answer = .error err := by
  cases called : e.call with
  | close => simp [Event.Unready, Event.choice?, called, Event.after_of_close called]
  | write p =>
    have choice : e.choice? = some (e.before.choice e.found p.header) := by
      rw [Event.choice?, called]
    simp only [Event.Unready, choice]
    have wrote := e.writes called
    generalize e.answer = answer, e.after = r', e.left = h' at wrote ⊢
    cases wrote with
    | unready failed =>
      obtain ⟨rfl, chosen | chosen⟩ := failed.of_error <;> simp [chosen]
    | refused ready written =>
      rcases ready.of_ok with ⟨-, chosen, -⟩ | ⟨disk, chosen, -⟩ <;> simp [chosen]
    | accepted ready written =>
      rcases ready.of_ok with ⟨-, chosen, -⟩ | ⟨disk, chosen, -⟩ <;> simp [chosen]

/-- After any calls on any hosts, whatever came of them, the counters of the rotator and of its current
file are what the calls that succeeded add up to. A call that fails counts nothing. No file is current
just after a call to close it and after one that could not make a file ready for its packet; neither
opens a file or forgets one. -/
theorem counters_sum_calls (plan : Plan) (linkType : LinkType) (snaplen : UInt32) (h : Host)
    (calls : List (Host × Call)) :
    let start := (Rotator.new plan linkType snaplen h).1
    let events := start.history calls
    let now := start.after calls
    now.packets = (acknowledged events).length ∧
      (plan.compression = .plain → now.bytes = recordBytes (acknowledged events)) ∧
      now.filesOpened = (opened events).length ∧ now.retained.length ≤ now.filesOpened ∧
      (∀ f, now.current = some f → ∃ earlier opening later p,
        events = earlier ++ opening :: later ∧ opening.call = .write p ∧
        opening.opened? = some f.writer.path ∧ opened later = [] ∧
        f.packets = (acknowledged (opening :: later)).length ∧
        f.bytes = ((opening :: later).map Event.gain).sum ∧
        (plan.compression = .plain → f.bytes = recordBytes (acknowledged (opening :: later))) ∧
        f.deadline = windowEnd p.header.sec plan.period ∧
        now.retained.getLast? = some f.writer.path) ∧
      ∀ e ∈ events,
        (∀ err, e.answer = .error err →
          e.after.packets = e.before.packets ∧ e.after.bytes = e.before.bytes) ∧
        (e.after.current = none ↔ e.call = .close ∨ ∃ err, e.Unready err) ∧
        (e.after.current = none →
          e.after.retained = e.before.retained ∧ e.after.filesOpened = e.before.filesOpened) ∧
        ∀ err, e.Unready err → e.answer = .error err := by
  intro start events now
  have counts : Counts plan events now :=
    start.history_induction (Counts.new plan linkType snaplen h) (fun _ _ before => before.snoc) calls
  refine ⟨counts.packets, ?_, counts.filesOpened, counts.remembered, ?_, ?_⟩
  · intro plain
    rw [counts.bytes, sum_gain (counts.gains plain)]
  · intro f current
    obtain ⟨-, last, own, ⟨earlier, split⟩, ⟨opening, later, p, rfl, called, opened, empty, due⟩,
      packets, bytes⟩ := counts.current f current
    refine ⟨earlier, opening, later, p, split.symm, called, opened, empty, packets, bytes, ?_, due, last⟩
    intro plain
    rw [bytes]
    apply sum_gain
    intro e member
    exact counts.gains plain e (split ▸ List.mem_append_right earlier member)
  · intro e _
    refine ⟨?_, e.current_after⟩
    intro err failed
    cases called : e.call with
    | close => rw [Event.after_of_close called]; exact ⟨rfl, rfl⟩
    | write p => exact (e.writes called).counters.2.2.2 err failed

end RollingCapture.Rotation
