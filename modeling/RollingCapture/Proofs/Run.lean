import RollingCapture.Proofs.Rotation.Surroundings
import RollingCapture.Run

/-! A run over a script: it plays step after step until a stop was requested, a read fails, or a write
fails, and by then has written what it read. Scripts stand for every session, since a step may have
any outcome. -/
namespace RollingCapture.Run

open Capture (Script ScriptStep Session World)
open CaptureFile
open Rotation (Rotator Splitter Opening Settled)

def delivered (steps : List ScriptStep) : List Packet := steps.filterMap (·.outcome.toOption)

def requests : List ScriptStep → Nat
  | [] => 0
  | step :: steps => step.stops + requests steps

structure Course where
  /-- The steps after which it goes on. -/
  front : List ScriptStep
  /-- The step that ends it, if one does. -/
  last : Option ScriptStep
  /-- The steps that are not played. -/
  left : List ScriptStep
  /-- The error that it ends with. -/
  failure : Option Error

def Course.played (course : Course) : List ScriptStep := course.front ++ course.last.toList

/-- The ways in which a loop ends whose rotator is `r` by then, by whether a stop was requested: what
is played last, what is left, and the error. The rotator and the host are what is left of them. -/
inductive Ends (name : String) (r : Rotator) (h : Host) :
    Bool → Option ScriptStep → List ScriptStep → Option Error → Rotator → Host → Prop
  | stopped {left : List ScriptStep} : Ends name r h true none left none r h
  | exhausted : Ends name r h false none [] none r (h.note .debug (name ++ ": end of input"))
  | finished {step : ScriptStep} {left : List ScriptStep} (outcome : step.outcome = .error .noMorePackets) :
    Ends name r h false (some step) left none r (h.note .debug (name ++ ": end of input"))
  | read {step : ScriptStep} {left : List ScriptStep} {e : Error} (outcome : step.outcome = .error e)
    (notTimeout : e ≠ .timeoutExpired) (notOver : e ≠ .noMorePackets) :
    Ends name r h false (some step) left (some e) r h
  | write {step : ScriptStep} {left : List ScriptStep} {p : Packet} {e : Error} {r' : Rotator}
    {h' : Host} (outcome : step.outcome = .ok p) (failed : r.write h p = (.error e, r', h')) :
    Ends name r h false (some step) left (some e) r' h'

/-- A course of a script that starts with the rotator `r₀` on the host `h₀` and leaves `r` on `h`. No
step that goes on is played once a stop was requested, each is a packet or a timeout, and the packets
are written in order. -/
structure Course.Follows (course : Course) (script : Script) (stop : StopSignal) (r₀ : Rotator)
    (h₀ : Host) (r : Rotator) (h : Host) : Prop where
  steps : script.steps = course.played ++ course.left
  goesOn : ∀ step ∈ course.front, step.outcome.isOk ∨ step.outcome = .error .timeoutExpired
  unstopped : ∀ earlier step later, course.front = earlier ++ step :: later →
    (stop.requestTimes (requests earlier)).isStopped = false
  ends : ∃ r₁ h₁, r₀.writeAll h₀ (delivered course.front) = (.ok (), r₁, h₁) ∧
    Ends script.name r₁ h₁ (stop.requestTimes (requests course.front)).isStopped course.last
      course.left course.failure r h

def Course.rest (course : Course) (script : Script) : Script :=
  { script with
    steps := course.left
    delivered := script.delivered + (delivered course.played).length }

variable {s : Session} {script : Script} {r : Rotator} {w : World}

theorem pump_of_stopped (stopped : w.stop.isStopped = true) : pump s r w = (none, s, r, w) := by
  rw [pump, if_pos stopped]

theorem pump_eq (unstopped : w.stop.isStopped = false) :
    pump s r w =
      match s.next w with
      | (.ok p, s, w) =>
        match r.write w.toHost p with
        | (.error e, r, toHost) => (some e, s, r, { w with toHost })
        | (.ok (), r, toHost) => pump s r { w with toHost }
      | (.error .timeoutExpired, s, w) => pump s r w
      | (.error .noMorePackets, s, w) => (none, s, r, w.note .debug (s.name ++ ": end of input"))
      | (.error e, s, w) => (some e, s, r, w) := by
  rw [pump, if_neg (by simp [unstopped])]
  split
  · rename_i found
    exact found ▸ rfl
  · rename_i found
    exact found ▸ rfl
  · rename_i found
    exact found ▸ rfl
  · rename_i e _ _ _ _ found
    cases e <;> first | exact found ▸ rfl | contradiction

def played (w : World) (steps : List ScriptStep) : World :=
  { w with
    stop := w.stop.requestTimes (requests steps)
    witnessed := { w.witnessed with pulled := w.witnessed.pulled + steps.length } }

theorem next_scripted_nil (empty : script.steps = []) :
    (Session.scripted script).next w = (.error .noMorePackets, .scripted script, w) := by
  rw [Session.next, empty]

theorem next_scripted_cons {step : ScriptStep} {steps : List ScriptStep}
    (cons : script.steps = step :: steps) :
    (Session.scripted script).next w =
      (step.outcome,
        .scripted { script with steps, delivered := script.delivered + (delivered [step]).length },
        played w [step]) := by
  rw [Session.next, cons]
  cases outcome : step.outcome <;>
    simp [delivered, played, requests, outcome, Except.isOk, Except.toBool, Except.toOption]

def Course.after (course : Course) (step : ScriptStep) : Course :=
  { course with front := step :: course.front }

theorem Course.rest_after (course : Course) (step : ScriptStep) {steps : List ScriptStep} :
    course.rest
        { script with steps, delivered := script.delivered + (delivered [step]).length } =
      (course.after step).rest script := by
  have delivered_eq : delivered (course.after step).played = delivered [step] ++ delivered course.played :=
    List.filterMap_append (l := [step])
  simp only [Course.rest, delivered_eq, List.length_append, Nat.add_assoc]
  rfl

theorem played_after (w : World) (step : ScriptStep) (h : Host) (steps : List ScriptStep) :
    played { played w [step] with toHost := h } steps =
      { played w (step :: steps) with toHost := h } := by
  simp [played, requests, StopSignal.requestTimes, Nat.add_assoc, Nat.add_comm 1]

theorem Course.Follows.after {course : Course} {stop : StopSignal} {r₀ r₁ r : Rotator}
    {h₀ h₁ h : Host} {step : ScriptStep} {steps : List ScriptStep} {count : Nat}
    (follows : course.Follows { script with steps, delivered := count }
      (stop.requestTimes step.stops) r₁ h₁ r h)
    (steps_eq : script.steps = step :: steps) (unstopped : stop.isStopped = false)
    (goesOn : step.outcome.isOk ∨ step.outcome = .error .timeoutExpired)
    (written : r₀.writeAll h₀ (delivered [step]) = (.ok (), r₁, h₁)) :
    (course.after step).Follows script stop r₀ h₀ r h := by
  obtain ⟨split, front, never, r₂, h₂, ran, ends⟩ := follows
  have later (earlier : List ScriptStep) : stop.requestTimes (requests (step :: earlier)) =
      (stop.requestTimes step.stops).requestTimes (requests earlier) := by
    simp [requests, StopSignal.requestTimes, Nat.add_assoc]
  refine ⟨steps_eq.trans (congrArg (step :: ·) split), ?_, ?_, r₂, h₂, ?_, ?_⟩
  · intro t member
    rcases List.mem_cons.1 member with rfl | inFront
    · exact goesOn
    · exact front t inFront
  · intro earlier t rest split'
    cases earlier with
    | nil => exact unstopped
    | cons first earlier =>
      obtain ⟨rfl, split''⟩ := List.cons.inj split'
      rw [later]
      exact never earlier t rest split''
  · have delivered_eq : delivered (course.after step).front = delivered [step] ++ delivered course.front :=
      List.filterMap_append (l := [step])
    rw [delivered_eq, Rotation.Rotator.writeAll_append written]
    exact ran
  · rw [Course.after, later]
    exact ends

theorem Course.Follows.of_ends {stop : StopSignal} {r₀ r : Rotator} {h₀ h : Host}
    {last : Option ScriptStep} {left : List ScriptStep} {failure : Option Error}
    (split : script.steps = last.toList ++ left)
    (ends : Ends script.name r₀ h₀ stop.isStopped last left failure r h) :
    (Course.mk [] last left failure).Follows script stop r₀ h₀ r h :=
  ⟨split, by simp, by simp, r₀, h₀, rfl, ends⟩

/-- The loop over a script takes `course`, and leaves the rotator `r'` on the host `h'`. -/
def Takes (script : Script) (r : Rotator) (w : World) (course : Course) (r' : Rotator) (h' : Host) :
    Prop :=
  course.Follows script w.stop r w.toHost r' h' ∧
    pump (.scripted script) r w =
      (course.failure, .scripted (course.rest script), r',
        { played w course.played with toHost := h' })

theorem takes_of_stopped (stopped : w.stop.isStopped = true) :
    Takes script r w ⟨[], none, script.steps, none⟩ r w.toHost := by
  constructor
  · exact .of_ends rfl (stopped ▸ .stopped)
  · rw [pump_of_stopped stopped]
    rfl

theorem takes_of_nil (unstopped : w.stop.isStopped = false) (empty : script.steps = []) :
    Takes script r w ⟨[], none, [], none⟩ r
      (w.toHost.note .debug (script.name ++ ": end of input")) := by
  constructor
  · exact .of_ends empty (unstopped ▸ .exhausted)
  · have rest : (Course.mk [] none [] none).rest script = script :=
      congrArg (fun steps => { script with steps }) empty.symm
    rw [pump_eq unstopped, next_scripted_nil empty, rest]
    rfl

theorem Takes.after {course : Course} {r₁ r' : Rotator} {h₁ h' : Host} {step : ScriptStep}
    {steps : List ScriptStep}
    (takes : Takes { script with steps, delivered := script.delivered + (delivered [step]).length } r₁
      { played w [step] with toHost := h₁ } course r' h')
    (cons : script.steps = step :: steps) (unstopped : w.stop.isStopped = false)
    (goesOn : step.outcome.isOk ∨ step.outcome = .error .timeoutExpired)
    (written : r.writeAll w.toHost (delivered [step]) = (.ok (), r₁, h₁))
    (turn : pump (.scripted script) r w =
      pump (.scripted
        { script with steps, delivered := script.delivered + (delivered [step]).length }) r₁
        { played w [step] with toHost := h₁ }) :
    Takes script r w (course.after step) r' h' := by
  obtain ⟨follows, ran⟩ := takes
  constructor
  · exact follows.after cons unstopped goesOn written
  · rw [turn, ran, Course.rest_after, played_after]
    rfl

/-- The loop over a script takes some course. -/
theorem exists_takes (script : Script) (r : Rotator) (w : World) :
    ∃ course r' h', Takes script r w course r' h' := by
  generalize steps_eq : script.steps = steps
  induction steps generalizing script r w with
  | nil =>
    cases stopped : w.stop.isStopped with
    | true => exact ⟨_, _, _, takes_of_stopped stopped⟩
    | false => exact ⟨_, _, _, takes_of_nil stopped steps_eq⟩
  | cons step steps ih =>
    cases stopped : w.stop.isStopped with
    | true => exact ⟨_, _, _, takes_of_stopped stopped⟩
    | false =>
      have turn := pump_eq (r := r) stopped (s := .scripted script)
      rw [next_scripted_cons steps_eq] at turn
      rcases outcome : step.outcome with e | p
      · rw [outcome] at turn
        by_cases timeout : e = .timeoutExpired
        · subst timeout
          obtain ⟨course, r', h', takes⟩ := ih
            { script with steps, delivered := script.delivered + (delivered [step]).length } r
            (played w [step]) rfl
          refine ⟨_, _, _, takes.after steps_eq stopped (.inr outcome) ?_ turn⟩
          simp [delivered, outcome, Except.toOption, Rotation.Rotator.writeAll]
        · by_cases finished : e = .noMorePackets
          · subst finished
            exact ⟨⟨[], some step, steps, none⟩, _, _, .of_ends steps_eq (stopped ▸ .finished outcome), turn⟩
          · refine ⟨⟨[], some step, steps, some e⟩, r, w.toHost,
              .of_ends steps_eq (stopped ▸ .read outcome timeout finished), turn.trans ?_⟩
            cases e <;> first | rfl | contradiction
      · rw [outcome] at turn
        rcases written : r.write w.toHost p with ⟨e | _, r₁, h₁⟩
        · have failed : r.write (played w [step]).toHost p = (.error e, r₁, h₁) := written
          simp only [failed] at turn
          exact ⟨⟨[], some step, steps, some e⟩, r₁, h₁,
            .of_ends steps_eq (stopped ▸ .write outcome written), turn⟩
        · have went : r.write (played w [step]).toHost p = (.ok (), r₁, h₁) := written
          simp only [went] at turn
          obtain ⟨course, r', h', takes⟩ := ih
            { script with steps, delivered := script.delivered + (delivered [step]).length } r₁
            { played w [step] with toHost := h₁ } rfl
          refine ⟨_, _, _, takes.after steps_eq stopped (.inl (by rw [outcome]; rfl)) ?_ turn⟩
          simp [delivered, outcome, Except.toOption, Rotation.Rotator.writeAll, written]

section Output

variable {splitter : Splitter} {d₀ : Disk} {localOffset : Int} {done : List Opening}
  {current : Option Opening} {name : String} {r' : Rotator} {h h' : Host} {stopped : Bool}
  {last : Option ScriptStep} {left : List ScriptStep} {failure : Option Error}

/-- However a loop ends, the openings keep the packets that were acknowledged, and without an error
they stay as they are. -/
theorem Ends.describes (ends : Ends name r h stopped last left failure r' h')
    (describes : Rotation.Describes splitter d₀ localOffset done current r.current r h) :
    ∃ done' current', Rotation.Describes splitter d₀ localOffset done' current' r'.current r' h' ∧
      (done' ++ current'.toList).flatMap (·.packets) =
        (done ++ current.toList).flatMap (·.packets) ∧
      (failure = none → done' = done ∧ current' = current) := by
  cases ends with
  | stopped => exact ⟨done, current, describes, rfl, fun _ => ⟨rfl, rfl⟩⟩
  | exhausted =>
    exact ⟨done, current, describes.congr rfl rfl rfl rfl rfl, rfl, fun _ => ⟨rfl, rfl⟩⟩
  | finished => exact ⟨done, current, describes.congr rfl rfl rfl rfl rfl, rfl, fun _ => ⟨rfl, rfl⟩⟩
  | read => exact ⟨done, current, describes, rfl, by simp⟩
  | write _ failed =>
    obtain ⟨done', current', later, packets_eq⟩ := describes.write failed
    exact ⟨done', current', later, packets_eq, by simp⟩

end Output

/-- The answer of a run: the error that ended the loop, or else one on completing the last file, or else
what was done. -/
def answer (summary : Summary) : Option Error → Except Error Unit → Except Error Summary
  | some e, _ => .error e
  | none, .error e => .error e
  | none, .ok () => .ok summary

/-- A run that succeeds had no error at all. -/
theorem eq_of_answer {done summary : Summary} {failure : Option Error} {closed : Except Error Unit}
    (answered : answer done failure closed = .ok summary) :
    failure = none ∧ closed = .ok () ∧ done = summary := by
  cases failure with
  | some e => cases answered
  | none =>
    cases closed with
    | error e => cases answered
    | ok => exact ⟨rfl, rfl, Except.ok.inj answered⟩

/-- What a session says of its statistics does not depend on the host, and changes nothing but the state of
the capture library. -/
theorem exists_statistics_eq (s : Session) (w : World) :
    ∃ library, ∀ h : Host,
      s.statistics { w with toHost := h } = ((s.statistics w).1, { w with toHost := h, library }) := by
  cases s with
  | live s => exact ⟨(w.library.statistics s.handle).2, fun _ => rfl⟩
  | _ => exact ⟨w.library, fun _ => rfl⟩

/-- A run answers what its loop and the completion of the last file come to. -/
theorem exists_dump (c : Config) {s' : Session} {w₁ : World} {failure : Option Error}
    {r r' : Rotator} {h' : Host} {closed : Except Error Unit}
    (looped : pump s (Rotator.new c.plan s.linkType s.snaplen w.toHost).1
      { w with toHost := (Rotator.new c.plan s.linkType s.snaplen w.toHost).2 } =
        (failure, s', r, w₁))
    (closed_eq : r.close w₁.toHost = (closed, r', h')) :
    ∃ w', dump c s w =
        (answer ⟨r'.packets, r'.filesOpened, r'.bytes,
            (s'.statistics w₁).1.toOption.or (Sampler.samples w₁.sampled).getLast?⟩ failure closed,
          s', w') ∧
      w'.stop = w₁.stop ∧ w'.witnessed = w₁.witnessed ∧ w'.disk = h'.disk := by
  have last := Sampler.last_takeAll (s := {}) rfl w₁.log w₁.sampled
  rcases sampled : ({} : Sampler).takeAll w₁.log w₁.sampled with ⟨sampler, log⟩
  simp only [sampled, Option.or_none] at last
  obtain ⟨log', closed_log⟩ := (Rotator.logFree_close r).with_log closed_eq log
  obtain ⟨library, told⟩ := exists_statistics_eq s' w₁
  rcases asked : s'.statistics w₁ with ⟨stats, w₂⟩
  rw [asked] at told
  simp only [dump, looped, sampled, closed_log, told, last]
  rcases failure with _ | e <;> rcases closed with _ | _ <;> exact ⟨_, rfl, rfl, rfl, rfl⟩

theorem exists_dump_eq (c : Config) {script' : Script} {w₁ : World} {failure : Option Error}
    {r r' : Rotator} {h' : Host} {closed : Except Error Unit}
    (looped : pump (.scripted script) (Rotator.new c.plan script.linkType script.snaplen w.toHost).1
      { w with toHost := (Rotator.new c.plan script.linkType script.snaplen w.toHost).2 } =
        (failure, .scripted script', r, w₁))
    (closed_eq : r.close w₁.toHost = (closed, r', h')) :
    ∃ w', dump c (.scripted script) w =
        (answer ⟨r'.packets, r'.filesOpened, r'.bytes,
            script'.statistics.toOption.or (Sampler.samples w₁.sampled).getLast?⟩ failure closed,
          .scripted script', w') ∧
      w'.stop = w₁.stop ∧ w'.witnessed = w₁.witnessed ∧ w'.disk = h'.disk :=
  exists_dump c looped closed_eq

/-- A run plays a script up to the first step before which a stop was requested, or whose read or write
fails, and no further. What it read before is written in order, and a step that failed is its answer.
By then no file is open, the bytes of each file are those of its last opening, and a file that can be
found by a name gives back the packets of that opening. -/
theorem dump_writes_what_it_reads (c : Config) (script : Script) (w : World) :
    let splitter : Splitter := ⟨c.plan, script.linkType, script.snaplen⟩
    let started := Rotator.new c.plan script.linkType script.snaplen w.toHost
    ∃ (course : Course) (r r' : Rotator) (h h' : Host) (closed : Except Error Unit) (w' : World)
      (openings : List Opening),
      course.Follows script w.stop started.1 started.2 r h ∧ r.close h = (closed, r', h') ∧
      dump c (.scripted script) w =
        (answer
          { packets := (delivered course.front).length
            filesOpened := (splitter.segments (delivered course.front)).length
            bytes := r'.bytes
            stats := (course.rest script).statistics.toOption.or (Sampler.samples w.sampled).getLast? }
          course.failure closed,
          .scripted (course.rest script), w') ∧
      w'.stop = w.stop.requestTimes (requests course.played) ∧
      w'.witnessed.pulled = w.witnessed.pulled + course.played.length ∧
      w'.disk = h'.disk ∧ r'.current = none ∧ r'.filesOpened = openings.length ∧
      openings.flatMap (·.packets) = delivered course.front ∧
      (∀ id, Settled splitter w.disk openings w'.disk id) ∧
      (∀ path id o, w'.disk.openToRead path = .ok (.file id) → Opening.last? openings id = some o →
        (∀ p ∈ o.packets, p.header.caplen.toNat ≤ 262127) →
        ∃ reader, Reader.ofPath w'.disk path = .ok reader ∧
          reader.readAll w'.disk = .ok (o.packets.map Record.stored)) ∧
      (c.plan.maxFiles = 0 → ∀ o ∈ openings,
        w'.disk.openToRead (splitter.name w.localOffset o.sec) = .ok o.entry) := by
  intro splitter started
  obtain ⟨course, r, h, follows, looped⟩ :=
    exists_takes script started.1 { w with toHost := started.2 }
  obtain ⟨r₁, h₁, ran, ends⟩ := follows.ends
  obtain ⟨done, current, now, accounts⟩ :=
    (Rotation.Describes.new c.plan script.linkType script.snaplen w.toHost).writeAll .start ran
  obtain ⟨done', current', later, packets_eq, steady⟩ := ends.describes now
  rcases closed_eq : r.close h with ⟨closed, r', h'⟩
  obtain ⟨completed, accepts⟩ := later.close closed_eq
  obtain ⟨w', dumped, stop, witnessed, disk⟩ := exists_dump_eq c looped closed_eq
  have packets : (done' ++ current'.toList).flatMap (·.packets) = delivered course.front :=
    packets_eq.trans accounts.packets
  have files : Rotation.Files splitter w.disk w.localOffset (done' ++ current'.toList) none w'.disk :=
    disk ▸ completed.files
  refine ⟨course, r, r', h, h', closed, w', done' ++ current'.toList, follows, closed_eq, ?_, stop,
    congrArg _ witnessed, disk, ?_, ?_, packets, fun id => files.settled id (by simp), ?_, ?_⟩
  · rw [dumped]
    congr 1
    cases failure : course.failure with
    | some => rfl
    | none =>
      cases closed with
      | error => rfl
      | ok =>
        obtain ⟨rfl, rfl⟩ := steady failure
        have cut := accounts.cut (accepts.1 rfl)
        have opened : r'.filesOpened = (splitter.segments (delivered course.front)).length := by
          rw [completed.opened, ← List.length_map (·.packets)]
          simpa using congrArg List.length cut
        have counted : r'.packets = (delivered course.front).length := by
          rw [completed.packets, ← packets]
          simp
        rw [opened, counted]
        rfl
  · exact completed.file_eq_none
  · simpa using completed.opened
  · intro path id o found last small
    apply files.exists_readAll found last
    intro p member
    constructor
    · apply Rotator.isWhole_of_writeAll ran p
      rw [← packets]
      exact List.mem_flatMap.2 ⟨o, Opening.mem_of_last? last, member⟩
    · exact small p member
  · intro keepsAll o member
    exact files.named keepsAll o (by simpa using member)

end RollingCapture.Run
