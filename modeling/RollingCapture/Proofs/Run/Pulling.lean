import RollingCapture.Proofs.Replay
import RollingCapture.Proofs.Run

/-! What a run pulls from its session, whatever kind of session it is, and the turns in which the loop
does so. -/
namespace RollingCapture.Run

open Capture (Session World)
open Rotation (Rotator)

/-- The packets that the loop pulls, in order. A packet that could not be written was pulled too. -/
def pulled (s : Session) (r : Rotator) (w : World) : List Packet :=
  if w.stop.isStopped then []
  else
    match _found : s.next w with
    | (.ok p, s, w) =>
      match r.write w.toHost p with
      | (.error _, _, _) => [p]
      | (.ok (), r, toHost) => p :: pulled s r { w with toHost }
    | (.error .timeoutExpired, s, w) => pulled s r w
    | (.error _, _, _) => []
  termination_by s.backlog w
  decreasing_by
    · have less := Session.backlog_next _found (.inl rfl)
      cases s <;> exact less
    · exact Session.backlog_next _found (.inr rfl)

def pulls (c : Config) (s : Session) (w : World) : List Packet :=
  let (r, toHost) := Rotator.new c.plan s.linkType s.snaplen w.toHost
  pulled s r { w with toHost }

/-- The loop pulls these packets and comes to this: by its last turn, or by a turn after which it
goes on. -/
inductive Pumps : Session → Rotator → World → List Packet →
    Option Error × Session × Rotator × World → Prop
  | stopped {s : Session} {r : Rotator} {w : World} : w.stop.isStopped = true →
      Pumps s r w [] (none, s, r, w)
  | refused {s s' : Session} {r r' : Rotator} {w w' : World} {p : Packet} {e : Error} {h : Host} :
      s.next w = (.ok p, s', w') → r.write w'.toHost p = (.error e, r', h) →
      Pumps s r w [p] (some e, s', r', { w' with toHost := h })
  | written {s s' : Session} {r r' : Rotator} {w w' : World} {p : Packet} {h : Host}
      {packets : List Packet} {x : Option Error × Session × Rotator × World} :
      s.next w = (.ok p, s', w') → r.write w'.toHost p = (.ok (), r', h) →
      Pumps s' r' { w' with toHost := h } packets x → Pumps s r w (p :: packets) x
  | waited {s s' : Session} {r : Rotator} {w w' : World} {packets : List Packet}
      {x : Option Error × Session × Rotator × World} :
      s.next w = (.error .timeoutExpired, s', w') → Pumps s' r w' packets x → Pumps s r w packets x
  | ended {s s' : Session} {r : Rotator} {w w' : World} :
      s.next w = (.error .noMorePackets, s', w') →
      Pumps s r w [] (none, s', r, w'.note .debug (s'.name ++ ": end of input"))
  | failed {s s' : Session} {r : Rotator} {w w' : World} {e : Error} :
      s.next w = (.error e, s', w') → Pumps s r w [] (some e, s', r, w')

theorem pumps (s : Session) (r : Rotator) (w : World) : Pumps s r w (pulled s r w) (pump s r w) := by
  fun_induction pulled s r w with
  | case1 s r w stopped =>
    rw [pump_of_stopped stopped]
    exact .stopped stopped
  | case2 s r w running p s' w' found e r' h failed =>
    rw [pump_eq (by simpa using running), found]
    simp only [failed]
    exact .refused found failed
  | case3 s r w running p s' w' found r' h wrote ih =>
    rw [pump_eq (by simpa using running), found]
    simp only [wrote]
    exact .written found wrote ih
  | case4 s r w running s' w' found ih =>
    rw [pump_eq (by simpa using running), found]
    exact .waited found ih
  | case5 s r w running e s' w' notTimeout found =>
    rw [pump_eq (by simpa using running), found]
    cases e with
    | timeoutExpired => contradiction
    | noMorePackets => exact .ended found
    | _ => exact .failed found

/-- A run takes the turns of its loop, and then completes the file that is open. -/
theorem exists_turns (c : Config) (s : Session) (w : World) :
    let started := Rotator.new c.plan s.linkType s.snaplen w.toHost
    ∃ failure s' r w₁ closed r' h' stats w',
      Pumps s started.1 { w with toHost := started.2 } (pulls c s w) (failure, s', r, w₁) ∧
      r.close w₁.toHost = (closed, r', h') ∧
      dump c s w = (answer ⟨r'.packets, r'.filesOpened, r'.bytes, stats⟩ failure closed, s', w') ∧
      w'.disk = h'.disk := by
  intro started
  have turns := pumps s started.1 { w with toHost := started.2 }
  rcases looped : pump s started.1 { w with toHost := started.2 } with ⟨failure, s', r, w₁⟩
  rw [looped] at turns
  rcases closed : r.close w₁.toHost with ⟨result, r', h'⟩
  obtain ⟨w', dumped, -, -, disk⟩ := exists_dump c looped closed
  exact ⟨failure, s', r, w₁, result, r', h', _, w', turns, closed, dumped, disk⟩

/-- A session that is asked for a packet leaves the files and the time zone alone. -/
theorem host_next {s s' : Session} {w w' : World} {answer : Except Error Packet}
    (found : s.next w = (answer, s', w')) :
    w'.disk = w.disk ∧ w'.localOffset = w.localOffset := by
  obtain rfl : (s.next w).2.2 = w' := by rw [found]
  cases s with
  | scripted script =>
    cases steps : script.steps with
    | nil => simp only [Session.next, steps, and_self]
    | cons step steps' => simp only [Session.next, steps, and_self]
  | replay r =>
    obtain ⟨log, host_eq⟩ := r.host_next w.toHost
    simp only [Session.next, host_eq, and_self]
  | live s => simp only [Session.next, and_self]

/-- The first packet is pulled even if nothing can be written. -/
theorem exists_pulled {s s' : Session} {r : Rotator} {w w' : World} {p : Packet}
    (running : w.stop.isStopped = false) (found : s.next w = (.ok p, s', w')) :
    ∃ packets, pulled s r w = p :: packets := by
  rw [pulled, if_neg (by simp [running])]
  split
  · rename_i q t v again
    obtain ⟨answer, rest⟩ := Prod.mk.inj (again.symm.trans found)
    obtain rfl := Except.ok.inj answer
    split <;> exact ⟨_, rfl⟩
  · rename_i again
    rw [found] at again
    simp at again
  · rename_i again
    rw [found] at again
    simp at again

section Output

open CaptureFile
open Rotation (Describes Files Opening Splitter)

variable {s : Session} {r : Rotator} {w : World} {packets : List Packet} {splitter : Splitter}
  {d₀ : Disk} {localOffset : Int} {done : List Opening} {current : Option Opening}

/-- The files take in the packets that the loop pulls, in order, up to one that cannot be written. -/
theorem Pumps.describes {x : Option Error × Session × Rotator × World} (pumps : Pumps s r w packets x)
    (describes : Describes splitter d₀ localOffset done current r.current r w.toHost) :
    ∃ done' current' written, Describes splitter d₀ localOffset done' current' x.2.2.1.current x.2.2.1
        x.2.2.2.toHost ∧
      (done' ++ current'.toList).flatMap (·.packets) =
        (done ++ current.toList).flatMap (·.packets) ++ written ∧
      written <+: packets ∧ ∀ p ∈ written, Record.IsWhole p := by
  induction pumps generalizing done current with
  | stopped => exact ⟨done, current, [], describes, by simp, by simp, by simp⟩
  | refused found failed =>
    obtain ⟨disk, offset⟩ := host_next found
    obtain ⟨done', current', now, packets_eq⟩ := (describes.congr rfl rfl rfl disk offset).write failed
    exact ⟨done', current', [], now, by simp [packets_eq], by simp, by simp⟩
  | @written s s' r r' w w' p h packets x found wrote more ih =>
    obtain ⟨disk, offset⟩ := host_next found
    have taken : ∃ done' current', Describes splitter d₀ localOffset done' current' r'.current r' h ∧
        (done' ++ current'.toList).flatMap (·.packets) =
          (done ++ current.toList).flatMap (·.packets) ++ [p] := by
      rcases (describes.congr rfl rfl rfl disk offset).write wrote with ⟨o, rfl, now, -⟩ | ⟨e, now, -⟩
      · exact ⟨_, _, now, by simp [Opening.add]⟩
      · exact ⟨_, _, now, by simp⟩
    obtain ⟨done', current', now, here⟩ := taken
    obtain ⟨done'', current'', written, later, packets_eq, front, whole⟩ := ih now
    refine ⟨done'', current'', p :: written, later, by rw [packets_eq, here]; simp,
      List.cons_prefix_cons.2 ⟨rfl, front⟩, ?_⟩
    rintro q (_ | ⟨_, member⟩)
    · exact Rotator.isWhole_of_write wrote
    · exact whole q member
  | waited found more ih =>
    obtain ⟨disk, offset⟩ := host_next found
    exact ih (describes.congr rfl rfl rfl disk offset)
  | ended found =>
    obtain ⟨disk, offset⟩ := host_next found
    exact ⟨done, current, [], describes.congr rfl rfl rfl disk offset, by simp, by simp, by simp⟩
  | failed found =>
    obtain ⟨disk, offset⟩ := host_next found
    exact ⟨done, current, [], describes.congr rfl rfl rfl disk offset, by simp, by simp, by simp⟩

/-- What a run leaves: by the end every file is complete, and the files hold the packets that were
pulled, in order, up to one that could not be written. -/
theorem exists_openings_of_dump {c : Config} {answer : Except Error Summary} {s' : Session} {w' : World}
    (dumped : dump c s w = (answer, s', w')) :
    ∃ openings, Files ⟨c.plan, s.linkType, s.snaplen⟩ w.disk w.localOffset openings none w'.disk ∧
      openings.flatMap (·.packets) <+: pulls c s w ∧
      ∀ p ∈ openings.flatMap (·.packets), Record.IsWhole p := by
  obtain ⟨failure, s'', r, w₁, result, r', h', _, w'', turns, closed, dumped', disk⟩ :=
    exists_turns c s w
  obtain ⟨done, current, written, now, packets, front, whole⟩ :=
    turns.describes (Describes.new c.plan s.linkType s.snaplen w.toHost)
  obtain ⟨-, result_eq⟩ := Prod.mk.inj (dumped.symm.trans dumped')
  obtain ⟨-, rfl⟩ := Prod.mk.inj result_eq
  obtain ⟨completed, -⟩ := now.close closed
  have exactly : (done ++ current.toList).flatMap (·.packets) = written := packets
  exact ⟨done ++ current.toList, disk ▸ completed.files, exactly ▸ front, exactly ▸ whole⟩

end Output

end RollingCapture.Run
