import RollingCapture.Proofs.CaptureFile.Feeding
import RollingCapture.Proofs.Disk

/-! Reading a file of any content frame by frame. The end is there for good, and so is the error of a
plain file, so the frames of a file are all that it ever gives, unless a compressed one is broken. -/
namespace RollingCapture.CaptureFile

variable {d : Disk}

namespace Stream

/-- The stream is that of a file which is not compressed. -/
def IsPlain (s : Stream) : Prop := ∃ source, s = .plain source

theorem IsPlain.read {s : Stream} (plain : s.IsPlain) (d : Disk) (n : Nat) :
    ∃ bytes s', s.read d n = (.ok bytes, s') ∧ s'.IsPlain := by
  obtain ⟨source, rfl⟩ := plain
  exact ⟨_, _, rfl, _, rfl⟩

theorem isPlain_of_ofSource {source : Source} {s : Stream} (opens : ofSource d source = .ok s)
    (plain : compression source = .plain) : s.IsPlain := by
  rw [ofSource, plain] at opens
  exact ⟨source, (Except.ok.inj opens).symm⟩

end Stream

namespace Reader

variable {r r' : Reader} {answer : Except Error (Option Packet)} {p : Packet} {e : Error}

/-- A file that opens is read under its own name, and as a plain one if it says so. -/
theorem isPlain_of_ofPath {path : String} (opens : ofPath d path = .ok r) :
    r.path = path ∧ (r.compression = .plain → r.stream.IsPlain) := by
  unfold ofPath at opens
  split at opens
  · contradiction
  · contradiction
  · dsimp only at opens
    split at opens
    · contradiction
    · rename_i s found
      split at opens
      · contradiction
      · rename_i bytes s' read
        split at opens
        · contradiction
        · obtain rfl := Except.ok.inj opens
          refine ⟨rfl, fun plain => ?_⟩
          obtain ⟨_, _, read', plain'⟩ := (Stream.isPlain_of_ofSource found plain).read d capacity
          obtain ⟨-, rfl⟩ := Prod.mk.inj (read.symm.trans read')
          exact plain'

theorem error_of_ofPath {path : String} (failed : ofPath d path = .error e) :
    (∃ cause, e = .fileOpen path cause) ∨ ∃ problem, e = .format path problem := by
  unfold ofPath at failed
  split at failed
  · exact .inl ⟨_, (Except.error.inj failed).symm⟩
  · exact .inr ⟨_, (Except.error.inj failed).symm⟩
  · dsimp only at failed
    split at failed
    · exact .inr ⟨_, (Except.error.inj failed).symm⟩
    · split at failed
      · exact .inr ⟨_, (Except.error.inj failed).symm⟩
      · split at failed
        · exact .inr ⟨_, (Except.error.inj failed).symm⟩
        · contradiction

/-- A read that fails has met a problem of the file. -/
theorem error_of_nextFrame (failed : r.nextFrame d = (.error e, r')) : ∃ p, e = r.problem p := by
  fun_induction nextFrame d r with
  | case1 => simp at failed
  | case2 => exact ⟨_, (Except.error.inj (Prod.mk.inj failed).1).symm⟩
  | case3 r s short fits ended =>
    have result_eq := (Prod.mk.inj failed).1
    split at result_eq
    · contradiction
    · exact ⟨_, (Except.error.inj result_eq).symm⟩
  | case4 => exact ⟨_, (Except.error.inj (Prod.mk.inj failed).1).symm⟩
  | case5 r s short fits more ended bytes stream refilled ih => exact ih failed

theorem origin_nextFrame (r : Reader) (d : Disk) : (r.nextFrame d).2.origin = r.origin := by
  fun_induction nextFrame d r with
  | case1 | case2 | case3 | case4 => rfl
  | case5 r s short fits more ended bytes stream found ih => exact ih

theorem isPlain_refill (held needed : Nat) (more : Array UInt8) {s : Stream} (plain : s.IsPlain) :
    ∃ ended more' s', refill d held needed more s = (.ok ended, more', s') ∧ s'.IsPlain := by
  fun_induction refill d held needed more s with
  | case1 more s enough => exact ⟨_, _, _, rfl, plain⟩
  | case2 more s short p next failed =>
    obtain ⟨_, _, read, -⟩ := plain.read d (capacity - (held + more.size))
    rw [failed] at read
    simp at read
  | case3 more s short next ended =>
    obtain ⟨_, _, read, plain'⟩ := plain.read d (capacity - (held + more.size))
    obtain ⟨-, rfl⟩ := Prod.mk.inj (ended.symm.trans read)
    exact ⟨_, _, _, rfl, plain'⟩
  | case4 more s short b bytes next given ih =>
    obtain ⟨_, _, read, plain'⟩ := plain.read d (capacity - (held + more.size))
    obtain ⟨-, rfl⟩ := Prod.mk.inj (given.symm.trans read)
    exact ih plain'

theorem nextFrame_of_window {rest : List UInt8}
    (parsed : Record.parse r.header.layout r.window = .ok (p, rest)) (d : Disk) :
    r.nextFrame d = (.ok (some p), { r with window := rest }) := by
  rw [nextFrame]
  split
  · rename_i found
    obtain ⟨rfl, rfl⟩ := Prod.mk.inj (Except.ok.inj (parsed.symm.trans found))
    rfl
  · rename_i short
    rw [parsed] at short
    contradiction

/-- Where the window says already how a read ends, reading on changes nothing. -/
theorem nextFrame_of_short {s : Record.Shortage}
    (short : Record.parse r.header.layout r.window = .error s)
    (settled : neverFits s = true ∨ r.exhausted = true) :
    r.nextFrame d =
      (if neverFits s then .error (r.problem .recordTooLarge)
        else if r.window.isEmpty then .ok none else .error (r.problem .truncatedRecord), r) := by
  rw [nextFrame]
  split
  · rename_i parsed
    rw [short] at parsed
    contradiction
  · rename_i s' short'
    obtain rfl := Except.error.inj (short'.symm.trans short)
    by_cases large : neverFits s'
    · rw [dif_pos large, if_pos large]
    · rw [dif_neg large, if_neg large, dif_pos (settled.resolve_left large)]

theorem nextFrame_of_finished (found : r.nextFrame d = (.ok none, r')) :
    r'.nextFrame d = (.ok none, r') := by
  fun_induction nextFrame d r with
  | case1 => simp at found
  | case2 => simp at found
  | case3 r s short fits ended =>
    obtain ⟨answer, rfl⟩ := Prod.mk.inj found
    rw [nextFrame_of_short short (.inr ended), if_neg fits, answer]
  | case4 => simp at found
  | case5 r s short fits more ended bytes stream refilled ih => exact ih found

/-- A plain file is not to be read beyond an error, which is one of two. -/
theorem nextFrame_of_plain (plain : r.stream.IsPlain) (found : r.nextFrame d = (answer, r')) :
    r'.stream.IsPlain ∧ ∀ e, answer = .error e →
      (e = r.problem .truncatedRecord ∨ e = r.problem .recordTooLarge) ∧
        r'.nextFrame d = (.error e, r') := by
  fun_induction nextFrame d r with
  | case1 =>
    obtain ⟨rfl, rfl⟩ := Prod.mk.inj found
    exact ⟨plain, by simp⟩
  | case2 r s short large =>
    obtain ⟨rfl, rfl⟩ := Prod.mk.inj found
    refine ⟨plain, fun e result_eq => ?_⟩
    obtain rfl := Except.error.inj result_eq
    refine ⟨.inr rfl, ?_⟩
    rw [nextFrame_of_short short (.inl large), if_pos large]
  | case3 r s short fits ended =>
    obtain ⟨result_eq, rfl⟩ := Prod.mk.inj found
    refine ⟨plain, fun e failed => ?_⟩
    subst failed
    have again := nextFrame_of_short (d := d) short (.inr ended)
    rw [if_neg fits, result_eq] at again
    split at result_eq
    · contradiction
    · exact ⟨.inl (Except.error.inj result_eq).symm, again⟩
  | case4 r s short fits more p bytes stream failed =>
    obtain ⟨_, _, _, refilled, -⟩ :=
      isPlain_refill (d := d) r.window.length (s.needed r.header.layout) #[] plain
    rw [failed] at refilled
    simp at refilled
  | case5 r s short fits more ended bytes stream refilled ih =>
    obtain ⟨_, _, _, again, plain'⟩ :=
      isPlain_refill (d := d) r.window.length (s.needed r.header.layout) #[] plain
    rw [refilled] at again
    obtain ⟨-, again⟩ := Prod.mk.inj again
    obtain ⟨-, rfl⟩ := Prod.mk.inj again
    exact ih plain' found

/-! The frames of a file, from the first on. -/

/-- Frames that were read before come first. -/
theorem exists_framesAfter (r : Reader) (d : Disk) :
    ∃ packets e, ∀ before, r.framesAfter d before = (before ++ packets, e) := by
  induction r, (#[] : Array Packet) using framesAfter.induct d with
  | case1 r before e r' found =>
    exact ⟨#[], some e, fun before => by rw [framesAfter_of_error (by rw [found]), Array.append_empty]⟩
  | case2 r before r' found =>
    exact ⟨#[], none, fun before => by rw [framesAfter_of_end (by rw [found]), Array.append_empty]⟩
  | case3 r before p r' found ih =>
    obtain ⟨packets, e, later⟩ := ih
    refine ⟨#[p] ++ packets, e, fun before => ?_⟩
    rw [framesAfter_of_record found, later, Array.push_eq_append, Array.append_assoc]

theorem frames_of_record (read : r.nextFrame d = (.ok (some p), r')) :
    r.frames d = (p :: (r'.frames d).1, (r'.frames d).2) := by
  obtain ⟨packets, e, later⟩ := exists_framesAfter r' d
  simp only [frames, framesAfter_of_record read, later]
  simp

theorem frames_of_end (read : r.nextFrame d = (.ok none, r')) : r.frames d = ([], none) := by
  simp only [frames, framesAfter_of_end (congrArg Prod.fst read)]

theorem frames_of_error (read : r.nextFrame d = (.error e, r')) : r.frames d = ([], some e) := by
  simp only [frames, framesAfter_of_error (congrArg Prod.fst read)]

/-- Frames are found by reading as often as there are, and once more. -/
theorem frames_of_answers {packets : List Packet} {last : Option Error}
    (answered : r.answers d (packets.length + 1) =
      packets.map (fun p => .ok (some p)) ++ [last.elim (.ok none) .error]) :
    r.frames d = (packets, last) := by
  induction packets generalizing r with
  | nil =>
    rcases found : r.nextFrame d with ⟨answer, r'⟩
    simp only [List.length_nil, answers, found, List.map_nil, List.nil_append,
      List.cons.injEq, and_true] at answered
    subst answered
    cases last with
    | none => exact frames_of_end found
    | some e => exact frames_of_error found
  | cons p packets ih =>
    rcases found : r.nextFrame d with ⟨answer, r'⟩
    rw [List.length_cons, answers, found] at answered
    obtain ⟨rfl, later⟩ := List.cons.inj answered
    rw [frames_of_record found, ih later]

/-- What a file is and gives can be evaluated on a disk that is known. -/
theorem exists_ofPath_of_answers {path : String} {header : FileHeader} {mode : Compression}
    {packets : List Packet} {last : Option Error}
    (evaluated : (ofPath d path).toOption.map
        (fun file => (file.header, file.compression, file.answers d (packets.length + 1))) =
      some (header, mode, packets.map (fun p => .ok (some p)) ++ [last.elim (.ok none) .error])) :
    ∃ file, ofPath d path = .ok file ∧ file.header = header ∧ file.compression = mode ∧
      file.frames d = (packets, last) := by
  obtain ⟨file, opens, result_eq⟩ := Option.map_eq_some_iff.1 evaluated
  obtain ⟨rfl, rest⟩ := Prod.mk.inj result_eq
  obtain ⟨rfl, answers⟩ := Prod.mk.inj rest
  exact ⟨file, Disk.eq_ok_of_toOption opens, rfl, rfl, frames_of_answers answers⟩

theorem ofPath_of_map_eq_error {path : String}
    (evaluated : (ofPath d path).map (fun _ => ()) = .error e) : ofPath d path = .error e := by
  cases opens : ofPath d path with
  | ok file =>
    rw [opens] at evaluated
    contradiction
  | error e' =>
    rw [opens] at evaluated
    exact congrArg Except.error (Except.error.inj evaluated)

/-- A plain file that does not come to its end comes to one of two errors. -/
theorem frames_of_plain (plain : r.stream.IsPlain) (failed : (r.frames d).2 = some e) :
    e = r.problem .truncatedRecord ∨ e = r.problem .recordTooLarge := by
  induction r, (#[] : Array Packet) using framesAfter.induct d with
  | case1 r before e' r' found =>
    rw [frames_of_error found] at failed
    obtain rfl := Option.some.inj failed
    exact ((nextFrame_of_plain plain found).2 e' rfl).1
  | case2 r before r' found =>
    rw [frames_of_end found] at failed
    contradiction
  | case3 r before p r' found ih =>
    rw [frames_of_record found] at failed
    have origin := origin_nextFrame r d
    rw [found] at origin
    rw [← problem_eq origin, ← problem_eq origin]
    exact ih (nextFrame_of_plain plain found).1 failed

/-- The file is plain, or has frames up to its end. Reading gives the frames, each once, and then the same
answer again and again. -/
def Steady (d : Disk) (r : Reader) : Prop := r.stream.IsPlain ∨ (r.frames d).2 = none

theorem Steady.nextFrame (steady : r.Steady d) (found : r.nextFrame d = (answer, r')) : r'.Steady d := by
  rcases steady with plain | ends
  · exact .inl (nextFrame_of_plain plain found).1
  · apply Or.inr
    rcases answer with e | _ | p
    · rw [frames_of_error found] at ends
      contradiction
    · rw [frames_of_end (nextFrame_of_finished found)]
    · rw [frames_of_record found] at ends
      exact ends

/-- An answer that is no frame stays. -/
theorem Steady.nextFrame_again (steady : r.Steady d) (found : r.nextFrame d = (answer, r'))
    (absent : packet? answer = none) : r'.nextFrame d = (answer, r') := by
  rcases answer with e | _ | p
  · rcases steady with plain | ends
    · exact ((nextFrame_of_plain plain found).2 e rfl).2
    · rw [frames_of_error found] at ends
      contradiction
  · exact nextFrame_of_finished found
  · contradiction

/-- What such a file answers is one of its frames, or its end, or its error. -/
theorem Steady.of_mem_answers {n : Nat} (steady : r.Steady d) (member : answer ∈ r.answers d n) :
    (∃ p ∈ (r.frames d).1, answer = .ok (some p)) ∨
      answer = (r.frames d).2.elim (.ok none) Except.error := by
  induction n generalizing r with
  | zero => simp [answers] at member
  | succ n ih =>
    rcases found : r.nextFrame d with ⟨first, r'⟩
    have later := ih (steady.nextFrame found)
    rw [answers, found] at member
    rcases first with e | _ | p
    · rw [frames_of_error (steady.nextFrame_again found rfl)] at later
      rw [frames_of_error found]
      exact (List.mem_cons.1 member).elim .inr later
    · rw [frames_of_end (steady.nextFrame_again found rfl)] at later
      rw [frames_of_end found]
      exact (List.mem_cons.1 member).elim .inr later
    · rw [frames_of_record found]
      rcases List.mem_cons.1 member with rfl | behind
      · exact .inl ⟨p, List.mem_cons_self, rfl⟩
      · rcases later behind with ⟨q, inside, answer_eq⟩ | last
        · exact .inl ⟨q, List.mem_cons_of_mem p inside, answer_eq⟩
        · exact .inr last

/-- Reading gives the frames one by one, and then what is behind them for good. -/
theorem Steady.answers_eq (steady : r.Steady d) (n : Nat) :
    r.answers d n = ((r.frames d).1.map (fun p => Except.ok (some p)) ++
      List.replicate n ((r.frames d).2.elim (Except.ok none) Except.error)).take n := by
  induction n generalizing r with
  | zero => rw [answers, List.take_zero]
  | succ n ih =>
    rcases found : r.nextFrame d with ⟨first, r'⟩
    have later := ih (steady.nextFrame found)
    rw [answers, found, later]
    rcases first with e | _ | p
    · rw [frames_of_error (steady.nextFrame_again found rfl), frames_of_error found]
      simp [List.replicate_succ]
    · rw [frames_of_end (steady.nextFrame_again found rfl), frames_of_end found]
      simp [List.replicate_succ]
    · rw [frames_of_record found, List.map_cons, List.cons_append, List.take_succ_cons]
      congr 1
      simp [List.take_append]
      omega

theorem Steady.mem_frames {n : Nat} (steady : r.Steady d) (member : .ok (some p) ∈ r.answers d n) :
    p ∈ (r.frames d).1 := by
  obtain ⟨q, inside, result_eq⟩ | last := steady.of_mem_answers member
  · exact Option.some.inj (Except.ok.inj result_eq) ▸ inside
  · cases failure : (r.frames d).2 with
    | none =>
      rw [failure] at last
      simp at last
    | some e =>
      rw [failure] at last
      contradiction

theorem Steady.frames_ended {n : Nat} (steady : r.Steady d) (member : .ok none ∈ r.answers d n) :
    (r.frames d).2 = none := by
  obtain ⟨q, -, result_eq⟩ | last := steady.of_mem_answers member
  · simp at result_eq
  · cases failure : (r.frames d).2 with
    | none => rfl
    | some e =>
      rw [failure] at last
      contradiction

/-- The reader `r` goes on where some reads have brought the reader `first`. -/
def Continues (d : Disk) (first r : Reader) : Prop :=
  ∃ n, ∀ m, first.answers d (n + m) = first.answers d n ++ r.answers d m

theorem Continues.refl (d : Disk) (r : Reader) : r.Continues d r :=
  ⟨0, fun m => by rw [Nat.zero_add]; rfl⟩

variable {first : Reader}

theorem Continues.mem_answers (continues : first.Continues d r) :
    ∃ n, (r.nextFrame d).1 ∈ first.answers d n := by
  obtain ⟨n, each⟩ := continues
  refine ⟨n + 1, ?_⟩
  rw [each]
  exact List.mem_append_right _ List.mem_cons_self

theorem Continues.nextFrame (continues : first.Continues d r) :
    first.Continues d (r.nextFrame d).2 := by
  obtain ⟨n, each⟩ := continues
  refine ⟨n + 1, fun m => ?_⟩
  rw [Nat.add_assoc, Nat.add_comm 1, each, each, List.append_assoc]
  rfl

end Reader

end RollingCapture.CaptureFile
