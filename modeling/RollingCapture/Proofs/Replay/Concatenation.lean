import RollingCapture.Capture.Session
import RollingCapture.Proofs.CaptureFile.Frames
import RollingCapture.Proofs.Replay

/-! A replay gives what its files give, one file after the other. A file that cannot be used is one error
between the frames of its neighbours, and a plain file that is malformed holds the replay at its error. -/
namespace RollingCapture.Capture.Replay

open CaptureFile

/-- What a session gives read after read: some answers, and from then on the same error, or the end of
the input. -/
structure Sequel where
  answers : List (Except Error Packet)
  failure : Option Error

namespace Sequel

def answer (s : Sequel) (n : Nat) : Except Error Packet :=
  s.answers.getD n (.error (s.failure.getD .noMorePackets))

def behind (s : Sequel) (front : List (Except Error Packet)) : Sequel :=
  { s with answers := front ++ s.answers }

def drop (s : Sequel) (n : Nat) : Sequel := { s with answers := s.answers.drop n }

/-- The frames of a file, and if it has an end what comes `later`. -/
def ofReader (d : Disk) (reader : Reader) (later : Sequel) : Sequel :=
  match reader.frames d with
  | (packets, none) => later.behind (packets.map .ok)
  | (packets, some e) => ⟨packets.map .ok, some e⟩

/-- File by file; one that does not open, or has another link type, is an error. -/
def ofFiles (d : Disk) (linkType : LinkType) : List String → Sequel
  | [] => ⟨[], none⟩
  | path :: paths =>
    match Reader.ofPath d path with
    | .error e => (ofFiles d linkType paths).behind [.error e]
    | .ok reader =>
      if reader.linkType = linkType then ofReader d reader (ofFiles d linkType paths)
      else
        (ofFiles d linkType paths).behind
          [.error (.format path (.linkTypeDiffers reader.linkType linkType))]

variable {d : Disk} {reader reader' : Reader} {s later : Sequel} {p : Packet} {e : Error}

theorem answer_drop (s : Sequel) (m n : Nat) : (s.drop m).answer n = s.answer (m + n) := by
  simp only [answer, drop, List.getD_eq_getElem?_getD, List.getElem?_drop]

theorem drop_drop (s : Sequel) (m n : Nat) : (s.drop m).drop n = s.drop (m + n) := by
  simp only [drop, List.drop_drop]

theorem ofReader_of_record (read : reader.nextFrame d = (.ok (some p), reader')) :
    ofReader d reader later = (ofReader d reader' later).behind [.ok p] := by
  rw [ofReader, Reader.frames_of_record read, ofReader]
  rcases reader'.frames d with ⟨packets, _ | e⟩ <;> rfl

theorem ofReader_of_end (read : reader.nextFrame d = (.ok none, reader')) :
    ofReader d reader later = later := by
  rw [ofReader, Reader.frames_of_end read]
  rfl

theorem ofReader_of_error (read : reader.nextFrame d = (.error e, reader')) :
    ofReader d reader later = ⟨[], some e⟩ := by
  rw [ofReader, Reader.frames_of_error read]
  rfl

end Sequel

variable {d : Disk} {paths : List String} {path : String} {r : Replay} {h : Host} {p : Packet}

def sequel (d : Disk) (r : Replay) : Sequel :=
  match r.reader with
  | none => ⟨[], none⟩
  | some reader => .ofReader d reader (.ofFiles d r.linkType r.pending)

/-- Reading on in a replay is reading on in its files: every file it can come to is steady. -/
structure Steady (d : Disk) (r : Replay) : Prop where
  reader : ∀ reader, r.reader = some reader → reader.Steady d
  pending : ∀ path ∈ r.pending, ∀ reader, Reader.ofPath d path = .ok reader → reader.Steady d

/-- An answer as a session gives it: without a packet the input is over. -/
def told (answer : Except Error (Option Packet)) : Except Error Packet :=
  answer.bind fun packet => packet.elim (.error .noMorePackets) .ok

theorem next_eq (r : Replay) (h : Host) :
    ∃ received, r.next h = (told (r.advance h).1, { (r.advance h).2.1 with received }, (r.advance h).2.2) ∧
      received = (r.advance h).2.1.received + if (r.next h).1.isOk then 1 else 0 := by
  rw [next]
  rcases r.advance h with ⟨_ | _ | p, r', h'⟩
  · exact ⟨r'.received, rfl, by simp [Except.isOk, Except.toBool]⟩
  · exact ⟨r'.received, rfl, by simp [Except.isOk, Except.toBool]⟩
  · exact ⟨r'.received + 1, rfl, rfl⟩

theorem sequel_of_some {reader : Reader} (now : r.reader = some reader) (d : Disk) :
    r.sequel d = .ofReader d reader (.ofFiles d r.linkType r.pending) := by
  rw [sequel, now]

/-- Going on with the next file, behind the end of the current one, changes nothing of what is to come. -/
theorem Steady.following {reader reader' next : Reader} {pending : List String} (steady : r.Steady d)
    (now : r.reader = some reader) (ended : reader.nextFrame d = (.ok none, reader'))
    (more : r.pending = path :: pending) (opened : Reader.ofPath d path = .ok next)
    (linkType_eq : next.linkType = r.linkType) :
    sequel d { r with reader := some next, pending, name := path } = r.sequel d ∧
      Steady d { r with reader := some next, pending, name := path } := by
  refine ⟨?_, fun _ first => ?_, fun path member => ?_⟩
  · rw [sequel_of_some now, Sequel.ofReader_of_end ended, more, Sequel.ofFiles, opened]
    exact (if_pos linkType_eq).symm
  · exact Option.some.inj first ▸ steady.pending path (more ▸ List.mem_cons_self) next opened
  · exact steady.pending path (more ▸ List.mem_cons_of_mem _ member)

theorem Steady.read {reader reader' : Reader} {answer : Except Error (Option Packet)}
    {pending : List String} (steady : r.Steady d) (now : r.reader = some reader)
    (found : reader.nextFrame d = (answer, reader')) (behind : pending ⊆ r.pending) :
    Steady d { r with reader := some reader', pending } :=
  ⟨fun _ reader_eq => Option.some.inj reader_eq ▸ (steady.reader reader now).nextFrame found,
    fun path member => steady.pending path (behind member)⟩

/-- The next answer is the first of those to come, and leaves the others. -/
theorem advance_sequel (steady : r.Steady h.disk) :
    told (r.advance h).1 = (r.sequel h.disk).answer 0 ∧
      (r.advance h).2.1.sequel h.disk = (r.sequel h.disk).drop 1 ∧
      (r.advance h).2.1.Steady h.disk := by
  fun_induction Replay.advance r h with
  | case1 r h absent =>
    have finished : r.sequel h.disk = ⟨[], .none⟩ := by rw [sequel, absent]
    rw [finished]
    exact ⟨rfl, rfl, steady⟩
  | case2 r h reader now e reader' failed =>
    have again := (steady.reader reader now).nextFrame_again failed rfl
    rw [sequel_of_some now, Sequel.ofReader_of_error failed]
    exact ⟨rfl, Sequel.ofReader_of_error again, steady.read now failed (List.Subset.refl _)⟩
  | case3 r h reader now p reader' found =>
    rw [sequel_of_some now, Sequel.ofReader_of_record found]
    exact ⟨rfl, rfl, steady.read now found (List.Subset.refl _)⟩
  | case4 r h reader now reader' ended empty =>
    have finished : r.sequel h.disk = ⟨[], .none⟩ := by
      rw [sequel_of_some now, Sequel.ofReader_of_end ended, empty]
      rfl
    rw [finished]
    refine ⟨rfl, rfl, fun _ now => ?_, steady.pending⟩
    contradiction
  | case5 r h reader now reader' ended path pending more e failed =>
    have again := Reader.nextFrame_of_finished ended
    rw [sequel_of_some now, Sequel.ofReader_of_end ended, more, Sequel.ofFiles, failed]
    have behind : pending ⊆ r.pending := more ▸ List.subset_cons_self path pending
    exact ⟨rfl, Sequel.ofReader_of_end again, steady.read now ended behind⟩
  | case6 r h reader now reader' ended path pending more next opened linkType_eq ih =>
    obtain ⟨to_come, steady'⟩ := steady.following now ended more opened linkType_eq
    rw [← to_come]
    exact ih steady'
  | case7 r h reader now reader' ended path pending more next opened other =>
    have again := Reader.nextFrame_of_finished ended
    rw [sequel_of_some now, Sequel.ofReader_of_end ended, more, Sequel.ofFiles, opened]
    simp only [if_neg other]
    have behind : pending ⊆ r.pending := more ▸ List.subset_cons_self path pending
    exact ⟨rfl, Sequel.ofReader_of_end again, steady.read now ended behind⟩

/-- Where a replay of the files at `paths` stands. It is named after the last of them that could be used,
and still reads it unless the input is over. -/
structure Stands (d : Disk) (paths : List String) (r : Replay) : Prop where
  named : r.name ∈ paths
  pending : r.pending <:+ paths
  file : ∃ file, Reader.ofPath d r.name = .ok file ∧ file.linkType = r.linkType ∧
    (∀ reader, r.reader = some reader → file.Continues d reader) ∧
    (r.reader = none → r.pending = [] ∧ ∃ n, .ok none ∈ file.answers d n)

/-- The file that the replay is named after gives the packet. -/
def Comes (d : Disk) (r : Replay) (p : Packet) : Prop :=
  ∃ file n, Reader.ofPath d r.name = .ok file ∧ file.linkType = r.linkType ∧
    .ok (some p) ∈ file.answers d n

theorem stands_of_continues {file reader : Reader} {pending : List String} (named : r.name ∈ paths)
    (opens : Reader.ofPath d r.name = .ok file) (type : file.linkType = r.linkType)
    (continues : file.Continues d reader) (suffix : pending <:+ paths) :
    { r with reader := some reader, pending }.Stands d paths :=
  ⟨named, suffix, file, opens, type, fun _ reader_eq => Option.some.inj reader_eq ▸ continues, by simp⟩

/-- Reading on leaves the replay with one of its files, and what it gives comes from there. -/
theorem advance_stands (stands : r.Stands h.disk paths) :
    (r.advance h).2.1.Stands h.disk paths ∧
      ((r.advance h).2.1.linkType = r.linkType ∧ (r.advance h).2.1.snaplen = r.snaplen ∧
        (r.advance h).2.1.received = r.received) ∧
      (∀ p, (r.advance h).1 = .ok (some p) → (r.advance h).2.1.Comes h.disk p) ∧
      ((r.advance h).1 = .ok none → (r.advance h).2.1.reader = none) := by
  obtain ⟨named, suffix, file, opens, type, reads, finished⟩ := stands
  fun_induction Replay.advance r h generalizing file with
  | case1 r h absent =>
    exact ⟨⟨named, suffix, file, opens, type, reads, finished⟩, ⟨rfl, rfl, rfl⟩, by simp,
      fun _ => absent⟩
  | case2 r h reader now e reader' failed =>
    have continues := (reads reader now).nextFrame
    rw [failed] at continues
    exact ⟨stands_of_continues named opens type continues suffix, ⟨rfl, rfl, rfl⟩, by simp, by simp⟩
  | case3 r h reader now p reader' found =>
    have continues := (reads reader now).nextFrame
    obtain ⟨n, member⟩ := (reads reader now).mem_answers
    rw [found] at continues member
    refine ⟨stands_of_continues named opens type continues suffix, ⟨rfl, rfl, rfl⟩, fun q result_eq => ?_,
      by simp⟩
    obtain rfl := Option.some.inj (Except.ok.inj result_eq)
    exact ⟨file, n, opens, type, member⟩
  | case4 r h reader now reader' ended empty =>
    obtain ⟨n, member⟩ := (reads reader now).mem_answers
    rw [ended] at member
    exact ⟨⟨named, suffix, file, opens, type, by simp, fun _ => ⟨empty, n, member⟩⟩,
      ⟨rfl, rfl, rfl⟩, by simp, fun _ => rfl⟩
  | case5 r h reader now reader' ended path pending more e failed =>
    have continues := (reads reader now).nextFrame
    rw [ended] at continues
    have behind := (List.suffix_cons path pending).trans (more ▸ suffix)
    exact ⟨stands_of_continues named opens type continues behind, ⟨rfl, rfl, rfl⟩, by simp, by simp⟩
  | case6 r h reader now reader' ended path pending more next opened linkType_eq ih =>
    refine ih ?_ ?_ next opened linkType_eq (fun _ first => ?_) (by simp)
    · exact suffix.subset (more ▸ List.mem_cons_self)
    · exact (List.suffix_cons path pending).trans (more ▸ suffix)
    · exact Option.some.inj first ▸ Reader.Continues.refl h.disk next
  | case7 r h reader now reader' ended path pending more next opened other =>
    have continues := (reads reader now).nextFrame
    rw [ended] at continues
    have behind := (List.suffix_cons path pending).trans (more ▸ suffix)
    exact ⟨stands_of_continues named opens type continues behind, ⟨rfl, rfl, rfl⟩, by simp, by simp⟩

/-! Read after read. -/

def after (r : Replay) (h : Host) : Nat → Replay × Host
  | 0 => (r, h)
  | n + 1 => ((r.after h n).1.next (r.after h n).2).2

def answer (r : Replay) (h : Host) (n : Nat) : Except Error Packet :=
  ((r.after h n).1.next (r.after h n).2).1

def packetCount (r : Replay) (h : Host) (n : Nat) : Nat :=
  (List.range n).countP fun k => (r.answer h k).isOk

theorem packetCount_succ (r : Replay) (h : Host) (n : Nat) :
    r.packetCount h (n + 1) = r.packetCount h n + if (r.answer h n).isOk then 1 else 0 := by
  rw [packetCount, List.range_succ, List.countP_append, List.countP_singleton, packetCount]

theorem disk_after (r : Replay) (h : Host) (n : Nat) : (r.after h n).2.disk = h.disk := by
  induction n with
  | zero => rfl
  | succ n ih =>
    obtain ⟨log, host_eq⟩ := (r.after h n).1.host_next (r.after h n).2
    rw [after, host_eq, ih]

theorem next_sequel (steady : r.Steady h.disk) :
    (r.next h).1 = (r.sequel h.disk).answer 0 ∧
      (r.next h).2.1.sequel h.disk = (r.sequel h.disk).drop 1 ∧ (r.next h).2.1.Steady h.disk := by
  obtain ⟨answer, later, steady'⟩ := advance_sequel steady
  obtain ⟨received, next_eq, -⟩ := r.next_eq h
  rw [next_eq]
  exact ⟨answer, later, steady'.reader, steady'.pending⟩

theorem sequel_after (steady : r.Steady h.disk) (n : Nat) :
    (r.after h n).1.sequel h.disk = (r.sequel h.disk).drop n ∧ (r.after h n).1.Steady h.disk := by
  induction n with
  | zero => exact ⟨rfl, steady⟩
  | succ n ih =>
    obtain ⟨here, steady⟩ := ih
    rw [← disk_after r h n] at steady
    obtain ⟨-, later, steady'⟩ := next_sequel steady
    rw [disk_after] at later steady'
    exact ⟨by rw [after, later, here, Sequel.drop_drop], steady'⟩

/-- Reading gives one after the other what was to come at first. -/
theorem answer_eq (steady : r.Steady h.disk) (n : Nat) :
    r.answer h n = (r.sequel h.disk).answer n := by
  obtain ⟨here, steady⟩ := sequel_after steady n
  rw [← disk_after r h n] at steady
  rw [answer, (next_sequel steady).1, disk_after, here, Sequel.answer_drop, Nat.add_zero]

theorem stands_after (stands : r.Stands h.disk paths) (n : Nat) :
    (r.after h n).1.Stands h.disk paths ∧ (r.after h n).1.linkType = r.linkType ∧
      (r.after h n).1.snaplen = r.snaplen ∧
      (r.after h n).1.received = r.received + .ofNat (r.packetCount h n) := by
  induction n with
  | zero => exact ⟨stands, rfl, rfl, (UInt32.add_zero _).symm⟩
  | succ n ih =>
    obtain ⟨stands, type, snaplen, count⟩ := ih
    rw [← disk_after r h n] at stands
    obtain ⟨stands', ⟨type', snaplen', count'⟩, -⟩ := advance_stands stands
    obtain ⟨received, next_eq, more⟩ := (r.after h n).1.next_eq (r.after h n).2
    rw [disk_after] at stands'
    rw [after, next_eq]
    refine ⟨⟨stands'.named, stands'.pending, stands'.file⟩, type'.trans type, snaplen'.trans snaplen, ?_⟩
    rw [more, count', count, packetCount_succ, answer, UInt32.ofNat_add, UInt32.add_assoc]
    split <;> rfl

/-! The end. -/

theorem advance_of_none (absent : r.reader = none) : r.advance h = (.ok .none, r, h) := by
  rw [advance]
  split
  · rfl
  · rename_i present
    rw [absent] at present
    contradiction

/-- Only the end of the input is reported as such. -/
theorem advance_ne_noMorePackets (r : Replay) (h : Host) :
    (r.advance h).1 ≠ .error .noMorePackets := by
  fun_induction Replay.advance r h with
  | case1 => simp
  | case2 r h reader now e reader' failed =>
    obtain ⟨p, rfl⟩ := Reader.error_of_nextFrame failed
    rw [Reader.problem]
    split <;> simp
  | case3 => simp
  | case4 => simp
  | case5 r h reader now reader' ended path pending more e failed =>
    obtain ⟨cause, rfl⟩ | ⟨problem, rfl⟩ := Reader.error_of_ofPath failed <;> simp
  | case6 r h reader now reader' ended path pending more next opened linkType_eq ih => exact ih
  | case7 => simp

theorem advance_of_noMorePackets (finished : (r.next h).1 = .error .noMorePackets) :
    (r.advance h).1 = .ok none := by
  have never := advance_ne_noMorePackets r h
  obtain ⟨_, next_eq, -⟩ := r.next_eq h
  have told_eq : told (r.advance h).1 = .error .noMorePackets := by rw [← finished, next_eq]
  rcases answer : (r.advance h).1 with e | _ | p
  · rw [answer] at told_eq never
    exact absurd (congrArg Except.error (Except.error.inj told_eq)) never
  · rfl
  · rw [answer] at told_eq
    contradiction

theorem answer_of_none {n m : Nat} (absent : (r.after h n).1.reader = none) (later : n ≤ m) :
    r.answer h m = .error .noMorePackets := by
  have still : (r.after h m).1.reader = .none := by
    induction later with
    | refl => exact absent
    | step _ ih => rw [after, next, advance_of_none ih, ih]
  rw [answer, next, advance_of_none still]

/-- Where only an error or the end is to come, one read settles the replay. -/
theorem advance_advance (steady : r.Steady h.disk) (empty : (r.sequel h.disk).answers = []) :
    (r.advance h).2.1.advance (r.advance h).2.2 = r.advance h ∧
      (told (r.advance h).1).isOk = false := by
  fun_induction Replay.advance r h with
  | case1 r h finished => exact ⟨advance_of_none finished, rfl⟩
  | case2 r h reader now e reader' failed =>
    have again := (steady.reader reader now).nextFrame_again failed rfl
    refine ⟨?_, rfl⟩
    rw [advance]
    simp only [again]
  | case3 r h reader now p reader' found =>
    rw [sequel_of_some now, Sequel.ofReader_of_record found] at empty
    contradiction
  | case4 r h reader now reader' ended last => exact ⟨advance_of_none rfl, rfl⟩
  | case5 r h reader now reader' ended path pending more e failed =>
    rw [sequel_of_some now, Sequel.ofReader_of_end ended, more, Sequel.ofFiles, failed] at empty
    contradiction
  | case6 r h reader now reader' ended path pending more next opened linkType_eq ih =>
    obtain ⟨to_come, steady'⟩ := steady.following now ended more opened linkType_eq
    rw [← to_come] at empty
    exact ih steady' empty
  | case7 r h reader now reader' ended path pending more next opened other =>
    rw [sequel_of_some now, Sequel.ofReader_of_end ended, more, Sequel.ofFiles, opened] at empty
    simp only [if_neg other] at empty
    contradiction

theorem next_of_not_ok (failed : (told (r.advance h).1).isOk = false) :
    r.next h = (told (r.advance h).1, (r.advance h).2) := by
  rw [next]
  rcases found : r.advance h with ⟨_ | _ | p, r', h'⟩
  · rfl
  · rfl
  · rw [found] at failed
    contradiction

theorem after_succ_succ (steady : r.Steady h.disk) {n : Nat}
    (last : (r.sequel h.disk).answers.length ≤ n) : r.after h (n + 2) = r.after h (n + 1) := by
  obtain ⟨here, steady⟩ := sequel_after steady n
  have empty : ((r.after h n).1.sequel (r.after h n).2.disk).answers = [] := by
    rw [disk_after, here]
    exact List.drop_eq_nil_of_le last
  rw [← disk_after r h n] at steady
  obtain ⟨again, failed⟩ := advance_advance steady empty
  have turn : r.after h (n + 1) = ((r.after h n).1.advance (r.after h n).2).2 := by
    rw [after, next_of_not_ok failed]
  rw [after, turn, next_of_not_ok (by rwa [again]), again]

theorem answer_of_stands (stands : r.Stands h.disk paths) (n : Nat) :
    (∀ p, r.answer h n = .ok p → (r.after h (n + 1)).1.Comes h.disk p) ∧
      (r.answer h n = .error .noMorePackets → (r.after h (n + 1)).1.reader = none) := by
  obtain ⟨now, -⟩ := stands_after stands n
  rw [← disk_after r h n] at now
  obtain ⟨-, -, comes, finished⟩ := advance_stands now
  obtain ⟨received, next_eq, -⟩ := (r.after h n).1.next_eq (r.after h n).2
  rw [disk_after] at comes
  constructor
  · intro p given
    have found : told ((r.after h n).1.advance (r.after h n).2).1 = .ok p := by
      rw [← given, answer, next_eq]
    rw [after, next_eq]
    rcases answer : ((r.after h n).1.advance (r.after h n).2).1 with e | _ | q
    · rw [answer] at found
      contradiction
    · rw [answer] at found
      contradiction
    · rw [answer] at found
      obtain rfl := Except.ok.inj found
      exact comes q answer
  · intro last
    have reader := finished (advance_of_noMorePackets last)
    rw [after, next_eq]
    exact reader

def begun (path : String) (pending : List String) (first : Reader) : Replay where
  name := path
  pending
  reader := some first
  linkType := first.linkType
  snaplen := first.snaplen

theorem ofPaths_of_ok {first : Reader} (opens : Reader.ofPath h.disk path = .ok first)
    (pending : List String) :
    ∃ h', ofPaths h (path :: pending) = (.ok (begun path pending first), h') ∧ h'.disk = h.disk := by
  simp only [ofPaths, opens]
  exact ⟨_, rfl, rfl⟩

theorem exists_begun {h' : Host} (opened : ofPaths h paths = (.ok r, h')) :
    ∃ path pending first, paths = path :: pending ∧ Reader.ofPath h.disk path = .ok first ∧
      r = begun path pending first ∧ h'.disk = h.disk := by
  cases paths with
  | nil => simp [ofPaths] at opened
  | cons path pending =>
    cases opens : Reader.ofPath h.disk path with
    | error e => simp [ofPaths, opens] at opened
    | ok first =>
      obtain ⟨h₁, opened', disk⟩ := ofPaths_of_ok opens pending
      obtain ⟨begun_eq, rfl⟩ := Prod.mk.inj (opened'.symm.trans opened)
      exact ⟨path, pending, first, rfl, opens, (Except.ok.inj begun_eq).symm, disk⟩

theorem stands_begun {first : Reader} (opens : Reader.ofPath d path = .ok first)
    (pending : List String) : (begun path pending first).Stands d (path :: pending) := by
  refine ⟨List.mem_cons_self, List.suffix_cons path pending, first, opens, rfl, fun reader now => ?_,
    by simp [begun]⟩
  exact Option.some.inj now ▸ Reader.Continues.refl d first

/-- Files whose first opens, and whose compressed ones can be read to their end, are replayed as one: each
read gives the next answer of the files, one file after the other, and behind the last of the answers the
replay stands still. The end of the input is reported once no file is left and the last one has ended.
A packet comes from the file that the session is then named after, which has the link type of the
session, and the session counts the packets. -/
theorem replay_concatenates_files (h : Host) {first : Reader} {pending : List String}
    (opens : Reader.ofPath h.disk path = .ok first)
    (readable : ∀ p ∈ path :: pending, ∀ file, Reader.ofPath h.disk p = .ok file →
      file.compression = .lz4 → (file.frames h.disk).2 = none) :
    let files := Sequel.ofFiles h.disk first.linkType (path :: pending)
    ∃ r h', ofPaths h (path :: pending) = (.ok r, h') ∧
      (∀ n, r.answer h' n = files.answer n) ∧
      (∀ n, files.answers.length ≤ n → r.after h' (n + 2) = r.after h' (n + 1)) ∧
      (∀ p ∈ path :: pending, ∀ file e, Reader.ofPath h.disk p = .ok file →
        (file.frames h.disk).2 = some e →
        e = .format p (.reading .truncatedRecord) ∨ e = .format p (.reading .recordTooLarge)) ∧
      (∀ n, r.answer h' n = .error .noMorePackets →
        (∀ m, n ≤ m → r.answer h' m = .error .noMorePackets) ∧
        (r.after h' (n + 1)).1.pending = [] ∧
        ∃ file, Reader.ofPath h.disk (r.after h' (n + 1)).1.name = .ok file ∧
          (file.frames h.disk).2 = none) ∧
      (∀ n p, r.answer h' n = .ok p →
        ∃ file, Reader.ofPath h.disk (r.after h' (n + 1)).1.name = .ok file ∧
          file.linkType = first.linkType ∧ p ∈ (file.frames h.disk).1) ∧
      ∀ n, (r.after h' n).1.name ∈ path :: pending ∧
        (r.after h' n).1.linkType = first.linkType ∧ (r.after h' n).1.snaplen = first.snaplen ∧
        ∀ w, ((Session.replay (r.after h' n).1).statistics w).1 =
          .ok ⟨r.packetCount h' n % UInt32.size, 0, 0⟩ := by
  intro files
  have steady_file (p : String) (member : p ∈ path :: pending) (file : Reader)
      (opens : Reader.ofPath h.disk p = .ok file) : file.Steady h.disk := by
    cases mode : file.compression with
    | plain => exact .inl ((Reader.isPlain_of_ofPath opens).2 mode)
    | lz4 => exact .inr (readable p member file opens mode)
  obtain ⟨h', opened, disk⟩ := ofPaths_of_ok opens pending
  have steady : (begun path pending first).Steady h'.disk := by
    rw [disk]
    constructor
    · intro reader now
      obtain rfl := Option.some.inj now
      exact steady_file path List.mem_cons_self first opens
    · exact fun p member => steady_file p (List.mem_cons_of_mem path member)
  have stands : (begun path pending first).Stands h'.disk (path :: pending) :=
    disk ▸ stands_begun opens pending
  have files_eq : (begun path pending first).sequel h'.disk = files := by
    simp only [files, disk, sequel, begun, Sequel.ofFiles, opens, if_true]
  refine ⟨begun path pending first, h', opened, ?_, ?_, ?_, ?_, ?_, ?_⟩
  · intro n
    rw [answer_eq steady, files_eq]
  · intro n last
    exact after_succ_succ steady (files_eq ▸ last)
  · intro p member file e opens failed
    cases mode : file.compression with
    | lz4 =>
      rw [readable p member file opens mode] at failed
      contradiction
    | plain =>
      obtain ⟨path_eq, plain⟩ := Reader.isPlain_of_ofPath opens
      have error := Reader.frames_of_plain (plain mode) failed
      simp only [Reader.problem, mode, path_eq] at error
      exact error
  · intro n finished
    have absent := (answer_of_stands stands n).2 finished
    obtain ⟨stands', -⟩ := stands_after stands (n + 1)
    obtain ⟨file, opens, -, -, ended⟩ := stands'.file
    obtain ⟨nothing, k, member⟩ := ended absent
    rw [disk] at opens member
    refine ⟨fun m later => ?_, nothing, file, opens, ?_⟩
    · rcases Nat.eq_or_lt_of_le later with rfl | later
      · exact finished
      · exact answer_of_none absent later
    · exact (steady_file _ stands'.named file opens).frames_ended member
  · intro n p given
    obtain ⟨file, k, opens, type', member⟩ := (answer_of_stands stands n).1 p given
    obtain ⟨stands', type'', -⟩ := stands_after stands (n + 1)
    rw [disk] at opens member
    exact ⟨file, opens, type'.trans type'',
      (steady_file _ stands'.named file opens).mem_frames member⟩
  · intro n
    obtain ⟨stands', type', snaplen', count⟩ := stands_after stands n
    refine ⟨stands'.named, type', snaplen', fun w => ?_⟩
    have zero : (begun path pending first).received = 0 := rfl
    simp only [Session.statistics, count, zero, UInt32.zero_add, UInt32.toNat_ofNat']

/-- A whole file, one that is missing, one with another link type, one that is compressed, one that is cut
off, and one behind it that is never reached. -/
theorem usable_files_replayed_in_order :
    let p : Packet := ⟨⟨1, 0, 1, 1⟩, [7]⟩
    let whole := FileHeader.write .ethernet 65535 ++ Record.bytes p
    let other := FileHeader.write ⟨101⟩ 65535 ++ Record.bytes p
    let packed := Lz4.Frame.start ++ (Lz4.Frame.Mark.stored whole.length).bytes ++ whole ++
      Lz4.Frame.Mark.stop.bytes
    let disk := [("a.pcap", whole), ("c.pcap", other), ("d.pcap", packed), ("e.pcap", whole ++ [0]),
      ("f.pcap", whole)].foldl (fun d (path, bytes) => d.addFileWith path bytes.toArray) Disk.fresh
    ∃ r h', ofPaths { disk } ["a.pcap", "b.pcap", "c.pcap", "d.pcap", "e.pcap", "f.pcap"] = (.ok r, h') ∧
      ∀ n, r.answer h' n = Sequel.answer
        ⟨[.ok p, .error (.fileOpen "b.pcap" (.system .notFound)),
          .error (.format "c.pcap" (.linkTypeDiffers ⟨101⟩ .ethernet)), .ok p, .ok p],
          some (.format "e.pcap" (.reading .truncatedRecord))⟩ n := by
  intro p whole other packed disk
  let header (linkType : LinkType) : FileHeader := ⟨.written, 65535, linkType⟩
  obtain ⟨a, opensA, headerA, modeA, framesA⟩ : ∃ file, Reader.ofPath disk "a.pcap" = .ok file ∧
      file.header = header .ethernet ∧ file.compression = .plain ∧ file.frames disk = ([p], none) :=
    Reader.exists_ofPath_of_answers (by decide +kernel)
  have opensB : Reader.ofPath disk "b.pcap" = .error (.fileOpen "b.pcap" (.system .notFound)) :=
    Reader.ofPath_of_map_eq_error (by decide +kernel)
  obtain ⟨c, opensC, headerC, modeC, -⟩ : ∃ file, Reader.ofPath disk "c.pcap" = .ok file ∧
      file.header = header ⟨101⟩ ∧ file.compression = .plain ∧ file.frames disk = ([p], none) :=
    Reader.exists_ofPath_of_answers (by decide +kernel)
  obtain ⟨d, opensD, headerD, -, framesD⟩ : ∃ file, Reader.ofPath disk "d.pcap" = .ok file ∧
      file.header = header .ethernet ∧ file.compression = .lz4 ∧ file.frames disk = ([p], none) :=
    Reader.exists_ofPath_of_answers (by decide +kernel)
  obtain ⟨e, opensE, headerE, modeE, framesE⟩ : ∃ file, Reader.ofPath disk "e.pcap" = .ok file ∧
      file.header = header .ethernet ∧ file.compression = .plain ∧
      file.frames disk = ([p], some (.format "e.pcap" (.reading .truncatedRecord))) :=
    Reader.exists_ofPath_of_answers (by decide +kernel)
  obtain ⟨f, opensF, -, modeF, -⟩ : ∃ file, Reader.ofPath disk "f.pcap" = .ok file ∧
      file.header = header .ethernet ∧ file.compression = .plain ∧ file.frames disk = ([p], none) :=
    Reader.exists_ofPath_of_answers (by decide +kernel)
  obtain ⟨r, h', opened, answers, -⟩ := @replay_concatenates_files "a.pcap" { disk } a
    ["b.pcap", "c.pcap", "d.pcap", "e.pcap", "f.pcap"] opensA (by
      simp [opensA, opensB, opensC, opensD, opensE, opensF, modeA, modeC, modeE, modeF, framesD])
  refine ⟨r, h', opened, fun n => (answers n).trans (congrArg (Sequel.answer · n) ?_)⟩
  have differs : (⟨101⟩ : LinkType) ≠ .ethernet := by decide
  simp [Sequel.ofFiles, opensA, opensB, opensC, opensD, opensE, Reader.linkType, headerA, headerC, headerD,
    headerE, differs, Sequel.ofReader, framesA, framesD, framesE, Sequel.behind, header]

end RollingCapture.Capture.Replay
