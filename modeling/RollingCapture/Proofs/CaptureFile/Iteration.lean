import RollingCapture.Proofs.CaptureFile.WholeFile

/-! Iterating over a plain file. It ends exactly where the file ends behind a record. A record that is cut
or too large is reported on every further step. -/
namespace RollingCapture.CaptureFile.Reader

variable {d : Disk} {r r' : Reader} {p : Packet} {e : Error} {path : String}

/-- What an iteration gives after `n` steps. -/
def item (d : Disk) : Reader → Nat → Option (Except Error Packet)
  | r, 0 => (r.next d).1
  | r, n + 1 => item d (r.next d).2 n

theorem next_of_record (read : r.nextFrame d = (.ok (some p), r')) : r.next d = (some (.ok p), r') := by
  rw [next, read]

theorem next_of_end (read : r.nextFrame d = (.ok none, r')) : r.next d = (none, r') := by
  rw [next, read]

theorem next_of_error (read : r.nextFrame d = (.error e, r')) : r.next d = (some (.error e), r') := by
  rw [next, read]

/-- Where a step leaves the reader as it was, all further steps give the same. -/
theorem item_of_next_fixed {answer : Option (Except Error Packet)} (fixed : r.next d = (answer, r))
    (n : Nat) : r.item d n = answer := by
  induction n with
  | zero => rw [item, fixed]
  | succ n ih => rw [item, fixed, ih]

theorem item_of_next {answer : Option (Except Error Packet)} (first : r.next d = (answer, r'))
    (again : r'.next d = (answer, r')) (n : Nat) : r.item d n = answer := by
  cases n with
  | zero => rw [item, first]
  | succ n => rw [item, first, item_of_next_fixed again]

/-- An iteration gives the frames of a file in order, and then what is behind them for good. -/
theorem Steady.item_eq (steady : r.Steady d) (n : Nat) :
    r.item d n = ((r.frames d).1[n]?.map Except.ok).or ((r.frames d).2.map Except.error) := by
  induction n generalizing r with
  | zero =>
    rcases found : r.nextFrame d with ⟨_ | _ | p, r'⟩
    · rw [item, next_of_error found, frames_of_error found]
      rfl
    · rw [item, next_of_end found, frames_of_end found]
      rfl
    · rw [item, next_of_record found, frames_of_record found]
      rfl
  | succ n ih =>
    rcases found : r.nextFrame d with ⟨e | _ | p, r'⟩
    · have again := steady.nextFrame_again found rfl
      rw [item_of_next (next_of_error found) (next_of_error again), frames_of_error found]
      rfl
    · have again := steady.nextFrame_again found rfl
      rw [item_of_next (next_of_end found) (next_of_end again), frames_of_end found]
      rfl
    · rw [item, next_of_record found, ih (steady.nextFrame found), frames_of_record found,
        List.getElem?_cons_succ]

theorem Steady.exists_item_none_iff (steady : r.Steady d) :
    (∃ n, r.item d n = none) ↔ (r.frames d).2 = none := by
  constructor
  · rintro ⟨n, ended⟩
    rw [steady.item_eq, Option.or_eq_none_iff] at ended
    exact Option.map_eq_none_iff.1 ended.2
  · intro ended
    refine ⟨(r.frames d).1.length, ?_⟩
    rw [steady.item_eq, ended, List.getElem?_eq_none (Nat.le_refl _)]
    rfl

theorem exists_readAll_iff : (∃ packets, r.readAll d = .ok packets) ↔ (r.frames d).2 = none := by
  rw [readAll]
  rcases r.frames d with ⟨packets, _ | e⟩ <;> simp

/-- What opens and is read without decoding is a regular file that does not begin like a frame. -/
theorem exists_unframed_of_ofPath (opens : ofPath d path = .ok r) (plain : r.compression = .plain) :
    ∃ id, d.openToRead path = .ok (.file id) ∧
      ¬ Lz4.Frame.magic <+: (d.content (.file id)).toList := by
  cases opened : d.openToRead path with
  | error f =>
    rw [ofPath, opened] at opens
    contradiction
  | ok entry =>
    cases entry with
    | directory =>
      rw [ofPath, opened] at opens
      contradiction
    | special kind =>
      obtain ⟨e, refused⟩ := ofPath_of_special opened
      exact absurd (refused.symm.trans opens) (by simp)
    | file id =>
      obtain ⟨source, filled, rest, buffer, -⟩ := Source.exists_filled d (.file id)
      refine ⟨id, rfl, fun framed => ?_⟩
      rw [← rest, ← Stream.compression_eq_lz4_iff buffer] at framed
      simp only [ofPath, opened, filled, framed] at opens
      split at opens
      · contradiction
      · split at opens
        · contradiction
        · split at opens
          · contradiction
          · obtain rfl := Except.ok.inj opens
            contradiction

/-- The frames of a plain file are the records of the whole-file parser, where the window holds them. -/
theorem frames_of_parse {id : Nat} {packets : List Packet} {bytes rest : List UInt8}
    (opened : d.openToRead path = .ok (.file id)) (content_eq : (d.content (.file id)).toList = bytes)
    (unframed : ¬ Lz4.Frame.magic <+: bytes) (opens : ofPath d path = .ok r)
    (parsed : WholeFile.parse (WholeFile.number bytes) (bytes.drop fileHeaderSize) = (packets, rest))
    (fits : ∀ p ∈ packets, WholeFile.headerSize (WholeFile.number bytes) + p.data.length < capacity)
    (last : WholeFile.headerSize (WholeFile.number bytes) ≤ rest.length →
      WholeFile.recordSize (WholeFile.number bytes) rest < capacity) :
    r.frames d = (packets, if rest = [] then none else some (r.problem .truncatedRecord)) := by
  obtain ⟨front, flow⟩ := (ofPath_plain opened content_eq unframed).2 r opens
  have known := FileHeader.lookup_of_parse front.header
  have records := WholeFile.records_eq known parsed fits last
  rw [frames_eq_records front.room flow, records]
  · split <;> rfl
  · intro p member
    rw [records] at member
    rw [WholeFile.recordHeaderSize_eq known]
    exact Nat.ne_of_lt (fits p member)

/-- Iterating over a plain file gives its records and then, on every further step, nothing or the error
that is behind them. So it ends exactly if the file can be read as a whole. Where no record is as large as
the window, that is if no bytes are left behind the last whole record. -/
theorem iteration_ends_iff_read (opens : ofPath d path = .ok r) (plain : r.compression = .plain) :
    ((∃ n, r.item d n = none) ↔ ∃ packets, r.readAll d = .ok packets) ∧
    (∀ packets failure, r.frames d = (packets, failure) →
      (∀ n, r.item d n = (packets[n]?.map Except.ok).or (failure.map Except.error)) ∧
      ∀ e, failure = some e →
        e = .format path (.reading .truncatedRecord) ∨ e = .format path (.reading .recordTooLarge)) ∧
    ∃ id bytes number, d.openToRead path = .ok (.file id) ∧ (d.content (.file id)).toList = bytes ∧
      WholeFile.number bytes = number ∧
      ∀ packets rest, WholeFile.parse number (bytes.drop 24) = (packets, rest) →
        (∀ p ∈ packets, WholeFile.headerSize number + p.data.length < 262144) →
        (WholeFile.headerSize number ≤ rest.length → WholeFile.recordSize number rest < 262144) →
        ((∃ n, r.item d n = none) ↔ rest = []) := by
  obtain ⟨samePath, streams⟩ := isPlain_of_ofPath opens
  have steady : r.Steady d := .inl (streams plain)
  have problems (p : StreamProblem) : r.problem p = .format path (.reading p) := by
    rw [problem, plain, samePath]
  refine ⟨steady.exists_item_none_iff.trans exists_readAll_iff.symm, ?_, ?_⟩
  · intro packets failure parsed
    refine ⟨fun n => ?_, ?_⟩
    · rw [steady.item_eq, parsed]
    · rintro e rfl
      rw [← problems, ← problems]
      exact frames_of_plain (streams plain) (by rw [parsed])
  · obtain ⟨id, opened, unframed⟩ := exists_unframed_of_ofPath opens plain
    refine ⟨id, _, _, opened, rfl, rfl, fun packets rest parsed fits last => ?_⟩
    rw [steady.exists_item_none_iff, frames_of_parse opened rfl unframed opens parsed fits last]
    exact ite_eq_left_iff.trans (by simp)

/-- Of the second record four bytes are left. They are reported again and again. -/
theorem cut_record_reported_forever :
    let content : List UInt8 :=
      [0xd4, 0xc3, 0xb2, 0xa1, 2, 0, 4, 0, 0, 0, 0, 0, 0, 0, 0, 0, 0xff, 0xff, 0, 0, 1, 0, 0, 0] ++
        ([1, 0, 0, 0, 2, 0, 0, 0, 1, 0, 0, 0, 1, 0, 0, 0] ++ [9]) ++ [2, 0, 0, 0]
    let disk := Disk.fresh.addFileWith "a.pcap" content.toArray
    ∃ r, ofPath disk "a.pcap" = .ok r ∧ r.compression = .plain ∧
      r.item disk 0 = some (.ok ⟨⟨1, 2, 1, 1⟩, [9]⟩) ∧
      ∀ n, r.item disk (n + 1) = some (.error (.format "a.pcap" (.reading .truncatedRecord))) := by
  intro content disk
  have opened : disk.openToRead "a.pcap" = .ok (.file 0) := Disk.eq_ok_of_toOption (by decide +kernel)
  have holds : (disk.content (.file 0)).toList = content := by decide +kernel
  have unframed : ¬ Lz4.Frame.magic <+: content := by decide +kernel
  obtain ⟨opens_iff, fronts⟩ := ofPath_plain opened holds unframed
  obtain ⟨r, opens⟩ := opens_iff.2 (FileHeader.exists_parse_iff.2 (by decide +kernel))
  obtain ⟨front, -⟩ := fronts r opens
  have plain := front.compression
  have parsed : WholeFile.parse (WholeFile.number content) (content.drop fileHeaderSize) =
      ([⟨⟨1, 2, 1, 1⟩, [9]⟩], [2, 0, 0, 0]) := by decide +kernel
  have frames := frames_of_parse opened holds unframed opens parsed (by decide +kernel) (by decide +kernel)
  rw [if_neg (by decide), problem, plain, front.path] at frames
  obtain ⟨-, gives, -⟩ := iteration_ends_iff_read opens plain
  obtain ⟨items, -⟩ := gives _ _ frames
  exact ⟨r, opens, plain, items 0, fun n => items (n + 1)⟩

end RollingCapture.CaptureFile.Reader
