import RollingCapture.Source

/-! A source gives the bytes that it has not given yet, in order, however its buffer cuts them. -/
namespace RollingCapture.Source

def unbuffered (s : Source) (d : Disk) : List UInt8 :=
  ((d.content s.entry).toList.drop s.offset).take (s.limit - s.offset)

/-- Every byte still to come. -/
def rest (s : Source) (d : Disk) : List UInt8 := s.buffer ++ s.unbuffered d

/-- Only the bytes of its own file matter to a source. -/
theorem rest_congr {s : Source} {d d' : Disk} (content_eq : d'.content s.entry = d.content s.entry) :
    s.rest d' = s.rest d := by
  rw [rest, rest, unbuffered, unbuffered, content_eq]

theorem upcoming_eq_take (s : Source) (d : Disk) (n : Nat) :
    s.upcoming d n = (s.unbuffered d).take n := by
  rw [upcoming, unbuffered, Array.toList_extract, List.extract_eq_take_drop, List.take_take]
  congr 1
  omega

theorem unbuffered_advance (s : Source) (d : Disk) (n : Nat) (buffer : List UInt8) :
    unbuffered { s with buffer, offset := s.offset + ((s.unbuffered d).take n).length } d =
      (s.unbuffered d).drop n := by
  have drop_eq : (s.unbuffered d).drop n =
      (s.unbuffered d).drop ((s.unbuffered d).take n).length := by
    rw [List.length_take]
    rcases Nat.le_total n (s.unbuffered d).length with within | beyond
    · rw [Nat.min_eq_left within]
    · rw [Nat.min_eq_right beyond, List.drop_length, List.drop_of_length_le beyond]
  rw [drop_eq]
  simp only [unbuffered, List.drop_take, List.drop_drop, Nat.sub_sub]

theorem rest_fill (s : Source) (d : Disk) : (s.fill d).rest d = s.rest d := by
  unfold fill
  split
  · rename_i empty
    have drained : s.buffer = [] := List.isEmpty_iff.1 empty
    simp only [rest, drained, List.nil_append, upcoming_eq_take]
    rw [unbuffered_advance, List.take_append_drop]
  · rfl

/-- A filled source over a whole file has its first bytes at hand. -/
theorem buffer_fill_ofEntry (d : Disk) (e : Entry) :
    ((ofEntry d e).fill d).buffer = ((ofEntry d e).rest d).take capacity :=
  upcoming_eq_take (ofEntry d e) d capacity

theorem read_of_buffer_ne_nil {s : Source} (nonempty : s.buffer ≠ []) (d : Disk) (n : Nat) :
    s.read d n = (s.buffer.take n, { s with buffer := s.buffer.drop n }) := by
  have held : s.buffer.isEmpty = false := by simpa using nonempty
  simp [read, fill, held]

theorem rest_ofEntry (d : Disk) (e : Entry) : (ofEntry d e).rest d = (d.content e).toList := by
  simp only [rest, ofEntry, unbuffered, List.nil_append, List.drop_zero, Nat.sub_zero]
  exact List.take_of_length_le (Nat.le_max_left _ _)

theorem rest_ofBytes (d : Disk) (bytes : List UInt8) : (ofBytes bytes).rest d = bytes := by
  simp [rest, ofBytes, unbuffered]

theorem append_rest_read (s : Source) (d : Disk) (n : Nat) :
    (s.read d n).1 ++ (s.read d n).2.rest d = s.rest d := by
  unfold read
  split
  · rename_i direct
    have empty : s.buffer = [] := List.isEmpty_iff.1 (Bool.and_eq_true_iff.1 direct).1
    simp only [rest, empty, List.nil_append, upcoming_eq_take]
    rw [unbuffered_advance, List.take_append_drop]
  · rw [← rest_fill s d]
    simp only [rest, ← List.append_assoc, List.take_append_drop]
    rfl

theorem rest_of_read_eq_nil {s : Source} {d : Disk} {n : Nat} (positive : n ≠ 0)
    (nothing : (s.read d n).1 = []) : s.rest d = [] := by
  unfold read at nothing
  split at nothing
  · rename_i direct
    have empty : s.buffer = [] := List.isEmpty_iff.1 (Bool.and_eq_true_iff.1 direct).1
    rw [upcoming_eq_take, List.take_eq_nil_iff] at nothing
    rw [rest, empty, nothing.resolve_left positive, List.append_nil]
  · have empty : (s.fill d).buffer = [] := (List.take_eq_nil_iff.1 nothing).resolve_left positive
    rw [← rest_fill s d, rest, empty, List.nil_append]
    -- A buffer that stays empty was filled from the end of the file.
    unfold fill at empty ⊢
    split at empty
    · rename_i drained
      rw [if_pos drained]
      rw [upcoming_eq_take] at empty ⊢
      have ended : s.unbuffered d = [] :=
        (List.take_eq_nil_iff.1 empty).resolve_left (by decide)
      rw [unbuffered_advance, ended, List.drop_nil]
    · rename_i held
      exact absurd (List.isEmpty_iff.2 empty) held

theorem gather_eq (s : Source) (d : Disk) (n : Nat) :
    (s.gather d n).1 = (s.rest d).take n ∧ (s.gather d n).2.rest d = (s.rest d).drop n := by
  fun_induction gather s d n with
  | case1 => simp
  | case2 s n positive next ended =>
    have nothing := rest_of_read_eq_nil positive ended
    have split := append_rest_read s d n
    rw [nothing] at split
    simp [nothing, (List.append_eq_nil_iff.1 split).2, next]
  | case3 s n positive next progress later ih =>
    have split := append_rest_read s d n
    have bound := s.length_read_le d n
    obtain ⟨taken, left⟩ := ih
    constructor
    · rw [← split, List.take_append, List.take_of_length_le bound]
      exact congrArg (next.1 ++ ·) taken
    · rw [← split, List.drop_append, List.drop_of_length_le bound]
      exact left

theorem entry_fill (s : Source) (d : Disk) : (s.fill d).entry = s.entry := by
  unfold fill
  split <;> rfl

/-- A file that was just opened, with its first bytes read ahead. -/
theorem exists_filled (d : Disk) (e : Entry) :
    ∃ source, (ofEntry d e).fill d = source ∧ source.rest d = (d.content e).toList ∧
      source.buffer = (source.rest d).take capacity ∧ source.entry = e := by
  refine ⟨_, rfl, ?_, ?_, ?_⟩
  · rw [rest_fill, rest_ofEntry]
  · rw [buffer_fill_ofEntry, rest_fill]
  · rw [entry_fill]
    rfl

theorem entry_read (s : Source) (d : Disk) (n : Nat) : (s.read d n).2.entry = s.entry := by
  unfold read
  split
  · rfl
  · exact entry_fill s d

theorem entry_gather (s : Source) (d : Disk) (n : Nat) : (s.gather d n).2.entry = s.entry := by
  fun_induction gather s d n with
  | case1 => rfl
  | case2 s n positive next => exact entry_read s d n
  | case3 s n positive next progress later ih => exact ih.trans (entry_read s d n)

/-- What reading an exact number of bytes comes to. -/
inductive Exact (s : Source) (d : Disk) (n : Nat) : Option (List UInt8) × Source → Prop
  | whole {bytes : List UInt8} {s' : Source} : bytes.length = n →
      s.rest d = bytes ++ s'.rest d → s'.entry = s.entry → Exact s d n (some bytes, s')
  | short {s' : Source} : (s.rest d).length < n → s'.rest d = [] → s'.entry = s.entry →
      Exact s d n (none, s')

theorem exact_readExactly (s : Source) (d : Disk) (n : Nat) : s.Exact d n (s.readExactly d n) := by
  obtain ⟨taken, left⟩ := gather_eq s d n
  have entry := entry_gather s d n
  rcases gathered : s.gather d n with ⟨bytes, s'⟩
  rw [gathered] at taken left entry
  simp only [readExactly, gathered]
  split
  · rename_i length
    refine .whole length ?_ entry
    rw [left, show bytes = (s.rest d).take n from taken, List.take_append_drop]
  · rename_i length
    have few : (s.rest d).length < n := by
      simp only at taken
      rw [taken, List.length_take] at length
      omega
    refine .short few ?_ entry
    rw [left, List.drop_of_length_le (Nat.le_of_lt few)]

theorem readExactly_append {s : Source} {d : Disk} {bytes after : List UInt8}
    (found : s.rest d = bytes ++ after) :
    ∃ s', s.readExactly d bytes.length = (some bytes, s') ∧ s'.rest d = after ∧
      s'.entry = s.entry := by
  have reads := s.exact_readExactly d bytes.length
  rcases read : s.readExactly d bytes.length with ⟨_ | taken, s'⟩
  · rw [read] at reads
    cases reads with
    | short few =>
      rw [found, List.length_append] at few
      omega
  · rw [read] at reads
    cases reads with
    | whole length split entry =>
      obtain ⟨rfl, left⟩ := List.append_inj (split.symm.trans found) length
      exact ⟨s', rfl, left, entry⟩

end RollingCapture.Source
