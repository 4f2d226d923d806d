import RollingCapture.Output

/-! What an output has taken in. One that accepts bytes holds them all, in order, in its buffer or in
its file; one that refuses them never gets rid of what its buffer took in. -/
namespace RollingCapture.Output

/-- From `o` the output `o'` comes by taking in `bytes`. -/
structure Takes (o o' : Output) (bytes : List UInt8) : Prop where
  refuses : o'.refuses = o.refuses
  bytes_eq : o'.bytes = o.bytes ++ bytes
  accepted_eq : o'.accepted = o.accepted + bytes.length

theorem Takes.refl (o : Output) : o.Takes o [] := ⟨rfl, (List.append_nil _).symm, rfl⟩

theorem Takes.trans {o o' o'' : Output} {bytes more : List UInt8} (first : o.Takes o' bytes)
    (second : o'.Takes o'' more) : o.Takes o'' (bytes ++ more) := by
  constructor
  · rw [second.refuses, first.refuses]
  · rw [second.bytes_eq, first.bytes_eq, List.append_assoc]
  · rw [second.accepted_eq, first.accepted_eq, List.length_append, Nat.add_assoc]

/-- Emptying the buffer either succeeds or changes nothing. A file that refuses bytes changes in no
case. -/
theorem flush_cases (o : Output) :
    (∃ o', o.flush = (.ok (), o') ∧ o.Takes o' [] ∧ (o.refuses = true → o' = o) ∧ o'.pending = #[]) ∨
      o.flush = (.error noSpace, o) ∧ o.refuses = true := by
  unfold flush
  split
  · rename_i empty
    exact .inl ⟨o, rfl, .refl o, fun _ => rfl, by simpa using empty⟩
  · split
    · rename_i refuses
      exact .inr ⟨rfl, refuses⟩
    · rename_i accepts
      exact .inl ⟨_, rfl, ⟨rfl, by simp [bytes], rfl⟩, fun refuses => absurd refuses accepts, rfl⟩

theorem accept_cases (o : Output) (more : List UInt8) (room : more.length < capacity ∨ o.pending = #[]) :
    (∃ o', o.accept more = (.ok (), o') ∧ o.Takes o' more) ∨
      o.accept more = (.error noSpace, o) ∧ o.refuses = true := by
  simp only [accept]
  split
  · rename_i long
    have flushed := room.resolve_left (Nat.not_lt.2 long)
    split
    · rename_i refuses
      exact .inr ⟨rfl, refuses⟩
    · exact .inl ⟨_, rfl, rfl, by simp [bytes, flushed], rfl⟩
  · exact .inl ⟨_, rfl, rfl, by simp [bytes], rfl⟩

/-- A write takes in all of the bytes, or the file refuses bytes and nothing changes. -/
theorem write_cases (o : Output) (more : List UInt8) :
    (∃ o', o.write more = (.ok (), o') ∧ o.Takes o' more) ∨
      o.write more = (.error noSpace, o) ∧ o.refuses = true := by
  unfold write
  split
  · rename_i empty
    rw [List.isEmpty_iff.1 empty]
    exact .inl ⟨o, rfl, .refl o⟩
  · split
    · rcases o.flush_cases with ⟨o₁, done, took, output_eq, flushed⟩ | ⟨failed, refuses⟩
      · rw [done]
        rcases accept_cases o₁ more (.inr flushed) with ⟨o', done', took'⟩ | ⟨failed, refuses⟩
        · exact .inl ⟨o', done', took.trans took'⟩
        · rw [took.refuses] at refuses
          obtain rfl := output_eq refuses
          exact .inr ⟨failed, refuses⟩
      · rw [failed]
        exact .inr ⟨rfl, refuses⟩
    · rename_i given fits
      refine accept_cases o more ?_
      have nonempty : 0 < more.length := List.length_pos_iff.2 fun nothing => given (by simp [nothing])
      by_cases short : more.length < capacity
      · exact .inl short
      · have : o.pending.size = 0 := by omega
        exact .inr (Array.size_eq_zero_iff.1 this)

/-- The output accepts bytes and has taken in exactly `bytes`. -/
structure Holds (o : Output) (bytes : List UInt8) : Prop where
  accepts : o.refuses = false
  bytes_eq : o.bytes = bytes
  accepted_eq : o.accepted = bytes.length

theorem holds_empty : Holds { refuses := false } [] := ⟨rfl, rfl, rfl⟩

theorem Holds.written_eq {o : Output} {bytes : List UInt8} (held : o.Holds bytes)
    (flushed : o.pending = #[]) : o.written.toList = bytes := by
  rw [← held.bytes_eq, Output.bytes, flushed]
  simp

theorem Holds.accepted_eq_size {o : Output} {bytes : List UInt8} (held : o.Holds bytes)
    (flushed : o.pending = #[]) : o.accepted = o.written.size := by
  rw [held.accepted_eq, ← held.written_eq flushed, Array.length_toList]

theorem Takes.holds {o o' : Output} {bytes more : List UInt8} (took : o.Takes o' more)
    (held : o.Holds bytes) : o'.Holds (bytes ++ more) := by
  constructor
  · rw [took.refuses, held.accepts]
  · rw [took.bytes_eq, held.bytes_eq]
  · rw [took.accepted_eq, held.accepted_eq, List.length_append]

theorem flush_holds {o : Output} {bytes : List UInt8} (held : o.Holds bytes) :
    ∃ o', o.flush = (.ok (), o') ∧ o'.Holds bytes ∧ o'.pending = #[] := by
  rcases o.flush_cases with ⟨o', done, took, -, flushed⟩ | ⟨-, refuses⟩
  · exact ⟨o', done, List.append_nil bytes ▸ took.holds held, flushed⟩
  · simp [held.accepts] at refuses

theorem write_holds {o : Output} {bytes : List UInt8} (held : o.Holds bytes) (more : List UInt8) :
    ∃ o', o.write more = (.ok (), o') ∧ o'.Holds (bytes ++ more) := by
  rcases o.write_cases more with ⟨o', done, took⟩ | ⟨-, refuses⟩
  · exact ⟨o', done, took.holds held⟩
  · simp [held.accepts] at refuses

/-- The output refuses bytes, and some wait in its buffer. -/
structure Stuck (o : Output) : Prop where
  refuses : o.refuses = true
  waiting : o.pending ≠ #[]

/-- First bytes that fit into the buffer are accepted, and wait there for good. -/
theorem write_of_refuses {bytes : List UInt8} (ne_nil : bytes ≠ []) (small : bytes.length < capacity) :
    ∃ o', write { refuses := true } bytes = (.ok (), o') ∧ o'.Stuck := by
  have nonempty : bytes.isEmpty = false := by simpa using ne_nil
  refine ⟨{ refuses := true, pending := (#[] : Array UInt8) ++ bytes,
            accepted := 0 + bytes.length }, ?_, rfl, ?_⟩
  · simp [write, nonempty, accept, Nat.not_le.2 small, Nat.lt_asymm small]
  · simpa using ne_nil

theorem flush_stuck {o : Output} (stuck : o.Stuck) : o.flush = (.error noSpace, o) := by
  have waiting : o.pending.isEmpty = false := by simpa using stuck.waiting
  rw [flush, waiting, stuck.refuses]
  rfl

theorem accept_stuck {o : Output} (stuck : o.Stuck) (more : List UInt8) : (o.accept more).2.Stuck := by
  simp only [accept]
  split
  · rw [stuck.refuses]
    exact stuck
  · constructor
    · exact stuck.refuses
    · intro empty
      have bytes := congrArg Array.toList empty
      simp only [Array.toList_appendList, List.append_eq_nil_iff] at bytes
      exact stuck.waiting (Array.toList_eq_nil_iff.1 bytes.1)

theorem write_stuck {o : Output} (stuck : o.Stuck) (more : List UInt8) : (o.write more).2.Stuck := by
  unfold write
  split
  · exact stuck
  · split
    · rw [flush_stuck stuck]
      exact stuck
    · exact accept_stuck stuck more

/-- The output refuses bytes, and all that it accepted is in its buffer. -/
structure Bounded (o : Output) : Prop where
  refuses : o.refuses = true
  accepted_eq : o.accepted = o.pending.size
  fits : o.pending.size ≤ capacity

theorem write_bounded {o : Output} (bounded : o.Bounded) (more : List UInt8) :
    (o.write more).2.Bounded := by
  have grown : (o.pending ++ more).size = o.pending.size + more.length := by
    rw [← Array.length_toList, Array.toList_appendList, List.length_append, Array.length_toList]
  have accepts (fits : o.pending.size + more.length ≤ capacity) : (o.accept more).2.Bounded := by
    simp only [accept]
    split
    · rw [bounded.refuses]
      exact bounded
    · exact ⟨bounded.refuses, by rw [grown, bounded.accepted_eq], by rw [grown]; exact fits⟩
  have size := bounded.fits
  unfold write
  split
  · exact bounded
  · split
    · rcases o.flush_cases with ⟨o', done, -, output_eq, flushed⟩ | ⟨failed, -⟩
      · obtain rfl := output_eq bounded.refuses
        rw [done]
        by_cases small : more.length < capacity
        · exact accepts (by rw [flushed, Array.size_empty]; omega)
        · simp only [accept, Nat.not_lt.1 small, if_true, bounded.refuses]
          exact bounded
      · rw [failed]
        exact bounded
    · exact accepts (by omega)

end RollingCapture.Output
