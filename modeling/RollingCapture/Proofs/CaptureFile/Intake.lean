import RollingCapture.Proofs.CaptureFile.Writing
import RollingCapture.Proofs.Lz4.Intake

/-! What a capture file takes in of the records that are written to it, whatever comes of the calls. A
record that fails can leave a first part of it behind, if the device refuses bytes. -/
namespace RollingCapture.CaptureFile

namespace Sink

/-- The sink has taken in `content`: a plain one has it in its buffer or in its file, and counted it. -/
def Took : Sink → List UInt8 → Prop
  | plain out, content => out.bytes = content ∧ out.accepted = content.length
  | lz4 encoder, content => encoder.Took content

def taken : Sink → Nat
  | plain out => out.bytes.length
  | lz4 encoder => encoder.taken

/-- From one sink the other comes by taking in `bytes`. -/
inductive Takes : Sink → Sink → List UInt8 → Prop
  | plain {out out' : Output} {bytes : List UInt8} : out.Takes out' bytes →
      Takes (.plain out) (.plain out') bytes
  | lz4 {encoder encoder' : Lz4.Encoder} {bytes : List UInt8} : encoder.Takes encoder' bytes →
      Takes (.lz4 encoder) (.lz4 encoder') bytes

variable {s s' s'' : Sink} {bytes more content : List UInt8}

theorem Took.length_eq (took : s.Took content) : content.length = s.taken := by
  cases s with
  | plain out => exact congrArg List.length took.1.symm
  | lz4 encoder => exact Lz4.Encoder.Took.length_eq took

/-- Under compression a device that refuses bytes takes so many blocks at most as the buffer in front of it
has room for their marks. -/
theorem Took.length_le (took : s.Took content) (lz4 : s.kind = .lz4) (refuses : s.out.refuses = true) :
    content.length ≤ Lz4.Frame.blockSize * (Output.capacity / 4 + 1) := by
  cases s with
  | plain out => contradiction
  | lz4 encoder => exact Lz4.Encoder.Took.length_le took refuses

theorem Takes.refl (s : Sink) : s.Takes s [] := by
  cases s with
  | plain out => exact .plain (.refl out)
  | lz4 encoder => exact .lz4 (.refl encoder)

theorem Takes.trans (first : s.Takes s' bytes) (second : s'.Takes s'' more) :
    s.Takes s'' (bytes ++ more) := by
  cases first with
  | plain took =>
    cases second with
    | plain took' => exact .plain (took.trans took')
  | lz4 takes =>
    cases second with
    | lz4 takes' => exact .lz4 (takes.trans takes')

theorem Takes.kind_eq (takes : s.Takes s' bytes) : s'.kind = s.kind := by cases takes <;> rfl

theorem Takes.refuses (takes : s.Takes s' bytes) : s'.out.refuses = s.out.refuses := by
  cases takes with
  | plain took => exact took.refuses
  | lz4 takes => exact takes.refuses

theorem Takes.took (takes : s.Takes s' bytes) (took : s.Took content) : s'.Took (content ++ bytes) := by
  cases takes with
  | plain took' =>
    obtain ⟨held, count⟩ := took
    exact ⟨by rw [took'.bytes_eq, held], by rw [took'.accepted_eq, count, List.length_append]⟩
  | lz4 takes => exact takes.took content took

theorem Takes.taken_eq (takes : s.Takes s' bytes) (took : s.Took content) :
    s'.taken = s.taken + bytes.length := by
  rw [← (takes.took took).length_eq, List.length_append, took.length_eq]

theorem Takes.accepted_le (takes : s.Takes s' bytes) : s.out.accepted ≤ s'.out.accepted := by
  cases takes with
  | plain took => exact took.accepted_eq ▸ Nat.le_add_right _ _
  | lz4 takes => exact takes.accepted_le

theorem Takes.accepted_eq (takes : s.Takes s' bytes) (plain : s.kind = .plain) :
    s'.out.accepted = s.out.accepted + bytes.length := by
  cases takes with
  | plain took => exact took.accepted_eq
  | lz4 takes => contradiction

/-- A write takes in all of the bytes, or the device refuses bytes. Then a plain file takes in none of
them, and an encoder that has begun the first of them, until a block is full. -/
theorem write_cases (s : Sink) (bytes : List UInt8) :
    (∃ s', s.write bytes = (.ok (), s') ∧ s.Takes s' bytes) ∨
      ∃ s' part, s.write bytes = (.error Output.noSpace, s') ∧ s.Takes s' part ∧ part <+: bytes ∧
        part ≠ bytes ∧ (s.kind = .plain → part = []) ∧
        (s.kind = .lz4 → ∀ content ≠ [], s.Took content →
          Lz4.Frame.blockSize ∣ (content ++ part).length) ∧ s.out.refuses = true := by
  cases s with
  | plain out =>
    rw [write_plain]
    by_cases empty : bytes = []
    · subst empty
      exact .inl ⟨.plain out, rfl, .refl _⟩
    · rcases out.write_cases bytes with ⟨out', done, took⟩ | ⟨failed, refuses⟩
      · rw [done]
        exact .inl ⟨_, rfl, .plain took⟩
      · rw [failed]
        exact .inr ⟨_, [], rfl, .refl _, List.nil_prefix, Ne.symm empty, fun _ => rfl,
          fun _ => by contradiction, refuses⟩
  | lz4 encoder =>
    rw [write_lz4]
    rcases encoder.write_cases bytes with
      ⟨encoder', done, takes⟩ | ⟨encoder', part, failed, takes, front, rest, full, refuses⟩
    · rw [done]
      exact .inl ⟨_, rfl, .lz4 takes⟩
    · rw [failed]
      exact .inr ⟨_, part, rfl, .lz4 takes, front, rest, fun _ => by contradiction,
        fun _ content nonempty took => (takes.took content took).dvd_length (full (took.started nonempty)),
        refuses⟩

/-- How many bytes a file can accept on completion. A plain file accepts no more. Under compression the
end of the frame is four bytes at least. -/
def IsTail : Compression → Nat → Prop
  | .plain, n => n = 0
  | .lz4, n => 4 ≤ n

theorem finish_cases (s : Sink) (path : String) :
    (∃ out n, s.finish path = (.ok (), out) ∧ out.accepted = s.out.accepted + n ∧ IsTail s.kind n) ∨
      ∃ e out, s.finish path = (.error e, out) ∧ s.out.refuses = true := by
  cases s with
  | plain out =>
    rcases out.flush_cases with ⟨out', done, took, -⟩ | ⟨failed, refuses⟩
    · exact .inl ⟨out', 0, by simp only [finish, done, mapError_ok], took.accepted_eq, rfl⟩
    · exact .inr ⟨_, out, by simp only [finish, failed]; rfl, refuses⟩
  | lz4 encoder =>
    rcases encoder.finish_cases with ⟨out, ended, more, refuses_eq⟩ | ⟨out, failed, refuses⟩
    · rcases out.flush_cases with ⟨out', done, took, -⟩ | ⟨failed, refuses⟩
      · refine .inl ⟨out', out.accepted - encoder.out.accepted,
          by simp only [finish, ended, done, mapError_ok], ?_, Nat.le_sub_of_add_le' more⟩
        rw [took.accepted_eq, Sink.out, Nat.add_sub_of_le (Nat.le_of_add_right_le more)]
        rfl
      · exact .inr ⟨_, out, by simp only [finish, ended, failed]; rfl, refuses_eq ▸ refuses⟩
    · exact .inr ⟨_, out, by simp only [finish, failed]; rfl, refuses⟩

end Sink

namespace Writer

/-- The writer after records were written, each on whatever disk was there, and whatever came of it. -/
def tried (w : Writer) : List (Disk × Packet) → Writer
  | [] => w
  | (d, p) :: calls => (w.write d p).2.1.tried calls

variable {w w' : Writer} {d d' : Disk} {p : Packet} {size : Nat}

/-- A whole record is taken in, or the device refuses bytes. Then a plain file takes in nothing or just
the header of the record, and an encoder as much of it as fills a block. -/
theorem write_cases (w : Writer) (d : Disk) (whole : Record.IsWhole p) :
    (∃ sink, w.write d p = (.ok (sink.out.accepted - w.bytesWritten),
        { w with sink, packets := w.packets + 1 }, d.store w.entry sink.out.written) ∧
        w.sink.Takes sink (Record.bytes p)) ∨
      ∃ sink part, w.write d p = (.error (.write w.path Output.noSpace), { w with sink },
        d.store w.entry sink.out.written) ∧ w.sink.Takes sink part ∧ part <+: Record.bytes p ∧
        part ≠ Record.bytes p ∧ (w.sink.kind = .plain → part = [] ∨ part = Record.header p.header) ∧
        (w.sink.kind = .lz4 → ∀ content ≠ [], w.sink.Took content →
          Lz4.Frame.blockSize ∣ (content ++ part).length) ∧ w.sink.out.refuses = true := by
  have length : ¬ (p.data.take p.header.caplen.toNat).length < p.header.caplen.toNat := by
    rw [List.length_take, Nat.min_eq_left whole]
    exact Nat.lt_irrefl _
  rw [write, if_neg length]
  simp only [append_eq]
  rcases w.sink.write_cases (Record.header p.header) with
    ⟨s₁, done, takes⟩ | ⟨sink, part, failed, takes, front, rest, plain, full, refuses⟩
  · rw [done]
    simp only [mapError_ok, Disk.store_store]
    rcases s₁.write_cases (p.data.take p.header.caplen.toNat) with
      ⟨sink, done', takes'⟩ | ⟨sink, part, failed, takes', front, rest, plain, full, refuses⟩
    · rw [done']
      exact .inl ⟨sink, rfl, takes.trans takes'⟩
    · rw [failed]
      refine .inr ⟨sink, Record.header p.header ++ part, rfl, takes.trans takes', ?_, ?_,
        fun kind => ?_, fun kind content nonempty took => ?_, takes.refuses ▸ refuses⟩
      · exact (List.prefix_append_right_inj _).2 front
      · exact fun header_eq => rest (List.append_cancel_left header_eq)
      · rw [plain (takes.kind_eq.trans kind), List.append_nil]
        exact .inr rfl
      · rw [← List.append_assoc]
        exact full (takes.kind_eq.trans kind) _ (List.append_ne_nil_of_left_ne_nil nonempty _)
          (takes.took took)
  · rw [failed]
    refine .inr ⟨sink, part, rfl, takes, front.trans (List.prefix_append _ _), fun part_eq => rest ?_,
      fun kind => .inl (plain kind), full, refuses⟩
    have longer := front.length_le
    rw [part_eq, Record.bytes, List.length_append] at longer
    exact front.eq_of_length_le (by rw [part_eq, Record.bytes, List.length_append]; omega)

/-- A record that is acknowledged was taken in whole, and the answer is by how much the output grew. -/
theorem takes_of_write (wrote : w.write d p = (.ok size, w', d')) :
    Record.IsWhole p ∧ ∃ sink, w' = { w with sink, packets := w.packets + 1 } ∧
      w.sink.Takes sink (Record.bytes p) ∧ size = sink.out.accepted - w.bytesWritten := by
  have whole : Record.IsWhole p := by
    apply Decidable.of_not_not
    intro short
    simp [write_of_not_whole short] at wrote
  rcases w.write_cases d whole with ⟨sink, done, takes⟩ | ⟨sink, part, failed, -⟩
  · obtain ⟨answer, rest⟩ := Prod.mk.inj (wrote.symm.trans done)
    obtain ⟨rfl, -⟩ := Prod.mk.inj rest
    exact ⟨whole, sink, rfl, takes, Except.ok.inj answer⟩
  · simp [failed] at wrote

/-- The answer to a write is by how much the count of the file grew. -/
theorem bytesWritten_of_write (wrote : w.write d p = (.ok size, w', d')) :
    w'.bytesWritten = w.bytesWritten + size := by
  obtain ⟨-, sink, rfl, takes, rfl⟩ := takes_of_write wrote
  exact (Nat.add_sub_of_le takes.accepted_le).symm

theorem size_of_write (wrote : w.write d p = (.ok size, w', d')) (plain : w.sink.kind = .plain) :
    size = Record.headerSize + p.header.caplen.toNat := by
  obtain ⟨whole, sink, rfl, takes, rfl⟩ := takes_of_write wrote
  have grown := takes.accepted_eq plain
  rw [Record.length_bytes whole] at grown
  exact Nat.sub_eq_of_eq_add' grown

/-- The size of a completed file is what it accepted before and a tail. -/
theorem close_cases (w : Writer) (d : Disk) :
    (∃ n d', w.close d = (.ok (w.bytesWritten + n), d') ∧ Sink.IsTail w.sink.kind n) ∨
      ∃ e d', w.close d = (.error e, d') ∧ w.sink.out.refuses = true := by
  rcases w.sink.finish_cases w.path with ⟨out, n, done, accepted, isTail⟩ | ⟨e, out, failed, refuses⟩
  · refine .inl ⟨n, d.store w.entry out.written, ?_, isTail⟩
    simp [close, done, Except.map, accepted, bytesWritten]
  · refine .inr ⟨e, d.store w.entry out.written, ?_, refuses⟩
    simp [close, failed, Except.map]

end Writer

end RollingCapture.CaptureFile
