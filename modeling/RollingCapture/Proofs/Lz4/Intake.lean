import RollingCapture.Proofs.Lz4.Encoder

/-! What an encoder takes in and what its output accepts meanwhile, whatever comes of it. Of bytes that
find no room the first are taken in all the same, and a block that the output refused keeps waiting. -/
namespace RollingCapture.Lz4

theorem Compressor.base_compress (c : Compressor) (input : Array UInt8) :
    (c.compress input).2.base = c.base := by
  unfold compress
  split <;> rfl

theorem Frame.base_pack (c : Compressor) (checked : Bool) (block : Array UInt8) :
    (pack c checked block).2.base = c.base := by
  have base_eq := c.base_compress block
  simp only [pack]
  split <;> exact base_eq

namespace Encoder

/-- The encoder has taken in `content`. The last of it waits, and the rest went out in full blocks, each of
four bytes at least, those of its mark. -/
structure Took (e : Encoder) (content : List UInt8) : Prop where
  started : content ≠ [] → e.started = true
  fits : e.block.size ≤ Frame.blockSize
  sent : 4 * e.compressor.base ≤ Frame.blockSize * e.out.accepted
  bounded : e.out.refuses = true → e.out.Bounded
  split : ∃ done, content = done ++ e.block.toList ∧ e.compressor.base = done.length ∧
    Frame.blockSize ∣ done.length

def taken (e : Encoder) : Nat := e.compressor.base + e.block.size

/-- What can happen to the output on the way from `e` to `e'`. -/
structure Sends (e e' : Encoder) : Prop where
  started : e.started = true → e'.started = true
  refuses : e'.out.refuses = e.out.refuses
  accepted_le : e.out.accepted ≤ e'.out.accepted
  bounded : e.out.Bounded → e'.out.Bounded

/-- From `e` the encoder `e'` comes by taking in `bytes`. -/
structure Takes (e e' : Encoder) (bytes : List UInt8) : Prop extends Sends e e' where
  took : ∀ content, e.Took content → e'.Took (content ++ bytes)

variable {e e' e'' : Encoder} {bytes more content : List UInt8} {out : Output}

theorem Took.length_eq (took : e.Took content) : content.length = e.taken := by
  obtain ⟨done, rfl, base, -⟩ := took.split
  simp [taken, base]

/-- What was taken in up to a full block is a number of full blocks. -/
theorem Took.dvd_length (took : e.Took content) (full : Frame.blockSize ≤ e.block.size) :
    Frame.blockSize ∣ content.length := by
  obtain ⟨done, rfl, -, blocks⟩ := took.split
  have size : e.block.toList.length = Frame.blockSize := by
    rw [Array.length_toList]
    exact Nat.le_antisymm took.fits full
  rw [List.length_append, size]
  exact Nat.dvd_add blocks (Nat.dvd_refl _)

/-- An output that refuses bytes takes the marks of so many blocks at most as its buffer holds. -/
theorem Took.length_le (took : e.Took content) (refuses : e.out.refuses = true) :
    content.length ≤ Frame.blockSize * (Output.capacity / 4 + 1) := by
  have fits := took.fits
  have sent := took.sent
  have bounded := took.bounded refuses
  have few : Frame.blockSize * e.out.accepted ≤ Frame.blockSize * Output.capacity :=
    Nat.mul_le_mul_left _ (bounded.accepted_eq ▸ bounded.fits)
  rw [took.length_eq, taken]
  simp only [Frame.blockSize, Output.capacity] at *
  omega

theorem Sends.refl (e : Encoder) : e.Sends e := ⟨id, rfl, Nat.le_refl _, id⟩

theorem Sends.trans (first : e.Sends e') (second : e'.Sends e'') : e.Sends e'' :=
  ⟨second.started ∘ first.started, second.refuses.trans first.refuses,
    Nat.le_trans first.accepted_le second.accepted_le, second.bounded ∘ first.bounded⟩

theorem Takes.refl (e : Encoder) : e.Takes e [] :=
  ⟨.refl e, fun content took => by rwa [List.append_nil]⟩

theorem Takes.trans (first : e.Takes e' bytes) (second : e'.Takes e'' more) :
    e.Takes e'' (bytes ++ more) := by
  refine ⟨first.toSends.trans second.toSends, fun content took => ?_⟩
  rw [← List.append_assoc]
  exact second.took _ (first.took _ took)

/-- Nothing that was taken in is touched as long as the waiting block stays. -/
theorem Sends.takes (sends : e.Sends e') (base : e'.compressor.base = e.compressor.base)
    (block : e'.block = e.block) : e.Takes e' [] := by
  refine ⟨sends, fun content took => ?_⟩
  rw [List.append_nil]
  obtain ⟨done, split, length, blocks⟩ := took.split
  constructor
  · exact sends.started ∘ took.started
  · exact block ▸ took.fits
  · rw [base]
    exact Nat.le_trans took.sent (Nat.mul_le_mul_left _ sends.accepted_le)
  · exact fun refuses => sends.bounded (took.bounded (sends.refuses ▸ refuses))
  · exact ⟨done, block ▸ split, base.trans length, blocks⟩

theorem begin_cases (e : Encoder) :
    (∃ e', e.begin = (.ok (), e') ∧ e.Takes e' [] ∧ e'.started = true) ∨
      e.begin = (.error Output.noSpace, e) ∧ e.started = false ∧ e.out.refuses = true := by
  unfold begin
  split
  · rename_i started
    exact .inl ⟨e, rfl, .refl e, started⟩
  · rename_i started
    have bounded (before : e.out.Bounded) := Output.write_bounded before Frame.start
    rcases e.out.write_cases Frame.start with ⟨out, done, took⟩ | ⟨failed, refuses⟩
    · rw [done] at bounded ⊢
      have sends : e.Sends { e with out, started := true } :=
        ⟨fun _ => rfl, took.refuses, took.accepted_eq ▸ Nat.le_add_right _ _, bounded⟩
      exact .inl ⟨_, rfl, sends.takes rfl rfl, rfl⟩
    · rw [failed]
      exact .inr ⟨rfl, by simpa using started, refuses⟩

/-- A block goes out, with its mark in front, or keeps waiting. -/
theorem emit_cases (e : Encoder) :
    (∃ e', e.emit = (.ok (), e') ∧ e.Sends e' ∧ e.out.accepted + 4 ≤ e'.out.accepted ∧
      e'.compressor.base = e.compressor.base + e.block.size ∧ e'.block = #[]) ∨
      ∃ e', e.emit = (.error Output.noSpace, e') ∧ e.Takes e' [] ∧ e'.block = e.block ∧
        e.out.refuses = true := by
  rcases packed : Frame.pack e.compressor e.intact e.block with ⟨⟨mark, bytes⟩, compressor⟩
  have base : compressor.base = e.compressor.base := by
    rw [← Frame.base_pack e.compressor e.intact e.block, packed]
  have bounded (before : e.out.Bounded) := Output.write_bounded before mark.bytes
  simp only [emit, packed]
  rcases e.out.write_cases mark.bytes with ⟨marked, done, took⟩ | ⟨failed, refuses⟩
  · rw [done] at bounded ⊢
    have bounded' (before : e.out.Bounded) := Output.write_bounded (bounded before) bytes
    have accepted := took.accepted_eq
    rw [Frame.Mark.length_bytes] at accepted
    dsimp only
    rcases marked.write_cases bytes with ⟨out, done', took'⟩ | ⟨failed, refuses⟩
    · rw [done'] at bounded' ⊢
      have accepted' := took'.accepted_eq
      refine .inl ⟨_, rfl, ⟨id, took'.refuses.trans took.refuses, ?_, bounded'⟩, ?_, ?_, rfl⟩
      · dsimp only
        omega
      · dsimp only
        omega
      · rw [Compressor.advance, base]
    · rw [failed]
      have sends : e.Sends { e with out := marked, compressor, intact := false } :=
        ⟨id, took.refuses, by dsimp only; omega, bounded⟩
      exact .inr ⟨_, rfl, sends.takes base rfl, rfl, took.refuses ▸ refuses⟩
  · rw [failed]
    have sends : e.Sends { e with compressor, intact := false } := ⟨id, rfl, Nat.le_refl _, id⟩
    exact .inr ⟨_, rfl, sends.takes base rfl, rfl, refuses⟩

theorem makeRoom_cases (e : Encoder) :
    (∃ e', e.makeRoom = (.ok (), e') ∧ e.Takes e' [] ∧ e'.block.size < Frame.blockSize) ∨
      ∃ e', e.makeRoom = (.error Output.noSpace, e') ∧ e.Takes e' [] ∧
        Frame.blockSize ≤ e'.block.size ∧ e.out.refuses = true := by
  unfold makeRoom
  split
  · rename_i room
    exact .inl ⟨e, rfl, .refl e, room⟩
  · rename_i full
    have full := Nat.not_lt.1 full
    rcases e.emit_cases with ⟨e', done, sends, mark, base, empty⟩ | ⟨e', failed, takes, block_eq, refuses⟩
    · refine .inl ⟨e', done, ⟨sends, fun content took => ?_⟩, by rw [empty]; decide⟩
      rw [List.append_nil]
      constructor
      · exact sends.started ∘ took.started
      · rw [empty]
        decide
      · have four : Frame.blockSize * (e.out.accepted + 4) ≤ Frame.blockSize * e'.out.accepted :=
          Nat.mul_le_mul_left _ mark
        have fits := took.fits
        have sent := took.sent
        rw [Nat.mul_add] at four
        omega
      · exact fun refuses => sends.bounded (took.bounded (sends.refuses ▸ refuses))
      · refine ⟨content, by simp [empty], ?_, took.dvd_length full⟩
        rw [base, took.length_eq, taken]
    · exact .inr ⟨e', failed, takes, by rw [block_eq]; exact full, refuses⟩

theorem takes_push (started : e.started = true) (room : e.block.size < Frame.blockSize) (b : UInt8) :
    e.Takes { e with block := e.block.push b } [b] := by
  refine ⟨⟨id, rfl, Nat.le_refl _, id⟩, fun content took =>
    ⟨fun _ => started, ?_, took.sent, took.bounded, ?_⟩⟩
  · rw [Array.size_push]
    exact room
  · obtain ⟨done, rfl, rest⟩ := took.split
    exact ⟨done, by simp, rest⟩

/-- Bytes are taken in up to the first that finds the block full. -/
theorem absorb_cases (started : e.started = true) (bytes : List UInt8) :
    (∃ e', e.absorb bytes = (.ok (), e') ∧ e.Takes e' bytes) ∨
      ∃ e' part, e.absorb bytes = (.error Output.noSpace, e') ∧ e.Takes e' part ∧ part <+: bytes ∧
        part ≠ bytes ∧ Frame.blockSize ≤ e'.block.size ∧ e.out.refuses = true := by
  induction bytes generalizing e with
  | nil => exact .inl ⟨e, rfl, .refl e⟩
  | cons b rest ih =>
    rcases e.makeRoom_cases with ⟨e₁, made, takes, room⟩ | ⟨e', failed, takes, full, refuses⟩
    · have started₁ := takes.started started
      have pushed := takes.trans (takes_push started₁ room b)
      rw [absorb, made]
      rcases ih (e := { e₁ with block := e₁.block.push b }) started₁ with
        ⟨e', done, takes'⟩ | ⟨e', part, failed, takes', front, rest', full, refuses⟩
      · exact .inl ⟨e', done, pushed.trans takes'⟩
      · refine .inr ⟨e', b :: part, failed, pushed.trans takes', ?_, ?_, full, ?_⟩
        · exact List.cons_prefix_cons.2 ⟨rfl, front⟩
        · exact fun cons_eq => rest' (List.cons.inj cons_eq).2
        · exact takes.refuses ▸ refuses
    · rw [absorb, failed]
      exact .inr ⟨e', [], rfl, takes, List.nil_prefix, (List.cons_ne_nil _ _).symm, full, refuses⟩

/-- A write takes in all of the bytes, or the output refuses bytes, and of those written the first are
taken in until a block is full. -/
theorem write_cases (e : Encoder) (bytes : List UInt8) :
    (∃ e', e.write bytes = (.ok (), e') ∧ e.Takes e' bytes) ∨
      ∃ e' part, e.write bytes = (.error Output.noSpace, e') ∧ e.Takes e' part ∧ part <+: bytes ∧
        part ≠ bytes ∧ (e.started = true → Frame.blockSize ≤ e'.block.size) ∧ e.out.refuses = true := by
  unfold write
  split
  · rename_i empty
    rw [List.isEmpty_iff.1 empty]
    exact .inl ⟨e, rfl, .refl e⟩
  · rename_i nonempty
    rcases e.begin_cases with ⟨e₁, begun, takes, started⟩ | ⟨failed, unstarted, refuses⟩
    · rw [begun]
      rcases absorb_cases started bytes with
        ⟨e', done, takes'⟩ | ⟨e', part, failed, takes', front, rest, full, refuses⟩
      · exact .inl ⟨e', done, takes.trans takes'⟩
      · exact .inr ⟨e', part, failed, takes.trans takes', front, rest, fun _ => full,
          takes.refuses ▸ refuses⟩
    · rw [failed]
      refine .inr ⟨e, [], rfl, .refl e, List.nil_prefix, ?_, fun started => ?_, refuses⟩
      · rintro rfl
        exact nonempty rfl
      · rw [unstarted] at started
        contradiction

/-- A frame is ended with four bytes at least, or the output refuses bytes. -/
theorem finish_cases (e : Encoder) :
    (∃ out, e.finish = (.ok (), out) ∧ e.out.accepted + 4 ≤ out.accepted ∧
      out.refuses = e.out.refuses) ∨
      ∃ out, e.finish = (.error Output.noSpace, out) ∧ e.out.refuses = true := by
  have sent : (∃ e', (if e.block.isEmpty then (.ok (), e) else e.emit) = (.ok (), e') ∧ e.Sends e') ∨
      ∃ e', (if e.block.isEmpty then (.ok (), e) else e.emit) = (.error Output.noSpace, e') ∧
        e.out.refuses = true := by
    split
    · exact .inl ⟨e, rfl, .refl e⟩
    · rcases e.emit_cases with ⟨e', done, sends, -⟩ | ⟨e', failed, -, -, refuses⟩
      · exact .inl ⟨e', done, sends⟩
      · exact .inr ⟨e', failed, refuses⟩
  rcases sent with ⟨e₁, sent, sends⟩ | ⟨e₁, failed, refuses⟩
  · rcases e₁.begin_cases with ⟨e₂, begun, takes, -⟩ | ⟨failed, -, refuses⟩
    · have both := sends.trans takes.toSends
      rcases e₂.out.write_cases Frame.Mark.stop.bytes with ⟨out, done, took⟩ | ⟨failed, refuses⟩
      · refine .inl ⟨out, by simp only [finish, sent, begun, done], ?_, took.refuses.trans both.refuses⟩
        rw [took.accepted_eq, Frame.Mark.length_bytes]
        exact Nat.add_le_add_right both.accepted_le 4
      · exact .inr ⟨e₂.out, by simp only [finish, sent, begun, failed], both.refuses ▸ refuses⟩
    · exact .inr ⟨e₁.out, by simp only [finish, sent, failed], sends.refuses ▸ refuses⟩
  · exact .inr ⟨e₁.out, by simp only [finish, failed], refuses⟩

end Encoder

end RollingCapture.Lz4
