import RollingCapture.Lz4.Encoder
import RollingCapture.Proofs.Lz4.Frame
import RollingCapture.Proofs.Output

/-! An encoder whose output accepts bytes writes one frame that stands for all that it took in,
however the content arrived. One whose output refuses them never completes a frame. -/
namespace RollingCapture.Lz4.Encoder

/-- The frame was begun, and its blocks, all full, and the waiting bytes stand for `content`. -/
structure Begun (e : Encoder) (content : List UInt8) : Prop where
  started : e.started = true
  intact : e.intact = true
  fits : e.block.size ≤ Frame.blockSize
  blocks : ∃ done body, Frame.Blocks done body ∧ Frame.blockSize ∣ done.length ∧
    content = done ++ e.block.toList ∧ e.out.Holds (Frame.start ++ body)

/-- The encoder has taken in exactly `content`. -/
inductive Holds (e : Encoder) : (content : List UInt8) → Prop where
  | nothing : e.out.Holds [] → e = { out := e.out } → Holds e []
  | begun {content : List UInt8} : e.Begun content → Holds e content

theorem holds_empty : Holds { out := { refuses := false } } [] :=
  .nothing Output.holds_empty rfl

theorem begin_holds {e : Encoder} {content : List UInt8} (held : e.Holds content) :
    ∃ e', e.begin = (.ok (), e') ∧ e'.Begun content ∧ e'.block = e.block := by
  cases held with
  | nothing out fresh =>
    obtain ⟨out', done, held'⟩ := Output.write_holds out Frame.start
    have unstarted : e.started = false := by rw [fresh]
    have intact : e.intact = true := by rw [fresh]
    have empty : e.block = #[] := by rw [fresh]
    refine ⟨{ e with out := out', started := true }, by simp [begin, unstarted, done],
      ⟨rfl, intact, by simp [empty], [], [], .nil, by simp, by simp [empty], ?_⟩, rfl⟩
    simpa using held'
  | begun held =>
    exact ⟨e, by simp [begin, held.started], held, rfl⟩

theorem emit_holds {e : Encoder} {content : List UInt8} (held : e.Begun content)
    (nonempty : e.block ≠ #[]) :
    ∃ e' body, e.emit = (.ok (), e') ∧ e'.started = true ∧ e'.intact = true ∧ e'.block = #[] ∧
      Frame.Blocks content body ∧ e'.out.Holds (Frame.start ++ body) := by
  obtain ⟨done, body, blocks, full, rfl, out⟩ := held.blocks
  rcases packed : Frame.pack e.compressor e.intact e.block with ⟨⟨mark, bytes⟩, compressor⟩
  have checked := packed
  rw [held.intact] at checked
  have packs := Frame.packs_of_pack held.fits checked
  obtain ⟨marked, markDone, markHeld⟩ := Output.write_holds out mark.bytes
  obtain ⟨out', bytesDone, bytesHeld⟩ := Output.write_holds markHeld bytes
  refine ⟨{ e with out := out', block := #[], compressor := compressor.advance e.block.size },
    body ++ (mark.bytes ++ bytes), by simp [emit, packed, markDone, bytesDone], held.started,
    held.intact, rfl, blocks.snoc full ?_ ?_ packs, ?_⟩
  · simpa using nonempty
  · simpa using held.fits
  · simpa only [List.append_assoc] using bytesHeld

theorem makeRoom_holds {e : Encoder} {content : List UInt8} (held : e.Begun content) :
    ∃ e', e.makeRoom = (.ok (), e') ∧ e'.Begun content ∧ e'.block.size < Frame.blockSize := by
  unfold makeRoom
  split
  · rename_i room
    exact ⟨e, rfl, held, room⟩
  · rename_i notLess
    have full : e.block.size = Frame.blockSize := Nat.le_antisymm held.fits (Nat.not_lt.1 notLess)
    have nonempty : e.block ≠ #[] := by
      rintro vacant
      rw [vacant] at full
      contradiction
    have divides : Frame.blockSize ∣ content.length := by
      obtain ⟨done, _, _, before, rfl, _⟩ := held.blocks
      have length : e.block.toList.length = Frame.blockSize := by rw [Array.length_toList, full]
      rw [List.length_append, length]
      exact Nat.dvd_add before (Nat.dvd_refl _)
    obtain ⟨e', body, done, started, intact, empty, blocks, out⟩ := emit_holds held nonempty
    refine ⟨e', done, ⟨started, intact, by simp [empty], content, body, blocks, divides, ?_, out⟩, ?_⟩
    · simp [empty]
    · rw [empty]
      decide

theorem absorb_holds {e : Encoder} {content : List UInt8} (held : e.Begun content)
    (bytes : List UInt8) :
    ∃ e', e.absorb bytes = (.ok (), e') ∧ e'.Begun (content ++ bytes) := by
  induction bytes generalizing e content with
  | nil => exact ⟨e, rfl, by simpa using held⟩
  | cons b rest ih =>
    obtain ⟨e', room, held', space⟩ := makeRoom_holds held
    obtain ⟨done, body, blocks, full, split, out⟩ := held'.blocks
    have fits : (e'.block.push b).size ≤ Frame.blockSize := by
      rw [Array.size_push]
      exact Nat.succ_le_of_lt space
    have taken : Begun { e' with block := e'.block.push b } (content ++ [b]) :=
      ⟨held'.started, held'.intact, fits, done, body, blocks, full, by simp [split], out⟩
    obtain ⟨e'', finished, held''⟩ := ih taken
    refine ⟨e'', by simp [absorb, room, finished], ?_⟩
    simpa using held''

theorem write_holds {e : Encoder} {content : List UInt8} (held : e.Holds content)
    (bytes : List UInt8) :
    ∃ e', e.write bytes = (.ok (), e') ∧ e'.Holds (content ++ bytes) := by
  unfold write
  split
  · rename_i empty
    rw [List.isEmpty_iff.1 empty, List.append_nil]
    exact ⟨e, rfl, held⟩
  · obtain ⟨e', begun, held', -⟩ := begin_holds held
    obtain ⟨e'', done, held''⟩ := absorb_holds held' bytes
    exact ⟨e'', by simp [begun, done], .begun held''⟩

theorem finish_holds {e : Encoder} {content : List UInt8} (held : e.Holds content) :
    ∃ out bytes, e.finish = (.ok (), out) ∧ out.Holds bytes ∧ Frame.Encodes bytes content := by
  have ended : ∃ e' e'' body, (if e.block.isEmpty then (.ok (), e) else e.emit) = (.ok (), e') ∧
      e'.begin = (.ok (), e'') ∧ Frame.Blocks content body ∧
      e''.out.Holds (Frame.start ++ body) := by
    by_cases empty : e.block = #[]
    · obtain ⟨e'', begun, held', block_eq⟩ := begin_holds held
      obtain ⟨done, body, blocks, -, split, out⟩ := held'.blocks
      have content_eq : content = done := by simpa [block_eq, empty] using split
      exact ⟨e, e'', body, by simp [empty], begun, content_eq ▸ blocks, out⟩
    · cases held with
      | nothing _ fresh => exact absurd (by rw [fresh]) empty
      | begun held =>
        obtain ⟨e', body, done, started, -, -, blocks, out⟩ := emit_holds held empty
        exact ⟨e', e', body, by simp [empty, done], by simp [begin, started], blocks, out⟩
  obtain ⟨e', e'', body, sent, begun, blocks, out⟩ := ended
  obtain ⟨out', stopped, whole⟩ := Output.write_holds out Frame.Mark.stop.bytes
  refine ⟨out', _, by simp only [finish, sent, begun, stopped], whole, body, blocks, ?_⟩
  rw [List.append_assoc]

/-! An output that is stuck stays so, whatever the encoder does. -/

variable {e : Encoder}

theorem begin_stuck (stuck : e.out.Stuck) : e.begin.2.out.Stuck := by
  unfold begin
  split
  · exact stuck
  · have := Output.write_stuck stuck Frame.start
    split <;> simp_all

theorem emit_stuck (stuck : e.out.Stuck) : e.emit.2.out.Stuck := by
  rcases packed : Frame.pack e.compressor e.intact e.block with ⟨⟨mark, bytes⟩, compressor⟩
  have marked := Output.write_stuck stuck mark.bytes
  simp only [emit, packed]
  split
  · simp_all
  · rename_i out first
    rw [first] at marked
    have := Output.write_stuck marked bytes
    split <;> simp_all

theorem makeRoom_stuck (stuck : e.out.Stuck) : e.makeRoom.2.out.Stuck := by
  unfold makeRoom
  split
  · exact stuck
  · exact emit_stuck stuck

theorem absorb_stuck (stuck : e.out.Stuck) (bytes : List UInt8) : (e.absorb bytes).2.out.Stuck := by
  induction bytes generalizing e with
  | nil => exact stuck
  | cons b rest ih =>
    have room := makeRoom_stuck stuck
    unfold absorb
    split
    · simp_all
    · rename_i e' made
      rw [made] at room
      exact ih (e := { e' with block := e'.block.push b }) room

theorem write_stuck (stuck : e.out.Stuck) (bytes : List UInt8) : (e.write bytes).2.out.Stuck := by
  unfold write
  split
  · exact stuck
  · have begun := begin_stuck stuck
    split
    · simp_all
    · rename_i e' begin_eq
      rw [begin_eq] at begun
      exact absorb_stuck begun bytes

theorem finish_stuck (stuck : e.out.Stuck) : e.finish.2.Stuck := by
  have sent : (if e.block.isEmpty then (.ok (), e) else e.emit).2.out.Stuck := by
    split
    · exact stuck
    · exact emit_stuck stuck
  unfold finish
  split
  · simp_all
  · rename_i e' result_eq
    rw [result_eq] at sent
    have begun := begin_stuck sent
    split
    · simp_all
    · rename_i e'' begin_eq
      rw [begin_eq] at begun
      exact Output.write_stuck begun _

theorem absorb_of_room (bytes : List UInt8) (room : e.block.size + bytes.length ≤ Frame.blockSize) :
    e.absorb bytes = (.ok (), { e with block := e.block ++ bytes }) := by
  induction bytes generalizing e with
  | nil => simp [absorb]
  | cons b rest ih =>
    rw [List.length_cons] at room
    have space : e.makeRoom = (.ok (), e) := if_pos (by omega)
    rw [absorb, space]
    have later : (e.block.push b).size + rest.length ≤ Frame.blockSize := by
      rw [Array.size_push]
      omega
    simp only [ih (e := { e with block := e.block.push b }) later]
    simp

/-- First bytes that fit into a block wait there, behind an output that is stuck. -/
theorem write_of_refuses {bytes : List UInt8} (ne_nil : bytes ≠ [])
    (small : bytes.length < Frame.blockSize) :
    ∃ e', write { out := { refuses := true } } bytes = (.ok (), e') ∧ e'.out.Stuck := by
  have nonempty : bytes.isEmpty = false := by simpa using ne_nil
  have start : Frame.start ≠ [] := by decide
  obtain ⟨out, done, stuck⟩ := Output.write_of_refuses start (by decide)
  have room : (#[] : Array UInt8).size + bytes.length ≤ Frame.blockSize := by
    rw [Array.size_empty, Nat.zero_add]
    exact Nat.le_of_lt small
  have absorbed := absorb_of_room (e := { out, started := true }) bytes room
  refine ⟨{ out, block := (#[] : Array UInt8) ++ bytes, started := true }, ?_, stuck⟩
  simp only [write, nonempty, begin, done, absorbed, Bool.false_eq_true, if_false]

end RollingCapture.Lz4.Encoder
