import RollingCapture.Proofs.Lz4.Decoder

/-! Decoding a written frame of which some bytes at the end may be missing. A decoder gives the start
of the content, block by block. Where a block is cut off it fails, and has used up the source. -/
namespace RollingCapture.Lz4.Decoder

variable {r r' : Decoder} {d : Disk} {e : Entry} {missing content later body : List UInt8}

/-- The source of the decoder gives blocks that stand for `later` and the end of the frame, which may
have been read already, but for the bytes `missing` at the end. -/
structure Behind (d : Disk) (e : Entry) (missing : List UInt8) (r : Decoder) (later : List UInt8) :
    Prop where
  entry : r.source.entry = e
  frame : r.frame = .written
  blocks : ∃ body stop, Frame.Blocks later body ∧ (stop = Frame.Mark.stop.bytes ∨ stop = []) ∧
    r.source.rest d ++ missing = body ++ stop

theorem Behind.setUnread (behind : Behind d e missing r later) (unread : List UInt8) :
    Behind d e missing { r with unread } later :=
  ⟨behind.entry, behind.frame, behind.blocks⟩

theorem Behind.congr {d' : Disk} (behind : Behind d e missing r later)
    (content_eq : d'.content e = d.content e) : Behind d' e missing r later := by
  obtain ⟨rfl, frame, blocks⟩ := behind
  refine ⟨rfl, frame, ?_⟩
  rwa [Source.rest_congr content_eq]

/-- What the next block comes to, if the source is that of a written frame. -/
inductive Next (d : Disk) (e : Entry) (missing later : List UInt8) :
    Except StreamProblem (List UInt8) × Decoder → Prop
  | block {block later' missing' : List UInt8} {r' : Decoder} : later = block ++ later' →
      Behind d e missing' r' later' → (missing = [] → missing' = []) →
      (block = [] → missing' = [] → later' = []) → Next d e missing later (.ok block, r')
  | failed {p : StreamProblem} {missing' : List UInt8} {r' : Decoder} :
      Behind d e missing' r' later → missing ≠ [] → Next d e missing later (.error p, r')

theorem behind_of_rest_eq_nil {source : Source} {stop : List UInt8} (entry : source.entry = e)
    (frame : r.frame = .written) (blocks : Frame.Blocks later body)
    (end' : stop = Frame.Mark.stop.bytes ∨ stop = []) (ended : source.rest d = []) :
    Behind d e (body ++ stop) { r with source } later :=
  ⟨entry, frame, body, stop, blocks, end', by rw [ended, List.nil_append]⟩

/-- No block is left: the end mark is read, or what there is of it. -/
theorem next_of_blocks_nil {stop : List UInt8} (entry : r.source.entry = e)
    (frame : r.frame = .written) (end' : stop = Frame.Mark.stop.bytes ∨ stop = [])
    (found : r.source.rest d ++ missing = stop) : Next d e missing [] (r.nextBlock d) := by
  have reads := r.source.exact_readExactly d 4
  rcases read : r.source.readExactly d 4 with ⟨_ | word, source⟩
  · rw [read] at reads
    cases reads with
    | short few left entry' =>
      simp only [nextBlock, read]
      exact .block rfl (behind_of_rest_eq_nil (entry'.trans entry) frame .nil (.inr rfl) left)
        (fun _ => rfl) fun _ _ => rfl
  · rw [read] at reads
    cases reads with
    | whole length split entry' =>
      -- Four bytes are the whole end mark.
      have mark : word = Frame.Mark.stop.bytes ∧ source.rest d = [] ∧ missing = [] := by
        have stop_eq : word ++ (source.rest d ++ missing) = stop := by
          rw [← List.append_assoc, ← split, found]
        rcases end' with rfl | rfl
        · obtain ⟨word_eq, rest⟩ := List.append_inj (stop_eq.trans (List.append_nil _).symm)
            (by rw [length, Frame.Mark.length_bytes])
          exact ⟨word_eq, List.append_eq_nil_iff.1 rest⟩
        · rw [(List.append_eq_nil_iff.1 stop_eq).1] at length
          contradiction
      obtain ⟨rfl, left, -⟩ := mark
      have finished : finish { r with source } d = (.ok [], { r with source }) := by
        simp [finish, verify, frame, Frame.Descriptor.written]
      simp only [nextBlock, read, Frame.Mark.ofWord_stop, finished]
      exact .block rfl (behind_of_rest_eq_nil (entry'.trans entry) frame .nil (.inr rfl) left)
        (fun _ => rfl) fun _ _ => rfl

/-- The size in front of a block that is cut off is read, but not the block. -/
theorem nextBlock_of_short {f : Frame.Descriptor} {history block packed : List UInt8}
    {mark : Frame.Mark} {source source' : Source} (frame : r.frame = f)
    (size : f.maxBlock < Frame.Mark.topBit) (fits : block.length ≤ f.maxBlock)
    (packs : f.Packs history block mark packed)
    (word : r.source.readExactly d 4 = (some mark.bytes, source))
    (cut : source.readExactly d packed.length = (none, source')) :
    r.nextBlock d = (.error .unreadable, { r with source := source' }) := by
  subst frame
  have marked := Frame.Descriptor.ofWord_of_packs size fits packs
  have taken :
      blockBytes { r with source } d packed.length = (none, { r with source := source' }) := by
    simp only [blockBytes, if_neg (Nat.not_lt.2 (packs.length_le fits)), cut]
  cases packs with
  | stored | compressed => simp only [nextBlock, word, marked, taken]

/-- A decoder behind which there are blocks and an end, but for what is missing, gives the next block
or fails, and can go on. -/
theorem next_of_behind (behind : Behind d e missing r later) :
    Next d e missing later (r.nextBlock d) := by
  obtain ⟨entry, frame, body, stop, blocks, end', found⟩ := behind
  cases blocks with
  | nil => exact next_of_blocks_nil entry frame end' found
  | @cons block packed later bytes mark filled fits full packs more =>
    have stands : Frame.Blocks (block ++ later) (mark.bytes ++ (packed ++ bytes)) :=
      .cons filled fits full packs more
    have nonempty : block ++ later ≠ [] := List.append_ne_nil_of_left_ne_nil filled later
    have reads := r.source.exact_readExactly d 4
    rcases word : r.source.readExactly d 4 with ⟨_ | head, source⟩
    · rw [word] at reads
      cases reads with
      | short few left entry' =>
        have lost : missing ≠ [] := by
          rintro rfl
          have length := congrArg List.length found
          simp only [List.append_nil, List.length_append, Frame.Mark.length_bytes] at length
          omega
        simp only [nextBlock, word]
        refine .block (List.nil_append _).symm
          (behind_of_rest_eq_nil (entry'.trans entry) frame stands end' left)
          (fun complete => absurd complete lost) ?_
        intro _ nothing
        have length := congrArg List.length nothing
        simp only [List.length_append, Frame.Mark.length_bytes, List.length_nil] at length
        omega
    · rw [word] at reads
      cases reads with
      | whole length split entry' =>
        rw [split, List.append_assoc, List.append_assoc, List.append_assoc] at found
        obtain ⟨rfl, rest⟩ := List.append_inj found (by rw [length, Frame.Mark.length_bytes])
        have reads' := source.exact_readExactly d packed.length
        rcases read : source.readExactly d packed.length with ⟨_ | taken, source'⟩
        · rw [read] at reads'
          cases reads' with
          | short few left entry'' =>
            have lost : missing ≠ [] := by
              rintro rfl
              have length := congrArg List.length rest
              simp only [List.append_nil, List.length_append] at length
              omega
            rw [nextBlock_of_short frame (by decide) fits
              (Frame.Descriptor.packs_written filled fits packs []) word read]
            exact .failed (behind_of_rest_eq_nil ((entry''.trans entry').trans entry) frame stands end' left)
              lost
        · rw [read] at reads'
          cases reads' with
          | whole size split' entry'' =>
            rw [split', List.append_assoc] at rest
            obtain ⟨rfl, left⟩ := List.append_inj rest size
            have here : r.source.rest d = mark.bytes ++ (taken ++ source'.rest d) := by
              rw [split, split']
            obtain ⟨r', given, ahead, frame', entry_eq⟩ := nextBlock_packs frame filled fits packs here
            have behind : Behind d e missing r' later :=
              ⟨entry_eq.trans entry, frame', bytes, stop, more, end', by rw [ahead, left]⟩
            rw [given]
            exact .block rfl behind id fun empty => absurd empty filled

/-- The next block is not counted as read. -/
theorem unread_nextBlock (r : Decoder) (d : Disk) : (r.nextBlock d).2.unread = r.unread := by
  have nextBlock_eq := nextBlock_unread (r := r) (d := d) r.unread
  exact congrArg (fun x => x.2.unread) nextBlock_eq

/-- A decoder that starts at the front of a written frame, or what there is of it, has its start
behind it. -/
theorem behind_of_start {source : Source} {stop : List UInt8} (blocks : Frame.Blocks later body)
    (end' : stop = Frame.Mark.stop.bytes ∨ stop = [])
    (found : source.rest d ++ missing = Frame.start ++ (body ++ stop))
    (started : start source d = .ok (some r)) : Behind d source.entry missing r later ∧ r.unread = [] := by
  by_cases long : Frame.start.length ≤ (source.rest d).length
  · -- The start is all there.
    have front : Frame.start <+: source.rest d := by
      refine List.prefix_of_prefix_length_le ?_ (List.prefix_append _ missing) long
      rw [found]
      exact List.prefix_append _ _
    obtain ⟨after, split⟩ := front
    obtain ⟨r', started', rest, frame, unread, entry⟩ := start_written split.symm
    obtain rfl := Option.some.inj (Except.ok.inj (started.symm.trans started'))
    rw [← split, List.append_assoc] at found
    refine ⟨⟨entry, frame, body, stop, blocks, end', ?_⟩, unread⟩
    rw [rest, List.append_cancel_left found]
  · -- The magic number is read at most, and no decoder starts.
    have size : Frame.start.length = 7 := rfl
    have magic : Frame.magic.length = 4 := rfl
    have reads := source.exact_readExactly d Frame.magic.length
    unfold start at started
    split at started
    · contradiction
    · rename_i word source' read
      rw [read] at reads
      cases reads with
      | whole length split =>
        have few : (source'.gather d 3).1.length < 3 := by
          have total := congrArg List.length split
          rw [(Source.gather_eq source' d 3).1, List.length_take]
          rw [List.length_append] at total
          omega
        split at started
        · simp at started
        · rename_i head source'' gathered
          rw [gathered] at few
          rw [if_pos few] at started
          contradiction

end RollingCapture.Lz4.Decoder
