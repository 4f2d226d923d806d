import RollingCapture.Lz4.Decoder
import RollingCapture.Proofs.Lz4.Format
import RollingCapture.Proofs.Source

/-! A decoder gives the content that a written frame stands for. -/
namespace RollingCapture.Lz4

namespace Decoder

/-- Everything that blocks still give, and the problem that ends it, if one does. -/
def flow (r : Decoder) (d : Disk) : List UInt8 × Option StreamProblem :=
  match _found : r.nextBlock d with
  | (.error p, _) => ([], some p)
  | (.ok [], _) => ([], none)
  | (.ok (b :: block), r') =>
    let later := flow r' d
    (b :: block ++ later.1, later.2)
  termination_by r.source.remaining
  decreasing_by exact (remaining_nextBlock _found).2 (by simp)

variable {r r' : Decoder} {d : Disk}

theorem flow_of_error {p : StreamProblem} (found : r.nextBlock d = (.error p, r')) :
    r.flow d = ([], some p) := by
  rw [flow]
  split <;> simp_all

theorem flow_of_nil (found : r.nextBlock d = (.ok [], r')) : r.flow d = ([], none) := by
  rw [flow]
  split <;> simp_all

theorem flow_of_block {block : List UInt8} (nonempty : block ≠ [])
    (found : r.nextBlock d = (.ok block, r')) :
    r.flow d = (block ++ (r'.flow d).1, (r'.flow d).2) := by
  rw [flow]
  split <;> simp_all

/-! Bytes of the last block that were not read yet make no difference to the blocks after it. -/

theorem verify_unread (present : Bool) (bytes unread : List UInt8) :
    verify { r with unread } d present bytes =
      ((r.verify d present bytes).1, { (r.verify d present bytes).2 with unread }) := by
  cases present with
  | false => rfl
  | true =>
    rcases found : r.source.readExactly d 4 with ⟨_ | sum, source⟩ <;> simp [verify, found]

theorem blockBytes_unread (size : Nat) (unread : List UInt8) :
    blockBytes { r with unread } d size =
      ((r.blockBytes d size).1, { (r.blockBytes d size).2 with unread }) := by
  by_cases large : r.frame.maxBlock < size
  · simp [blockBytes, large]
  · rcases found : r.source.readExactly d size with ⟨_ | bytes, source⟩
    · simp [blockBytes, large, found]
    · have moved := verify_unread (r := { r with source }) (d := d) r.frame.blockChecksums bytes unread
      rcases checked : verify { r with source } d r.frame.blockChecksums bytes with ⟨_ | _, r'⟩
      all_goals
        rw [checked] at moved
        simp [blockBytes, large, found, checked, moved]

theorem finish_unread (unread : List UInt8) :
    finish { r with unread } d = ((r.finish d).1, { (r.finish d).2 with unread }) := by
  cases differs : r.frame.contentSize.any (· ≠ r.content.size) with
  | true => simp only [finish, differs, if_true]
  | false =>
    have moved := verify_unread (r := r) (d := d) r.frame.contentChecksum r.content.toList unread
    rcases checked : r.verify d r.frame.contentChecksum r.content.toList with ⟨_ | _, r'⟩
    all_goals
      rw [checked] at moved
      simp only [finish, differs, checked, moved, Bool.false_eq_true, if_false]

theorem nextBlock_unread (unread : List UInt8) :
    nextBlock { r with unread } d = ((r.nextBlock d).1, { (r.nextBlock d).2 with unread }) := by
  rcases found : r.source.readExactly d 4 with ⟨_ | word, source⟩
  · simp [nextBlock, found]
  · cases mark : Frame.Mark.ofWord (Bytes.ofLittleEndian word) with
    | stop =>
      have moved := finish_unread (r := { r with source }) (d := d) unread
      simp [nextBlock, found, mark, moved]
    | stored size =>
      have moved := blockBytes_unread (r := { r with source }) (d := d) size unread
      rcases taken : blockBytes { r with source } d size with ⟨_ | bytes, r'⟩
      all_goals
        rw [taken] at moved
        simp [nextBlock, found, mark, taken, moved, deliver]
    | compressed size =>
      have moved := blockBytes_unread (r := { r with source }) (d := d) size unread
      rcases taken : blockBytes { r with source } d size with ⟨_ | bytes, r'⟩
      · rw [taken] at moved
        simp [nextBlock, found, mark, taken, moved]
      · rw [taken] at moved
        have expand_eq : expand { r' with unread } bytes = r'.expand bytes := rfl
        cases decoded : r'.expand bytes <;>
          simp [nextBlock, found, mark, taken, moved, expand_eq, decoded, deliver]

theorem flow_unread (unread : List UInt8) : flow { r with unread } d = r.flow d := by
  fun_induction flow r d with
  | case1 r p r' found =>
    have nextBlock_eq : nextBlock { r with unread } d = (.error p, { r' with unread }) := by
      rw [nextBlock_unread, found]
    exact flow_of_error nextBlock_eq
  | case2 r r' found =>
    have nextBlock_eq : nextBlock { r with unread } d = (.ok [], { r' with unread }) := by
      rw [nextBlock_unread, found]
    exact flow_of_nil nextBlock_eq
  | case3 r b block r' found later ih =>
    have nextBlock_eq : nextBlock { r with unread } d = (.ok (b :: block), { r' with unread }) := by
      rw [nextBlock_unread, found]
    rw [flow_of_block (List.cons_ne_nil b block) nextBlock_eq, ih]

/-- What is left can be drained where no problem ends it. -/
theorem drain_eq_flow (r : Decoder) (d : Disk) (before : Array UInt8) :
    r.drain d before = if (r.flow d).2 = none then some (before ++ (r.flow d).1) else none := by
  fun_induction drain r d before with
  | case1 r before p r' found => simp [flow_of_error found]
  | case2 r before r' found => simp [flow_of_nil found]
  | case3 r before b block r' found ih =>
    have assoc : before ++ b :: block ++ (r'.flow d).1 = before ++ (b :: block ++ (r'.flow d).1) :=
      Array.ext' (by simp)
    rw [ih, flow_of_block (by simp) found, assoc]

/-- The decoder has given the content `history` of the frame `f`, and has `after` in front of it. Where
blocks are linked, the next one has room. -/
structure Stands (d : Disk) (f : Frame.Descriptor) (history after : List UInt8) (r : Decoder) : Prop where
  frame : r.frame = f
  content : r.content = history.toArray
  fits : f.linked → r.ring.Fits f.maxBlock
  rest : r.source.rest d = after

variable {f : Frame.Descriptor} {history block packed after : List UInt8} {mark : Frame.Mark}

/-- A decoder of a frame that is written here may have given anything. -/
theorem stands_of_written (frame : r.frame = .written) (found : r.source.rest d = after) :
    r.Stands d .written r.content.toList after :=
  ⟨frame, rfl, nofun, found⟩

/-- A frame is opened by its magic number and its descriptor. -/
theorem start_of_descriptor {source : Source} {code : Nat}
    (size : Frame.Descriptor.blockSize? code = some f.maxBlock)
    (fits : ∀ n ∈ f.contentSize, n < Bytes.span 8)
    (found : source.rest d = Frame.magic ++ (f.bytes code ++ after)) :
    ∃ r, start source d = .ok (some r) ∧ r.Stands d f [] after ∧ r.unread = [] ∧
      r.source.entry = source.entry := by
  obtain ⟨source', magic, behind, entry⟩ := Source.readExactly_append found
  obtain ⟨head, descriptor⟩ := Source.gather_eq source' d 3
  have length := f.length_bytes code
  have three : ((f.bytes code).take 3).length = 3 := by
    rw [List.length_take, length]
    omega
  rw [behind, List.take_append_of_le_length (by omega)] at head
  rw [behind, List.drop_append_of_le_length (by omega)] at descriptor
  obtain ⟨last, extra, rest, entry'⟩ := Source.readExactly_append descriptor
  have gathered : source'.gather d 3 = ((f.bytes code).take 3, (source'.gather d 3).2) :=
    Prod.ext head rfl
  have entry_eq := (entry'.trans (Source.entry_gather source' d 3)).trans entry
  refine ⟨{ source := last, frame := f }, ?_, ⟨rfl, rfl, fun _ => Ring.fits_empty _, rest⟩, rfl, entry_eq⟩
  have flags : ((f.bytes code).take 3).headD 0 = f.flags := rfl
  have extraSize : Frame.Descriptor.extraSize f.flags = ((f.bytes code).drop 3).length := by
    rw [List.length_drop, length, Nat.add_sub_cancel_left]
  simp only [start, magic]
  rw [gathered]
  split
  · rename_i empty
    rw [(Prod.mk.inj empty).1] at three
    contradiction
  · rename_i read
    obtain ⟨rfl, rfl⟩ := Prod.mk.inj read
    rw [if_neg (by omega), flags, extraSize]
    simp only [extra, List.take_append_drop, Frame.Descriptor.ofBytes?_bytes size fits]

theorem verify_checksum {present : Bool} {bytes : List UInt8}
    (found : r.source.rest d = Frame.checksum present bytes ++ after) :
    ∃ source, r.verify d present bytes = (true, { r with source }) ∧ source.rest d = after ∧
      source.entry = r.source.entry := by
  cases present with
  | false => exact ⟨r.source, rfl, found, rfl⟩
  | true =>
    obtain ⟨source, sum, behind, entry⟩ := Source.readExactly_append found
    have length : (Frame.checksum true bytes).length = 4 := Bytes.length_word _
    have value : Bytes.ofLittleEndian (Frame.checksum true bytes) = (Checksum.ofBytes bytes).toNat :=
      Bytes.ofLittleEndian_word _
    rw [length] at sum
    exact ⟨source, by simp [verify, sum, value], behind, entry⟩

theorem blockBytes_checksum (fits : packed.length ≤ r.frame.maxBlock)
    (found : r.source.rest d = packed ++ (Frame.checksum r.frame.blockChecksums packed ++ after)) :
    ∃ source, r.blockBytes d packed.length = (some packed, { r with source }) ∧
      source.rest d = after ∧ source.entry = r.source.entry := by
  obtain ⟨source, bytes, behind, entry⟩ := Source.readExactly_append found
  obtain ⟨source', checked, rest, entry'⟩ := verify_checksum (r := { r with source }) behind
  refine ⟨source', ?_, rest, entry'.trans entry⟩
  simp only [blockBytes, if_neg (Nat.not_lt.2 fits), bytes, checked]

/-- A block has at least the room that the frame promises, and decodes to the same in more of it. -/
theorem Stands.expand (stands : r.Stands d f history after)
    (decoded : Block.decodeAfter (if f.linked then history.toArray else #[]) f.maxBlock packed =
      some block.toArray) : r.expand packed = some block := by
  obtain ⟨rfl, content, fits, -⟩ := stands
  cases linked : r.frame.linked with
  | false =>
    rw [linked, if_neg (by decide)] at decoded
    simp [Decoder.expand, linked, Block.decode, decoded]
  | true =>
    rw [linked, if_pos rfl] at decoded
    have wider := Ring.maxBlock_le_room (fits linked).turn
    simp [Decoder.expand, linked, content, Block.decodeAfter, Block.decodeOnto_of_le wider decoded]

/-- A block that is given becomes part of the content. -/
theorem Stands.deliver (stands : r.Stands d f history after) (block : List UInt8) :
    ∃ r', r.deliver block = (.ok block, r') ∧ r'.Stands d f (history ++ block) after ∧
      r'.source = r.source := by
  obtain ⟨rfl, content, fits, rest⟩ := stands
  refine ⟨_, rfl, ⟨rfl, ?_, fun linked => ((fits linked).turn).advance block.length, rest⟩, rfl⟩
  simp [content]

theorem Stands.nextBlock (size : f.maxBlock < Frame.Mark.topBit) (fits : block.length ≤ f.maxBlock)
    (packs : f.Packs history block mark packed)
    (stands : r.Stands d f history
      (mark.bytes ++ (packed ++ (Frame.checksum f.blockChecksums packed ++ after)))) :
    ∃ r', r.nextBlock d = (.ok block, r') ∧ r'.Stands d f (history ++ block) after ∧
      r'.source.entry = r.source.entry := by
  obtain ⟨rfl, content, ring, found⟩ := stands
  have marked := Frame.Descriptor.ofWord_of_packs size fits packs
  obtain ⟨source, word, behind, entry⟩ := Source.readExactly_append found
  rw [Frame.Mark.length_bytes] at word
  obtain ⟨source', bytes, rest, entry'⟩ :=
    blockBytes_checksum (r := { r with source }) (packs.length_le fits) behind
  have stands : { r with source := source' }.Stands d r.frame history after :=
    ⟨rfl, content, ring, rest⟩
  obtain ⟨r', given, stands', source_eq⟩ := stands.deliver block
  refine ⟨r', ?_, stands', source_eq ▸ entry'.trans entry⟩
  cases packs with
  | stored => simp only [Decoder.nextBlock, word, marked, bytes, given]
  | compressed _ decoded => simp only [Decoder.nextBlock, word, marked, bytes, stands.expand decoded, given]

theorem Stands.nextBlock_stop (size : ∀ n ∈ f.contentSize, n = history.length)
    (stands : r.Stands d f history
      (Frame.Mark.stop.bytes ++ (Frame.checksum f.contentChecksum history ++ after))) :
    ∃ r', r.nextBlock d = (.ok [], r') := by
  obtain ⟨rfl, content, -, found⟩ := stands
  obtain ⟨source, word, behind, -⟩ := Source.readExactly_append found
  rw [Frame.Mark.length_bytes] at word
  have history_eq : r.content.toList = history := by rw [content]
  rw [← history_eq] at behind
  obtain ⟨source', checked, -⟩ := verify_checksum (r := { r with source }) behind
  have whole : r.frame.contentSize.any (· ≠ r.content.size) = false := by
    cases given : r.frame.contentSize with
    | none => rfl
    | some n => simp [size n given, content]
  refine ⟨{ r with source := source' }, ?_⟩
  simp only [Decoder.nextBlock, word, Frame.Mark.ofWord_stop, finish, whole, Bool.false_eq_true, if_false,
    checked]

/-- A decoder in front of blocks of the format gives what they stand for. -/
theorem Stands.flow {blocks : List (List UInt8)} {body : List UInt8}
    (filled : ∀ block ∈ blocks, block ≠ []) (maxBlock : f.maxBlock < Frame.Mark.topBit)
    (packed : f.Blocks history blocks body)
    (size : ∀ n ∈ f.contentSize, n = (history ++ blocks.flatten).length)
    (stands : r.Stands d f history (body ++ (Frame.Mark.stop.bytes ++
      (Frame.checksum f.contentChecksum (history ++ blocks.flatten) ++ after)))) :
    r.flow d = (blocks.flatten, none) := by
  induction packed generalizing r with
  | nil =>
    rw [List.flatten_nil, List.append_nil] at stands size
    obtain ⟨r', stopped⟩ := stands.nextBlock_stop size
    exact flow_of_nil stopped
  | @cons history block packed bytes mark blocks fits packs _ ih =>
    simp only [List.append_assoc, List.flatten_cons] at stands size
    rw [← List.append_assoc history] at stands size
    obtain ⟨r', given, stands', -⟩ := stands.nextBlock maxBlock fits packs
    rw [flow_of_block (filled block List.mem_cons_self) given,
      ih (fun block' member => filled block' (List.mem_cons_of_mem block member)) size stands',
      List.flatten_cons]

/-- A whole frame is opened, its first block comes first, and its content is what its blocks stand for
if none of them is empty. -/
theorem start_of_encodes {source : Source} {bytes : List UInt8} {blocks : List (List UInt8)}
    (encodes : f.Encodes bytes blocks) (found : source.rest d = bytes) :
    ∃ r, start source d = .ok (some r) ∧ r.unread = [] ∧
      (∃ r', r.nextBlock d = (.ok (blocks.headD []), r')) ∧
      ((∀ block ∈ blocks, block ≠ []) → r.flow d = (blocks.flatten, none)) := by
  obtain ⟨contentSize, code, body, size, packed, rfl⟩ := encodes
  obtain ⟨r, started, stands, unread, -⟩ :=
    start_of_descriptor size (fun n given => (contentSize n given).2) found
  have maxBlock := (Frame.Descriptor.blockSize?_spec size).2
  rw [← List.append_nil (Frame.checksum f.contentChecksum blocks.flatten)] at stands
  refine ⟨r, started, unread, ?_, fun filled =>
    stands.flow filled maxBlock packed fun n given => (contentSize n given).1⟩
  cases packed with
  | nil => exact stands.nextBlock_stop fun n given => (contentSize n given).1
  | cons fits packs _ =>
    simp only [List.append_assoc] at stands
    obtain ⟨r', given, -⟩ := stands.nextBlock maxBlock fits packs
    exact ⟨r', given⟩

theorem contentOf_of_encodes {bytes : List UInt8} {blocks : List (List UInt8)}
    (encodes : f.Encodes bytes blocks) (filled : ∀ block ∈ blocks, block ≠ []) :
    contentOf bytes = Option.some blocks.flatten.toArray := by
  obtain ⟨r, started, -, -, content⟩ := start_of_encodes encodes (Source.rest_ofBytes .fresh bytes)
  rw [contentOf, started]
  simp [drain_eq_flow, content filled]

/-! The same for the frames that are written here, which are decoded whatever came before. -/

theorem start_written {source : Source} {after : List UInt8}
    (found : source.rest d = Frame.start ++ after) :
    ∃ r, start source d = .ok (some r) ∧ r.source.rest d = after ∧ r.frame = .written ∧
      r.unread = [] ∧ r.source.entry = source.entry := by
  rw [Frame.Descriptor.start_eq, List.append_assoc] at found
  obtain ⟨r, started, stands, unread, entry⟩ :=
    start_of_descriptor (f := .written) rfl nofun found
  exact ⟨r, started, stands.rest, stands.frame, unread, entry⟩

theorem nextBlock_packs {block body after : List UInt8} {mark : Frame.Mark}
    (frame : r.frame = .written) (nonempty : block ≠ []) (fits : block.length ≤ Frame.blockSize)
    (packs : Frame.Packs block mark body)
    (found : r.source.rest d = mark.bytes ++ (body ++ after)) :
    ∃ r', r.nextBlock d = (.ok block, r') ∧ r'.source.rest d = after ∧ r'.frame = .written ∧
      r'.source.entry = r.source.entry := by
  obtain ⟨r', given, stands, entry⟩ := (stands_of_written frame found).nextBlock (by decide) fits
    (Frame.Descriptor.packs_written nonempty fits packs r.content.toList)
  exact ⟨r', given, stands.rest, stands.frame, entry⟩

theorem contentOf_eq {bytes content : List UInt8} (encodes : Frame.Encodes bytes content) :
    contentOf bytes = some content.toArray := by
  obtain ⟨blocks, encodes', rfl, filled, -⟩ := Frame.Descriptor.exists_encodes_written encodes
  exact contentOf_of_encodes encodes' filled

end Decoder

end RollingCapture.Lz4

namespace RollingCapture.Compression

/-- The content of a file that is stored in this way, if it is whole. -/
def contentOf (c : Compression) (bytes : List UInt8) : Option (List UInt8) :=
  match c with
  | plain => some bytes
  | lz4 => (Lz4.Decoder.contentOf bytes).map (·.toList)

theorem contentOf_of_stores {c : Compression} {bytes content : List UInt8}
    (stores : c.Stores bytes content) : c.contentOf bytes = some content := by
  cases c with
  | plain => exact congrArg some stores
  | lz4 => simp [contentOf, Lz4.Decoder.contentOf_eq stores]

end RollingCapture.Compression
