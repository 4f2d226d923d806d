import RollingCapture.Proofs.Lz4.Frame

/-! Frames as the format allows them, not only as they are written here: blocks of any of the sizes,
linked or not, stored or compressed, with or without checksums and the size of the content. The
relations say what a frame stands for without a decoder of frames. -/
namespace RollingCapture.Lz4.Frame

def checksum (present : Bool) (bytes : List UInt8) : List UInt8 :=
  if present then Bytes.word (Checksum.ofBytes bytes) else []

namespace Descriptor

/-- The version of the format, and a bit for each choice. -/
def flagsOf (linked blockChecksums sized contentChecksum : Bool) : UInt8 :=
  0x40 ||| (if linked then 0 else 0x20) ||| (if blockChecksums then 0x10 else 0) |||
    (if sized then 0x08 else 0) ||| (if contentChecksum then 0x04 else 0)

def flags (f : Descriptor) : UInt8 :=
  flagsOf f.linked f.blockChecksums f.contentSize.isSome f.contentChecksum

/-- The fields of a descriptor whose block size has the given code. -/
def fields (f : Descriptor) (code : Nat) : List UInt8 :=
  f.flags :: (16 * code).toUInt8 :: (f.contentSize.map (Bytes.littleEndian 8)).getD []

/-- A descriptor: its fields, and a byte of their checksum. -/
def bytes (f : Descriptor) (code : Nat) : List UInt8 :=
  f.fields code ++ [(Checksum.ofBytes (f.fields code) >>> 8).toUInt8]

/-- `mark` and `bytes` are a block of the frame that stands for `block`, behind the content `history`. -/
inductive Packs (f : Descriptor) (history block : List UInt8) : Mark → List UInt8 → Prop where
  | stored : block ≠ [] → Packs f history block (.stored block.length) block
  | compressed {bytes : List UInt8} : bytes.length ≤ f.maxBlock →
      Block.decodeAfter (if f.linked then history.toArray else #[]) f.maxBlock bytes =
        some block.toArray →
      Packs f history block (.compressed bytes.length) bytes

/-- `bytes` are the blocks of the frame that stand for `blocks`, behind the content `history`. A
compressed block may stand for no bytes. -/
inductive Blocks (f : Descriptor) : List UInt8 → List (List UInt8) → List UInt8 → Prop where
  | nil {history : List UInt8} : Blocks f history [] []
  | cons {history block packed bytes : List UInt8} {mark : Mark} {blocks : List (List UInt8)} :
      block.length ≤ f.maxBlock → Packs f history block mark packed →
      Blocks f (history ++ block) blocks bytes →
      Blocks f history (block :: blocks)
        (mark.bytes ++ (packed ++ (checksum f.blockChecksums packed ++ bytes)))

/-- `bytes` are a whole frame that stands for `blocks`, one behind the other. -/
structure Encodes (f : Descriptor) (bytes : List UInt8) (blocks : List (List UInt8)) : Prop where
  contentSize : ∀ n ∈ f.contentSize, n = blocks.flatten.length ∧ n < Bytes.span 8
  bytes : ∃ code body, blockSize? code = some f.maxBlock ∧ f.Blocks [] blocks body ∧
    bytes = magic ++ (f.bytes code ++ (body ++ (Mark.stop.bytes ++
      checksum f.contentChecksum blocks.flatten)))

theorem flagsOf_spec : ∀ linked blockChecksums sized contentChecksum : Bool,
    let flags := flagsOf linked blockChecksums sized contentChecksum
    flags.toNat / 64 = 1 ∧ flags.toNat.testBit 1 = false ∧ hasDictionary flags = false ∧
      hasContentSize flags = sized ∧ flags.toNat.testBit 5 = !linked ∧
      flags.toNat.testBit 4 = blockChecksums ∧ flags.toNat.testBit 2 = contentChecksum := by
  decide

variable {f : Descriptor} {code : Nat}

theorem blockSize?_spec {maxBlock : Nat} (size : blockSize? code = some maxBlock) :
    code < 8 ∧ maxBlock < Mark.topBit := by
  unfold blockSize? at size
  split at size
  · cases size; decide
  · cases size; decide
  · cases size; decide
  · cases size; decide
  · contradiction

theorem ofBytes?_bytes (size : blockSize? code = some f.maxBlock)
    (fits : ∀ n ∈ f.contentSize, n < Bytes.span 8) : ofBytes? (f.bytes code) = some f := by
  obtain ⟨version, reserved, dictionary, sized, linked, blockSums, contentSum⟩ :=
    flagsOf_spec f.linked f.blockChecksums f.contentSize.isSome f.contentChecksum
  have small := (blockSize?_spec size).1
  have code_toNat : (16 * code).toUInt8.toNat = 16 * code := by
    rw [Nat.toUInt8_eq, UInt8.toNat_ofNat', Nat.mod_eq_of_lt (by omega)]
  have contentSize (check : UInt8) : (if f.contentSize.isSome then
      some (Bytes.ofLittleEndian (((f.contentSize.map (Bytes.littleEndian 8)).getD [] ++
        [check]).take 8)) else none) = f.contentSize := by
    cases given : f.contentSize with
    | none => rfl
    | some n =>
      simp only [Option.isSome_some, if_true, Option.map_some, Option.getD_some]
      rw [List.take_left' (Bytes.length_littleEndian 8 n), Bytes.ofLittleEndian_littleEndian,
        Nat.mod_eq_of_lt (fits n given)]
  rw [bytes, fields, List.cons_append, List.cons_append, ofBytes?]
  simp only [flags, version, reserved, dictionary, sized, linked, blockSums, contentSum, code_toNat,
    Nat.mul_mod_right, Nat.mul_div_right code (by decide : 0 < 16), size, List.dropLast_concat,
    List.getLast?_concat, contentSize, Bool.not_not]
  rw [if_neg (by simp; omega)]
  rfl

theorem length_bytes (f : Descriptor) (code : Nat) : (f.bytes code).length = 3 + extraSize f.flags := by
  obtain ⟨-, -, dictionary, sized, -⟩ :=
    flagsOf_spec f.linked f.blockChecksums f.contentSize.isSome f.contentChecksum
  simp only [bytes, fields, extraSize, flags, dictionary, sized, List.length_append, List.length_cons,
    List.length_nil]
  cases f.contentSize with
  | none => rfl
  | some n => simp [Bytes.length_littleEndian]

theorem Packs.length_le {history block packed : List UInt8} {mark : Mark}
    (packs : f.Packs history block mark packed) (fits : block.length ≤ f.maxBlock) :
    packed.length ≤ f.maxBlock := by
  cases packs with
  | stored => exact fits
  | compressed small => exact small

theorem ofWord_of_packs {history block packed : List UInt8} {mark : Mark}
    (size : f.maxBlock < Mark.topBit) (fits : block.length ≤ f.maxBlock)
    (packs : f.Packs history block mark packed) :
    Mark.ofWord (Bytes.ofLittleEndian mark.bytes) = mark := by
  cases packs with
  | stored => exact Mark.ofWord_stored (Nat.lt_of_le_of_lt fits size)
  | compressed small decoded =>
    refine Mark.ofWord_compressed ?_ (Nat.lt_of_le_of_lt small size)
    intro zero
    rw [List.length_eq_zero_iff.1 zero, Block.decodeAfter_nil] at decoded
    contradiction

/-- What the frames written here say of themselves. -/
def written : Descriptor where
  maxBlock := Frame.blockSize
  linked := false
  blockChecksums := false
  contentChecksum := false
  contentSize := none

theorem packs_written {block packed : List UInt8} {mark : Mark} (nonempty : block ≠ [])
    (fits : block.length ≤ Frame.blockSize) (packs : Frame.Packs block mark packed)
    (history : List UInt8) : written.Packs history block mark packed := by
  cases packs with
  | stored => exact .stored nonempty
  | compressed smaller decoded =>
    exact .compressed (Nat.le_of_lt (Nat.lt_of_lt_of_le smaller fits)) decoded

theorem start_eq : Frame.start = magic ++ written.bytes 4 := by decide +kernel

/-- The blocks that are written here are blocks of the format, the first as long as it can be. -/
theorem exists_blocks_written {content bytes : List UInt8} (blocks : Frame.Blocks content bytes)
    (history : List UInt8) :
    ∃ split, written.Blocks history split bytes ∧ split.flatten = content ∧
      (∀ block ∈ split, block ≠ []) ∧
      min Frame.blockSize content.length ≤ (split.headD []).length := by
  induction blocks generalizing history with
  | nil => exact ⟨[], .nil, rfl, by simp, Nat.min_le_right _ _⟩
  | @cons block packed content bytes mark filled fits full packs _ ih =>
    obtain ⟨split, blocks, rfl, nonempty, -⟩ := ih (history ++ block)
    refine ⟨block :: split, .cons fits (packs_written filled fits packs history) blocks, rfl, ?_, ?_⟩
    · intro block' member
      rcases List.mem_cons.1 member with rfl | later
      · exact filled
      · exact nonempty block' later
    · rw [List.headD_cons, List.length_append]
      rcases full with size | last
      · omega
      · rw [last, List.length_nil]
        omega

/-- The frames written here are frames of the format. -/
theorem exists_encodes_written {bytes content : List UInt8} (encodes : Frame.Encodes bytes content) :
    ∃ blocks, written.Encodes bytes blocks ∧ blocks.flatten = content ∧
      (∀ block ∈ blocks, block ≠ []) ∧
      min Frame.blockSize content.length ≤ (blocks.headD []).length := by
  obtain ⟨body, blocks, rfl⟩ := encodes
  obtain ⟨split, blocks', content', nonempty, full⟩ := exists_blocks_written blocks []
  refine ⟨split, ⟨by simp [written], 4, body, rfl, blocks', ?_⟩, content', nonempty, full⟩
  rw [start_eq, List.append_assoc]
  rfl

end Descriptor

end RollingCapture.Lz4.Frame
