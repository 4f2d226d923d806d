import RollingCapture.Error
import RollingCapture.Lz4.Frame
import RollingCapture.Lz4.Ring
import RollingCapture.Source

/-! Reading the content of one LZ4 frame block by block. The content ends with the end mark, with an
empty block, or where the source ends and a block's size is due. -/
namespace RollingCapture.Lz4

structure Decoder where
  source : Source
  frame : Frame.Descriptor
  content : Array UInt8 := #[]
  ring : Ring := {}
  /-- The part of the last block that was not read yet. -/
  unread : List UInt8 := []
  deriving Repr

namespace Decoder

/-- Reads the start of a frame. A source that ends right after the magic number holds no frame, and
that is no error. -/
def start (source : Source) (d : Disk) : Except StreamProblem (Option Decoder) :=
  match source.readExactly d Frame.magic.length with
  | (none, _) => .error .unreadable
  | (some _, source) =>
    match source.gather d 3 with
    | ([], _) => .ok none
    | (head, source) =>
      if head.length < 3 then .error .unreadable
      else
        match source.readExactly d (Frame.Descriptor.extraSize (head.headD 0)) with
        | (none, _) => .error .unreadable
        | (some extra, source) =>
          match Frame.Descriptor.ofBytes? (head ++ extra) with
          | none => .error .unreadable
          | some frame => .ok (some { source, frame })

/-- Reads a checksum if the frame has it, and whether it is that of `bytes`. -/
def verify (r : Decoder) (d : Disk) (present : Bool) (bytes : List UInt8) : Bool × Decoder :=
  if present then
    match r.source.readExactly d 4 with
    | (none, source) => (false, { r with source })
    | (some sum, source) =>
      (Bytes.ofLittleEndian sum = (Checksum.ofBytes bytes).toNat, { r with source })
  else (true, r)

def blockBytes (r : Decoder) (d : Disk) (size : Nat) : Option (List UInt8) × Decoder :=
  if r.frame.maxBlock < size then (none, r)
  else
    match r.source.readExactly d size with
    | (none, source) => (none, { r with source })
    | (some bytes, source) =>
      match verify { r with source } d r.frame.blockChecksums bytes with
      | (true, r) => (some bytes, r)
      | (false, r) => (none, r)

/-- Decodes a compressed block. Linked blocks may be larger than the block size where the ring has
room for them. -/
def expand (r : Decoder) (bytes : List UInt8) : Option (List UInt8) :=
  let block :=
    if r.frame.linked then
      Block.decodeAfter r.content ((r.ring.turn r.frame.maxBlock).room r.frame.maxBlock) bytes
    else Block.decode r.frame.maxBlock bytes
  block.map Array.toList

def deliver (r : Decoder) (block : List UInt8) : Except StreamProblem (List UInt8) × Decoder :=
  (.ok block,
    { r with
      content := r.content ++ block
      ring := (r.ring.turn r.frame.maxBlock).advance block.length })

def finish (r : Decoder) (d : Disk) : Except StreamProblem (List UInt8) × Decoder :=
  if r.frame.contentSize.any (· ≠ r.content.size) then (.error .unreadable, r)
  else
    match r.verify d r.frame.contentChecksum r.content.toList with
    | (true, r) => (.ok [], r)
    | (false, r) => (.error .unreadable, r)

/-- Reads the next block. No bytes mean the end. -/
def nextBlock (r : Decoder) (d : Disk) : Except StreamProblem (List UInt8) × Decoder :=
  match r.source.readExactly d 4 with
  | (none, source) => (.ok [], { r with source })
  | (some word, source) =>
    let r := { r with source }
    match Frame.Mark.ofWord (Bytes.ofLittleEndian word) with
    | .stop => r.finish d
    | .stored size =>
      match r.blockBytes d size with
      | (none, r) => (.error .unreadable, r)
      | (some bytes, r) => r.deliver bytes
    | .compressed size =>
      match r.blockBytes d size with
      | (none, r) => (.error .unreadable, r)
      | (some bytes, r) =>
        match r.expand bytes with
        | none => (.error .unreadable, r)
        | some block => r.deliver block

/-- Reads at most `n` bytes of content, from one block. No bytes mean the end. -/
def read (r : Decoder) (d : Disk) (n : Nat) : Except StreamProblem (List UInt8) × Decoder :=
  if r.unread.isEmpty then
    match r.nextBlock d with
    | (.error e, r) => (.error e, r)
    | (.ok block, r) => (.ok (block.take n), { r with unread := block.drop n })
  else (.ok (r.unread.take n), { r with unread := r.unread.drop n })

theorem remaining_verify (r : Decoder) (d : Disk) (present : Bool) (bytes : List UInt8) :
    (r.verify d present bytes).2.source.remaining ≤ r.source.remaining := by
  unfold verify
  split
  · have := r.source.remaining_readExactly_le d 4
    split <;> simp_all
  · exact Nat.le_refl _

theorem remaining_blockBytes (r : Decoder) (d : Disk) (size : Nat) :
    (r.blockBytes d size).2.source.remaining ≤ r.source.remaining := by
  unfold blockBytes
  split
  · exact Nat.le_refl _
  · have := r.source.remaining_readExactly_le d size
    split
    · simp_all
    · rename_i bytes source readExactly_eq
      have := remaining_verify { r with source } d r.frame.blockChecksums bytes
      split <;> simp_all <;> omega

theorem remaining_finish (r : Decoder) (d : Disk) :
    (r.finish d).2.source.remaining ≤ r.source.remaining := by
  unfold finish
  split
  · exact Nat.le_refl _
  · have := r.remaining_verify d r.frame.contentChecksum r.content.toList
    split <;> simp_all

theorem remaining_nextBlock {r r' : Decoder} {d : Disk} {block : List UInt8}
    (h : r.nextBlock d = (.ok block, r')) :
    r'.source.remaining ≤ r.source.remaining ∧
      (block ≠ [] → r'.source.remaining < r.source.remaining) := by
  unfold nextBlock at h
  have short := r.source.remaining_readExactly_le d 4
  split at h
  · obtain ⟨result_eq, rfl⟩ := Prod.mk.injEq .. ▸ h
    obtain rfl := Except.ok.inj result_eq
    simp_all
  · rename_i word source first
    have less := Source.remaining_readExactly first
    split at h
    · have := remaining_finish { r with source } d
      rw [h] at this
      simp only at this
      omega
    · rename_i size _
      have := remaining_blockBytes { r with source } d size
      dsimp only at h
      split at h
      · simp at h
      · rename_i bytes next blockBytes_eq
        rw [blockBytes_eq] at this
        obtain ⟨-, rfl⟩ := Prod.mk.injEq .. ▸ h
        simp only at this ⊢
        omega
    · rename_i size _
      have := remaining_blockBytes { r with source } d size
      dsimp only at h
      split at h
      · simp at h
      · rename_i bytes next blockBytes_eq
        rw [blockBytes_eq] at this
        split at h
        · simp at h
        · obtain ⟨-, rfl⟩ := Prod.mk.injEq .. ▸ h
          simp only at this ⊢
          omega

/-- Everything that is left, behind `before`. -/
def drain (r : Decoder) (d : Disk) (before : Array UInt8) : Option (Array UInt8) :=
  match _found : r.nextBlock d with
  | (.error _, _) => none
  | (.ok [], _) => some before
  | (.ok (b :: block), r') => drain r' d (before ++ b :: block)
  termination_by r.source.remaining
  decreasing_by exact (remaining_nextBlock _found).2 (by simp)

def contentOf (bytes : List UInt8) : Option (Array UInt8) :=
  match start (.ofBytes bytes) .fresh with
  | .ok (some r) => r.drain .fresh #[]
  | .ok none => some #[]
  | .error _ => none

end Decoder

end RollingCapture.Lz4
