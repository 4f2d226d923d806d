import RollingCapture.Bytes
import RollingCapture.Lz4.Checksum
import RollingCapture.Lz4.Compressor

/-! The layout of LZ4 frames: a magic number, a descriptor, blocks with their sizes in front, and a
size of zero at the end. -/
namespace RollingCapture.Lz4.Frame

def magic : List UInt8 := [0x04, 0x22, 0x4d, 0x18]

structure Descriptor where
  /-- The most bytes a block may have, compressed or not. -/
  maxBlock : Nat
  /-- Whether copies may reach back into earlier blocks. -/
  linked : Bool
  blockChecksums : Bool
  contentChecksum : Bool
  contentSize : Option Nat
  deriving DecidableEq, Repr

namespace Descriptor

def hasContentSize (flags : UInt8) : Bool := flags.toNat.testBit 3

def hasDictionary (flags : UInt8) : Bool := flags.toNat.testBit 0

/-- How many bytes follow the first three of a descriptor. -/
def extraSize (flags : UInt8) : Nat :=
  (if hasContentSize flags then 8 else 0) + (if hasDictionary flags then 4 else 0)

/-- The block sizes by their code; codes below 4 are not in use. -/
def blockSize? : Nat → Option Nat
  | 4 => some 65536
  | 5 => some 262144
  | 6 => some 1048576
  | 7 => some 4194304
  | _ => none

/-- Reads a descriptor: flags, block size, content size if any, and a byte of checksum. Reserved
bits must be clear, and a dictionary is not at hand. -/
def ofBytes? : List UInt8 → Option Descriptor
  | flags :: sizes :: rest =>
    let check := (Checksum.ofBytes (flags :: sizes :: rest.dropLast) >>> 8).toUInt8
    if flags.toNat / 64 ≠ 1 ∨ flags.toNat.testBit 1 ∨ hasDictionary flags
        ∨ 128 ≤ sizes.toNat ∨ sizes.toNat % 16 ≠ 0 ∨ rest.getLast? ≠ some check then
      none
    else
      (blockSize? (sizes.toNat / 16)).map fun maxBlock =>
        { maxBlock
          linked := !flags.toNat.testBit 5
          blockChecksums := flags.toNat.testBit 4
          contentChecksum := flags.toNat.testBit 2
          contentSize :=
            if hasContentSize flags then some (Bytes.ofLittleEndian (rest.take 8)) else none }
  | _ => none

end Descriptor

/-- What stands in front of a block. -/
inductive Mark where
  | stop
  | stored (size : Nat)
  | compressed (size : Nat)
  deriving DecidableEq, Repr

namespace Mark

def topBit : Nat := 2147483648

/-- The top bit says that a block is stored as it is. -/
def ofWord (n : Nat) : Mark :=
  if n = 0 then stop else if topBit ≤ n then stored (n - topBit) else compressed n

def bytes : Mark → List UInt8
  | stop => Bytes.littleEndian 4 0
  | stored size => Bytes.littleEndian 4 (topBit + size)
  | compressed size => Bytes.littleEndian 4 size

end Mark

/-- The start of the frames written here: independent blocks of 64 KB and no checksums. -/
def start : List UInt8 := magic ++ [0x60, 0x40, 0x82]

def blockSize : Nat := 65536

/-- A block as it is written: compressed if that makes it smaller, else stored. If `checked`, a compressed
form that does not decode to the block again is left aside. This stands for the assumption that what the
compressor emits decodes to what it was given, and never comes up where that holds. -/
def pack (c : Compressor) (checked : Bool) (block : Array UInt8) :
    (Mark × List UInt8) × Compressor :=
  let (out, c) := c.compress block
  let small := out.toList
  if small.length < block.size ∧ (checked → Block.decode block.size small = some block) then
    ((.compressed small.length, small), c)
  else ((.stored block.size, block.toList), c)

end RollingCapture.Lz4.Frame
