import RollingCapture.Bytes
import RollingCapture.Error
import RollingCapture.Packet

/-! The bytes of capture files: a file header, then records of a header and data each. Files are
written in one layout and read in five. -/
namespace RollingCapture.CaptureFile

/-- How the numbers of a file are to be read. -/
structure Layout where
  bigEndian : Bool
  /-- Whether the second time field counts nanoseconds rather than microseconds. -/
  nanosecond : Bool
  /-- Whether eight bytes of no use here follow the four fields of a record header. -/
  wide : Bool
  deriving DecidableEq, Repr

/-- The number that begins the files written here. -/
def magic : Nat := 0xa1b2c3d4

namespace Layout

def written : Layout := ⟨false, false, false⟩

/-- The layouts by the number that begins a file, read with its lowest byte first. -/
def magics : List (Nat × Layout) :=
  [(magic, written), (0xa1b23c4d, ⟨false, true, false⟩), (0xd4c3b2a1, ⟨true, false, false⟩),
    (0x4d3cb2a1, ⟨true, true, false⟩), (0xa1b2cd34, ⟨false, false, true⟩)]

def number (layout : Layout) (bytes : List UInt8) : Nat :=
  if layout.bigEndian then Bytes.ofBigEndian bytes else Bytes.ofLittleEndian bytes

/-- The four-byte field that begins at byte `pos`. -/
def field (layout : Layout) (bytes : List UInt8) (pos : Nat) : Nat :=
  layout.number ((bytes.drop pos).take 4)

def recordHeaderSize (layout : Layout) : Nat := if layout.wide then 24 else 16

theorem recordHeaderSize_pos (layout : Layout) : 0 < layout.recordHeaderSize := by
  unfold recordHeaderSize
  split <;> decide

theorem recordHeaderSize_le (layout : Layout) : layout.recordHeaderSize ≤ 24 := by
  unfold recordHeaderSize
  split <;> decide

def microseconds (layout : Layout) (fraction : Nat) : Nat :=
  if layout.nanosecond then fraction / 1000 else fraction

end Layout

structure FileHeader where
  layout : Layout
  snaplen : UInt32
  linkType : LinkType
  deriving DecidableEq, Repr

def fileHeaderSize : Nat := 24

/-- Where the fields of a file header end. -/
def fileHeaderEnds : List Nat := [4, 6, 8, 12, 16, 20, 24]

namespace FileHeader

/-- How many bytes the field lacks in which a header of `present` bytes ends. -/
def lacking (present : Nat) : Nat :=
  (fileHeaderEnds.find? (present < ·)).getD fileHeaderSize - present

/-- Splits the file header off. Only the layout, the snapshot length and the link type are looked
at. -/
def parse (bytes : List UInt8) : Except StreamProblem (FileHeader × List UInt8) :=
  let (head, rest) := bytes.splitAt fileHeaderSize
  if head.length < 4 then .error (.incomplete (lacking head.length))
  else match Layout.magics.lookup (Bytes.ofLittleEndian (head.take 4)) with
    | none => .error .headerNotRecognized
    | some layout =>
      if head.length < fileHeaderSize then .error (.incomplete (lacking head.length))
      else
        .ok ({ layout
               snaplen := (layout.field head 16).toUInt32
               linkType := ⟨(layout.field head 20).toUInt32.toInt32⟩ }, rest)

/-- The header of a file written for a link type as a handle reports it. -/
def write (linkType : LinkType) (snaplen : UInt32) : List UInt8 :=
  Bytes.littleEndian 4 magic ++ Bytes.littleEndian 2 2 ++ Bytes.littleEndian 2 4
    ++ Bytes.littleEndian 8 0 ++ Bytes.word snaplen
    ++ Bytes.word (LinkType.ofHandle linkType.code).code.toUInt32

end FileHeader

namespace Record

def headerSize : Nat := 16

/-- The header of a written record. Of the times only the low 32 bits are kept. -/
def header (h : PacketHeader) : List UInt8 :=
  Bytes.lowWord h.sec ++ Bytes.lowWord h.usec ++ Bytes.word h.caplen ++ Bytes.word h.len

/-- Why bytes do not begin with a whole record. -/
inductive Shortage where
  | header
  /-- They end inside the data of a record of `total` bytes. -/
  | data (total : Nat)
  deriving DecidableEq, Repr

/-- How many bytes there must be before more can be said. -/
def Shortage.needed (layout : Layout) : Shortage → Nat
  | header => layout.recordHeaderSize
  | data total => total

def parse (layout : Layout) (bytes : List UInt8) : Except Shortage (Packet × List UInt8) :=
  let (head, body) := bytes.splitAt layout.recordHeaderSize
  if head.length < layout.recordHeaderSize then .error .header
  else
    let size := layout.field head 8
    let (data, rest) := body.splitAt size
    if data.length < size then .error (.data (layout.recordHeaderSize + size))
    else
      .ok ({ header :=
              { sec := layout.field head 0
                usec := layout.microseconds (layout.field head 4)
                caplen := size.toUInt32
                len := (layout.field head 12).toUInt32 }
             data }, rest)

theorem length_parse {layout : Layout} {bytes rest : List UInt8} {p : Packet}
    (h : parse layout bytes = .ok (p, rest)) : rest.length < bytes.length := by
  simp only [parse, List.splitAt_eq] at h
  split at h
  · simp at h
  · split at h
    · simp at h
    · rename_i whole _
      simp only [Except.ok.injEq, Prod.mk.injEq] at h
      obtain ⟨-, rfl⟩ := h
      simp only [List.length_take] at whole
      simp only [List.length_drop]
      have := layout.recordHeaderSize_pos
      omega

theorem length_of_shortage {layout : Layout} {bytes : List UInt8} {s : Shortage}
    (h : parse layout bytes = .error s) : bytes.length < s.needed layout := by
  simp only [parse, List.splitAt_eq] at h
  split at h
  · rename_i short
    simp only [Except.error.injEq] at h
    subst h
    simp only [List.length_take] at short
    simp only [Shortage.needed]
    omega
  · split at h
    · rename_i short
      simp only [Except.error.injEq] at h
      subst h
      simp only [List.length_take, List.length_drop] at short
      simp only [Shortage.needed]
      omega
    · simp at h

end Record

end RollingCapture.CaptureFile
