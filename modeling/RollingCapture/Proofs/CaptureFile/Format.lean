import RollingCapture.CaptureFile.Format

/-! The parsers of file headers and records read back what is written. -/
namespace RollingCapture.CaptureFile

namespace Layout

theorem field_append {layout : Layout} {front middle : List UInt8} (back : List UInt8) {pos : Nat}
    (at' : front.length = pos) (size : middle.length = 4) :
    layout.field (front ++ (middle ++ back)) pos = layout.number middle := by
  rw [field, List.drop_left' at', List.take_left' size]

theorem number_written (bytes : List UInt8) : written.number bytes = Bytes.ofLittleEndian bytes :=
  rfl

end Layout

namespace FileHeader

theorem length_write (linkType : LinkType) (snaplen : UInt32) :
    (write linkType snaplen).length = fileHeaderSize := by
  simp [write, Bytes.length_littleEndian, fileHeaderSize]

theorem length_of_parse {bytes window : List UInt8} {header : FileHeader}
    (parsed : parse bytes = .ok (header, window)) : fileHeaderSize ≤ bytes.length := by
  simp only [parse, List.splitAt_eq, List.length_take] at parsed
  split at parsed
  · contradiction
  · split at parsed
    · contradiction
    · split at parsed
      · contradiction
      · omega

/-- A file header is all in its first bytes. -/
theorem parse_of_prefix {bytes content : List UInt8} (front : bytes <+: content)
    (long : fileHeaderSize ≤ bytes.length) :
    parse content = (parse bytes).map fun parsed => (parsed.1, content.drop fileHeaderSize) := by
  obtain ⟨more, rfl⟩ := front
  simp only [parse, List.splitAt_eq, List.take_append_of_le_length long]
  split
  · rfl
  · split
    · rfl
    · split <;> rfl

theorem parse_write (linkType : LinkType) (snaplen : UInt32) (rest : List UInt8) :
    parse (write linkType snaplen ++ rest) =
      .ok (⟨.written, snaplen, .ofHandle linkType.code⟩, rest) := by
  have size := length_write linkType snaplen
  have head : (write linkType snaplen ++ rest).splitAt fileHeaderSize =
      (write linkType snaplen, rest) := by
    rw [List.splitAt_eq, List.take_left' size, List.drop_left' size]
  have magicEq : Bytes.ofLittleEndian ((write linkType snaplen).take 4) = magic := by
    simp only [write, List.append_assoc]
    rw [List.take_left' (Bytes.length_littleEndian 4 _), Bytes.ofLittleEndian_littleEndian]
    rfl
  have lookup : Layout.magics.lookup magic = some .written := rfl
  have snaplenEq : Layout.written.field (write linkType snaplen) 16 = snaplen.toNat := by
    have fields : write linkType snaplen =
        (Bytes.littleEndian 4 magic ++ Bytes.littleEndian 2 2 ++ Bytes.littleEndian 2 4 ++
          Bytes.littleEndian 8 0) ++ (Bytes.word snaplen ++
            Bytes.word (LinkType.ofHandle linkType.code).code.toUInt32) := by
      simp only [write, List.append_assoc]
    rw [fields, Layout.field_append _ (by simp [Bytes.length_littleEndian]) (by simp),
      Layout.number_written, Bytes.ofLittleEndian_word]
  have linkTypeEq : Layout.written.field (write linkType snaplen) 20 =
      (LinkType.ofHandle linkType.code).code.toUInt32.toNat := by
    rw [← List.append_nil (write linkType snaplen), write, List.append_assoc,
      Layout.field_append _ (by simp [Bytes.length_littleEndian]) (by simp),
      Layout.number_written, Bytes.ofLittleEndian_word]
  simp only [parse, head, size, magicEq, lookup, snaplenEq, linkTypeEq]
  simp [fileHeaderSize]

end FileHeader

namespace Record

def bytes (p : Packet) : List UInt8 := header p.header ++ p.data.take p.header.caplen.toNat

/-- A packet as a file keeps it: the low 32 bits of its times, and the bytes that were kept. -/
def stored (p : Packet) : Packet where
  header := { p.header with sec := p.header.sec % 4294967296, usec := p.header.usec % 4294967296 }
  data := p.data.take p.header.caplen.toNat

/-- Whether a packet brings all the bytes that its header announces. -/
def IsWhole (p : Packet) : Prop := p.header.caplen.toNat ≤ p.data.length

instance (p : Packet) : Decidable (IsWhole p) := inferInstanceAs (Decidable (_ ≤ _))

theorem length_header (h : PacketHeader) : (header h).length = headerSize := by
  simp [header, headerSize]

theorem length_bytes {p : Packet} (whole : IsWhole p) :
    (bytes p).length = headerSize + p.header.caplen.toNat := by
  rw [bytes, List.length_append, length_header, List.length_take, Nat.min_eq_left whole]

theorem field_header_sec (h : PacketHeader) :
    (Layout.written.field (header h) 0 : Int) = h.sec % 4294967296 := by
  have fields : header h = [] ++ (Bytes.lowWord h.sec ++ (Bytes.lowWord h.usec ++
      (Bytes.word h.caplen ++ Bytes.word h.len))) := by
    simp only [header, List.append_assoc, List.nil_append]
  rw [fields, Layout.field_append _ (by simp) (by simp), Layout.number_written,
    Bytes.ofLittleEndian_lowWord]

theorem field_header_usec (h : PacketHeader) :
    (Layout.written.field (header h) 4 : Int) = h.usec % 4294967296 := by
  have fields : header h = Bytes.lowWord h.sec ++ (Bytes.lowWord h.usec ++
      (Bytes.word h.caplen ++ Bytes.word h.len)) := by
    simp only [header, List.append_assoc]
  rw [fields, Layout.field_append _ (by simp) (by simp), Layout.number_written,
    Bytes.ofLittleEndian_lowWord]

theorem field_header_caplen (h : PacketHeader) :
    Layout.written.field (header h) 8 = h.caplen.toNat := by
  have fields : header h = (Bytes.lowWord h.sec ++ Bytes.lowWord h.usec) ++
      (Bytes.word h.caplen ++ Bytes.word h.len) := by
    simp only [header, List.append_assoc]
  rw [fields, Layout.field_append _ (by simp) (by simp), Layout.number_written,
    Bytes.ofLittleEndian_word]

theorem field_header_len (h : PacketHeader) :
    Layout.written.field (header h) 12 = h.len.toNat := by
  rw [← List.append_nil (header h), header, List.append_assoc,
    Layout.field_append _ (by simp) (by simp), Layout.number_written, Bytes.ofLittleEndian_word]

/-- The first record of written bytes is the packet as it is kept. -/
theorem parse_bytes {p : Packet} (whole : IsWhole p) (rest : List UInt8) :
    parse .written (bytes p ++ rest) = .ok (stored p, rest) := by
  have headSize : (header p.header).length = Layout.written.recordHeaderSize := length_header _
  have head : (bytes p ++ rest).splitAt Layout.written.recordHeaderSize =
      (header p.header, p.data.take p.header.caplen.toNat ++ rest) := by
    rw [List.splitAt_eq, bytes, List.append_assoc, List.take_left' headSize,
      List.drop_left' headSize]
  have size : (p.data.take p.header.caplen.toNat).length = p.header.caplen.toNat := by
    rw [List.length_take, Nat.min_eq_left whole]
  have body : (p.data.take p.header.caplen.toNat ++ rest).splitAt p.header.caplen.toNat =
      (p.data.take p.header.caplen.toNat, rest) := by
    rw [List.splitAt_eq, List.take_left' size, List.drop_left' size]
  have plain (fraction : Nat) : Layout.written.microseconds fraction = fraction := rfl
  simp only [parse, head, headSize, Nat.lt_irrefl, if_false, field_header_caplen, body, size, plain,
    field_header_sec, field_header_usec, field_header_len, stored]
  simp

end Record

end RollingCapture.CaptureFile
