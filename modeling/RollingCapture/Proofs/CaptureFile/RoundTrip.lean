import RollingCapture.Proofs.CaptureFile.Opening
import RollingCapture.Proofs.CaptureFile.Writing

/-! What is written to a file that accepts bytes can be read from it again, plain and compressed. The
limit is the window of the reader, which the writer does not know of: a record that takes up more
than the window is written without complaint and cannot be read. -/
namespace RollingCapture.CaptureFile

variable {d : Disk} {path : String} {linkType : LinkType} {snaplen : UInt32} {mode : Compression}
  {packets : List Packet}

/-- A file that was written and completed holds the file header and the records. -/
theorem Writer.exists_complete {e : Entry} {d' : Disk} (opened : d.create path = .ok (e, d'))
    (accepts : e.refuses = false) (whole : ∀ p ∈ packets, Record.IsWhole p) (linkType : LinkType)
    (snaplen : UInt32) (mode : Compression) :
    ∃ w d₁ w' d₂ size bytes, create d path linkType snaplen mode = (.ok w, d₁) ∧
      w.writeAll d₁ packets = (.ok (), w', d₂) ∧ w'.close d₂ = (.ok size, d'.store e bytes) ∧
      mode.Stores bytes.toList
        (FileHeader.write linkType snaplen ++ packets.flatMap Record.bytes) := by
  obtain ⟨w, d₁, w', d₂, bytes, created, written, closed, stores⟩ :=
    exists_closed opened accepts whole linkType snaplen mode
  exact ⟨w, d₁, w', d₂, _, bytes, created, written, closed, stores⟩

namespace Reader

/-- A regular file reads back as it was written, up to the first record that the window cannot hold. -/
theorem written_records_read_back (regular : ∃ id d', d.create path = .ok (.file id, d'))
    (whole : ∀ p ∈ packets, Record.IsWhole p) (linkType : LinkType) (snaplen : UInt32)
    (mode : Compression) (log : Log) :
    ∃ w d₁ w' d₂ size d₃ r, Writer.create d path linkType snaplen mode = (.ok w, d₁) ∧
      w.writeAll d₁ packets = (.ok (), w', d₂) ∧
      w'.close d₂ = (.ok size, d₃) ∧ (w'.abandon d₂ log).1 = d₃ ∧
      ofPath d₃ path = .ok r ∧ r.compression = mode ∧ r.linkType = .ofHandle linkType.code ∧
      r.snaplen = snaplen ∧ r.isNanosecond = false ∧
      ((∀ p ∈ packets, p.header.caplen.toNat ≤ 262127) →
        r.readAll d₃ = .ok (packets.map Record.stored)) ∧
      ∀ before p after, packets = before ++ p :: after →
        (∀ q ∈ before, q.header.caplen.toNat ≤ 262127) → 262128 < p.header.caplen.toNat →
        r.frames d₃ = (before.map Record.stored, some (match mode with
          | .plain => .format path (.reading .recordTooLarge)
          | .lz4 => .compression path (.reading .recordTooLarge))) := by
  obtain ⟨id, d', opened⟩ := regular
  obtain ⟨w, d₁, w', d₂, size, bytes, created, written, closed, stores⟩ :=
    Writer.exists_complete opened rfl whole linkType snaplen mode
  have completed : (w'.abandon d₂ log).1 = d'.store (.file id) bytes := by
    rw [Writer.abandon_fst, closed]
  have named : (d'.store (.file id) bytes).openToRead path = .ok (.file id) :=
    (Disk.extends_store d' _ bytes).openToRead (Disk.openToRead_create opened)
  have content : (d'.store (.file id) bytes).content (.file id) = bytes :=
    Disk.content_store_self (Disk.lt_size_of_create opened)
  rw [← content] at stores
  obtain ⟨r, opens, samePath, kind, header, flow, room⟩ := ofPath_of_stores named stores
  have layout : r.header.layout = .written := by rw [header]
  refine ⟨w, d₁, w', d₂, size, _, r, created, written, closed, completed, opens, kind,
    by rw [Reader.linkType, header], by rw [Reader.snaplen, header],
    by rw [isNanosecond, layout]; rfl, ?_, ?_⟩
  · intro small
    apply readAll_bytes room layout flow
    intro p member
    constructor
    · exact whole p member
    · have := small p member
      simp only [Record.headerSize, capacity]
      omega
  · rintro before p after rfl small large
    have fits (q) (member : q ∈ before) : Record.IsWhole q ∧
        Record.headerSize + q.header.caplen.toNat < capacity := by
      constructor
      · exact whole q (List.mem_append_left _ member)
      · have := small q member
        simp only [Record.headerSize, capacity]
        omega
    have beyond : capacity < Record.headerSize + p.header.caplen.toNat := by
      simp only [Record.headerSize, capacity]
      omega
    have here := whole p (List.mem_append_right _ List.mem_cons_self)
    rw [frames_of_large room layout (by rw [flow]) fits here beyond]
    cases mode with
    | plain => simp only [problem, kind, samePath]
    | lz4 => simp only [problem, kind, samePath]

/-- Times beyond 32 bits and data beyond the kept length, through LZ4. -/
theorem overlong_records_read_back :
    let packets : List Packet :=
      [⟨⟨-1, 1000000, 2, 60⟩, [1, 2, 3]⟩, ⟨⟨4294967298, -1, 0, 9⟩, [4]⟩]
    (∃ id d', Disk.fresh.create "a.pcap" = .ok (.file id, d')) ∧
      (∀ p ∈ packets, Record.IsWhole p) ∧
      ∃ d r, ofPath d "a.pcap" = .ok r ∧ r.compression = .lz4 ∧ r.linkType = ⟨101⟩ ∧
        r.readAll d =
          .ok [⟨⟨4294967295, 1000000, 2, 60⟩, [1, 2]⟩, ⟨⟨2, 4294967295, 0, 9⟩, []⟩] := by
  intro packets
  have regular : ∃ id d', Disk.fresh.create "a.pcap" = .ok (.file id, d') :=
    ⟨0, Disk.exists_of_create (by decide +kernel)⟩
  have whole : ∀ p ∈ packets, Record.IsWhole p := by decide
  obtain ⟨-, -, -, -, -, d, r, -, -, -, -, opens, kind, linkType, -, -, read, -⟩ :=
    written_records_read_back regular whole ⟨12⟩ 65535 .lz4 #[]
  exact ⟨regular, whole, d, r, opens, kind, linkType, read (by decide)⟩

end Reader

end RollingCapture.CaptureFile
