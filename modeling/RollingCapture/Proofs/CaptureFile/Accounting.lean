import RollingCapture.Proofs.CaptureFile.Intake
import RollingCapture.Proofs.Lz4.Decoder
import Mathlib.Tactic.Choose

/-! A plain and a compressed file that the same records are written to. The compressed one is one frame
that stands for the bytes of the plain one. Of either the count of accepted bytes grows by what each call
answers, and ends as the size of the file. -/
namespace RollingCapture.CaptureFile.Writer

variable {w w' : Writer} {d d' : Disk} {p : Packet} {packets before after : List Packet}
  {linkType : LinkType} {snaplen : UInt32} {path : String} {e : Entry}

theorem exists_of_writeAll_cons (ran : w.writeAll d (p :: packets) = (.ok (), w', d')) :
    ∃ size v d₁, w.write d p = (.ok size, v, d₁) ∧ v.writeAll d₁ packets = (.ok (), w', d') := by
  rw [writeAll] at ran
  rcases wrote : w.write d p with ⟨failure | size, v, d₁⟩
  · simp [wrote] at ran
  · rw [wrote] at ran
    exact ⟨size, v, d₁, rfl, ran⟩

theorem exists_of_writeAll_append (ran : w.writeAll d (before ++ after) = (.ok (), w', d')) :
    ∃ v d₁, w.writeAll d before = (.ok (), v, d₁) ∧ v.writeAll d₁ after = (.ok (), w', d') := by
  induction before generalizing w d with
  | nil => exact ⟨w, d, rfl, ran⟩
  | cons p before ih =>
    obtain ⟨size, v, d₁, wrote, rest⟩ := exists_of_writeAll_cons ran
    obtain ⟨v', d₂, first, last⟩ := ih rest
    exact ⟨v', d₂, by rw [writeAll, wrote]; exact first, last⟩

/-- What calls that succeed keep, and by how much they let the count grow. -/
theorem keeps_of_writeAll (ran : w.writeAll d packets = (.ok (), w', d')) :
    w'.compression = w.compression ∧ w'.sink.kind = w.sink.kind ∧ w.bytesWritten ≤ w'.bytesWritten := by
  induction packets generalizing w d with
  | nil =>
    obtain ⟨-, result_eq⟩ := Prod.mk.inj ran
    obtain ⟨rfl, -⟩ := Prod.mk.inj result_eq
    exact ⟨rfl, rfl, Nat.le_refl _⟩
  | cons p packets ih =>
    obtain ⟨size, v, d₁, wrote, rest⟩ := exists_of_writeAll_cons ran
    obtain ⟨compression, kind, more⟩ := ih rest
    have grown := bytesWritten_of_write wrote
    obtain ⟨-, sink, rfl, takes, -⟩ := takes_of_write wrote
    exact ⟨compression, kind.trans takes.kind_eq, by omega⟩

/-- The next of some calls that succeed, and what is known of its answer beforehand. -/
theorem accounts_of_cons (ran : w.writeAll d (p :: packets) = (.ok (), w', d')) :
    ∃ size v d₁, w.write d p = (.ok size, v, d₁) ∧ v.bytesWritten = w.bytesWritten + size ∧
      (w.sink.kind = .plain → w.compression = .plain → w.recordSize? p.header.caplen = some size) := by
  obtain ⟨size, v, d₁, wrote, -⟩ := exists_of_writeAll_cons ran
  refine ⟨size, v, d₁, wrote, bytesWritten_of_write wrote, fun kind plain => ?_⟩
  rw [recordSize?, plain, size_of_write wrote kind]

/-- The count of a file never exceeds the size that it has when it is complete. -/
theorem bytesWritten_le_of_close {size : Nat} (closed : w.close d = (.ok size, d')) :
    w.bytesWritten ≤ size := by
  rcases w.close_cases d with ⟨n, d₁, done, -⟩ | ⟨failure, d₁, failed, -⟩
  · obtain ⟨result_eq, -⟩ := Prod.mk.inj (closed.symm.trans done)
    exact Except.ok.inj result_eq ▸ Nat.le_add_right _ _
  · simp [failed] at closed

/-- Where whole records are written to a file that accepts bytes, in either mode, all calls succeed. The
compressed file is one frame, ended by its end mark, that decodes to the plain file. The size that is
answered is that of the file. On the way the count of accepted bytes is never larger, and each answer is by
how much it grows. For a plain file the answer is known beforehand. -/
theorem compressed_file_stands_for_plain (opened : d.create path = .ok (e, d'))
    (accepts : e.refuses = false) (whole : ∀ p ∈ packets, Record.IsWhole p) (linkType : LinkType)
    (snaplen : UInt32) :
    ∃ file : Compression → Array UInt8,
      (file .plain).toList = FileHeader.write linkType snaplen ++ packets.flatMap Record.bytes ∧
      Lz4.Frame.Encodes (file .lz4).toList (file .plain).toList ∧
      Lz4.Decoder.contentOf (file .lz4).toList = some (file .plain) ∧
      ∀ mode, ∃ w d₁ w' d₂, create d path linkType snaplen mode = (.ok w, d₁) ∧
        w.writeAll d₁ packets = (.ok (), w', d₂) ∧
        w'.close d₂ = (.ok (file mode).size, d'.store e (file mode)) ∧
        (∀ id, e = .file id → (d'.store e (file mode)).content e = file mode) ∧
        ∀ before after, packets = before ++ after → ∃ v d₃,
          w.writeAll d₁ before = (.ok (), v, d₃) ∧ v.bytesWritten ≤ (file mode).size ∧
          ∀ p rest, after = p :: rest → ∃ size v' d₄, v.write d₃ p = (.ok size, v', d₄) ∧
            v'.bytesWritten = v.bytesWritten + size ∧
            (mode = .plain → v.recordSize? p.header.caplen = some size) := by
  have runs (mode : Compression) := exists_closed opened accepts whole linkType snaplen mode
  choose w d₁ w' d₂ file created written closed stores using runs
  have plain : (file .plain).toList = _ := stores .plain
  have encodes : Lz4.Frame.Encodes (file .lz4).toList (file .plain).toList := by
    rw [plain]
    exact stores .lz4
  refine ⟨file, plain, encodes, Lz4.Decoder.contentOf_eq encodes, fun mode =>
    ⟨w mode, d₁ mode, w' mode, d₂ mode, created mode, written mode, closed mode, ?_, ?_⟩⟩
  · rintro id rfl
    exact Disk.content_store_self (Disk.lt_size_of_create opened)
  · rintro before after rfl
    obtain ⟨v, d₃, first, last⟩ := exists_of_writeAll_append (written mode)
    obtain ⟨compression, kind, -⟩ := keeps_of_writeAll first
    have most := bytesWritten_le_of_close (closed mode)
    refine ⟨v, d₃, first, Nat.le_trans (keeps_of_writeAll last).2.2 most, ?_⟩
    rintro p rest rfl
    obtain ⟨size, v', d₄, wrote, grown, known⟩ := accounts_of_cons last
    obtain ⟨sink, -, -, -, w_eq, kind', -⟩ := exists_of_create (created mode)
    refine ⟨size, v', d₄, wrote, grown, fun plain => known ?_ ?_⟩
    · rw [kind, w_eq]
      exact kind'.trans plain
    · rw [compression, w_eq]
      exact plain

/-- Two packets that fill a block and a part of the next one. -/
theorem compressed_file_of_two_blocks :
    let packets : List Packet :=
      [⟨⟨-1, 0, 40000, 40000⟩, List.replicate 40000 7⟩, ⟨⟨0, 0, 40000, 40000⟩, List.replicate 40000 8⟩]
    (∃ d', Disk.fresh.create "a.pcap" = .ok (.file 0, d')) ∧ (∀ p ∈ packets, Record.IsWhole p) ∧
      ∃ file : Compression → Array UInt8, (file .plain).size = 80056 ∧
        Lz4.Decoder.contentOf (file .lz4).toList = some (file .plain) ∧
        ∀ mode, ∃ w d₁ w' d₂, create Disk.fresh "a.pcap" .ethernet 65535 mode = (.ok w, d₁) ∧
          w.writeAll d₁ packets = (.ok (), w', d₂) ∧ (w'.close d₂).1 = .ok (file mode).size := by
  intro packets
  have regular : ∃ d', Disk.fresh.create "a.pcap" = .ok (.file 0, d') :=
    Disk.exists_of_create (by decide +kernel)
  have whole : ∀ p ∈ packets, Record.IsWhole p := by
    simp only [packets, List.mem_cons, List.not_mem_nil, or_false, forall_eq_or_imp, forall_eq,
      Record.IsWhole, List.length_replicate]
    decide
  obtain ⟨d', opened⟩ := regular
  obtain ⟨file, plain, -, decoded, each⟩ :=
    compressed_file_stands_for_plain opened rfl whole .ethernet 65535
  refine ⟨⟨d', opened⟩, whole, file, ?_, decoded, fun mode => ?_⟩
  · have first := Record.length_bytes (whole _ List.mem_cons_self)
    have second := Record.length_bytes (whole _ (List.mem_cons_of_mem _ List.mem_cons_self))
    have size := congrArg List.length plain
    rw [Array.length_toList, List.length_append, FileHeader.length_write, List.flatMap_cons,
      List.length_append, List.flatMap_cons, List.length_append, first, second] at size
    exact size
  · obtain ⟨w, d₁, w', d₂, created, written, closed, -⟩ := each mode
    exact ⟨w, d₁, w', d₂, created, written, by rw [closed]⟩

end RollingCapture.CaptureFile.Writer
