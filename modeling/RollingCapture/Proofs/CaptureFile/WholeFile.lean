import RollingCapture.Proofs.CaptureFile.Transparency

/-! A file that is not compressed reads as a parser says that has all bytes before it at once: nothing
depends on how the reads cut the file, or on where its records lie in the window. The parser is said
without the layouts and windows of the reader. It tells files apart by the number that they begin with. -/
namespace RollingCapture.CaptureFile

namespace WholeFile

/-- The numbers that capture files begin with, when read with the lowest byte first. -/
def numbers : List Nat := [0xa1b2c3d4, 0xa1b23c4d, 0xd4c3b2a1, 0x4d3cb2a1, 0xa1b2cd34]

def number (bytes : List UInt8) : Nat := Bytes.ofLittleEndian (bytes.take 4)

/-- A field of a file that begins with the number `n`. Two of the numbers are those of files which have
the highest byte first. -/
def word (n : Nat) (bytes : List UInt8) (pos : Nat) : Nat :=
  let field := (bytes.drop pos).take 4
  if n = 0xd4c3b2a1 ∨ n = 0x4d3cb2a1 then Bytes.ofBigEndian field else Bytes.ofLittleEndian field

def headerSize (n : Nat) : Nat := if n = 0xa1b2cd34 then 24 else 16

def recordSize (n : Nat) (bytes : List UInt8) : Nat := headerSize n + word n bytes 8

/-- The record that some bytes begin with. Files with two of the numbers count nanoseconds. -/
def record (n : Nat) (bytes : List UInt8) : Packet :=
  let fraction := word n bytes 4
  let micros := if n = 0xa1b23c4d ∨ n = 0x4d3cb2a1 then fraction / 1000 else fraction
  { header :=
      { sec := word n bytes 0
        usec := micros
        caplen := (word n bytes 8).toUInt32
        len := (word n bytes 12).toUInt32 }
    data := (bytes.take (recordSize n bytes)).drop (headerSize n) }

/-- The records that are whole, and the bytes behind them. -/
def parse (n : Nat) (bytes : List UInt8) : List Packet × List UInt8 :=
  if recordSize n bytes ≤ bytes.length then
    let later := parse n (bytes.drop (recordSize n bytes))
    (record n bytes :: later.1, later.2)
  else ([], bytes)
  termination_by bytes.length
  decreasing_by
    have : 0 < headerSize n := by unfold headerSize; split <;> decide
    rw [recordSize] at *
    rw [List.length_drop]
    omega

variable {n : Nat} {bytes rest : List UInt8} {p : Packet} {packets : List Packet} {layout : Layout}

theorem parse_of_le (whole : recordSize n bytes ≤ bytes.length) :
    parse n bytes = (record n bytes :: (parse n (bytes.drop (recordSize n bytes))).1,
      (parse n (bytes.drop (recordSize n bytes))).2) := by
  rw [parse, if_pos whole]

theorem parse_of_lt (short : bytes.length < recordSize n bytes) : parse n bytes = ([], bytes) := by
  rw [parse, if_neg (Nat.not_le.2 short)]

theorem word_lt (n : Nat) (bytes : List UInt8) (pos : Nat) : word n bytes pos < 4294967296 := by
  have small (field : List UInt8) (length : field.length ≤ 4) :
      Bytes.ofLittleEndian field < 4294967296 := by
    have below := Bytes.ofLittleEndian_lt field
    have widths : ∀ width ≤ 4, Bytes.span width ≤ 4294967296 := by decide
    exact Nat.lt_of_lt_of_le below (widths _ length)
  have length : ((bytes.drop pos).take 4).length ≤ 4 := List.length_take_le _ _
  unfold word
  split
  · exact small _ (by rw [List.length_reverse]; exact length)
  · exact small _ length

theorem length_data (whole : recordSize n bytes ≤ bytes.length) :
    (record n bytes).data.length = word n bytes 8 ∧
      (record n bytes).header.caplen.toNat = (record n bytes).data.length := by
  have length : (record n bytes).data.length = word n bytes 8 := by
    simp only [record, List.length_drop, List.length_take, Nat.min_eq_left whole]
    rw [recordSize, Nat.add_sub_cancel_left]
  refine ⟨length, ?_⟩
  rw [length]
  exact UInt32.toNat_ofNat_of_lt' (word_lt n bytes 8)

theorem caplen_of_parse (parsed : parse n bytes = (packets, rest)) :
    ∀ p ∈ packets, p.header.caplen.toNat = p.data.length := by
  induction bytes using parse.induct n generalizing packets with
  | case1 bytes whole ih =>
    rw [parse_of_le whole] at parsed
    obtain ⟨rfl, behind⟩ := Prod.mk.inj parsed
    exact List.forall_mem_cons.2 ⟨(length_data whole).2, ih (Prod.ext rfl behind)⟩
  | case2 bytes short =>
    rw [parse_of_lt (Nat.not_le.1 short)] at parsed
    obtain ⟨rfl, -⟩ := Prod.mk.inj parsed
    exact List.forall_mem_nil _

/-! The parser against the layouts. -/

theorem mem_numbers_iff : n ∈ numbers ↔ ∃ layout, Layout.magics.lookup n = some layout := by
  rw [← Option.isSome_iff_exists, ← Option.ne_none_iff_isSome, ne_eq, List.lookup_eq_none_iff]
  simp only [numbers, Layout.magics, magic, List.mem_cons, List.not_mem_nil, or_false, forall_eq_or_imp,
    forall_eq, bne_iff_ne, ne_eq]
  grind

/-- The layout that belongs to a number says the same as the number. -/
theorem of_lookup (known : Layout.magics.lookup n = some layout) :
    (layout.bigEndian ↔ n = 0xd4c3b2a1 ∨ n = 0x4d3cb2a1) ∧
      (layout.nanosecond ↔ n = 0xa1b23c4d ∨ n = 0x4d3cb2a1) ∧ (layout.wide ↔ n = 0xa1b2cd34) := by
  have member : n ∈ numbers := mem_numbers_iff.2 ⟨layout, known⟩
  simp only [numbers, List.mem_cons, List.not_mem_nil, or_false] at member
  rcases member with rfl | rfl | rfl | rfl | rfl <;>
    (obtain rfl := Option.some.inj known; decide)

theorem recordHeaderSize_eq (known : Layout.magics.lookup n = some layout) :
    layout.recordHeaderSize = headerSize n := by
  simp only [Layout.recordHeaderSize, headerSize, of_lookup known]

theorem field_eq (known : Layout.magics.lookup n = some layout) {pos : Nat} (inside : pos + 4 ≤ 16) :
    layout.field (bytes.take (headerSize n)) pos = word n bytes pos := by
  have least : 16 ≤ headerSize n := by
    unfold headerSize
    split <;> decide
  have cut : ((bytes.take (headerSize n)).drop pos).take 4 = (bytes.drop pos).take 4 := by
    rw [List.drop_take, List.take_take, Nat.min_eq_left (by omega)]
  simp only [Layout.field, cut, Layout.number, word, of_lookup known]

theorem total_eq (known : Layout.magics.lookup n = some layout) :
    Record.total layout bytes = recordSize n bytes := by
  rw [Record.total, recordHeaderSize_eq known, field_eq known (by decide), recordSize]

theorem first_eq (known : Layout.magics.lookup n = some layout) :
    Record.first layout bytes = record n bytes := by
  have fields (pos : Nat) (inside : pos + 4 ≤ 16) :
      layout.field (bytes.take (headerSize n)) pos = word n bytes pos := field_eq known inside
  simp only [Record.first, record, total_eq known, recordHeaderSize_eq known, fields 0 (by decide),
    fields 4 (by decide), fields 8 (by decide), fields 12 (by decide), Layout.microseconds,
    of_lookup known]

/-- Where no record is too large for the window, the reader looks for the records of the parser. -/
theorem records_eq (known : Layout.magics.lookup n = some layout) (given : parse n bytes = (packets, rest))
    (fits : ∀ p ∈ packets, headerSize n + p.data.length < Reader.capacity)
    (last : headerSize n ≤ rest.length → recordSize n rest < Reader.capacity) :
    Reader.records layout bytes = (packets, if rest = [] then none else some .truncatedRecord) := by
  induction bytes using parse.induct n generalizing packets with
  | case1 bytes whole ih =>
    rw [parse_of_le whole] at given
    obtain ⟨rfl, behind⟩ := Prod.mk.inj given
    have size := fits _ List.mem_cons_self
    rw [(length_data whole).1, ← recordSize] at size
    have parsed : Record.parse layout bytes = .ok (record n bytes, bytes.drop (recordSize n bytes)) := by
      have header : ¬ bytes.length < layout.recordHeaderSize := by
        rw [recordHeaderSize_eq known]
        rw [recordSize] at whole
        omega
      rw [Record.parse_eq, if_neg header, total_eq known, if_neg (Nat.not_lt.2 whole), first_eq known]
    rw [Reader.records_of_parse parsed, total_eq known, if_neg (Nat.not_lt.2 (Nat.le_of_lt size)),
      ih (Prod.ext rfl behind) fun p member => fits p (List.mem_cons_of_mem _ member)]
  | case2 bytes short =>
    have short := Nat.not_le.1 short
    rw [parse_of_lt short] at given
    obtain ⟨rfl, rfl⟩ := Prod.mk.inj given
    have empty : bytes.isEmpty = decide (bytes = []) := by cases bytes <;> rfl
    by_cases header : bytes.length < layout.recordHeaderSize
    · have lacking : Record.parse layout bytes = .error .header := by
        rw [Record.parse_eq, if_pos header]
      rw [Reader.records_of_shortage lacking, empty]
      simp [Reader.neverFits]
    · have lacking : Record.parse layout bytes = .error (.data (recordSize n bytes)) := by
        rw [Record.parse_eq, if_neg header, total_eq known, if_pos short]
      have small := last (by rw [← recordHeaderSize_eq known]; omega)
      rw [Reader.records_of_shortage lacking, empty]
      simp [Reader.neverFits, small]

end WholeFile

namespace FileHeader

variable {bytes window : List UInt8} {header : FileHeader}

theorem lookup_of_parse (parsed : parse bytes = .ok (header, window)) :
    Layout.magics.lookup (WholeFile.number bytes) = some header.layout := by
  have start : (bytes.take fileHeaderSize).take 4 = bytes.take 4 := List.take_take ..
  simp only [parse, List.splitAt_eq, start] at parsed
  split at parsed
  · contradiction
  · split at parsed
    · contradiction
    · rename_i layout known
      split at parsed
      · contradiction
      · obtain ⟨rfl, -⟩ := Prod.mk.inj (Except.ok.inj parsed)
        exact known

/-- Of a file header only the length and the number in front decide whether it is one. -/
theorem exists_parse_iff :
    (∃ parsed, parse bytes = .ok parsed) ↔
      24 ≤ bytes.length ∧ WholeFile.number bytes ∈ WholeFile.numbers := by
  rw [WholeFile.mem_numbers_iff]
  constructor
  · rintro ⟨⟨header, window⟩, parsed⟩
    exact ⟨length_of_parse parsed, _, lookup_of_parse parsed⟩
  · rintro ⟨long, layout, known⟩
    have start : (bytes.take fileHeaderSize).take 4 = bytes.take 4 := List.take_take ..
    have size : (bytes.take fileHeaderSize).length = fileHeaderSize := List.length_take_of_le long
    rw [WholeFile.number] at known
    simp only [parse, List.splitAt_eq, start, known, size, Nat.lt_irrefl]
    exact ⟨_, rfl⟩

end FileHeader

namespace Reader

variable {d : Disk} {path : String} {id : Nat} {bytes : List UInt8}

/-- A plain file opens if it is as long as a file header and begins with one of the numbers of capture
files. If no record of it is as large as the window, the reader answers with the records of the parser,
and then for good with the end, or with what says that the last record is cut. -/
theorem plain_file_reads_as_parsed (opened : d.openToRead path = .ok (.file id))
    (content_eq : (d.content (.file id)).toList = bytes) (unframed : ¬ Lz4.Frame.magic <+: bytes) :
    ((∃ r, ofPath d path = .ok r) ↔
      24 ≤ bytes.length ∧ WholeFile.number bytes ∈ WholeFile.numbers) ∧
    ∀ r, ofPath d path = .ok r → ∀ packets rest,
      WholeFile.parse (WholeFile.number bytes) (bytes.drop 24) = (packets, rest) →
      (∀ p ∈ packets, WholeFile.headerSize (WholeFile.number bytes) + p.data.length < 262144) →
      (WholeFile.headerSize (WholeFile.number bytes) ≤ rest.length →
        WholeFile.recordSize (WholeFile.number bytes) rest < 262144) →
      (∀ p ∈ packets, p.header.caplen.toNat = p.data.length) ∧
      ∃ cut : Error, cut = .format path (.reading .truncatedRecord) ∧
        cut.message = path ++ ": truncated record" ∧
        ∀ n, r.answers d n = (packets.map (fun p => Except.ok (some p)) ++
          List.replicate n (if rest = [] then Except.ok none else Except.error cut)).take n := by
  obtain ⟨opens, fronts⟩ := ofPath_plain opened content_eq unframed
  refine ⟨opens.trans FileHeader.exists_parse_iff, fun r found packets rest parsed fits last => ?_⟩
  obtain ⟨front, flow⟩ := fronts r found
  have known := FileHeader.lookup_of_parse front.header
  have records : records r.header.layout (bytes.drop fileHeaderSize) = _ :=
    WholeFile.records_eq known parsed fits last
  have truncated : r.problem .truncatedRecord = .format path (.reading .truncatedRecord) := by
    rw [problem, front.compression, front.path]
  have frames : r.frames d = (packets, if rest = [] then none
      else some (.format path (.reading .truncatedRecord))) := by
    rw [frames_eq_records front.room flow, records, ← truncated]
    · split <;> rfl
    · intro p member
      rw [records] at member
      rw [WholeFile.recordHeaderSize_eq known]
      exact Nat.ne_of_lt (fits p member)
  have steady : r.Steady d := .inl ((isPlain_of_ofPath found).2 front.compression)
  refine ⟨WholeFile.caplen_of_parse parsed, _, rfl, ?_, fun n => ?_⟩
  · have joined : ": " ++ "truncated record" = ": truncated record" := by decide
    rw [← joined, ← String.append_assoc]
    rfl
  · rw [steady.answers_eq, frames]
    split <;> rfl

/-- The file has the highest byte first and counts nanoseconds. Its second record lacks six bytes. -/
theorem cut_file_reads_as_parsed :
    let header : List UInt8 := [0xa1, 0xb2, 0x3c, 0x4d] ++ List.replicate 20 0
    let whole : List UInt8 := [0, 0, 0, 1, 0, 0, 7, 208, 0, 0, 0, 3, 0, 0, 0, 9] ++ [5, 6, 7]
    let last : List UInt8 := [0, 0, 0, 2, 0, 0, 0, 0, 0, 0, 0, 10, 0, 0, 0, 10] ++ [1, 2, 3, 4]
    let disk := Disk.fresh.addFileWith "a.pcap" (header ++ whole ++ last).toArray
    ∃ r, ofPath disk "a.pcap" = .ok r ∧
      r.answers disk 4 = [.ok (some ⟨⟨1, 2, 3, 9⟩, [5, 6, 7]⟩),
        .error (.format "a.pcap" (.reading .truncatedRecord)),
        .error (.format "a.pcap" (.reading .truncatedRecord)),
        .error (.format "a.pcap" (.reading .truncatedRecord))] := by
  intro header whole last disk
  have opened : disk.openToRead "a.pcap" = .ok (.file 0) := Disk.eq_ok_of_toOption (by decide +kernel)
  have holds : (disk.content (.file 0)).toList = header ++ whole ++ last := by decide +kernel
  obtain ⟨opens, reads⟩ := plain_file_reads_as_parsed opened holds (by decide +kernel)
  obtain ⟨r, found⟩ := opens.2 (by decide +kernel)
  have number : WholeFile.number (header ++ whole ++ last) = 0x4d3cb2a1 := by decide +kernel
  have parsed : WholeFile.parse 0x4d3cb2a1 ((header ++ whole ++ last).drop 24) =
      ([⟨⟨1, 2, 3, 9⟩, [5, 6, 7]⟩], last) := by decide +kernel
  rw [number] at reads
  obtain ⟨-, _, rfl, -, answers⟩ := reads r found _ _ parsed (by decide +kernel)
    (by decide +kernel)
  exact ⟨r, found, answers 4⟩

end Reader

end RollingCapture.CaptureFile
