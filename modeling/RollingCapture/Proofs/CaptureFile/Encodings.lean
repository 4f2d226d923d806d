import RollingCapture.Proofs.CaptureFile.Transparency

/-! One capture in the five encodings of capture files, which differ in byte order, in the unit of time
and in the size of a record header. All of them read the same. The encodings are said without the layouts
of the reader. -/
namespace RollingCapture.CaptureFile

/-- A packet as a capture knows it, whatever file keeps it. -/
structure Sample where
  sec : UInt32
  usec : UInt32
  /-- How long the packet was, of which the data may be a part. -/
  len : UInt32
  data : List UInt8
  deriving DecidableEq, Repr

namespace Sample

/-- The window holds the record under any header, and the nanoseconds fit their field. -/
structure IsSmall (s : Sample) : Prop where
  data : s.data.length ≤ 262119
  usec : s.usec.toNat ≤ 4294966

instance (s : Sample) : Decidable s.IsSmall :=
  decidable_of_iff (s.data.length ≤ 262119 ∧ s.usec.toNat ≤ 4294966)
    ⟨fun small => ⟨small.1, small.2⟩, fun small => ⟨small.data, small.usec⟩⟩

def packet (s : Sample) : Packet where
  header := { sec := s.sec.toNat, usec := s.usec.toNat, caplen := s.data.length.toUInt32, len := s.len }
  data := s.data

end Sample

structure Recording where
  linkType : LinkType
  snaplen : UInt32
  samples : List Sample
  deriving DecidableEq, Repr

inductive Encoding where
  | little | big | littleNano | bigNano
  /-- The lowest byte first, and with more in a record header than is of use. -/
  | modified
  deriving DecidableEq, Repr

/-- What a capture leaves open in a record: how far the nanoseconds go beyond the microseconds, and the
bytes of no use. -/
structure Slack where
  beyond : Fin 1000
  unused : Vector UInt8 8

namespace Encoding

def isBig : Encoding → Bool
  | big | bigNano => true
  | _ => false

def isNano : Encoding → Bool
  | littleNano | bigNano => true
  | _ => false

def isWide : Encoding → Bool
  | modified => true
  | _ => false

def number : Encoding → Nat
  | little | big => 0xa1b2c3d4
  | littleNano | bigNano => 0xa1b23c4d
  | modified => 0xa1b2cd34

def word (e : Encoding) (n : Nat) : List UInt8 :=
  if e.isBig then (Bytes.littleEndian 4 n).reverse else Bytes.littleEndian 4 n

/-- What is written for the time within the second. -/
def fraction (e : Encoding) (s : Sample) (slack : Slack) : Nat :=
  if e.isNano then 1000 * s.usec.toNat + slack.beyond else s.usec.toNat

def recordHeader (e : Encoding) (s : Sample) (slack : Slack) : List UInt8 :=
  e.word s.sec.toNat ++ (e.word (e.fraction s slack) ++ (e.word s.data.length ++
    (e.word s.len.toNat ++ if e.isWide then slack.unused.toList else [])))

inductive Records (e : Encoding) : List Sample → List UInt8 → Prop
  | nil : Records e [] []
  | cons {s : Sample} {samples : List Sample} {rest : List UInt8} (slack : Slack) :
      Records e samples rest →
      Records e (s :: samples) (e.recordHeader s slack ++ s.data ++ rest)

/-- The file header. The version, the time zone and the accuracy of time stamps are of no use. -/
def fileHeader (e : Encoding) (c : Recording) (unused : Vector UInt8 12) : List UInt8 :=
  e.word e.number ++ (unused.toList ++ (e.word c.snaplen.toNat ++
    e.word c.linkType.code.toUInt32.toNat))

/-- The bytes are a file of the capture. -/
def Keeps (e : Encoding) (c : Recording) (bytes : List UInt8) : Prop :=
  ∃ unused body, bytes = e.fileHeader c unused ++ body ∧ e.Records c.samples body

/-- The file at `path` is one of the capture. -/
def KeptAt (e : Encoding) (c : Recording) (d : Disk) (path : String) : Prop :=
  ∃ id, d.openToRead path = .ok (.file id) ∧ e.Keeps c (d.content (.file id)).toList

def layout (e : Encoding) : Layout := ⟨e.isBig, e.isNano, e.isWide⟩

variable {e : Encoding} {c : Recording} {s t : Sample} {slack : Slack} {bytes body rest : List UInt8}
  {samples : List Sample} {n : Nat}

@[simp] theorem length_word (e : Encoding) (n : Nat) : (e.word n).length = 4 := by
  unfold word
  split
  · rw [List.length_reverse, Bytes.length_littleEndian]
  · exact Bytes.length_littleEndian 4 n

theorem number_word (e : Encoding) {n : Nat} (fits : n < 4294967296) :
    e.layout.number (e.word n) = n := by
  have ofLittleEndian_eq : Bytes.ofLittleEndian (Bytes.littleEndian 4 n) = n := by
    rw [Bytes.ofLittleEndian_littleEndian]
    exact Nat.mod_eq_of_lt fits
  unfold Layout.number word layout
  cases e.isBig with
  | false => exact ofLittleEndian_eq
  | true => exact (congrArg Bytes.ofLittleEndian (List.reverse_reverse _)).trans ofLittleEndian_eq

/-- The number in front tells the encodings apart. -/
theorem lookup_number (e : Encoding) :
    Layout.magics.lookup (Bytes.ofLittleEndian (e.word e.number)) = some e.layout := by
  cases e <;> decide

theorem length_recordHeader (e : Encoding) (s : Sample) (slack : Slack) :
    (e.recordHeader s slack).length = e.layout.recordHeaderSize := by
  unfold recordHeader Layout.recordHeaderSize layout
  cases e.isWide <;> simp

theorem field_word (e : Encoding) {front back : List UInt8} {pos n : Nat} (at' : front.length = pos)
    (fits : n < 4294967296) : e.layout.field (front ++ (e.word n ++ back)) pos = n := by
  rw [Layout.field_append back at' (e.length_word n), e.number_word fits]

theorem fraction_lt (small : s.IsSmall) : e.fraction s slack < 4294967296 := by
  have below := slack.beyond.isLt
  have usec := small.usec
  unfold fraction
  split <;> omega

/-- Microseconds are read, whatever was written. -/
theorem microseconds_fraction (e : Encoding) (s : Sample) (slack : Slack) :
    e.layout.microseconds (e.fraction s slack) = s.usec.toNat := by
  have below := slack.beyond.isLt
  unfold Layout.microseconds fraction layout
  cases e.isNano with
  | false => rfl
  | true =>
    simp only [if_true]
    omega

/-- The size of a record is in its header, before the data. -/
theorem total_recordHeader (e : Encoding) (slack : Slack) (small : s.IsSmall) (more : List UInt8) :
    Record.total e.layout (e.recordHeader s slack ++ more) =
      e.layout.recordHeaderSize + s.data.length := by
  have fits : s.data.length < 4294967296 := Nat.lt_of_le_of_lt small.data (by decide)
  rw [Record.total, List.take_left' (length_recordHeader e s slack), recordHeader, ← List.append_assoc,
    e.field_word (by simp) fits]

theorem parse_record (small : s.IsSmall) (rest : List UInt8) :
    Record.parse e.layout (e.recordHeader s slack ++ s.data ++ rest) = .ok (s.packet, rest) := by
  have header := length_recordHeader e s slack
  have total := total_recordHeader e slack small (s.data ++ rest)
  have fits : s.data.length < 4294967296 := Nat.lt_of_le_of_lt small.data (by decide)
  have sec : e.layout.field (e.recordHeader s slack) 0 = s.sec.toNat :=
    e.field_word List.length_nil s.sec.toNat_lt
  have usec : e.layout.field (e.recordHeader s slack) 4 = e.fraction s slack :=
    e.field_word (e.length_word _) (fraction_lt small)
  have caplen : e.layout.field (e.recordHeader s slack) 8 = s.data.length := by
    rw [recordHeader, ← List.append_assoc]
    exact e.field_word (by simp) fits
  have len : e.layout.field (e.recordHeader s slack) 12 = s.len.toNat := by
    rw [recordHeader, ← List.append_assoc, ← List.append_assoc]
    exact e.field_word (by simp) s.len.toNat_lt
  have data : (e.recordHeader s slack ++ s.data).length =
      e.layout.recordHeaderSize + s.data.length := by
    rw [List.length_append, header]
  rw [List.append_assoc, Record.parse_eq, total, if_neg, if_neg]
  · rw [Record.first, total, List.take_left' header, sec, usec, caplen, len, microseconds_fraction,
      ← List.append_assoc, List.take_left' data, List.drop_left' data, List.drop_left' header]
    simp [Sample.packet]
  · simp only [List.length_append, header]
    omega
  · simp only [List.length_append, header]
    omega

/-- The reader looks for just the packets of a capture. -/
theorem records_eq (records : e.Records samples body) (small : ∀ s ∈ samples, s.IsSmall) :
    Reader.records e.layout body = (samples.map Sample.packet, none) := by
  induction records with
  | nil => rw [Reader.records_of_shortage (Record.parse_nil _)]; rfl
  | @cons s samples rest slack records ih =>
    have first := small s List.mem_cons_self
    have window : Record.total e.layout (e.recordHeader s slack ++ s.data ++ rest) ≤ Reader.capacity := by
      have header := e.layout.recordHeaderSize_le
      have data := first.data
      rw [List.append_assoc, total_recordHeader e slack first, Reader.capacity]
      omega
    rw [Reader.records_of_parse (parse_record first rest), if_neg (Nat.not_lt.2 window),
      ih fun t member => small t (List.mem_cons_of_mem s member)]
    rfl

/-! The files of a capture. -/

variable {d : Disk} {path : String}

theorem length_fileHeader (e : Encoding) (c : Recording) (unused : Vector UInt8 12) :
    (e.fileHeader c unused).length = fileHeaderSize := by
  simp [fileHeader, fileHeaderSize]

theorem unframed (keeps : e.Keeps c bytes) : ¬ Lz4.Frame.magic <+: bytes := by
  obtain ⟨unused, body, rfl, -⟩ := keeps
  rw [fileHeader, List.append_assoc]
  rintro ⟨more, magic_eq⟩
  have start : Lz4.Frame.magic = e.word e.number := List.append_inj_left magic_eq (e.length_word _).symm
  cases e <;> exact absurd start (by decide)

theorem parse_fileHeader (e : Encoding) (c : Recording) (unused : Vector UInt8 12) (body : List UInt8) :
    FileHeader.parse (e.fileHeader c unused ++ body) = .ok (⟨e.layout, c.snaplen, c.linkType⟩, body) := by
  have size := length_fileHeader e c unused
  have number : (e.fileHeader c unused).take 4 = e.word e.number := List.take_left' (e.length_word _)
  have snaplen : e.layout.field (e.fileHeader c unused) 16 = c.snaplen.toNat := by
    rw [fileHeader, ← List.append_assoc]
    exact e.field_word (by simp) c.snaplen.toNat_lt
  have linkType : e.layout.field (e.fileHeader c unused) 20 = c.linkType.code.toUInt32.toNat := by
    have last : e.fileHeader c unused = (e.word e.number ++ unused.toList ++ e.word c.snaplen.toNat) ++
        (e.word c.linkType.code.toUInt32.toNat ++ []) := by
      simp only [fileHeader, List.append_assoc, List.append_nil]
    rw [last]
    exact e.field_word (by simp) c.linkType.code.toUInt32.toNat_lt
  simp only [FileHeader.parse, List.splitAt_eq, List.take_left' size, List.drop_left' size, size, number,
    lookup_number, snaplen, linkType]
  simp [fileHeaderSize]

/-- The window has room to spare for every record. -/
theorem lt_capacity (e : Encoding) {p : Packet} (small : ∀ s ∈ samples, s.IsSmall)
    (member : p ∈ samples.map Sample.packet) :
    e.layout.recordHeaderSize + p.data.length < Reader.capacity := by
  obtain ⟨s, inside, rfl⟩ := List.mem_map.1 member
  have header := e.layout.recordHeaderSize_le
  have data : s.packet.data.length ≤ 262119 := (small s inside).data
  rw [Reader.capacity]
  omega

/-- A file of a capture opens, says what the capture says, and has all its records to give. -/
theorem exists_ofPath (kept : e.KeptAt c d path) (small : ∀ s ∈ c.samples, s.IsSmall) :
    ∃ r id body, Reader.ofPath d path = .ok r ∧ r.header = ⟨e.layout, c.snaplen, c.linkType⟩ ∧
      d.openToRead path = .ok (.file id) ∧ r.Feeds d (.file id) [] body ∧ e.Records c.samples body ∧
      r.readAll d = .ok (c.samples.map Sample.packet) := by
  obtain ⟨id, opened, keeps⟩ := kept
  have plain := unframed keeps
  obtain ⟨unused, body, content_eq, records⟩ := keeps
  rw [content_eq] at plain
  obtain ⟨opens, fronts⟩ := Reader.ofPath_plain opened content_eq plain
  have parsed := parse_fileHeader e c unused body
  obtain ⟨r, found⟩ := opens.2 ⟨_, parsed⟩
  obtain ⟨front, flow⟩ := fronts r found
  have feeds := Reader.feeds_of_plain opened content_eq plain found
  rw [List.drop_left' (length_fileHeader e c unused)] at flow feeds
  have header : r.header = ⟨e.layout, c.snaplen, c.linkType⟩ :=
    (Prod.mk.inj (Except.ok.inj (front.header.symm.trans parsed))).1
  have recorded : Reader.records r.header.layout body = (c.samples.map Sample.packet, none) := by
    rw [header]
    exact records_eq records small
  have frames : r.frames d = (c.samples.map Sample.packet, none) := by
    rw [Reader.frames_eq_records front.room flow, recorded]
    · rfl
    · intro p member
      rw [recorded] at member
      rw [header]
      exact Nat.ne_of_lt (lt_capacity e small member)
  exact ⟨r, id, body, found, header, opened, feeds, records, by rw [Reader.readAll, frames]⟩

/-- Of a record that is cut off something is missing, but not too much for the window. -/
theorem exists_shortage_of_take (slack : Slack) (rest : List UInt8) (small : s.IsSmall)
    (few : n < e.layout.recordHeaderSize + s.data.length) :
    ∃ shortage, Record.parse e.layout ((e.recordHeader s slack ++ s.data ++ rest).take n) =
      .error shortage ∧ Reader.neverFits shortage = false := by
  have header := length_recordHeader e s slack
  rw [List.append_assoc, Record.parse_eq]
  split
  · exact ⟨_, rfl, rfl⟩
  · rename_i enough
    rw [List.length_take, Nat.not_lt] at enough
    have front : (e.recordHeader s slack ++ (s.data ++ rest)).take n =
        e.recordHeader s slack ++ (s.data ++ rest).take (n - e.layout.recordHeaderSize) := by
      rw [List.take_append, header, List.take_of_length_le (by omega)]
    have total := total_recordHeader e slack small
      ((s.data ++ rest).take (n - e.layout.recordHeaderSize))
    rw [← front] at total
    have size := e.layout.recordHeaderSize_le
    have data := small.data
    rw [total, if_pos (by rw [List.length_take]; omega)]
    refine ⟨_, rfl, ?_⟩
    exact decide_eq_false (by rw [Reader.capacity]; omega)

theorem nextFrame_of_take {r : Reader} (slack : Slack) (rest : List UInt8)
    (layout : r.header.layout = e.layout) (room : r.window.length ≤ Reader.capacity)
    (flow : r.flow d = ((e.recordHeader s slack ++ s.data ++ rest).take n, none)) (small : s.IsSmall)
    (positive : 0 < n) (few : n < e.layout.recordHeaderSize + s.data.length) :
    (r.nextFrame d).1 = .error (r.problem .truncatedRecord) := by
  obtain ⟨shortage, short, fits⟩ := exists_shortage_of_take slack rest small few
  have header := e.layout.recordHeaderSize_pos
  have part : ((e.recordHeader s slack ++ s.data ++ rest).take n).isEmpty = false := by
    rw [List.isEmpty_eq_false_iff]
    apply List.ne_nil_of_length_pos
    simp only [List.length_take, List.length_append, length_recordHeader]
    omega
  rw [Reader.nextFrame_of_shortage room (s := shortage) (by rw [flow, layout, short]) (by rw [flow]),
    fits, flow, part]
  rfl

/-- A long file that is emptied after it was opened has no more to give than was read ahead. -/
theorem exists_cut (kept : e.KeptAt c d path) (small : ∀ s ∈ c.samples, s.IsSmall)
    (two : c.samples = s :: t :: samples)
    (ahead : fileHeaderSize + e.layout.recordHeaderSize + s.data.length < Source.capacity)
    (long : Source.capacity <
      fileHeaderSize + 2 * e.layout.recordHeaderSize + s.data.length + t.data.length) :
    ∃ r r' id, Reader.ofPath d path = .ok r ∧ r.header = ⟨e.layout, c.snaplen, c.linkType⟩ ∧
      d.openToRead path = .ok (.file id) ∧ r.nextFrame d = (.ok (some s.packet), r') ∧
      ∀ d' : Disk, d'.content (.file id) = #[] →
        (r'.nextFrame d').1 = .error (r'.problem .truncatedRecord) := by
  obtain ⟨r, -, -, opens, header, -⟩ := exists_ofPath kept small
  obtain ⟨id, opened, keeps⟩ := kept
  have plain := unframed keeps
  obtain ⟨unused, body, content_eq, records⟩ := keeps
  have front := length_fileHeader e c unused
  have first := small s (two ▸ List.mem_cons_self)
  have second := small t (two ▸ List.mem_cons_of_mem s List.mem_cons_self)
  rw [two] at records
  obtain ⟨slack, slack', rest, rfl⟩ : ∃ slack slack' rest, body = e.recordHeader s slack ++ s.data ++
      (e.recordHeader t slack' ++ t.data ++ rest) := by
    cases records with
    | cons slack records =>
      cases records with
      | cons slack' _ => exact ⟨slack, slack', _, rfl⟩
  have size : (e.recordHeader s slack ++ s.data).length = e.layout.recordHeaderSize + s.data.length := by
    rw [List.length_append, length_recordHeader]
  have long' : Source.capacity ≤ (d.content (.file id)).toList.length := by
    rw [content_eq]
    simp only [List.length_append, front, length_recordHeader]
    omega
  obtain ⟨window, flow⟩ := Reader.flow_of_emptied opened rfl (content_eq ▸ plain) long' opens
  -- What was read ahead ends inside the second record.
  generalize at' : Source.capacity - fileHeaderSize - (e.layout.recordHeaderSize + s.data.length) = n
  let behind := (e.recordHeader t slack' ++ t.data ++ rest).take n
  replace window : r.window = e.recordHeader s slack ++ s.data ++ behind := by
    rw [window, content_eq, List.drop_take, List.drop_left' front, List.take_append, size, at',
      List.take_of_length_le (by omega)]
  have parsed : Record.parse r.header.layout r.window = .ok (s.packet, behind) := by
    rw [header, window]
    exact parse_record first behind
  have room : behind.length ≤ Reader.capacity := by
    refine Nat.le_trans (List.length_take_le _ _) ?_
    rw [Source.capacity] at at'
    rw [Reader.capacity]
    omega
  refine ⟨r, _, id, opens, header, opened, Reader.nextFrame_of_window parsed d, fun d' emptied => ?_⟩
  exact nextFrame_of_take slack' rest (by rw [header]) room (flow d' behind emptied) second
    (by omega) (by omega)

end Encoding

end RollingCapture.CaptureFile
