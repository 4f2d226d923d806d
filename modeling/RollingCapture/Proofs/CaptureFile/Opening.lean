import RollingCapture.Proofs.CaptureFile.Reading

/-! Opening a file: its first bytes tell how it is stored, and hold the file header. A written file opens
as what it was written for. -/
namespace RollingCapture.CaptureFile

variable {d : Disk} {linkType : LinkType} {snaplen : UInt32} {body : List UInt8}

theorem FileHeader.write_eq_cons (linkType : LinkType) (snaplen : UInt32) :
    ∃ rest, write linkType snaplen = 0xd4 :: rest := by
  refine ⟨(write linkType snaplen).tail, ?_⟩
  simp only [write, List.append_assoc]
  rfl

theorem FileHeader.write_unframed (linkType : LinkType) (snaplen : UInt32) (body : List UInt8) :
    ¬ Lz4.Frame.magic <+: write linkType snaplen ++ body := by
  obtain ⟨rest, cons⟩ := write_eq_cons linkType snaplen
  rw [cons, List.cons_append]
  intro front
  exact absurd (List.cons_prefix_cons.1 front).1 (by decide)

theorem FileHeader.parse_zeros (n : Nat) : ∃ problem, parse (List.replicate n 0) = .error problem := by
  unfold parse
  rw [List.splitAt_eq, List.take_replicate]
  by_cases short : (List.replicate (min fileHeaderSize n) (0 : UInt8)).length < 4
  · exact ⟨_, if_pos short⟩
  · have start : (List.replicate (min fileHeaderSize n) (0 : UInt8)).take 4 = List.replicate 4 0 := by
      rw [List.length_replicate] at short
      rw [List.take_replicate, Nat.min_eq_left (by omega)]
    have unknown : Layout.magics.lookup (Bytes.ofLittleEndian (List.replicate 4 0)) = none := by
      decide
    simp only [if_neg short, start, unknown]
    exact ⟨_, rfl⟩

/-- The first bytes of a file tell how it is stored. -/
theorem Stream.compression_eq_lz4_iff {source : Source}
    (filled : source.buffer = (source.rest d).take Source.capacity) :
    compression source = .lz4 ↔ Lz4.Frame.magic <+: source.rest d := by
  have room : Lz4.Frame.magic.length ≤ Source.capacity := by decide
  have agrees : Lz4.Frame.magic.isPrefixOf source.buffer ↔ Lz4.Frame.magic <+: source.rest d := by
    rw [List.isPrefixOf_iff_prefix, filled, List.prefix_take_iff, and_iff_left room]
  rw [← agrees, compression]
  split <;> simp_all

theorem Stream.compression_of_unframed {source : Source}
    (filled : source.buffer = (source.rest d).take Source.capacity)
    (unframed : ¬ Lz4.Frame.magic <+: source.rest d) : compression source = .plain := by
  cases stored : compression source with
  | plain => rfl
  | lz4 => exact absurd ((compression_eq_lz4_iff filled).1 stored) unframed

namespace Reader

variable {path : String} {id : Nat} {content : List UInt8}

/-- The reader has opened the file `path`, stored as `mode`, and is behind the file header of `content`. -/
structure Fronts (path : String) (mode : Compression) (content : List UInt8) (r : Reader) : Prop where
  path : r.path = path
  compression : r.compression = mode
  header : FileHeader.parse content = .ok (r.header, content.drop fileHeaderSize)
  room : r.window.length ≤ capacity

/-- Whether a file opens is seen from the first bytes of its content that come in one read. -/
theorem ofPath_of_first {source : Source} {mode : Compression} {s s' : Stream} {bytes : List UInt8}
    (opened : d.openToRead path = .ok (.file id))
    (filled : (Source.ofEntry d (.file id)).fill d = source) (kind : Stream.compression source = mode)
    (found : Stream.ofSource d source = .ok s) (read : s.read d capacity = (.ok bytes, s'))
    (front : bytes <+: content) :
    ((∃ r, ofPath d path = .ok r) ↔
      (∃ parsed, FileHeader.parse content = .ok parsed) ∧ fileHeaderSize ≤ bytes.length) ∧
    ∀ r, ofPath d path = .ok r → r.Fronts path mode content ∧
      (s.flow d = (content, none) → r.flow d = (content.drop fileHeaderSize, none)) := by
  cases parsed : FileHeader.parse bytes with
  | error p =>
    have refused : ofPath d path = .error (.format path (.opening mode p)) := by
      simp only [ofPath, opened, filled, kind, found, read, parsed]
    refine ⟨⟨fun ⟨r, opens⟩ => ?_, fun ⟨⟨header, whole⟩, long⟩ => ?_⟩, fun r opens => ?_⟩
    · exact absurd (refused.symm.trans opens) (by simp)
    · rw [FileHeader.parse_of_prefix front long, parsed] at whole
      contradiction
    · exact absurd (refused.symm.trans opens) (by simp)
  | ok both =>
    obtain ⟨header, window⟩ := both
    have evaluated : ofPath d path =
        .ok { path, compression := mode, header, stream := s', window } := by
      simp only [ofPath, opened, filled, kind, found, read, parsed]
    have long := FileHeader.length_of_parse parsed
    have whole := FileHeader.parse_of_prefix front long
    have behind := FileHeader.parse_of_prefix (List.prefix_refl bytes) long
    rw [parsed] at whole behind
    obtain ⟨-, rfl⟩ := Prod.mk.inj (Except.ok.inj behind)
    refine ⟨⟨fun _ => ⟨⟨_, whole⟩, long⟩, fun _ => ⟨_, evaluated⟩⟩, fun r opens => ?_⟩
    obtain rfl := Except.ok.inj (evaluated.symm.trans opens)
    refine ⟨⟨rfl, rfl, whole, ?_⟩, fun flow => ?_⟩
    · have bound := Stream.length_read_le read
      simp only [List.length_drop]
      omega
    · have nonempty : bytes ≠ [] := by
        rintro rfl
        exact absurd long (by decide)
      have split := Stream.flow_of_read (by decide) read
      rw [if_neg nonempty, flow] at split
      obtain ⟨rfl, problem⟩ := Prod.mk.inj split
      rw [List.drop_append_of_le_length long, problem]
      rfl

/-- A plain file opens if it begins with a file header, and gives its own bytes. -/
theorem ofPath_plain (opened : d.openToRead path = .ok (.file id))
    (content_eq : (d.content (.file id)).toList = content) (unframed : ¬ Lz4.Frame.magic <+: content) :
    ((∃ r, ofPath d path = .ok r) ↔ ∃ parsed, FileHeader.parse content = .ok parsed) ∧
    ∀ r, ofPath d path = .ok r → r.Fronts path .plain content ∧
      r.flow d = (content.drop fileHeaderSize, none) := by
  obtain ⟨source, filled, rest, buffer, -⟩ := Source.exists_filled d (.file id)
  rw [content_eq] at rest
  have kind : Stream.compression source = .plain :=
    Stream.compression_of_unframed buffer (rest ▸ unframed)
  have found : Stream.ofSource d source = .ok (.plain source) := by rw [Stream.ofSource, kind]
  have front := Source.append_rest_read source d capacity
  rw [rest] at front
  have long : fileHeaderSize ≤ content.length →
      fileHeaderSize ≤ (source.read d capacity).1.length := by
    intro long
    have nonempty : source.buffer ≠ [] := by
      intro empty
      have := congrArg List.length (buffer.symm.trans empty)
      simp only [rest, List.length_take, List.length_nil, Source.capacity, fileHeaderSize] at this long
      omega
    rw [Source.read_of_buffer_ne_nil nonempty, buffer, rest]
    simp only [List.length_take, Source.capacity, capacity, fileHeaderSize] at long ⊢
    omega
  obtain ⟨opens, fronts⟩ := ofPath_of_first opened filled kind found rfl ⟨_, front⟩
  refine ⟨opens.trans ⟨And.left, fun parsed => ⟨parsed, ?_⟩⟩, fun r opens' => ?_⟩
  · obtain ⟨⟨header, window⟩, parsed⟩ := parsed
    exact long (FileHeader.length_of_parse parsed)
  · obtain ⟨front, flow⟩ := fronts r opens'
    exact ⟨front, flow (by rw [Stream.flow, rest])⟩

/-- Opening a long plain file reads ahead what the buffer holds. Once the file is emptied no more comes. -/
theorem flow_of_emptied {r : Reader} (opened : d.openToRead path = .ok (.file id))
    (content_eq : (d.content (.file id)).toList = content) (unframed : ¬ Lz4.Frame.magic <+: content)
    (long : Source.capacity ≤ content.length) (opens : ofPath d path = .ok r) :
    r.window = (content.take Source.capacity).drop fileHeaderSize ∧
      ∀ (d' : Disk) (window : List UInt8), d'.content (.file id) = #[] →
        { r with window }.flow d' = (window, none) := by
  obtain ⟨source, filled, rest, buffer, entry⟩ := Source.exists_filled d (.file id)
  rw [content_eq] at rest
  have kind : Stream.compression source = .plain :=
    Stream.compression_of_unframed buffer (rest ▸ unframed)
  have size : source.buffer.length = Source.capacity := by
    rw [buffer, rest, List.length_take, Nat.min_eq_left long]
  have nonempty : source.buffer ≠ [] := by
    intro drained
    rw [drained] at size
    contradiction
  have fits : source.buffer.length ≤ capacity := by
    rw [size]
    decide
  have read : source.read d capacity = (source.buffer, { source with buffer := [] }) := by
    rw [Source.read_of_buffer_ne_nil nonempty, List.take_of_length_le fits, List.drop_of_length_le fits]
  simp only [ofPath, opened, filled, kind, Stream.ofSource, Stream.read, read] at opens
  split at opens
  · contradiction
  · rename_i header window parsed
    obtain rfl := Except.ok.inj opens
    have behind := FileHeader.parse_of_prefix (List.prefix_refl source.buffer)
      (FileHeader.length_of_parse parsed)
    rw [parsed] at behind
    obtain ⟨-, rfl⟩ := Prod.mk.inj (Except.ok.inj behind)
    refine ⟨by rw [buffer, rest], fun d' window emptied => ?_⟩
    have nothing : Source.rest { source with buffer := [] } d' = [] := by
      simp [Source.rest, Source.unbuffered, entry, emptied]
    simp only [flow, Stream.flow, nothing, List.append_nil, Bool.false_eq_true, if_false]

/-- A compressed file opens if its content begins with a file header that is in the first block. It
gives the content if no block is empty. -/
theorem ofPath_lz4 {f : Lz4.Frame.Descriptor} {blocks : List (List UInt8)}
    (opened : d.openToRead path = .ok (.file id))
    (encodes : f.Encodes (d.content (.file id)).toList blocks) :
    ((∃ r, ofPath d path = .ok r) ↔
      (∃ parsed, FileHeader.parse blocks.flatten = .ok parsed) ∧
        fileHeaderSize ≤ (blocks.headD []).length) ∧
    ∀ r, ofPath d path = .ok r → r.Fronts path .lz4 blocks.flatten ∧
      ((∀ block ∈ blocks, block ≠ []) →
        r.flow d = (blocks.flatten.drop fileHeaderSize, none)) := by
  obtain ⟨source, filled, rest, buffer, -⟩ := Source.exists_filled d (.file id)
  have kind : Stream.compression source = .lz4 := by
    obtain ⟨-, code, body, -, -, stored⟩ := encodes
    rw [Stream.compression_eq_lz4_iff buffer, rest, stored]
    exact List.prefix_append _ _
  obtain ⟨decoder, started, unread, ⟨next, given⟩, content⟩ :=
    Lz4.Decoder.start_of_encodes encodes rest
  have found : Stream.ofSource d source = .ok (.lz4 decoder) := by rw [Stream.ofSource, kind, started]
  have read : (Stream.lz4 decoder).read d capacity =
      (.ok ((blocks.headD []).take capacity),
        .lz4 { next with unread := (blocks.headD []).drop capacity }) := by
    simp [Stream.read, Lz4.Decoder.read, unread, given]
  have front : (blocks.headD []).take capacity <+: blocks.flatten := by
    refine (List.take_prefix _ _).trans ?_
    cases blocks with
    | nil => exact List.prefix_refl _
    | cons block blocks => exact List.prefix_append _ _
  have long : fileHeaderSize ≤ ((blocks.headD []).take capacity).length ↔
      fileHeaderSize ≤ (blocks.headD []).length := by
    simp only [List.length_take, capacity, fileHeaderSize]
    omega
  obtain ⟨opens, fronts⟩ := ofPath_of_first opened filled kind found read front
  rw [long] at opens
  refine ⟨opens, fun r opens' => ?_⟩
  obtain ⟨front, flow⟩ := fronts r opens'
  exact ⟨front, fun nonempty => flow (by rw [Stream.flow, unread, content nonempty, List.nil_append])⟩

/-- A written file opens as what it was written for, and its records are still to be read. -/
theorem ofPath_of_stores {mode : Compression} (opened : d.openToRead path = .ok (.file id))
    (stores : mode.Stores (d.content (.file id)).toList (FileHeader.write linkType snaplen ++ body)) :
    ∃ r, ofPath d path = .ok r ∧ r.path = path ∧ r.compression = mode ∧
      r.header = ⟨.written, snaplen, .ofHandle linkType.code⟩ ∧ r.flow d = (body, none) ∧
      r.window.length ≤ capacity := by
  have parsed := FileHeader.parse_write linkType snaplen body
  obtain ⟨r, opens, front, flow⟩ : ∃ r, ofPath d path = .ok r ∧
      r.Fronts path mode (FileHeader.write linkType snaplen ++ body) ∧
      r.flow d = ((FileHeader.write linkType snaplen ++ body).drop fileHeaderSize, none) := by
    cases mode with
    | plain =>
      obtain ⟨opens, fronts⟩ := ofPath_plain opened stores (FileHeader.write_unframed _ _ _)
      obtain ⟨r, found⟩ := opens.2 ⟨_, parsed⟩
      exact ⟨r, found, fronts r found⟩
    | lz4 =>
      obtain ⟨blocks, encodes, content, filled, full⟩ :=
        Lz4.Frame.Descriptor.exists_encodes_written stores
      obtain ⟨opens, fronts⟩ := ofPath_lz4 opened encodes
      rw [content] at opens fronts
      have first : fileHeaderSize ≤ (blocks.headD []).length := by
        refine Nat.le_trans (Nat.le_min.2 ⟨by decide, ?_⟩) full
        rw [List.length_append, FileHeader.length_write]
        exact Nat.le_add_right _ _
      obtain ⟨r, found⟩ := opens.2 ⟨⟨_, parsed⟩, first⟩
      obtain ⟨front, flow⟩ := fronts r found
      exact ⟨r, found, front, flow filled⟩
  have header := front.header
  rw [parsed] at header
  obtain ⟨header_eq, behind⟩ := Prod.mk.inj (Except.ok.inj header)
  exact ⟨r, opens, front.path, front.compression, header_eq.symm, by rw [behind, flow], front.room⟩

/-- A special file is empty or reads as zeros, and does not open as a capture file. -/
theorem ofPath_of_special {path : String} {kind : SpecialFile}
    (opened : d.openToRead path = .ok (.special kind)) : ∃ e, ofPath d path = .error e := by
  obtain ⟨source, filled, rest, buffer, -⟩ := Source.exists_filled d (.special kind)
  obtain ⟨n, zeros⟩ : ∃ n, source.rest d = List.replicate n 0 := by
    rw [rest]
    cases kind with
    | null => exact ⟨0, rfl⟩
    | zero => exact ⟨8192, by simp only [Disk.content, Array.toList_replicate]⟩
    | full => exact ⟨8192, by simp only [Disk.content, Array.toList_replicate]⟩
  have kind' : Stream.compression source = .plain := by
    rw [Stream.compression, buffer, zeros, List.take_replicate]
    cases min Source.capacity n <;> rfl
  rcases read : source.read d capacity with ⟨bytes, source'⟩
  have split := Source.append_rest_read source d capacity
  rw [read, zeros] at split
  obtain ⟨-, front, -⟩ := List.append_eq_replicate_iff.1 split
  obtain ⟨problem, refused⟩ := FileHeader.parse_zeros bytes.length
  rw [← front] at refused
  exact ⟨.format path (.opening .plain problem), by
    simp only [ofPath, opened, filled, kind', Stream.ofSource, Stream.read, read, refused]⟩

end Reader

end RollingCapture.CaptureFile
