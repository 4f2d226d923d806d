import RollingCapture.Proofs.CaptureFile.Frames

/-! A compressed file reads like a plain file of its content, however the content was cut into blocks,
but for three things. The file header has to be in the first block. A block that stands for no bytes is
the end. And a record as large as the window is read only where the window happens to begin with it, in
either file. -/
namespace RollingCapture.CaptureFile

namespace Record

theorem recordHeaderSize_add_length {layout : Layout} {bytes rest : List UInt8} {p : Packet}
    (parsed : parse layout bytes = .ok (p, rest)) :
    layout.recordHeaderSize + p.data.length = total layout bytes := by
  have length := length_of_parse parsed
  have header : layout.recordHeaderSize ≤ total layout bytes := Nat.le_add_right _ _
  rw [parse_eq] at parsed
  split at parsed
  · contradiction
  · split at parsed
    · contradiction
    · obtain ⟨rfl, -⟩ := Prod.mk.inj (Except.ok.inj parsed)
      simp only [first, List.length_drop, List.length_take]
      omega

end Record

namespace Reader

/-- The records of some content as far as the window can hold them, and the problem behind them, unless
the content ends there. -/
def records (layout : Layout) (content : List UInt8) : List Packet × Option StreamProblem :=
  match _found : Record.parse layout content with
  | .ok (p, rest) =>
    if capacity < Record.total layout content then ([], some .recordTooLarge)
    else (p :: (records layout rest).1, (records layout rest).2)
  | .error s =>
    ([], if neverFits s then some .recordTooLarge
      else if content.isEmpty then none else some .truncatedRecord)
  termination_by content.length
  decreasing_by all_goals exact Record.length_parse _found

variable {d : Disk} {r r' : Reader} {content : List UInt8} {layout : Layout}

theorem records_of_parse {p : Packet} {rest : List UInt8}
    (parsed : Record.parse layout content = .ok (p, rest)) :
    records layout content =
      if capacity < Record.total layout content then ([], some .recordTooLarge)
      else (p :: (records layout rest).1, (records layout rest).2) := by
  rw [records]
  split <;> simp_all

theorem records_of_shortage {s : Record.Shortage} (short : Record.parse layout content = .error s) :
    records layout content = ([], if neverFits s then some .recordTooLarge
      else if content.isEmpty then none else some .truncatedRecord) := by
  rw [records]
  split <;> simp_all

theorem exists_parse_of_records_cons {p : Packet} {packets : List Packet}
    (given : records layout content = (p :: packets, none)) :
    ∃ rest, Record.parse layout content = .ok (p, rest) ∧ records layout rest = (packets, none) := by
  cases parsed : Record.parse layout content with
  | error s => simp [records_of_shortage parsed] at given
  | ok both =>
    obtain ⟨q, rest⟩ := both
    rw [records_of_parse parsed] at given
    split at given
    · simp at given
    · obtain ⟨cons_eq, last⟩ := Prod.mk.inj given
      obtain ⟨rfl, behind⟩ := List.cons.inj cons_eq
      exact ⟨rest, rfl, Prod.ext behind last⟩

/-- Content without a record is empty, unless there is a problem. -/
theorem eq_nil_of_records_nil (given : records layout content = ([], none)) : content = [] := by
  cases parsed : Record.parse layout content with
  | error s =>
    rw [records_of_shortage parsed] at given
    have last := (Prod.mk.inj given).2
    split at last
    · contradiction
    · split at last
      · rename_i empty
        exact List.isEmpty_iff.1 empty
      · contradiction
  | ok both =>
    rw [records_of_parse parsed] at given
    split at given <;> simp at given

theorem frames_of_shortage {s : Record.Shortage} (room : r.window.length ≤ capacity)
    (flow : r.flow d = (content, none))
    (short : Record.parse r.header.layout content = .error s) :
    r.frames d = ([], (if neverFits s then some .recordTooLarge
      else if content.isEmpty then none else some .truncatedRecord).map r.problem) := by
  have bytes : (r.flow d).1 = content := by rw [flow]
  have last := nextFrame_of_shortage room (by rw [bytes, short]) (by rw [flow])
  rw [bytes] at last
  by_cases large : neverFits s
  · rw [if_pos large] at last ⊢
    exact frames_of_error (Prod.ext last rfl)
  · rw [if_neg large] at last ⊢
    split at last
    · rename_i empty
      rw [if_pos empty]
      exact frames_of_end (Prod.ext last rfl)
    · rename_i nonempty
      rw [if_neg nonempty]
      exact frames_of_error (Prod.ext last rfl)

/-- Where no record fills the window, a reader gives the records of the content that is left. -/
theorem frames_eq_records (room : r.window.length ≤ capacity) (flow : r.flow d = (content, none))
    (clear : ∀ p ∈ (records r.header.layout content).1,
      r.header.layout.recordHeaderSize + p.data.length ≠ capacity) :
    r.frames d = ((records r.header.layout content).1,
      (records r.header.layout content).2.map r.problem) := by
  generalize layout_eq : r.header.layout = layout at clear ⊢
  induction content using records.induct layout generalizing r with
  | case1 content p rest parsed large =>
    rw [records_of_parse parsed, if_pos large]
    have bytes : (r.flow d).1 = content := by rw [flow]
    rw [← bytes, ← layout_eq] at parsed large
    exact frames_of_error (Prod.ext (nextFrame_of_large room parsed large) rfl)
  | case2 content p rest parsed fits ih =>
    have unfolded := records_of_parse parsed
    rw [if_neg fits] at unfolded
    rw [unfolded] at clear ⊢
    have size := clear p List.mem_cons_self
    rw [Record.recordHeaderSize_add_length parsed] at size
    have small : Record.total layout content < capacity := by omega
    have bytes : (r.flow d).1 = content := by rw [flow]
    rw [← bytes, ← layout_eq] at parsed small
    obtain ⟨r', read, flow', origin, room'⟩ := nextFrame_of_parse room parsed small
    rw [flow] at flow'
    rw [frames_of_record read, ih room' flow' (by rw [header_eq origin, layout_eq])
      fun q member => clear q (List.mem_cons_of_mem p member), funext (problem_eq origin)]
  | case3 content s short =>
    rw [records_of_shortage short]
    exact frames_of_shortage room flow (layout_eq ▸ short)

variable {path : String} {id : Nat}

/-- A file that holds a frame opens where a plain file of its content does, if the file header is in the
first block. Both give the same records up to the same end or problem, for which the one blames the
compression and the other the format, if no block is empty and no record fills the window. -/
theorem compressed_file_reads_as_content {d' : Disk} {path' : String} {id' : Nat}
    {f : Lz4.Frame.Descriptor} {blocks : List (List UInt8)}
    (opened : d.openToRead path = .ok (.file id)) (opened' : d'.openToRead path' = .ok (.file id'))
    (encodes : f.Encodes (d.content (.file id)).toList blocks)
    (content_eq : (d'.content (.file id')).toList = blocks.flatten)
    (unframed : ¬ Lz4.Frame.magic <+: blocks.flatten) :
    ((∃ r, ofPath d path = .ok r) ↔
      (∃ r', ofPath d' path' = .ok r') ∧ fileHeaderSize ≤ (blocks.headD []).length) ∧
    ∀ r r', ofPath d path = .ok r → ofPath d' path' = .ok r' →
      r.compression = .lz4 ∧ r'.compression = .plain ∧ r.linkType = r'.linkType ∧
      r.snaplen = r'.snaplen ∧ r.isNanosecond = r'.isNanosecond ∧
      ∀ packets problem,
        records r'.header.layout (blocks.flatten.drop fileHeaderSize) = (packets, problem) →
        (∀ block ∈ blocks, block ≠ []) →
        (∀ p ∈ packets, r'.header.layout.recordHeaderSize + p.data.length ≠ capacity) →
        r.frames d = (packets, problem.map fun p => .compression path (.reading p)) ∧
        r'.frames d' = (packets, problem.map fun p => .format path' (.reading p)) := by
  obtain ⟨opens, fronts⟩ := ofPath_lz4 opened encodes
  obtain ⟨opens', fronts'⟩ := ofPath_plain opened' content_eq unframed
  refine ⟨opens.trans (and_congr_left' opens'.symm), fun r r' found found' => ?_⟩
  obtain ⟨front, flow⟩ := fronts r found
  obtain ⟨front', flow'⟩ := fronts' r' found'
  have header : r.header = r'.header :=
    (Prod.mk.inj (Except.ok.inj (front.header.symm.trans front'.header))).1
  refine ⟨front.compression, front'.compression, ?_, ?_, ?_, ?_⟩
  · rw [linkType, linkType, header]
  · rw [snaplen, snaplen, header]
  · rw [isNanosecond, isNanosecond, header]
  · intro packets problem parsed filled clear
    have problems : r.problem = fun p => .compression path (.reading p) := by
      funext p
      rw [Reader.problem, front.compression, front.path]
    have problems' : r'.problem = fun p => .format path' (.reading p) := by
      funext p
      rw [Reader.problem, front'.compression, front'.path]
    constructor
    · rw [frames_eq_records front.room (flow filled) (by rw [header, parsed]; exact clear), header, parsed,
        problems]
    · rw [frames_eq_records front'.room flow' (by rw [parsed]; exact clear), parsed, problems']

/-- The header of the record is cut, and copied in part from the file header in the block before. -/
theorem record_across_linked_blocks_read :
    let p : Packet := ⟨⟨1, 0, 8, 8⟩, List.replicate 8 7⟩
    let content := FileHeader.write .ethernet 65535 ++ Record.bytes p
    let f : Lz4.Frame.Descriptor := ⟨65536, true, true, true, some 48⟩
    let first := content.take 28
    let packed := [0x00, 0x14, 0, 0x40, 8, 0, 0, 0, 4, 0, 0x80] ++ List.replicate 8 7
    let frame := Lz4.Frame.magic ++ (f.bytes 4 ++
      ((Lz4.Frame.Mark.stored 28).bytes ++ (first ++ (Lz4.Frame.checksum true first ++
        ((Lz4.Frame.Mark.compressed 19).bytes ++ (packed ++ (Lz4.Frame.checksum true packed ++
          []))))) ++ (Lz4.Frame.Mark.stop.bytes ++ Lz4.Frame.checksum true content)))
    let disk := (Disk.fresh.addFileWith "a.pcap" frame.toArray).addFileWith "b.pcap" content.toArray
    f.Encodes frame [first, content.drop 28] ∧
      ∃ r r', ofPath disk "a.pcap" = .ok r ∧ ofPath disk "b.pcap" = .ok r' ∧
        r.compression = .lz4 ∧ r'.compression = .plain ∧
        r.frames disk = ([p], none) ∧ r'.frames disk = ([p], none) := by
  intro p content f first packed frame disk
  have blocks : f.Blocks [] [first, content.drop 28] _ :=
    .cons (by decide +kernel) (.stored (by decide +kernel)) (.cons (by decide +kernel)
      (.compressed (show packed.length ≤ 65536 by decide) (by decide +kernel)) .nil)
  have encodes : f.Encodes frame [first, content.drop 28] :=
    ⟨by decide +kernel, 4, _, rfl, blocks, by decide +kernel⟩
  have opened : disk.openToRead "a.pcap" = .ok (.file 0) := Disk.eq_ok_of_toOption (by decide +kernel)
  have opened' : disk.openToRead "b.pcap" = .ok (.file 1) := Disk.eq_ok_of_toOption (by decide +kernel)
  have holds : (disk.content (.file 0)).toList = frame := by decide +kernel
  have holds' : (disk.content (.file 1)).toList = [first, content.drop 28].flatten := by decide +kernel
  have unframed : ¬ Lz4.Frame.magic <+: [first, content.drop 28].flatten := by decide +kernel
  have content_eq : [first, content.drop 28].flatten = content := by decide +kernel
  have parsed := FileHeader.parse_write .ethernet 65535 (Record.bytes p)
  obtain ⟨plain, fronts⟩ := ofPath_plain opened' holds' unframed
  obtain ⟨r', opens'⟩ := plain.2 ⟨_, by rw [content_eq]; exact parsed⟩
  have header := (fronts r' opens').1.header
  rw [content_eq, show FileHeader.parse content = _ from parsed] at header
  have layout : r'.header.layout = .written := by
    rw [← (Prod.mk.inj (Except.ok.inj header)).1]
  obtain ⟨iff, reads⟩ :=
    compressed_file_reads_as_content opened opened' (holds ▸ encodes) holds' unframed
  obtain ⟨r, opens⟩ := iff.2 ⟨⟨r', opens'⟩, by decide +kernel⟩
  obtain ⟨mode, mode', -, -, -, frames⟩ := reads r r' opens opens'
  have given : records .written ([first, content.drop 28].flatten.drop fileHeaderSize) = ([p], none) := by
    decide +kernel
  obtain ⟨read, read'⟩ := frames [p] none (by rw [layout, given]) (by decide +kernel)
    (by rw [layout]; decide)
  exact ⟨encodes, r, r', opens, opens', mode, mode', read, read'⟩

end Reader

end RollingCapture.CaptureFile
