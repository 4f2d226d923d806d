import RollingCapture.Proofs.CaptureFile.Feeding
import RollingCapture.Proofs.CaptureFile.RoundTrip

/-! A written file that was cut off anywhere gives the packets at its front, or does not open. -/
namespace RollingCapture.CaptureFile

variable {packets before after : List Packet} {p : Packet}

/-- What a cut leaves of the records of `after`: nothing where there are none, and else a part of the
first. -/
inductive Remains : List Packet → List UInt8 → Prop
  | nothing : Remains [] []
  | cut {p : Packet} {later : List Packet} {part more : List UInt8} :
      part ++ more = Record.bytes p → more ≠ [] → Remains (p :: later) part

/-- The front of some records is whole records and what remains of those behind them. -/
theorem exists_split_of_prefix {body : List UInt8} (front : body <+: packets.flatMap Record.bytes) :
    ∃ before after part, packets = before ++ after ∧ body = before.flatMap Record.bytes ++ part ∧
      Remains after part := by
  induction packets generalizing body with
  | nil => exact ⟨[], [], [], rfl, List.prefix_nil.1 front, .nothing⟩
  | cons p packets ih =>
    rw [List.flatMap_cons] at front
    by_cases long : (Record.bytes p).length ≤ body.length
    · obtain ⟨body', rfl⟩ :=
        List.prefix_of_prefix_length_le (List.prefix_append _ _) front long
      obtain ⟨before, after, part, rfl, rfl, remains⟩ :=
        ih ((List.prefix_append_right_inj _).1 front)
      exact ⟨p :: before, after, part, rfl, by rw [List.flatMap_cons, List.append_assoc], remains⟩
    · have short : body.length < (Record.bytes p).length := Nat.lt_of_not_le long
      obtain ⟨more, split⟩ :=
        List.prefix_of_prefix_length_le front (List.prefix_append _ _) (Nat.le_of_lt short)
      refine ⟨[], p :: packets, body, rfl, rfl, .cut split ?_⟩
      rintro rfl
      rw [← split, List.append_nil] at short
      exact absurd short (Nat.lt_irrefl _)

/-- Where the record behind the first `k` packets begins in a file that is not compressed. -/
def boundary (packets : List Packet) (k : Nat) : Nat :=
  fileHeaderSize + ((packets.take k).flatMap Record.bytes).length

theorem boundary_le (packets : List Packet) {i k : Nat} (le : i ≤ k) :
    boundary packets i ≤ boundary packets k := by
  obtain ⟨more, split⟩ := List.take_prefix_take_left (l := packets) le
  rw [boundary, boundary, ← split, List.flatMap_append, List.length_append]
  omega

theorem boundary_append (before after : List Packet) :
    boundary (before ++ after) before.length = fileHeaderSize + (before.flatMap Record.bytes).length := by
  rw [boundary, List.take_left]

theorem boundary_append_cons (before after : List Packet) (p : Packet) :
    boundary (before ++ p :: after) (before.length + 1) =
      fileHeaderSize + (before.flatMap Record.bytes ++ Record.bytes p).length := by
  rw [boundary, List.take_length_add_append, List.flatMap_append]
  simp

/-- What remains behind the whole records ends before the next boundary. -/
theorem boundary_le_iff {part : List UInt8} (remains : Remains after part) {i : Nat}
    (bound : i ≤ (before ++ after).length) :
    boundary (before ++ after) i ≤ boundary (before ++ after) before.length + part.length ↔
      i ≤ before.length := by
  constructor
  · intro within
    apply Nat.le_of_not_lt
    intro beyond
    cases remains with
    | nothing =>
      rw [List.append_nil] at bound
      omega
    | @cut p later _ more split lost =>
      have least := boundary_le (before ++ p :: later) (Nat.succ_le_of_lt beyond)
      rw [Nat.succ_eq_add_one, boundary_append_cons, ← split] at least
      have positive := List.length_pos_iff.2 lost
      rw [boundary_append] at within
      simp only [List.length_append] at least
      omega
  · intro within
    exact Nat.le_add_right_of_le (boundary_le _ within)

namespace Reader

variable {d : Disk} {r : Reader} {id : Nat}

/-- Behind the whole records the end is reported, or the record that is cut. -/
theorem nextFrame_of_remains {e : Entry} {part : List UInt8} (layout : r.header.layout = .written)
    (feeds : r.Feeds d e [] part) (remains : Remains after part)
    (fits : ∀ p ∈ after, Record.IsWhole p ∧ Record.headerSize + p.header.caplen.toNat < capacity) :
    (r.nextFrame d).1 = if part = [] then .ok none else .error (r.problem .truncatedRecord) := by
  by_cases empty : part = []
  · subst empty
    obtain ⟨_, read, -⟩ := nextFrame_of_nil feeds
    rw [read, if_pos rfl]
  · cases remains with
    | nothing => contradiction
    | cut split lost =>
      obtain ⟨whole, small⟩ := fits _ List.mem_cons_self
      rw [nextFrame_of_cut layout feeds empty split lost whole small, if_neg empty]

/-- What is left of an uncompressed file is read up to the cut. -/
theorem answers_of_plain_cut {path : String} {kept : List UInt8} {linkType : LinkType}
    {snaplen : UInt32} (opened : d.openToRead path = .ok (.file id))
    (found : (d.content (.file id)).toList = kept)
    (front : kept <+: FileHeader.write linkType snaplen ++ packets.flatMap Record.bytes)
    (header : fileHeaderSize ≤ kept.length)
    (fits : ∀ p ∈ packets, Record.IsWhole p ∧ Record.headerSize + p.header.caplen.toNat < capacity) :
    ∃ r k, ofPath d path = .ok r ∧ k ≤ packets.length ∧
      (∀ i ≤ packets.length, boundary packets i ≤ kept.length ↔ i ≤ k) ∧
      r.answers d (k + 1) = (packets.take k).map (fun p => .ok (some (Record.stored p))) ++
        [if kept.length = boundary packets k then .ok none
          else .error (.format path (.reading .truncatedRecord))] := by
  obtain ⟨body, rfl⟩ : FileHeader.write linkType snaplen <+: kept := by
    refine List.prefix_of_prefix_length_le (List.prefix_append _ _) front ?_
    rw [FileHeader.length_write]
    exact header
  obtain ⟨before, after, part, rfl, rfl, remains⟩ :=
    exists_split_of_prefix ((List.prefix_append_right_inj _).1 front)
  have stores : Compression.plain.Stores (d.content (.file id)).toList
      (FileHeader.write linkType snaplen ++ (before.flatMap Record.bytes ++ part)) := found
  obtain ⟨r, opens, -⟩ := ofPath_of_stores opened stores
  have content_eq := List.append_nil (d.content (.file id)).toList
  obtain ⟨missing', feeds, origin, whole⟩ := feeds_of_ofPath opened stores content_eq opens
  rw [whole rfl] at feeds
  obtain ⟨path', rest'⟩ := Prod.mk.inj origin
  obtain ⟨kind, header'⟩ := Prod.mk.inj rest'
  have layout : r.header.layout = .written := by rw [header']
  obtain ⟨r', answers, feeds', origin'⟩ := answers_of_bytes layout feeds
    (fun p member => fits p (List.mem_append_left after member)) 1
  have size : (FileHeader.write linkType snaplen ++ (before.flatMap Record.bytes ++ part)).length =
      boundary (before ++ after) before.length + part.length := by
    rw [boundary_append, List.length_append, List.length_append, FileHeader.length_write, Nat.add_assoc]
  refine ⟨r, before.length, opens, by simp, ?_, ?_⟩
  · intro i bound
    rw [size]
    exact boundary_le_iff remains bound
  · have last := nextFrame_of_remains (by rw [header_eq origin', layout]) feeds' remains
      fun p member => fits p (List.mem_append_right before member)
    rw [problem_eq origin', problem, kind, path'] at last
    have boundary' (n : Nat) : n + part.length = n ↔ part = [] := by
      rw [← List.length_eq_zero_iff]
      omega
    rw [answers, List.take_left, size]
    simp only [Reader.answers, last, boundary']

/-- A written file of which any number of bytes at the end are lost does not open, or gives packets as
they were stored, from the first on, and no others however often it is read. One that is not
compressed gives every packet that is whole, and an error where it was cut inside a record. -/
theorem cut_file_reads_prefix {path : String} {d' : Disk} (regular : d.create path = .ok (.file id, d'))
    (whole : ∀ p ∈ packets, Record.IsWhole p) (linkType : LinkType) (snaplen : UInt32)
    (mode : Compression) :
    ∃ w d₁ w' d₂ size d₃, Writer.create d path linkType snaplen mode = (.ok w, d₁) ∧
      w.writeAll d₁ packets = (.ok (), w', d₂) ∧ w'.close d₂ = (.ok size, d₃) ∧
      ∀ (cut : Disk) (path' : String) (id' : Nat), cut.openToRead path' = .ok (.file id') →
        (cut.content (.file id')).toList <+: (d₃.content (.file id)).toList →
        (∀ r, ofPath cut path' = .ok r →
          (∃ k last, k ≤ packets.length ∧ packet? last = none ∧ r.answers cut (k + 1) =
            (packets.take k).map (fun p => .ok (some (Record.stored p))) ++ [last]) ∧
          ∀ n, (r.answers cut n).filterMap packet? <+: packets.map Record.stored) ∧
        (mode = .plain → (∀ p ∈ packets, p.header.caplen.toNat ≤ 262127) →
          fileHeaderSize ≤ (cut.content (.file id')).size →
          ∃ r k, ofPath cut path' = .ok r ∧ k ≤ packets.length ∧
            (∀ i ≤ packets.length, boundary packets i ≤ (cut.content (.file id')).size ↔ i ≤ k) ∧
            r.answers cut (k + 1) = (packets.take k).map (fun p => .ok (some (Record.stored p))) ++
              [if (cut.content (.file id')).size = boundary packets k then .ok none
                else .error (.format path' (.reading .truncatedRecord))]) := by
  obtain ⟨w, d₁, w', d₂, size, bytes, created, written, closed, stores⟩ :=
    Writer.exists_complete regular rfl whole linkType snaplen mode
  refine ⟨w, d₁, w', d₂, size, _, created, written, closed, ?_⟩
  rw [Disk.content_store_self (Disk.lt_size_of_create regular)]
  intro cut path' id' opened front
  constructor
  · intro r opens
    obtain ⟨missing, found⟩ := front
    obtain ⟨missing', feeds, origin, -⟩ := feeds_of_ofPath opened stores found opens
    have header : r.header = _ := (Prod.mk.inj (Prod.mk.inj origin).2).2
    have layout : r.header.layout = .written := by rw [header]
    exact ⟨exists_answers layout feeds whole, answers_prefix layout feeds whole⟩
  · rintro rfl small header
    rw [← Array.length_toList] at header ⊢
    rw [show bytes.toList = _ from stores] at front
    refine answers_of_plain_cut opened rfl front header fun p member => ⟨whole p member, ?_⟩
    have := small p member
    simp only [Record.headerSize, capacity]
    omega

/-- Of two records the second is cut off inside its header. -/
theorem record_before_cut_read :
    let packets : List Packet := [⟨⟨1, 2, 3, 60⟩, [1, 2, 3]⟩, ⟨⟨4, 5, 2, 2⟩, [6, 7]⟩]
    (∃ d', Disk.fresh.create "a.pcap" = .ok (.file 0, d')) ∧ (∀ p ∈ packets, Record.IsWhole p) ∧
      ∃ cut r, (cut.content (.file 0)).size = 50 ∧ ofPath cut "a.pcap" = .ok r ∧
        r.answers cut 2 = [.ok (some ⟨⟨1, 2, 3, 60⟩, [1, 2, 3]⟩),
          .error (.format "a.pcap" (.reading .truncatedRecord))] := by
  intro packets
  have regular : ∃ d', Disk.fresh.create "a.pcap" = .ok (.file 0, d') :=
    Disk.exists_of_create (by decide +kernel)
  have whole : ∀ p ∈ packets, Record.IsWhole p := by decide
  refine ⟨regular, whole, ?_⟩
  obtain ⟨d', opened⟩ := regular
  obtain ⟨w, d₁, w', d₂, size, bytes, created, written, closed, stores⟩ :=
    Writer.exists_complete opened rfl whole ⟨1⟩ 65535 .plain
  obtain ⟨w₁, d₁', w₁', d₂', size', d₃, created', written', closed', reads⟩ :=
    cut_file_reads_prefix opened whole ⟨1⟩ 65535 .plain
  simp only [created, Prod.mk.injEq, Except.ok.injEq] at created'
  obtain ⟨rfl, rfl⟩ := created'
  simp only [written, Prod.mk.injEq, true_and] at written'
  obtain ⟨rfl, rfl⟩ := written'
  simp only [closed, Prod.mk.injEq, Except.ok.injEq] at closed'
  obtain ⟨rfl, rfl⟩ := closed'
  have content (bytes : Array UInt8) : (d'.store (.file 0) bytes).content (.file 0) = bytes :=
    Disk.content_store_self (Disk.lt_size_of_create opened)
  -- The disk on which the file has its first 50 bytes only.
  obtain ⟨cut, kept⟩ : ∃ cut : Disk, cut = d'.store (.file 0) (bytes.extract 0 50) := ⟨_, rfl⟩
  have named : cut.openToRead "a.pcap" = .ok (.file 0) := by
    rw [kept]
    exact (Disk.extends_store d' _ _).openToRead (Disk.openToRead_create opened)
  have length : bytes.toList.length = 61 := by
    rw [show bytes.toList = _ from stores]
    decide +kernel
  have size50 : (cut.content (.file 0)).size = 50 := by
    rw [Array.length_toList] at length
    rw [kept, content, Array.size_extract, length]
    rfl
  have front : (cut.content (.file 0)).toList <+: ((d'.store (.file 0) bytes).content (.file 0)).toList := by
    rw [kept, content, content, Array.toList_extract, List.extract_eq_take_drop, List.drop_zero]
    exact List.take_prefix _ _
  obtain ⟨r, k, opens, bound, inside, answers⟩ :=
    (reads cut "a.pcap" 0 named front).2 rfl (by decide) (by rw [size50]; decide)
  have first : 1 ≤ k := (inside 1 (by decide)).1 (by rw [size50]; decide +kernel)
  have second : ¬ 2 ≤ k := by
    intro two
    have := (inside 2 (by decide)).2 two
    rw [size50] at this
    exact absurd this (by decide +kernel)
  obtain rfl : k = 1 := by omega
  refine ⟨cut, r, size50, opens, ?_⟩
  rw [answers, size50, if_neg (by decide +kernel)]
  rfl

end Reader

end RollingCapture.CaptureFile
