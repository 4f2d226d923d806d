import RollingCapture.Proofs.Rotation.Delivery
import RollingCapture.Proofs.Rotation.Progress

/-! A run over packets as files keep them: it cuts them as the run over the packets themselves did, and
seals the same bytes. -/
namespace RollingCapture

namespace LinkType

theorem ofHandle_ofHandle (code : Int32) : ofHandle (ofHandle code).code = ofHandle code := by
  cases found : fileCodes.lookup code with
  | none => simp only [ofHandle, found, Option.getD_none]
  | some stored =>
    have checked : (fileCodes.all fun entry => (fileCodes.lookup entry.2).isNone) = true := by decide
    obtain ⟨before, after, split, -⟩ := List.lookup_eq_some_iff.1 found
    have member : (code, stored) ∈ fileCodes := by
      rw [split]
      exact List.mem_append_right _ List.mem_cons_self
    have last := Option.isNone_iff_eq_none.1 (List.all_eq_true.1 checked _ member)
    simp only [ofHandle, found, Option.getD_some, last, Option.getD_none]

end LinkType

namespace CaptureFile

variable {linkType : LinkType} {snaplen : UInt32} {mode : Compression} {p : Packet}

theorem FileHeader.write_ofHandle (linkType : LinkType) (snaplen : UInt32) :
    write (.ofHandle linkType.code) snaplen = write linkType snaplen := by
  rw [write, write, LinkType.ofHandle_ofHandle]

theorem Record.isWhole_stored (whole : IsWhole p) : IsWhole (stored p) := by
  rw [IsWhole] at whole ⊢
  simp only [stored, List.length_take, Nat.min_eq_left whole, Nat.le_refl]

namespace Sink

theorem start_ofHandle : start mode (.ofHandle linkType.code) snaplen = start mode linkType snaplen := by
  rw [start, start, FileHeader.write_ofHandle]

theorem record_stored (s : Sink) (p : Packet) : s.record (Record.stored p) = s.record p := by
  have low (n : Int) : Bytes.lowWord (n % 4294967296) = Bytes.lowWord n := by
    have span : Bytes.span 4 = 4294967296 := by decide
    rw [Bytes.lowWord, Bytes.lowWord, span]
    simp
  have header : Record.header (Record.stored p).header = Record.header p.header := by
    simp only [Record.header, Record.stored, low]
  have data : (Record.stored p).data.take (Record.stored p).header.caplen.toNat =
      p.data.take p.header.caplen.toNat := by
    simp only [Record.stored, List.take_take, Nat.min_self]
  rw [record, record, header, data]

theorem foldl_record_stored (s : Sink) (packets : List Packet) :
    (packets.map Record.stored).foldl record s = packets.foldl record s := by
  simp only [List.foldl_map, record_stored]

theorem gains_stored (s : Sink) (packets : List Packet) :
    s.gains (packets.map Record.stored) = s.gains packets := by
  induction packets generalizing s with
  | nil => rfl
  | cons p packets ih => rw [List.map_cons, gains, gains, gain, gain, record_stored, ih]

end Sink

end CaptureFile

namespace Rotation

open CaptureFile

namespace Splitter

/-- How files are written that are replayed from those of a run, under other names. -/
def again (s : Splitter) (pattern : String) : Splitter :=
  ⟨{ s.plan with pattern }, .ofHandle s.linkType.code, s.snaplen⟩

variable {s : Splitter} {p : Packet} {seen segment packets : List Packet}
  {front : List (List Packet)}

theorem taken_again (s : Splitter) (pattern : String) (segment : List Packet) :
    (s.again pattern).taken (segment.map Record.stored) = s.taken segment := by
  rw [taken, Sink.gains_stored, again, Sink.start_ofHandle, taken]

theorem sealed_again (s : Splitter) (pattern : String) (segment : List Packet) :
    (s.again pattern).sealed (segment.map Record.stored) = s.sealed segment := by
  rw [sealed, Sink.foldl_record_stored, again, Sink.start_ofHandle, sealed]

theorem cuts_again (storable : ∀ q ∈ p :: segment, Storable q) (pattern : String) :
    (s.again pattern).Cuts (segment.map Record.stored) (Record.stored p) ↔ s.Cuts segment p := by
  have sec (q : Packet) (member : q ∈ p :: segment) : (Record.stored q).header.sec = q.header.sec := by
    rw [stored_eq_trimmed (storable q member)]
    rfl
  cases segment with
  | nil => rfl
  | cons first more =>
    have taken := taken_again s pattern (first :: more)
    rw [List.map_cons] at taken ⊢
    rw [Cuts, Cuts, Full, Full, Late, Late, taken, sec p (by simp), sec first (by simp)]
    rfl

theorem split_again (storable : ∀ p ∈ segment ++ packets, Storable p) (pattern : String) :
    (s.again pattern).split (segment.map Record.stored) (packets.map Record.stored) =
      (s.split segment packets).map (List.map Record.stored) := by
  induction packets generalizing segment with
  | nil => rfl
  | cons p packets ih =>
    have here : ∀ q ∈ p :: segment, Storable q := by
      intro q member
      exact storable q (by simp only [List.mem_cons, List.mem_append] at member ⊢; tauto)
    rw [List.map_cons, split, split]
    by_cases cuts : s.Cuts segment p
    · rw [if_pos ((cuts_again here pattern).2 cuts), if_pos cuts, List.map_cons]
      have rest : (s.again pattern).split [Record.stored p] (packets.map Record.stored) = _ :=
        @ih [p] fun q member => storable q (List.mem_append_right _ member)
      rw [rest]
    · rw [if_neg (mt (cuts_again here pattern).1 cuts), if_neg cuts]
      have rest := @ih (segment ++ [p]) (by simpa using storable)
      rw [List.map_append, List.map_singleton] at rest
      rw [rest]

theorem segments_again (storable : ∀ p ∈ packets, Storable p) (pattern : String) :
    (s.again pattern).segments (packets.map Record.stored) =
      (s.segments packets).map (List.map Record.stored) := by
  cases packets with
  | nil => rfl
  | cons p packets => exact @split_again s [p] packets storable pattern

/-- A packet that begins a segment begins one whatever follows. -/
theorem exists_segments_append (begins : s.segments (seen ++ [p]) = front ++ [[p]])
    (rest : List Packet) :
    ∃ more later, s.segments (seen ++ [p] ++ rest) = front ++ (p :: more) :: later := by
  induction rest using List.reverseRecOn with
  | nil => exact ⟨[], [], by rw [List.append_nil, begins]⟩
  | append_singleton rest q ih =>
    obtain ⟨more, later, split⟩ := ih
    rw [← List.append_assoc]
    rcases List.eq_nil_or_concat later with rfl | ⟨later', last, rfl⟩
    · rw [segments_concat split]
      by_cases cuts : s.Cuts (p :: more) q
      · exact ⟨more, [[q]], by rw [if_pos cuts]⟩
      · exact ⟨more ++ [q], [], by rw [if_neg cuts, List.cons_append]⟩
    · rw [List.concat_eq_append, ← List.cons_append, ← List.append_assoc] at split
      rw [segments_concat split, List.append_assoc, List.cons_append]
      exact ⟨more, _, rfl⟩

theorem name_again {directory : String} (literal : '%' ∉ directory.toList) (name : String)
    (localOffset sec : Int) :
    (s.again (directory ++ "/" ++ name)).name localOffset sec =
      directory ++ "/" ++ s.leaf name localOffset sec :=
  FilePattern.expand_in_directory literal name _ sec

end Splitter

variable {s : Splitter} {localOffset : Int} {packets : List Packet} {openings openings' : List Opening}
  {o : Opening} {r r' : Rotator} {d d' : Disk} {pattern : String}

namespace Leaves

variable (leaves : Leaves s localOffset packets openings r d) (storable : ∀ p ∈ packets, Storable p)

include leaves storable

/-- A file begins at the same second for its packets as they were stored. -/
theorem exists_stored (member : o ∈ openings) :
    ∃ first more, o.packets.map Record.stored = first :: more ∧ first.header.sec = o.sec := by
  obtain ⟨first, more, split, sec⟩ := leaves.begun o member
  have inside : first ∈ packets := by
    rw [← Splitter.flatten_segments packets, ← leaves.segments]
    exact List.mem_flatten.2 ⟨o.packets, List.mem_map_of_mem member, split ▸ List.mem_cons_self⟩
  refine ⟨Record.stored first, more.map Record.stored, by rw [split, List.map_cons], ?_⟩
  rw [stored_eq_trimmed (storable first inside), ← sec]
  rfl

/-- The names of the second run lead to files in the new directory. -/
theorem lands_again {front directory name : String} {loc : Location}
    (pattern : s.plan.pattern = front ++ name) (isFront : Path.IsFront front)
    (plain : '/' ∉ name.toList) (regular : ∀ o ∈ openings, ∃ id, o.entry = .file id)
    (literal : '%' ∉ directory.toList) (opened : d'.openToRead directory = .ok .directory)
    (leads : d'.Leads directory loc)
    (short : ∀ o ∈ openings,
      (directory ++ "/" ++ s.leaf name localOffset o.sec).utf8ByteSize < Disk.pathLimit) :
    ∀ first more, first :: more ∈
        (s.again (directory ++ "/" ++ name)).segments (packets.map Record.stored) →
      Lands d' loc ((s.again (directory ++ "/" ++ name)).name localOffset first.header.sec)
        (s.leaf name localOffset first.header.sec) := by
  intro first more begins
  rw [Splitter.segments_again storable, ← leaves.segments, List.map_map] at begins
  obtain ⟨o, member, stored_eq⟩ := List.mem_map.1 begins
  obtain ⟨first', more', split, sec⟩ := leaves.exists_stored storable member
  obtain ⟨rfl, -⟩ := List.cons.inj (split.symm.trans stored_eq)
  obtain ⟨isName, clean, fits, -⟩ := leaves.leaf_of_mem pattern isFront plain regular member
  rw [sec, Splitter.name_again literal]
  exact ⟨Disk.locate_in_directory opened leads isName clean (short o member), fits⟩

variable (leaves' : Leaves (s.again pattern) localOffset (packets.map Record.stored) openings' r' d')

include leaves'

theorem openings_again :
    openings'.map (fun o => (o.sec, o.packets)) =
      openings.map fun o => (o.sec, o.packets.map Record.stored) := by
  have segments' := leaves'.segments
  rw [Splitter.segments_again storable, ← leaves.segments, List.map_map] at segments'
  let beginning (segment : List Packet) : Int := (segment.head?.map (·.header.sec)).getD 0
  calc openings'.map (fun o => (o.sec, o.packets))
    _ = (openings'.map (·.packets)).map fun segment => (beginning segment, segment) := by
      rw [List.map_map]
      apply List.map_congr_left
      intro o member
      obtain ⟨first, more, split, sec⟩ := leaves'.begun o member
      simp [beginning, split, sec]
    _ = openings.map fun o => (o.sec, o.packets.map Record.stored) := by
      rw [segments', List.map_map]
      apply List.map_congr_left
      intro o member
      obtain ⟨first, more, split, sec⟩ := leaves.exists_stored storable member
      simp [beginning, split, sec]

/-- The second run counts what the first counted. -/
theorem counts_again :
    r'.packets = r.packets ∧ r'.filesOpened = r.filesOpened ∧ r'.bytes = r.bytes := by
  refine ⟨?_, ?_, ?_⟩
  · rw [leaves'.counted, leaves.counted, List.length_map]
  · rw [leaves'.filesOpened, leaves.filesOpened, Splitter.segments_again storable, List.length_map]
  · have taken : (s.again pattern).taken ∘ List.map Record.stored = s.taken :=
      funext (Splitter.taken_again s pattern)
    rw [leaves'.bytes, leaves.bytes, Splitter.segments_again storable, List.map_map, taken]

theorem map_sec_again {α : Type} (f : Int → α) :
    openings'.map (f ·.sec) = openings.map (f ·.sec) := by
  have secs := congrArg (List.map fun made => f made.1) (leaves.openings_again storable leaves')
  rwa [List.map_map, List.map_map] at secs

end Leaves

/-- A file of the first run has the bytes that the file of its name has in the new directory. -/
theorem Leaves.holds_again {d₀ : Disk} {directory name : String} {loc : Location}
    (leaves : Leaves s localOffset packets openings r d) (storable : ∀ p ∈ packets, Storable p)
    (leaves' : Leaves (s.again (directory ++ "/" ++ name)) localOffset (packets.map Record.stored)
      openings' r' d')
    (houses : Houses d₀ loc (s.leaf name localOffset) openings' d') (plain : '/' ∉ name.toList)
    (literal : '%' ∉ directory.toList)
    (apart : (openings.map (s.leaf name localOffset ·.sec)).Nodup) (member : o ∈ openings) :
    d'.Holds (directory ++ "/" ++ s.leaf name localOffset o.sec) (s.sealed o.packets) := by
  have made := leaves.openings_again storable leaves'
  have inside : (o.sec, o.packets.map Record.stored) ∈ openings'.map fun o => (o.sec, o.packets) := by
    rw [made]
    exact List.mem_map_of_mem member
  obtain ⟨o', member', result_eq⟩ := List.mem_map.1 inside
  obtain ⟨sec, packets'⟩ := Prod.mk.inj result_eq
  have files : ∀ o ∈ openings', ∃ id, o.entry = .file id := by
    intro o member
    obtain ⟨id, here, -⟩ := houses.exists_file member
    exact ⟨id, here⟩
  have distinct : (openings'.map (s.leaf name localOffset ·.sec)).Nodup := by
    rw [leaves.map_sec_again storable leaves']
    exact apart
  have hold := leaves'.holds rfl (.inr ⟨directory, rfl⟩) plain files distinct member'
  rwa [Splitter.name_again literal, sec, packets', Splitter.sealed_again] at hold

end Rotation

end RollingCapture
