import Mathlib.Data.List.Forall2
import RollingCapture.Capture.Replay
import RollingCapture.Proofs.CaptureFile.Feeding
import RollingCapture.Proofs.Disk

/-! A replay of written files gives the packets of all of them, one after the other, as they were stored.
It goes on while other files are written. -/
namespace RollingCapture.Capture

open CaptureFile

/-- The file at `path`, one of the first `bound`, was written with these packets. -/
def Keeps (d : Disk) (bound : Nat) (linkType : LinkType) (snaplen : UInt32) (path : String)
    (packets : List Packet) : Prop :=
  ∃ (id : Nat) (mode : Compression), id < bound ∧ d.openToRead path = .ok (.file id) ∧
    mode.Stores (d.content (.file id)).toList
      (FileHeader.write linkType snaplen ++ packets.flatMap Record.bytes)

variable {d d' : Disk} {bound : Nat} {linkType : LinkType} {snaplen : UInt32} {path : String}
  {packets : List Packet} {h h' : Host}

namespace Keeps

theorem congr (keeps : Keeps d bound linkType snaplen path packets) (larger : d.Extends d')
    (contents_eq : ∀ id < bound, d'.content (.file id) = d.content (.file id)) :
    Keeps d' bound linkType snaplen path packets := by
  obtain ⟨id, mode, old, opened, stores⟩ := keeps
  exact ⟨id, mode, old, larger.openToRead opened, by rwa [contents_eq id old]⟩

theorem exists_ofPath (keeps : Keeps d bound linkType snaplen path packets) :
    ∃ reader id, id < bound ∧ Reader.ofPath d path = .ok reader ∧
      reader.Feeds d (.file id) [] (packets.flatMap Record.bytes) ∧
      reader.header = ⟨.written, snaplen, .ofHandle linkType.code⟩ := by
  obtain ⟨id, mode, old, opened, stores⟩ := keeps
  obtain ⟨reader, opens, -, -, header, -⟩ := Reader.ofPath_of_stores opened stores
  obtain ⟨missing, feeds, -, whole⟩ :=
    Reader.feeds_of_ofPath opened stores (List.append_nil _) opens
  rw [whole rfl] at feeds
  exact ⟨reader, id, old, opens, feeds, header⟩

end Keeps

namespace Replay

/-- Replaying only reads: it may add to the log, and changes nothing else around it. -/
theorem host_advance (r : Replay) (h : Host) : ∃ log, (r.advance h).2.2 = { h with log } := by
  fun_induction Replay.advance r h with
  | case1 | case2 | case3 | case4 | case5 | case7 => exact ⟨_, rfl⟩
  | case6 r h reader current reader' ended path pending more next opened linkType_eq ih => exact ih

theorem host_next (r : Replay) (h : Host) : ∃ log, (r.next h).2.2 = { h with log } := by
  obtain ⟨log, host_eq⟩ := host_advance r h
  refine ⟨log, ?_⟩
  rcases found : r.advance h with ⟨answer, r', h'⟩
  obtain rfl : h' = { h with log } := by rw [← host_eq, found]
  rcases answer with _ | _ | p <;> simp only [next, found]

/-- What a replay still gives: the packets `here` of its current file, and those of the files after it,
all of them among the first `bound` files. -/
structure Gives (d : Disk) (bound : Nat) (linkType : LinkType) (snaplen : UInt32) (r : Replay)
    (packets : List Packet) : Prop where
  type : r.linkType = .ofHandle linkType.code
  files : ∃ reader id here later, r.reader = some reader ∧ id < bound ∧
    reader.header.layout = .written ∧
    reader.Feeds d (.file id) [] (here.flatMap Record.bytes) ∧
    List.Forall₂ (Keeps d bound linkType snaplen) r.pending later ∧ packets = here ++ later.flatten

variable {r : Replay}

theorem Gives.congr (gives : Gives d bound linkType snaplen r packets) (larger : d.Extends d')
    (contents_eq : ∀ id < bound, d'.content (.file id) = d.content (.file id)) :
    Gives d' bound linkType snaplen r packets := by
  obtain ⟨type, reader, id, here, later, now, old, layout, feeds, pending, packets_eq⟩ := gives
  exact ⟨type, reader, id, here, later, now, old, layout, feeds.congr (contents_eq id old),
    pending.imp fun _ _ keeps => keeps.congr larger contents_eq, packets_eq⟩

/-- Files that were written with the same settings open as one replay. -/
theorem exists_ofPaths {paths : List String} {segments : List (List Packet)} (nonempty : paths ≠ [])
    (keep : List.Forall₂ (Keeps h.disk bound linkType snaplen) paths segments) :
    ∃ r h', ofPaths h paths = (.ok r, h') ∧ Gives h.disk bound linkType snaplen r segments.flatten ∧
      r.snaplen = snaplen ∧ h'.disk = h.disk ∧ h'.localOffset = h.localOffset := by
  cases keep with
  | nil => contradiction
  | @cons path here pending later first keep =>
    obtain ⟨reader, id, old, opens, feeds, header⟩ := first.exists_ofPath
    simp only [ofPaths, opens]
    refine ⟨_, _, rfl, ⟨?_, reader, id, here, later, rfl, old, ?_, feeds, keep, ?_⟩, ?_, rfl, rfl⟩
    · simp only [Reader.linkType, header]
    · rw [header]
    · rw [List.flatten_cons]
    · simp only [Reader.snaplen, header]

/-- Whether a reader can hold the record of a packet. -/
def Fits (p : Packet) : Prop :=
  Record.IsWhole p ∧ Record.headerSize + p.header.caplen.toNat < Reader.capacity

theorem nextFrame_of_feeds {reader : Reader} {e : Entry} (layout : reader.header.layout = .written)
    (feeds : reader.Feeds d e [] (packets.flatMap Record.bytes)) (fits : ∀ p ∈ packets, Fits p) :
    ∃ reader', reader.nextFrame d = (.ok (packets.head?.map Record.stored), reader') ∧
      reader'.header.layout = .written ∧
      reader'.Feeds d e [] (packets.tail.flatMap Record.bytes) := by
  cases packets with
  | nil =>
    obtain ⟨reader', ended, feeds', origin⟩ := Reader.nextFrame_of_nil feeds
    exact ⟨reader', ended, by rw [Reader.header_eq origin, layout], feeds'⟩
  | cons p packets =>
    obtain ⟨whole, small⟩ := fits p List.mem_cons_self
    obtain ⟨reader', read, feeds', origin⟩ := Reader.nextFrame_of_bytes layout feeds whole small
    exact ⟨reader', read, by rw [Reader.header_eq origin, layout], feeds'⟩

theorem eq_nil_of_ended {reader reader' : Reader} {e : Entry} (layout : reader.header.layout = .written)
    (feeds : reader.Feeds d e [] (packets.flatMap Record.bytes)) (fits : ∀ p ∈ packets, Fits p)
    (ended : reader.nextFrame d = (.ok none, reader')) : packets = [] := by
  obtain ⟨_, read, -⟩ := nextFrame_of_feeds layout feeds fits
  cases packets with
  | nil => rfl
  | cons p packets =>
    rw [read] at ended
    simp at ended

theorem advance_of_gives (gives : Gives h.disk bound linkType snaplen r packets)
    (fits : ∀ p ∈ packets, Fits p) :
    ∃ r' h', r.advance h = (.ok (packets.head?.map Record.stored), r', h') ∧ h'.disk = h.disk ∧
      h'.localOffset = h.localOffset ∧
      (packets ≠ [] → Gives h.disk bound linkType snaplen r' packets.tail) := by
  obtain ⟨type, reader, id, here, later, now, old, layout, feeds, keep, rfl⟩ := gives
  fun_induction Replay.advance r h generalizing reader id here later with
  | case1 r h absent =>
    rw [absent] at now
    contradiction
  | case2 r h reader' now' e next failed =>
    obtain rfl := Option.some.inj (now'.symm.trans now)
    obtain ⟨_, read, -⟩ := nextFrame_of_feeds layout feeds fun p member => fits p (by simp [member])
    rw [read] at failed
    simp at failed
  | case3 r h reader' now' p next found =>
    obtain rfl := Option.some.inj (now'.symm.trans now)
    obtain ⟨_, read, layout', feeds'⟩ :=
      nextFrame_of_feeds layout feeds fun p member => fits p (by simp [member])
    obtain ⟨given, rfl⟩ := Prod.mk.inj (read.symm.trans found)
    cases here with
    | nil => simp at given
    | cons q here =>
      obtain rfl := Option.some.inj (Except.ok.inj given)
      exact ⟨_, _, rfl, rfl, rfl, fun _ => ⟨type, _, id, here, later, rfl, old, layout', feeds', keep, rfl⟩⟩
  | case4 r h reader' now' next ended empty =>
    obtain rfl := Option.some.inj (now'.symm.trans now)
    obtain rfl := eq_nil_of_ended layout feeds (fun p member => fits p (by simp [member])) ended
    rw [empty] at keep
    cases keep
    exact ⟨_, _, rfl, rfl, rfl, fun nonempty => absurd rfl nonempty⟩
  | case5 r h reader' now' next ended path pending more e failed =>
    obtain rfl := Option.some.inj (now'.symm.trans now)
    rw [more] at keep
    cases keep with
    | cons first keep =>
      obtain ⟨_, _, _, opens, -⟩ := first.exists_ofPath
      rw [opens] at failed
      contradiction
  | case6 r h reader' now' next ended path pending more reader₁ opened linkType_eq ih =>
    obtain rfl := Option.some.inj (now'.symm.trans now)
    obtain rfl := eq_nil_of_ended layout feeds (fun p member => fits p (by simp [member])) ended
    rw [more] at keep
    cases keep with
    | @cons _ here _ later first keep =>
      obtain ⟨_, id, old, opens, feeds, header⟩ := first.exists_ofPath
      obtain rfl := Except.ok.inj (opens.symm.trans opened)
      exact ih type _ id here later rfl old (by rw [header]) feeds keep fits
  | case7 r h reader' now' next ended path pending more reader₁ opened other =>
    rw [more] at keep
    cases keep with
    | cons first keep =>
      obtain ⟨_, _, _, opens, -, header⟩ := first.exists_ofPath
      obtain rfl := Except.ok.inj (opens.symm.trans opened)
      rw [type, Reader.linkType, header] at other
      exact absurd rfl other

theorem exists_next_of_cons {p : Packet}
    (gives : Gives h.disk bound linkType snaplen r (p :: packets)) (fits : ∀ q ∈ p :: packets, Fits q) :
    ∃ r' h', r.next h = (.ok (Record.stored p), r', h') ∧ h'.disk = h.disk ∧
      h'.localOffset = h.localOffset ∧ Gives h.disk bound linkType snaplen r' packets := by
  obtain ⟨r', h', found, disk, offset, gives'⟩ := advance_of_gives gives fits
  obtain ⟨type, files⟩ := gives' (List.cons_ne_nil p packets)
  exact ⟨{ r' with received := r'.received + 1 }, h', by rw [next, found]; rfl, disk, offset, type, files⟩

theorem exists_next_of_nil (gives : Gives h.disk bound linkType snaplen r []) :
    ∃ r' h', r.next h = (.error .noMorePackets, r', h') ∧ h'.disk = h.disk ∧
      h'.localOffset = h.localOffset := by
  obtain ⟨r', h', found, disk, offset, -⟩ := advance_of_gives gives (by simp)
  exact ⟨r', h', by rw [next, found]; rfl, disk, offset⟩

end Replay

end RollingCapture.Capture
