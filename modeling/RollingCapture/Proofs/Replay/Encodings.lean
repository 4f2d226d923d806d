import RollingCapture.Proofs.CaptureFile.Encodings
import RollingCapture.Proofs.Replay
import RollingCapture.Proofs.Rotation.Footprint
import RollingCapture.Proofs.Rotation.Surroundings
import RollingCapture.Proofs.Run

/-! Replaying one capture from files of different encodings. What is written out depends on the packets
alone, unless a file is written over that is still being read. -/
namespace RollingCapture

open CaptureFile

namespace Capture.Replay

/-- The replay is in its last file, the file `id`, which is plain and still has these packets to give. -/
structure Carries (d : Disk) (id : Nat) (r : Replay) (packets : List Packet) : Prop where
  last : r.pending = []
  file : ∃ reader content, r.reader = some reader ∧ reader.Feeds d (.file id) [] content ∧
    Reader.records reader.header.layout content = (packets, none) ∧
    ∀ p ∈ packets, reader.header.layout.recordHeaderSize + p.data.length < Reader.capacity

variable {d d' : Disk} {id : Nat} {r : Replay} {h : Host} {p : Packet} {packets : List Packet}

namespace Carries

/-- Only the bytes of its own file matter to a replay. -/
theorem congr (carries : r.Carries d id packets) (content_eq : d'.content (.file id) = d.content (.file id)) :
    r.Carries d' id packets := by
  obtain ⟨last, reader, content, now, feeds, parsed, fits⟩ := carries
  exact ⟨last, reader, content, now, feeds.congr content_eq, parsed, fits⟩

theorem exists_next_of_cons (carries : r.Carries h.disk id (p :: packets)) :
    ∃ r', r.next h = (.ok p, r', h) ∧ r'.Carries h.disk id packets ∧ r'.received = r.received + 1 := by
  obtain ⟨last, reader, content, now, feeds, given, fits⟩ := carries
  obtain ⟨rest, parsed, later⟩ := Reader.exists_parse_of_records_cons given
  have total := fits p List.mem_cons_self
  rw [Record.recordHeaderSize_add_length parsed] at total
  obtain ⟨reader', read, feeds', origin⟩ := Reader.nextFrame_of_parsed feeds parsed total
  have header := Reader.header_eq origin
  refine ⟨{ r with reader := some reader', received := r.received + 1 }, ?_, ⟨last, ?_⟩, rfl⟩
  · rw [next, advance]
    simp only [now, read]
  · refine ⟨reader', rest, rfl, feeds', ?_, ?_⟩
    · rw [header, later]
    · rw [header]
      exact fun q member => fits q (List.mem_cons_of_mem p member)

theorem exists_next_of_nil (carries : r.Carries h.disk id []) :
    ∃ r', r.next h = (.error .noMorePackets, r', h) ∧ r'.received = r.received := by
  obtain ⟨last, reader, content, now, feeds, parsed, -⟩ := carries
  obtain rfl := Reader.eq_nil_of_records_nil parsed
  obtain ⟨reader', read, -⟩ := Reader.nextFrame_of_nil feeds
  have ended : r.advance h = (.ok none, { r with reader := none }, h) := by
    rw [advance]
    simp only [now, read]
    split
    · rfl
    · rename_i more
      rw [last] at more
      contradiction
  exact ⟨{ r with reader := none }, by simp only [next, ended], rfl⟩

end Carries

/-- A file of a capture opens as a replay of its packets. -/
theorem exists_carries {e : Encoding} {c : Recording} {path : String} (kept : e.KeptAt c h.disk path)
    (small : ∀ s ∈ c.samples, s.IsSmall) :
    ∃ r log id, ofPaths h [path] = (.ok r, { h with log }) ∧ r.linkType = c.linkType ∧
      r.snaplen = c.snaplen ∧ r.received = 0 ∧ h.disk.openToRead path = .ok (.file id) ∧
      r.Carries h.disk id (c.samples.map Sample.packet) := by
  obtain ⟨reader, id, body, opens, header, opened, feeds, records, -⟩ :=
    Encoding.exists_ofPath kept small
  simp only [ofPaths, opens]
  refine ⟨_, _, id, rfl, ?_, ?_, rfl, opened, rfl, reader, body, rfl, feeds, ?_, ?_⟩
  · rw [Reader.linkType, header]
  · rw [Reader.snaplen, header]
  · rw [header]
    exact Encoding.records_eq records small
  · rw [header]
    exact fun p member => Encoding.lt_capacity e small member

end Capture.Replay

namespace Run

open Capture (Replay Session World)
open Rotation (Rotator)

variable {w : World} {r r' : Rotator} {h' : Host} {id : Nat} {loc : Location} {packets : List Packet}
  {result : Except Error Unit}

def failure : Except Error Unit → Option Error
  | .ok () => none
  | .error e => some e

/-- A replay of a file that is spared is written out packet by packet. -/
theorem exists_pump_of_carries {replay : Replay} (carries : replay.Carries w.disk id packets)
    (spares : r.Spares w.disk loc id) (avoids : r.plan.Avoids w.disk w.localOffset packets loc)
    (running : w.stop.isStopped = false) (wrote : r.writeAll w.toHost packets = (result, r', h')) :
    ∃ replay' log,
      pump (.replay replay) r w =
        (failure result, .replay replay', r', { w with toHost := { h' with log } }) ∧
      (result = .ok () → replay'.received = replay.received + packets.length.toUInt32) := by
  induction packets generalizing replay r w with
  | nil =>
    have turn := pump_eq (s := .replay replay) (r := r) running
    obtain ⟨replay', ended, count⟩ := carries.exists_next_of_nil
    obtain ⟨rfl, rfl, rfl⟩ : .ok () = result ∧ r = r' ∧ w.toHost = h' := by
      simpa [Rotator.writeAll] using wrote
    simp only [Session.next, ended] at turn
    exact ⟨replay', _, turn, fun _ => by simp [count]⟩
  | cons p packets ih =>
    have turn := pump_eq (s := .replay replay) (r := r) running
    obtain ⟨replay₁, found, carries₁, count⟩ := carries.exists_next_of_cons
    simp only [Session.next, found] at turn
    rcases written : r.write w.toHost p with ⟨e | _, r₁, h₁⟩
    · obtain ⟨rfl, rfl, rfl⟩ : .error e = result ∧ r₁ = r' ∧ h₁ = h' := by
        simpa [Rotator.writeAll, written] using wrote
      simp only [written] at turn
      exact ⟨replay₁, h₁.log, turn, by simp⟩
    · simp only [Rotator.writeAll, written] at wrote
      simp only [written] at turn
      obtain ⟨spares₁, content, avoids₁⟩ := spares.write avoids written
      have offset : h₁.localOffset = w.localOffset := by
        rw [(Rotator.logFree_write r p).frame written]
      obtain ⟨replay', log, looped, counted⟩ := ih (w := { w with toHost := h₁ }) (carries₁.congr content)
        spares₁ (offset ▸ avoids₁) running wrote
      refine ⟨replay', log, turn.trans looped, fun fine => ?_⟩
      rw [counted fine, count, List.length_cons]
      simp [UInt32.add_assoc, UInt32.add_comm 1]

/-- The packets that a replay is asked for before the stop. -/
def asked (w : World) (packets : List Packet) : List Packet := if w.stop.isStopped then [] else packets

theorem exists_pump_of_asked {replay : Replay} (carries : replay.Carries w.disk id packets)
    (spares : r.Spares w.disk loc id) (avoids : r.plan.Avoids w.disk w.localOffset packets loc)
    (wrote : r.writeAll w.toHost (asked w packets) = (result, r', h')) :
    ∃ replay' log,
      pump (.replay replay) r w =
        (failure result, .replay replay', r', { w with toHost := { h' with log } }) ∧
      (result = .ok () →
        replay'.received = replay.received + (asked w packets).length.toUInt32) := by
  cases stopped : w.stop.isStopped with
  | true =>
    have empty : asked w packets = [] := by simp only [asked, stopped, if_true]
    rw [empty] at wrote ⊢
    obtain ⟨rfl, rfl, rfl⟩ : .ok () = result ∧ r = r' ∧ w.toHost = h' := by
      simpa [Rotator.writeAll] using wrote
    exact ⟨replay, w.log, pump_of_stopped stopped, fun _ => by simp⟩
  | false =>
    have asked_eq : asked w packets = packets := by simp [asked, stopped]
    rw [asked_eq] at wrote ⊢
    exact exists_pump_of_carries carries spares avoids stopped wrote

section

variable {c : Config} {replay : Replay} {r'' : Rotator} {h'' : Host} {closed : Except Error Unit}

/-- What is around the loop of a run does not depend on the log. -/
theorem exists_dump_of_pump {failure : Option Error} {count : UInt32}
    (looped : ∀ log : Log, ∃ replay' log',
      pump (.replay replay) { plan := c.plan, linkType := replay.linkType, snaplen := replay.snaplen }
          { w with log } =
        (failure, .replay replay', r', { w with toHost := { h' with log := log' } }) ∧
      (failure = none → replay'.received = count))
    (closed_eq : r'.close h' = (closed, r'', h'')) (log : Log) :
    ∃ s' w', dump c (.replay replay) { w with log } =
        (answer ⟨r''.packets, r''.filesOpened, r''.bytes, some ⟨count.toNat, 0, 0⟩⟩ failure closed,
          s', w') ∧
      w'.disk = h''.disk := by
  obtain ⟨log₁, started⟩ :=
    Rotator.exists_new c.plan replay.linkType replay.snaplen { w.toHost with log }
  obtain ⟨replay', log₂, turns, counted⟩ := looped log₁
  obtain ⟨log₃, closed₁⟩ := (Rotator.logFree_close r').with_log closed_eq log₂
  obtain ⟨w', dumped, -, -, left⟩ := exists_dump c (s := .replay replay) (w := { w with log })
    (by simp only [Session.linkType, Session.snaplen, started]; exact turns) closed₁
  refine ⟨.replay replay', w', dumped.trans ?_, left⟩
  cases failure with
  | some e => rfl
  | none => simp only [Session.statistics, Except.toOption, counted rfl, Option.some_or]

/-- A run over a replay writes its packets one after the other and completes the last file. The file that
the packets come from makes no difference, if it is spared. -/
theorem exists_dump_of_carries {linkType : LinkType} {snaplen : UInt32}
    (wrote : Rotator.writeAll { plan := c.plan, linkType, snaplen } w.toHost (asked w packets) =
      (result, r', h')) (closed_eq : r'.close h' = (closed, r'', h'')) (log : Log)
    (type : replay.linkType = linkType) (length : replay.snaplen = snaplen)
    (fresh : replay.received = 0) (carries : replay.Carries w.disk id packets)
    (here : w.disk.find? loc = some (.file id))
    (avoids : c.plan.Avoids w.disk w.localOffset packets loc) :
    ∃ s' w', dump c (.replay replay) { w with log } =
        (answer ⟨r''.packets, r''.filesOpened, r''.bytes,
          some ⟨(asked w packets).length.toUInt32.toNat, 0, 0⟩⟩ (failure result) closed, s', w') ∧
      w'.disk = h''.disk := by
  subst type length
  apply exists_dump_of_pump _ closed_eq
  intro log
  let r₀ : Rotator := { plan := c.plan, linkType := replay.linkType, snaplen := replay.snaplen }
  have spares : r₀.Spares w.disk loc id := ⟨here, by simp [r₀], by simp [Rotator.Busy, r₀]⟩
  obtain ⟨log₁, wrote₁⟩ := (Rotator.logFree_writeAll r₀ (asked w packets)).with_log wrote log
  obtain ⟨replay', log₂, turns, count⟩ :=
    exists_pump_of_asked (w := { w with log }) carries spares avoids wrote₁
  refine ⟨replay', log₂, turns, fun fine => ?_⟩
  cases result with
  | error e => contradiction
  | ok => rw [count rfl, fresh, UInt32.zero_add]; rfl

end

/-! Runs that write over the file that they replay. -/

section

variable {c : Config} {e : Encoding} {recording : Recording} {first second : Sample}
  {path name : String} {r₁ r₂ : Rotator} {h₁ h₂ : Host} {closed : Except Error Unit}

/-- A run that spares the file leaves, of two packets, the file that it opened for the second. -/
theorem exists_dump_of_opening (running : w.stop.isStopped = false)
    (two : recording.samples = [first, second]) (small : ∀ s ∈ recording.samples, s.IsSmall)
    (kept : e.KeptAt recording w.disk path) (keepsAll : c.plan.maxFiles = 0)
    (avoids : ∀ loc, w.disk.Leads path loc →
      c.plan.Avoids w.disk w.localOffset (recording.samples.map Sample.packet) loc)
    (wrote : Rotator.write
      { plan := c.plan, linkType := recording.linkType, snaplen := recording.snaplen } w.toHost
        first.packet = (.ok (), r₁, h₁))
    (opening : (r₁.choice h₁ second.packet.header).path? = some name) :
    ∃ replay h outcome s v, Replay.ofPaths w.toHost [path] = (.ok replay, h) ∧
      dump c (.replay replay) { w with toHost := h } = (outcome, s, v) ∧
      ∃ entry, v.disk.openToRead name = .ok entry := by
  obtain ⟨replay, log, id, opens, type, snaplen, fresh, opened, carries⟩ :=
    Replay.exists_carries (h := w.toHost) kept small
  obtain ⟨place, located, here⟩ := Disk.find?_of_openToRead opened
  rcases next : r₁.write h₁ second.packet with ⟨result, r₃, h₃⟩
  rcases closed_eq : r₃.close h₃ with ⟨closed, r₄, h₄⟩
  let r₀ : Rotator := { plan := c.plan, linkType := recording.linkType, snaplen := recording.snaplen }
  have plan : r₁.plan = c.plan := by
    have writes := r₀.writes w.toHost first.packet
    rw [wrote] at writes
    exact writes.counters.1
  have answered : r₀.writeAll w.toHost (asked w (recording.samples.map Sample.packet)) =
      (result, r₃, h₃) := by
    cases result <;> simp [r₀, asked, running, two, Rotator.writeAll, wrote, next]
  obtain ⟨s, v, ran, left⟩ := exists_dump_of_carries answered closed_eq log type snaplen fresh carries
    here (avoids _ ⟨place, located, rfl⟩)
  have added := Rotation.Event.exists_openToRead_left (e := ⟨r₁, h₁, .write second.packet⟩) opening
    (by rw [plan, keepsAll])
  simp only [Rotation.Event.left, Rotation.Event.outcome, next] at added
  obtain ⟨entry, there⟩ := added
  have stays := Rotation.Event.openToRead_left_of_close (e := ⟨r₃, h₃, .close⟩) rfl there
  simp only [Rotation.Event.left, Rotation.Event.outcome, closed_eq] at stays
  exact ⟨replay, _, _, s, v, opens, ran, entry, left ▸ stays⟩

/-- A run ends with an error where the file that it replays was cut off by what it wrote. -/
theorem exists_dump_of_cut {replay : Replay} {reader reader₁ reader₂ : Reader} {p : Packet}
    (running : w.stop.isStopped = false) (now : replay.reader = some reader)
    (read : reader.nextFrame w.disk = (.ok (some p), reader₁))
    (wrote : Rotator.write { plan := c.plan, linkType := replay.linkType, snaplen := replay.snaplen }
      w.toHost p = (.ok (), r₁, h₁))
    (cut : reader₁.nextFrame h₁.disk = (.error (reader₁.problem .truncatedRecord), reader₂))
    (closed_eq : r₁.close h₁ = (closed, r₂, h₂)) (log : Log) :
    ∃ s' w', dump c (.replay replay) { w with log } =
      (.error (reader₁.problem .truncatedRecord), s', w') ∧ w'.disk = h₂.disk := by
  let r₀ : Rotator := { plan := c.plan, linkType := replay.linkType, snaplen := replay.snaplen }
  have looped (log : Log) : ∃ replay' log',
      pump (.replay replay) r₀ { w with log } =
        (some (reader₁.problem .truncatedRecord), .replay replay', r₁,
          { w with toHost := { h₁ with log := log' } }) ∧
      (some (reader₁.problem .truncatedRecord) = none → replay'.received = 0) := by
    obtain ⟨log₁, wrote₁⟩ := (Rotator.logFree_write r₀ p).with_log wrote log
    have first : replay.next { w.toHost with log } =
        (.ok p, { replay with reader := some reader₁, received := replay.received + 1 },
          { w.toHost with log }) := by
      rw [Replay.next, Replay.advance]
      simp only [now, read]
    have turn := pump_eq (s := .replay replay) (r := r₀) (w := { w with log }) running
    simp only [Session.next, first, wrote₁] at turn
    refine ⟨{ replay with reader := some reader₂, received := replay.received + 1 }, log₁,
      turn.trans ?_, by simp⟩
    rw [pump_eq (w := { w with toHost := { h₁ with log := log₁ } }) running]
    simp only [Session.next, Replay.next, Replay.advance, cut, Reader.problem]
    cases reader₁.compression <;> rfl
  exact exists_dump_of_pump looped closed_eq log

/-- A run that empties the file for the first packet has not read enough of it for the second. -/
theorem exists_dump_of_emptied {id : Nat} {samples : List Sample} (running : w.stop.isStopped = false)
    (two : recording.samples = first :: second :: samples)
    (small : ∀ s ∈ recording.samples, s.IsSmall)
    (kept : e.KeptAt recording w.disk path) (opened : w.disk.openToRead path = .ok (.file id))
    (ahead : fileHeaderSize + e.layout.recordHeaderSize + first.data.length < Source.capacity)
    (long : Source.capacity <
      fileHeaderSize + 2 * e.layout.recordHeaderSize + first.data.length + second.data.length)
    (wrote : Rotator.write
      { plan := c.plan, linkType := recording.linkType, snaplen := recording.snaplen } w.toHost
        first.packet = (.ok (), r₁, h₁))
    (emptied : h₁.disk.content (.file id) = #[]) (closed_eq : r₁.close h₁ = (closed, r₂, h₂)) :
    ∃ replay h outcome s v, Replay.ofPaths w.toHost [path] = (.ok replay, h) ∧
      dump c (.replay replay) { w with toHost := h } = (.error outcome, s, v) ∧ v.disk = h₂.disk := by
  obtain ⟨reader, reader₁, id', opens, header, opened', read, later⟩ :=
    Encoding.exists_cut kept small two ahead long
  obtain rfl : id = id' := by simpa [opened] using opened'
  rcases stopped : reader₁.nextFrame h₁.disk with ⟨answer, reader₂⟩
  obtain rfl : answer = .error (reader₁.problem .truncatedRecord) := by
    rw [← later h₁.disk emptied, stopped]
  have type : reader.linkType = recording.linkType := by rw [Reader.linkType, header]
  have snaplen : reader.snaplen = recording.snaplen := by rw [Reader.snaplen, header]
  rw [← type, ← snaplen] at wrote
  let replay : Replay := ⟨path, [], some reader, reader.linkType, reader.snaplen, 0⟩
  have now : replay.reader = some reader := rfl
  simp only [Replay.ofPaths, opens]
  obtain ⟨s, v, ran, left⟩ := exists_dump_of_cut running now read wrote stopped closed_eq _
  exact ⟨replay, _, _, s, v, rfl, ran, left⟩

end

/-- The files of a capture read the same in every encoding, but for the unit of their time stamps. A run
that replays one of them comes to the same, and leaves the same, whichever it is, unless the names that the
pattern gives for the times of the packets lead to one of them. -/
theorem encodings_of_capture_agree (recording : Recording)
    (small : ∀ s ∈ recording.samples, s.IsSmall) :
    (∀ (e : Encoding) (d : Disk) (path : String), e.KeptAt recording d path →
      ∃ r, Reader.ofPath d path = .ok r ∧ r.linkType = recording.linkType ∧
        r.snaplen = recording.snaplen ∧ r.isNanosecond = e.isNano ∧
        r.readAll d = .ok (recording.samples.map Sample.packet)) ∧
    ∀ (c : Config) (w : World) (e e' : Encoding) (path path' : String),
      e.KeptAt recording w.disk path → e'.KeptAt recording w.disk path' →
      (∀ loc, w.disk.Leads path loc ∨ w.disk.Leads path' loc →
        c.plan.Avoids w.disk w.localOffset (recording.samples.map Sample.packet) loc) →
      ∃ replay replay' h h' outcome s s' v v',
        Replay.ofPaths w.toHost [path] = (.ok replay, h) ∧
        Replay.ofPaths w.toHost [path'] = (.ok replay', h') ∧
        dump c (.replay replay) { w with toHost := h } = (outcome, s, v) ∧
        dump c (.replay replay') { w with toHost := h' } = (outcome, s', v') ∧ v'.disk = v.disk := by
  constructor
  · intro e d path kept
    obtain ⟨r, -, -, opens, header, -, -, -, read⟩ := Encoding.exists_ofPath kept small
    refine ⟨r, opens, ?_, ?_, ?_, read⟩
    · rw [Reader.linkType, header]
    · rw [Reader.snaplen, header]
    · rw [Reader.isNanosecond, header]
      rfl
  · intro c w e e' path path' kept kept' avoids
    let packets := recording.samples.map Sample.packet
    let r₀ : Rotator :=
      { plan := c.plan, linkType := recording.linkType, snaplen := recording.snaplen }
    rcases wrote : r₀.writeAll w.toHost (asked w packets) with ⟨result, r', h'⟩
    rcases closed_eq : r'.close h' with ⟨closed, r'', h''⟩
    let outcome := answer ⟨r''.packets, r''.filesOpened, r''.bytes,
      some ⟨(asked w packets).length.toUInt32.toNat, 0, 0⟩⟩ (failure result) closed
    have run {e : Encoding} {path : String} (kept : e.KeptAt recording w.disk path)
        (avoids : ∀ loc, w.disk.Leads path loc →
          c.plan.Avoids w.disk w.localOffset (recording.samples.map Sample.packet) loc) :
        ∃ replay h s v, Replay.ofPaths w.toHost [path] = (.ok replay, h) ∧
          dump c (.replay replay) { w with toHost := h } = (outcome, s, v) ∧ v.disk = h''.disk := by
      obtain ⟨replay, log, id, opens, type, snaplen, fresh, opened, carries⟩ :=
        Replay.exists_carries (h := w.toHost) kept small
      obtain ⟨place, located, here⟩ := Disk.find?_of_openToRead opened
      obtain ⟨s, v, ran, left⟩ := exists_dump_of_carries wrote closed_eq log type snaplen fresh
        carries here (avoids _ ⟨place, located, rfl⟩)
      exact ⟨replay, _, s, v, opens, ran, left⟩
    obtain ⟨replay, h, s, v, opens, ran, left⟩ := run kept fun loc leads => avoids loc (.inl leads)
    obtain ⟨replay', h', s', v', opens', ran', left'⟩ :=
      run kept' fun loc leads => avoids loc (.inr leads)
    exact ⟨replay, replay', h, h', outcome, s, s', v, v', opens, opens', ran, ran', left'.trans left.symm⟩

/-- A little-endian file with microseconds, and a big-endian one with nanoseconds. -/
theorem little_and_bigNano_replayed_alike :
    let sample : Sample := ⟨1, 2, 9, [5, 6, 7]⟩
    let recording : Recording := ⟨.ethernet, 65535, [sample]⟩
    let bytes (e : Encoding) : List UInt8 := e.fileHeader recording (.replicate 12 0) ++
      (e.recordHeader sample ⟨999, .replicate 8 0⟩ ++ sample.data ++ [])
    let disk := (Disk.fresh.addFileWith "a.pcap" (bytes .little).toArray).addFileWith "b.pcap"
      (bytes .bigNano).toArray
    let c : Config := ⟨{ pattern := "c.pcap", calendar := .utc }, .plain⟩
    let w : World := { disk }
    (∀ s ∈ recording.samples, s.IsSmall) ∧
    (∃ r, Reader.ofPath disk "b.pcap" = .ok r ∧ r.isNanosecond = true ∧
      r.readAll disk = .ok [⟨⟨1, 2, 3, 9⟩, [5, 6, 7]⟩]) ∧
    ∃ replay replay' h h' outcome s s' v v',
      Replay.ofPaths w.toHost ["a.pcap"] = (.ok replay, h) ∧
      Replay.ofPaths w.toHost ["b.pcap"] = (.ok replay', h') ∧
      dump c (.replay replay) { w with toHost := h } = (outcome, s, v) ∧
      dump c (.replay replay') { w with toHost := h' } = (outcome, s', v') ∧ v'.disk = v.disk := by
  intro sample recording bytes disk c w
  have small : ∀ s ∈ recording.samples, s.IsSmall := by decide
  have keeps (e : Encoding) : e.Keeps recording (bytes e) :=
    ⟨.replicate 12 0, _, rfl, .cons ⟨999, .replicate 8 0⟩ .nil⟩
  have first : Encoding.little.KeptAt recording disk "a.pcap" := by
    refine ⟨0, Disk.eq_ok_of_toOption (by decide +kernel), ?_⟩
    rw [show (disk.content (.file 0)).toList = bytes .little by decide +kernel]
    exact keeps .little
  have second : Encoding.bigNano.KeptAt recording disk "b.pcap" := by
    refine ⟨1, Disk.eq_ok_of_toOption (by decide +kernel), ?_⟩
    rw [show (disk.content (.file 1)).toList = bytes .bigNano by decide +kernel]
    exact keeps .bigNano
  have leadsA : disk.Leads "a.pcap" ["tmp", "home", "a.pcap"] :=
    Disk.leads_of_map_locate (by decide +kernel)
  have leadsB : disk.Leads "b.pcap" ["tmp", "home", "b.pcap"] :=
    Disk.leads_of_map_locate (by decide +kernel)
  have leadsC : disk.Leads "c.pcap" ["tmp", "home", "c.pcap"] :=
    Disk.leads_of_map_locate (by decide +kernel)
  obtain ⟨reads, replays⟩ := encodings_of_capture_agree recording small
  refine ⟨small, ?_, replays c w .little .bigNano "a.pcap" "b.pcap" first second ?_⟩
  · obtain ⟨r, opens, -, -, nano, read⟩ := reads .bigNano disk "b.pcap" second
    exact ⟨r, opens, nano, read⟩
  · intro loc leads p _ there
    rw [FilePattern.expand_of_plain (by decide)] at there
    obtain rfl := leadsC.unique there
    rcases leads with here | here
    · exact absurd (leadsA.unique here) (by decide)
    · exact absurd (leadsB.unique here) (by decide)

/-! A capture of two packets that is replayed over one of its files. -/

namespace Overwriting

def first : Sample := ⟨1, 0, 0, []⟩

/-- Behind the modified header, the buffer that the file is read through does not hold all of it. -/
def second : Sample := ⟨2, 0, 8136, .replicate 8136 1⟩

def recording : Recording := ⟨.ethernet, 65535, [first, second]⟩

def bytes (e : Encoding) : List UInt8 :=
  let slack : Slack := ⟨0, .replicate 8 0⟩
  e.fileHeader recording (.replicate 12 0) ++
    (e.recordHeader first slack ++ first.data ++ (e.recordHeader second slack ++ second.data ++ []))

def disk : Disk :=
  (Disk.fresh.addFileWith "a.pcap" (bytes .little).toArray).addFileWith "01.pcap" (bytes .modified).toArray

/-- The first packet is written to the file that the second one may still be read from. -/
def config : Config := ⟨{ pattern := "%S.pcap", calendar := .utc, period := 1 }, .plain⟩

theorem small : ∀ s ∈ recording.samples, s.IsSmall := by
  have empty : first.IsSmall := by decide
  have long : second.IsSmall := by
    constructor
    · rw [second, List.length_replicate]
      decide
    · decide
  simpa [recording] using And.intro empty long

theorem kept_little : Encoding.little.KeptAt recording disk "a.pcap" := by
  refine ⟨0, Disk.eq_ok_of_toOption (by decide +kernel), ?_⟩
  rw [disk, Disk.content_addFileWith_of_lt (by decide +kernel),
    Disk.content_addFileWith_self (by decide +kernel)]
  exact ⟨.replicate 12 0, _, rfl, .cons _ (.cons _ .nil)⟩

theorem opened_modified : disk.openToRead "01.pcap" = .ok (.file 1) :=
  Disk.eq_ok_of_toOption (by decide +kernel)

theorem kept_modified : Encoding.modified.KeptAt recording disk "01.pcap" := by
  refine ⟨1, opened_modified, ?_⟩
  rw [disk, Disk.content_addFileWith_self (by decide +kernel)]
  exact ⟨.replicate 12 0, _, rfl, .cons _ (.cons _ .nil)⟩

theorem avoids_little (loc : Location) (leads : disk.Leads "a.pcap" loc) :
    config.plan.Avoids disk 0 (recording.samples.map Sample.packet) loc := by
  obtain rfl : loc = ["tmp", "home", "a.pcap"] :=
    leads.unique (Disk.leads_of_map_locate (by decide +kernel))
  have leads₁ : disk.Leads "01.pcap" ["tmp", "home", "01.pcap"] :=
    Disk.leads_of_map_locate (by decide +kernel)
  have leads₂ : disk.Leads "02.pcap" ["tmp", "home", "02.pcap"] :=
    Disk.leads_of_map_locate (by decide +kernel)
  have name₁ : FilePattern.expand "%S.pcap" 0 1 = "01.pcap" := by decide +kernel
  have name₂ : FilePattern.expand "%S.pcap" 0 2 = "02.pcap" := by decide +kernel
  intro p member there
  rcases List.mem_pair.1 member with rfl | rfl
  · exact absurd (leads₁.unique (name₁ ▸ there)) (by decide)
  · exact absurd (leads₂.unique (name₂ ▸ there)) (by decide)

end Overwriting

open Overwriting in
/-- A run that writes over the file that it replays cannot read on, where it goes on to the second packet if
it replays another file of the same capture. -/
theorem overwritten_replay_fails :
    let w : World := { disk }
    (∀ s ∈ recording.samples, s.IsSmall) ∧ Encoding.little.KeptAt recording disk "a.pcap" ∧
    Encoding.modified.KeptAt recording disk "01.pcap" ∧
    ∃ replay replay' h h' outcome outcome' s s' v v',
      Replay.ofPaths w.toHost ["a.pcap"] = (.ok replay, h) ∧
      Replay.ofPaths w.toHost ["01.pcap"] = (.ok replay', h') ∧
      dump config (.replay replay) { w with toHost := h } = (outcome, s, v) ∧
      dump config (.replay replay') { w with toHost := h' } = (.error outcome', s', v') ∧
      (∃ entry, v.disk.openToRead "02.pcap" = .ok entry) ∧
      ∀ entry, v'.disk.openToRead "02.pcap" ≠ .ok entry := by
  intro w
  refine ⟨small, kept_little, kept_modified, ?_⟩
  let r₀ : Rotator := { plan := config.plan, linkType := recording.linkType, snaplen := recording.snaplen }
  have fine : (r₀.write w.toHost first.packet).1.toOption = some () := by decide +kernel
  have opening : ((r₀.write w.toHost first.packet).2.1.choice (r₀.write w.toHost first.packet).2.2
      second.packet.header).path? = some "02.pcap" := by decide +kernel
  have emptied : (r₀.write w.toHost first.packet).2.2.disk.content (.file 1) = #[] := by decide +kernel
  have missing : (((r₀.write w.toHost first.packet).2.1.close
      (r₀.write w.toHost first.packet).2.2).2.2.disk.openToRead "02.pcap").toOption = none := by
    decide +kernel
  rcases wrote : r₀.write w.toHost first.packet with ⟨answer, r₁, h₁⟩
  rcases closed_eq : r₁.close h₁ with ⟨closed, r₂, h₂⟩
  simp only [wrote, closed_eq] at fine opening emptied missing
  obtain rfl : answer = .ok () := Disk.eq_ok_of_toOption fine
  obtain ⟨replay, h, outcome, s, v, opens, ran, there⟩ :=
    exists_dump_of_opening (w := w) rfl rfl small kept_little rfl avoids_little wrote opening
  obtain ⟨replay', h', outcome', s', v', opens', ran', left⟩ :=
    exists_dump_of_emptied (w := w) rfl rfl small kept_modified opened_modified (by decide)
      (by rw [second, List.length_replicate]; decide) wrote emptied closed_eq
  refine ⟨replay, replay', h, h', outcome, outcome', s, s', v, v', opens, opens', ran, ran', there, ?_⟩
  intro entry there
  rw [← left, there] at missing
  exact Option.some_ne_none entry missing

end Run

end RollingCapture
