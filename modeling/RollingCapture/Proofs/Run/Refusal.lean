import RollingCapture.Proofs.CaptureFile.Intake
import RollingCapture.Proofs.Rotation.Calls
import RollingCapture.Proofs.Run.Pulling

/-! A device that refuses bytes is noticed only once the buffer in front of it has to be emptied, and
the buffer keeps what it took in. So a file on such a device cannot be completed, whatever was written
to it before, and no other file is opened in its place: a run that pulled a packet fails. -/
namespace RollingCapture

/-- Opening `path` for writing leads to a file that refuses bytes. -/
def Disk.Refuses (d : Disk) (path : String) : Prop :=
  ∃ e d', d.create path = .ok (e, d') ∧ e.refuses = true

namespace CaptureFile.Writer

variable {w : Writer} {d : Disk} {path : String}

theorem stuck_write (stuck : w.sink.out.Stuck) (d : Disk) (p : Packet) :
    (w.write d p).2.1.sink.out.Stuck := by
  have first := Sink.write_stuck stuck (Record.header p.header)
  have second := Sink.write_stuck first (p.data.take p.header.caplen.toNat)
  unfold write
  simp only [append_eq]
  split
  · exact stuck
  · rcases (w.sink.write (Record.header p.header)).1 with e | -
    · exact first
    · simp only [mapError_ok]
      rcases ((w.sink.write (Record.header p.header)).2.write
          (p.data.take p.header.caplen.toNat)).1 with e | -
      · exact second
      · exact second

theorem stuck_tried (stuck : w.sink.out.Stuck) (calls : List (Disk × Packet)) :
    (w.tried calls).sink.out.Stuck := by
  induction calls generalizing w with
  | nil => exact stuck
  | cons call calls ih => exact ih (stuck_write stuck call.1 call.2)

/-- The file header still fits into the buffer. -/
theorem exists_stuck (refuses : d.Refuses path) (linkType : LinkType) (snaplen : UInt32)
    (mode : Compression) :
    ∃ w d', create d path linkType snaplen mode = (.ok w, d') ∧ w.sink.out.Stuck := by
  obtain ⟨e, d', opened, refuses⟩ := refuses
  obtain ⟨sink, created, stuck⟩ := create_of_refuses opened refuses linkType snaplen mode
  exact ⟨_, d', created, stuck⟩

end CaptureFile.Writer

namespace Rotation

open CaptureFile (Writer)

/-- The current file has bytes waiting that its device refuses. -/
def Rotator.IsStuck (r : Rotator) : Prop := ∃ f, r.current = some f ∧ f.writer.sink.out.Stuck

variable {r r' : Rotator} {h h' : Host} {p : Packet}

def Rotator.nameFor (r : Rotator) (h : Host) (p : Packet) : String :=
  FilePattern.expand r.plan.pattern (r.plan.calendar.offset h.localOffset) p.header.sec

/-- A packet that is acknowledged is in the stuck file: no other can be opened, as that one cannot be
completed. -/
theorem Rotator.Writes.isStuck (wrote : r.Writes h p (.ok (), r', h')) (stuck : r.IsStuck) :
    r'.IsStuck := by
  obtain ⟨f, now, stuck⟩ := stuck
  cases wrote with
  | @accepted g r₁ h₁ _ size writer ready written =>
    have stuck' : g.writer.sink.out.Stuck := by
      cases ready with
      | keeps now' =>
        obtain rfl := Option.some.inj (now.symm.trans now')
        exact stuck
      | opens cleared =>
        cases cleared with
        | idle absent =>
          rw [now] at absent
          contradiction
        | closed now' late closed =>
          obtain rfl := Option.some.inj (now.symm.trans now')
          obtain ⟨e, failed⟩ := Writer.close_of_stuck stuck h.disk
          rw [closed] at failed
          contradiction
    have still := Writer.stuck_write stuck' h₁.disk p
    rw [written] at still
    exact ⟨_, rfl, still⟩

/-- The first packet opens a file, and where that refuses bytes it is stuck. -/
theorem Rotator.Writes.isStuck_of_refuses (wrote : r.Writes h p (.ok (), r', h'))
    (idle : r.current = none) (refuses : h.disk.Refuses (r.nameFor h p)) : r'.IsStuck := by
  cases wrote with
  | @accepted g r₁ h₁ _ size writer ready written =>
    have stuck : g.writer.sink.out.Stuck := by
      cases ready with
      | keeps now =>
        rw [idle] at now
        contradiction
      | opens cleared chosen created =>
        cases cleared with
        | idle =>
          obtain ⟨w, d, created', stuck⟩ :=
            Writer.exists_stuck refuses r.linkType r.snaplen r.plan.compression
          obtain ⟨result_eq, -⟩ := Prod.mk.inj (created'.symm.trans created)
          exact Except.ok.inj result_eq ▸ stuck
        | closed now =>
          rw [idle] at now
          contradiction
    have still := Writer.stuck_write stuck h₁.disk p
    rw [written] at still
    exact ⟨_, rfl, still⟩

theorem Rotator.exists_close_of_isStuck (stuck : r.IsStuck) (h : Host) :
    ∃ e r' h', r.close h = (.error e, r', h') := by
  obtain ⟨f, now, stuck⟩ := stuck
  obtain ⟨e, failed⟩ := Writer.close_of_stuck stuck h.disk
  have closes := r.closes h
  rcases closed : r.close h with ⟨answer, r', h'⟩
  rw [closed] at closes
  cases closes with
  | idle absent =>
    rw [now] at absent
    contradiction
  | closed now' closed =>
    obtain rfl := Option.some.inj (now.symm.trans now')
    rw [closed] at failed
    obtain rfl := failed
    exact ⟨e, _, _, rfl⟩

end Rotation

namespace Run

open Capture (Script Session World)
open CaptureFile (Writer)
open Rotation (Rotator)

variable {s s' : Session} {r r' : Rotator} {w w' : World} {packets : List Packet}

theorem Pumps.isStuck {x : Option Error × Session × Rotator × World} (pumps : Pumps s r w packets x)
    (unfailed : x.1 = none) (stuck : r.IsStuck) : x.2.2.1.IsStuck := by
  induction pumps with
  | stopped => exact stuck
  | refused => contradiction
  | @written s s' r r' w w' p h packets x found wrote more ih =>
    have writes := r.writes w'.toHost p
    rw [wrote] at writes
    exact ih unfailed (writes.isStuck stuck)
  | waited found more ih => exact ih unfailed stuck
  | ended => exact stuck
  | failed => contradiction

/-- A loop that has pulled packets without an error leaves a stuck file, if the file for the first of
them refuses bytes. -/
theorem Pumps.isStuck_of_refuses {x : Option Error × Session × Rotator × World}
    (pumps : Pumps s r w packets x) (unfailed : x.1 = none) (idle : r.current = none)
    (nonempty : packets ≠ []) (refuses : ∀ p ∈ packets.head?, w.disk.Refuses (r.nameFor w.toHost p)) :
    x.2.2.1.IsStuck := by
  induction pumps with
  | stopped => contradiction
  | refused => contradiction
  | @written s s' r r' w w' p h packets x found wrote more ih =>
    have writes := r.writes w'.toHost p
    rw [wrote] at writes
    obtain ⟨disk, offset⟩ := host_next found
    have first : w'.disk.Refuses (r.nameFor w'.toHost p) := by
      rw [disk, Rotator.nameFor, offset]
      exact refuses p rfl
    exact more.isStuck unfailed (writes.isStuck_of_refuses idle first)
  | @waited s s' r w w' packets x found more ih =>
    obtain ⟨disk, offset⟩ := host_next found
    refine ih unfailed idle nonempty fun p first => ?_
    rw [disk, Rotator.nameFor, offset]
    exact refuses p first
  | ended => contradiction
  | failed => contradiction

/-- A run that pulls a packet fails if the first file leads to a device that refuses bytes, and a capture
file on such a device opens but cannot be completed, whatever was written to it. -/
theorem refusing_device_reported (c : Config) (s : Session) (w : World)
    (refuses : ∀ p ∈ (pulls c s w).head?, w.disk.Refuses
      (FilePattern.expand c.plan.pattern (c.plan.calendar.offset w.localOffset) p.header.sec)) :
    (pulls c s w ≠ [] → ∃ e s' w', dump c s w = (.error e, s', w')) ∧
      (∀ summary s' w', dump c s w = (.ok summary, s', w') → pulls c s w = []) ∧
      ∀ d path linkType snaplen mode, d.Refuses path →
        ∃ writer d', Writer.create d path linkType snaplen mode = (.ok writer, d') ∧
          ∀ calls d₁, ∃ e d₂, (writer.tried calls).close d₁ = (.error e, d₂) := by
  have fails (nonempty : pulls c s w ≠ []) : ∃ e s' w', dump c s w = (.error e, s', w') := by
    obtain ⟨failure, s', r, w₁, answer, r', h', _, w', turns, closed, dumped, -⟩ :=
      exists_turns c s w
    cases failure with
    | some e => exact ⟨e, s', w', dumped⟩
    | none =>
      obtain ⟨disk, offset⟩ := Rotator.new_spec c.plan s.linkType s.snaplen w.toHost
      have stuck : r.IsStuck := by
        refine turns.isStuck_of_refuses rfl rfl nonempty fun p first => ?_
        simp only [disk, offset, Rotator.nameFor]
        exact refuses p first
      obtain ⟨e, _, _, failed⟩ := r.exists_close_of_isStuck stuck w₁.toHost
      obtain ⟨rfl, -⟩ := Prod.mk.inj (closed.symm.trans failed)
      exact ⟨e, s', w', dumped⟩
  refine ⟨fails, ?_, ?_⟩
  · intro summary s' w' succeeded
    apply Decidable.of_not_not
    intro nonempty
    obtain ⟨e, _, _, failed⟩ := fails nonempty
    rw [succeeded] at failed
    simp at failed
  · intro d path linkType snaplen mode refuses
    obtain ⟨writer, d', created, stuck⟩ := Writer.exists_stuck refuses linkType snaplen mode
    refine ⟨writer, d', created, fun calls d₁ => ?_⟩
    obtain ⟨e, failed⟩ := Writer.close_of_stuck (Writer.stuck_tried stuck calls) d₁
    exact ⟨e, _, Prod.ext failed rfl⟩

/-- Two packets that never leave the buffers, so that only the completion of the file fails. -/
theorem packets_for_full_device_reported :
    let c : Config := ⟨{ pattern := "/dev/full", calendar := .utc }, .lz4⟩
    let script : Script :=
      { steps := [{ outcome := .ok ⟨⟨0, 0, 1, 1⟩, [1]⟩ }, { outcome := .ok ⟨⟨1, 0, 1, 1⟩, [2]⟩ }] }
    ∃ e s' w', dump c (.scripted script) { disk := .fresh } = (.error e, s', w') := by
  intro c script
  have refuses : Disk.fresh.Refuses "/dev/full" := by
    obtain ⟨d', created⟩ : ∃ d', Disk.fresh.create "/dev/full" = .ok (.special .full, d') :=
      Disk.exists_of_create (by decide +kernel)
    exact ⟨_, d', created, rfl⟩
  refine (refusing_device_reported c (.scripted script) { disk := .fresh } fun p _ => ?_).1 ?_
  · rw [FilePattern.expand_of_plain (by decide)]
    exact refuses
  · have found := next_scripted_cons (w := { disk := .fresh }) (show script.steps = _ :: _ from rfl)
    let r : Rotator := { plan := c.plan, linkType := .ethernet, snaplen := 65536 }
    obtain ⟨packets, cons⟩ := exists_pulled (r := r) rfl found
    exact ne_of_eq_of_ne cons (List.cons_ne_nil _ packets)

end Run

end RollingCapture
