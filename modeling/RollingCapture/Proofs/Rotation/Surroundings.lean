import RollingCapture.Proofs.Rotation.Calls
import RollingCapture.Proofs.Rotation.Refinement

/-! Of its surroundings a rotator changes only the files and the log, and what it does there does not
depend on the log. -/
namespace RollingCapture.Rotation

open CaptureFile (Writer)

/-- A step of a rotator, on a host with whatever log, comes to one answer, one rotator and one disk. The
rest of the host stays as it is. -/
def LogFree {α : Type} (step : Host → Except Error α × Rotator × Host) : Prop :=
  ∀ h : Host, ∃ answer r disk, ∀ log : Log, ∃ log' : Log,
    step { h with log } = (answer, r, { h with disk, log := log' })

namespace LogFree

variable {α : Type} {step : Host → Except Error α × Rotator × Host} {answer : Except Error α}
  {r : Rotator} {h h' : Host}

/-- With another log the same comes about. -/
theorem with_log (free : LogFree step) (stepped : step h = (answer, r, h')) (log : Log) :
    ∃ log', step { h with log } = (answer, r, { h' with log := log' }) := by
  obtain ⟨answer', r', disk, each⟩ := free h
  obtain ⟨log₁, step_eq⟩ := each h.log
  obtain ⟨rfl, rest⟩ := Prod.mk.inj (stepped.symm.trans step_eq)
  obtain ⟨rfl, rfl⟩ := Prod.mk.inj rest
  exact each log

/-- The host stays as it is, but for the disk and the log. -/
theorem frame (free : LogFree step) (stepped : step h = (answer, r, h')) :
    h' = { h with disk := h'.disk, log := h'.log } := by
  obtain ⟨answer', r', disk, each⟩ := free h
  obtain ⟨log₁, step_eq⟩ := each h.log
  rw [(Prod.mk.inj (Prod.mk.inj (stepped.symm.trans step_eq)).2).2]

end LogFree

namespace Rotator

theorem exists_foldl_discard (paths : List String) (h : Host) :
    ∃ disk, ∀ log, ∃ log', paths.foldl discard { h with log } = { h with disk, log := log' } := by
  induction paths generalizing h with
  | nil => exact ⟨h.disk, fun log => ⟨log, rfl⟩⟩
  | cons path paths ih =>
    have first : ∃ disk, ∀ log, ∃ log', discard { h with log } path = { h with disk, log := log' } := by
      rcases removed : h.disk.remove path with f | disk
      · refine ⟨h.disk, fun log => ?_⟩
        by_cases gone : f = .system .notFound
        · exact ⟨_, by simp only [discard, removed, if_pos gone]; rfl⟩
        · exact ⟨_, by simp only [discard, removed, if_neg gone]; rfl⟩
      · exact ⟨disk, fun log => ⟨_, by simp only [discard, removed]; rfl⟩⟩
    obtain ⟨disk, first⟩ := first
    obtain ⟨disk', rest⟩ := ih { h with disk }
    refine ⟨disk', fun log => ?_⟩
    obtain ⟨log₁, one⟩ := first log
    obtain ⟨log₂, discarded⟩ := rest log₁
    exact ⟨log₂, by rw [List.foldl_cons, one, discarded]⟩

theorem logFree_openFile (r : Rotator) (sec : Int) : LogFree (r.openFile · sec) := by
  intro h
  let path := FilePattern.expand r.plan.pattern (r.plan.calendar.offset h.localOffset) sec
  rcases created : Writer.create h.disk path r.linkType r.snaplen r.plan.compression with ⟨e | writer, d⟩
  · refine ⟨.error e, r, d, fun log => ⟨log, ?_⟩⟩
    simp only [path] at created
    simp only [openFile, created]
  · obtain ⟨disk, discarded⟩ := exists_foldl_discard (r.dropped path) { h with disk := d }
    refine ⟨.ok { writer, deadline := windowEnd sec r.plan.period },
      { r with filesOpened := r.filesOpened + 1, retained := r.kept path }, disk, fun log => ?_⟩
    obtain ⟨log', without⟩ := discarded (log.note .info s!"opened {path}")
    simp only [path] at created
    simp only [openFile, created, retain]
    exact ⟨log', congrArg (Prod.mk _ ∘ Prod.mk _) without⟩

theorem logFree_fileFor (r : Rotator) (header : PacketHeader) : LogFree (r.fileFor · header) := by
  intro h
  cases now : r.current with
  | none => simpa only [fileFor, now] using logFree_openFile r header.sec h
  | some f =>
    cases full : f.isOver r.plan header.sec header.caplen with
    | false =>
      refine ⟨.ok f, { r with current := none }, h.disk, fun log => ⟨log, ?_⟩⟩
      simp only [fileFor, now, full, Bool.false_eq_true, if_false]
    | true =>
      rcases closed : f.writer.close h.disk with ⟨e | size, d⟩
      · refine ⟨.error e, { r with current := none }, d, fun log => ?_⟩
        simp only [fileFor, now, full, if_true, OpenFile.finish, Host.note, closed]
        exact ⟨_, rfl⟩
      · obtain ⟨answer, r', disk, opened⟩ :=
          logFree_openFile { r with current := none } header.sec { h with disk := d }
        refine ⟨answer, r', disk, fun log => ?_⟩
        simp only [fileFor, now, full, if_true, OpenFile.finish, Host.note, closed]
        exact opened _

theorem logFree_write (r : Rotator) (p : Packet) : LogFree (r.write · p) := by
  intro h
  obtain ⟨result, r', disk, ready⟩ := logFree_fileFor r p.header h
  cases result with
  | error e =>
    refine ⟨.error e, r', disk, fun log => ?_⟩
    obtain ⟨log', chosen⟩ := ready log
    exact ⟨log', by simp only [write, chosen]⟩
  | ok f =>
    rcases written : f.writer.write disk p with ⟨e | size, writer, d⟩
    · refine ⟨.error e, { r' with current := some { f with writer } }, d, fun log => ?_⟩
      obtain ⟨log', chosen⟩ := ready log
      exact ⟨log', by simp only [write, chosen, written]⟩
    · let file := { f with writer, bytes := f.bytes + size, packets := f.packets + 1 }
      refine ⟨.ok (),
        { r' with current := some file, bytes := r'.bytes + size, packets := r'.packets + 1 }, d,
        fun log => ?_⟩
      obtain ⟨log', chosen⟩ := ready log
      simp only [write, chosen, written, Host.note]
      exact ⟨_, rfl⟩

theorem logFree_writeAll (r : Rotator) (packets : List Packet) : LogFree (r.writeAll · packets) := by
  intro h
  induction packets generalizing r h with
  | nil => exact ⟨.ok (), r, h.disk, fun log => ⟨log, rfl⟩⟩
  | cons p packets ih =>
    obtain ⟨answer, r', disk, wrote⟩ := logFree_write r p h
    cases answer with
    | error e =>
      refine ⟨.error e, r', disk, fun log => ?_⟩
      obtain ⟨log', one⟩ := wrote log
      exact ⟨log', by simp only [writeAll, one]⟩
    | ok =>
      obtain ⟨answer, r'', disk', rest⟩ := ih r' { h with disk }
      refine ⟨answer, r'', disk', fun log => ?_⟩
      obtain ⟨log₁, one⟩ := wrote log
      obtain ⟨log₂, others⟩ := rest log₁
      exact ⟨log₂, by simp only [writeAll, one, others]⟩

theorem logFree_close (r : Rotator) : LogFree r.close := by
  intro h
  cases now : r.current with
  | none => exact ⟨.ok (), r, h.disk, fun log => ⟨log, by simp only [close, now]⟩⟩
  | some f =>
    rcases closed : f.writer.close h.disk with ⟨e | size, d⟩
    · refine ⟨.error e, { r with current := none }, d, fun log => ⟨log, ?_⟩⟩
      simp only [close, now, OpenFile.finish, closed]
    · refine ⟨.ok (), { r with current := none }, d, fun log => ?_⟩
      simp only [close, now, OpenFile.finish, closed, Host.note]
      exact ⟨_, rfl⟩

theorem exists_new (plan : Plan) (linkType : LinkType) (snaplen : UInt32) (h : Host) :
    ∃ log, new plan linkType snaplen h = ({ plan, linkType, snaplen }, { h with log }) := by
  unfold new
  split <;> exact ⟨_, rfl⟩

end Rotator

end RollingCapture.Rotation
