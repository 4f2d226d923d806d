import RollingCapture.Proofs.CaptureFile.Intake

/-! What a call that fails leaves in a capture file. A record without all of its data changes nothing. A
record that the device refuses may leave its beginning behind, and what is written next follows there. -/
namespace RollingCapture.CaptureFile.Writer

/-- The bytes of a record that the file takes in, whatever comes of the call. -/
def part (w : Writer) (d : Disk) (p : Packet) : List UInt8 :=
  (Record.bytes p).take ((w.write d p).2.1.sink.taken - w.sink.taken)

def parts (w : Writer) : List (Disk × Packet) → List UInt8
  | [] => []
  | (d, p) :: calls => w.part d p ++ (w.write d p).2.1.parts calls

def acknowledged (w : Writer) : List (Disk × Packet) → List Packet
  | [] => []
  | (d, p) :: calls =>
    match w.write d p with
    | (.ok _, w, _) => p :: w.acknowledged calls
    | (.error _, w, _) => w.acknowledged calls

/-- The writer has taken in `content`, which begins with the file header. -/
structure Stands (w : Writer) (mode : Compression) (content : List UInt8) : Prop where
  kind : w.sink.kind = mode
  refuses : w.sink.out.refuses = w.entry.refuses
  took : w.sink.Took content
  nonempty : content ≠ []

/-- What a call that fails comes to: the file lacks data of the record, or its device refuses bytes. -/
inductive Fails (w : Writer) (d : Disk) (p : Packet) (mode : Compression) (content : List UInt8) :
    Writer → Disk → Prop
  | short : ¬ Record.IsWhole p → Fails w d p mode content w d
  | refused {sink : Sink} {d' : Disk} : Record.IsWhole p → w.entry.refuses = true →
      w.sink.Takes sink (w.part d p) → w.part d p <+: Record.bytes p → w.part d p ≠ Record.bytes p →
      (mode = .plain → w.part d p = [] ∨ w.part d p = Record.header p.header) →
      (mode = .lz4 → Lz4.Frame.blockSize ∣ (content ++ w.part d p).length) →
      Fails w d p mode content { w with sink } d'

variable {w w' : Writer} {d d' d₁ d₂ : Disk} {p : Packet} {size : Nat} {e : Error} {path : String}
  {linkType : LinkType} {snaplen : UInt32} {mode : Compression} {content bytes : List UInt8}
  {calls : List (Disk × Packet)}

theorem part_of_not_whole (short : ¬ Record.IsWhole p) : w.part d p = [] := by
  rw [part, write_of_not_whole short, Nat.sub_self, List.take_zero]

theorem part_eq {result : Except Error Nat} (took : w.sink.Took content)
    (wrote : w.write d p = (result, w', d')) (takes : w.sink.Takes w'.sink bytes)
    (front : bytes <+: Record.bytes p) : w.part d p = bytes := by
  rw [part, wrote, takes.taken_eq took, Nat.add_sub_cancel_left]
  exact (List.prefix_iff_eq_take.1 front).symm

namespace Stands

/-- A record that is acknowledged is taken in whole, and follows what was there. -/
theorem write_ok (stands : w.Stands mode content) (wrote : w.write d p = (.ok size, w', d')) :
    w.part d p = Record.bytes p ∧ w.sink.Takes w'.sink (w.part d p) ∧ w'.entry = w.entry ∧
      w'.packets = w.packets + 1 := by
  obtain ⟨-, sink, rfl, takes, -⟩ := takes_of_write wrote
  have whole := part_eq stands.took wrote takes (List.prefix_refl _)
  exact ⟨whole, whole ▸ takes, rfl, rfl⟩

theorem write_error (stands : w.Stands mode content) (wrote : w.write d p = (.error e, w', d')) :
    w.Fails d p mode content w' d' := by
  by_cases whole : Record.IsWhole p
  · rcases w.write_cases d whole with
      ⟨sink, done, -⟩ | ⟨sink, part, failed, takes, front, rest, plain, full, refuses⟩
    · simp [done] at wrote
    · obtain ⟨-, result_eq⟩ := Prod.mk.inj (wrote.symm.trans failed)
      obtain ⟨rfl, rfl⟩ := Prod.mk.inj result_eq
      obtain rfl := part_eq stands.took wrote takes front
      exact .refused whole (stands.refuses ▸ refuses) takes front rest (stands.kind ▸ plain)
        fun lz4 => full (stands.kind.trans lz4) content stands.nonempty stands.took
  · rw [write_of_not_whole whole] at wrote
    obtain ⟨-, result_eq⟩ := Prod.mk.inj wrote
    obtain ⟨rfl, rfl⟩ := Prod.mk.inj result_eq
    exact .short whole

theorem of_takes (stands : w.Stands mode content) (takes : w.sink.Takes w'.sink bytes)
    (entry : w'.entry = w.entry) : w'.Stands mode (content ++ bytes) :=
  ⟨takes.kind_eq.trans stands.kind, by rw [takes.refuses, stands.refuses, entry],
    takes.took stands.took, List.append_ne_nil_of_left_ne_nil stands.nonempty _⟩

theorem write (stands : w.Stands mode content) (d : Disk) (p : Packet) :
    (w.write d p).2.1.Stands mode (content ++ w.part d p) := by
  rcases wrote : w.write d p with ⟨e | size, w', d'⟩
  · cases stands.write_error wrote with
    | short short =>
      rw [part_of_not_whole short, List.append_nil]
      exact stands
    | refused whole refuses takes => exact stands.of_takes takes rfl
  · obtain ⟨-, takes, entry, -⟩ := stands.write_ok wrote
    exact stands.of_takes takes entry

theorem tried (stands : w.Stands mode content) (calls : List (Disk × Packet)) :
    (w.tried calls).Stands mode (content ++ w.parts calls) := by
  induction calls generalizing w content with
  | nil =>
    rw [parts, List.append_nil]
    exact stands
  | cons call calls ih =>
    rw [parts, ← List.append_assoc]
    exact ih (stands.write call.1 call.2)

end Stands

end RollingCapture.CaptureFile.Writer
