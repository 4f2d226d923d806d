import RollingCapture.CaptureFile.Format
import RollingCapture.Lz4.Decoder

/-! The content of a capture file as it is read: the bytes of the file, or what they decode to. -/
namespace RollingCapture.CaptureFile

/-- A capture file as its content is read. -/
inductive Stream where
  | plain (source : Source)
  | lz4 (decoder : Lz4.Decoder)
  deriving Repr

namespace Stream

/-- Whether the bytes at hand are the start of an LZ4 frame. -/
def compression (source : Source) : Compression :=
  if Lz4.Frame.magic.isPrefixOf source.buffer then .lz4 else .plain

/-- The content of a source. A frame that ends with its magic number lacks any file header. -/
def ofSource (d : Disk) (source : Source) : Except StreamProblem Stream :=
  match compression source with
  | .plain => .ok (.plain source)
  | .lz4 =>
    match Lz4.Decoder.start source d with
    | .error p => .error p
    | .ok none => .error (.incomplete (FileHeader.lacking 0))
    | .ok (some decoder) => .ok (.lz4 decoder)

/-- Reads at most `n` bytes. No bytes mean the end. -/
def read (d : Disk) (n : Nat) : Stream → Except StreamProblem (List UInt8) × Stream
  | plain source =>
    let (bytes, source) := source.read d n
    (.ok bytes, .plain source)
  | lz4 decoder =>
    let (result, decoder) := decoder.read d n
    (result, .lz4 decoder)

def remaining : Stream → Nat
  | plain source => source.remaining
  | lz4 decoder => decoder.source.remaining

def unread : Stream → Nat
  | plain _ => 0
  | lz4 decoder => decoder.unread.length

theorem length_read_le {d : Disk} {n : Nat} {s s' : Stream} {bytes : List UInt8}
    (h : s.read d n = (.ok bytes, s')) : bytes.length ≤ n := by
  cases s with
  | plain source =>
    simp only [read, Prod.mk.injEq, Except.ok.injEq] at h
    exact h.1 ▸ source.length_read_le d n
  | lz4 decoder =>
    simp only [read, Lz4.Decoder.read] at h
    split at h
    · split at h
      · simp at h
      · simp only [Prod.mk.injEq, Except.ok.injEq] at h
        exact h.1 ▸ List.length_take_le _ _
    · simp only [Prod.mk.injEq, Except.ok.injEq] at h
      exact h.1 ▸ List.length_take_le _ _

/-- Bytes that are read come from the file, or were decoded before. -/
theorem read_progress {d : Disk} {n : Nat} {s s' : Stream} {bytes : List UInt8}
    (h : s.read d n = (.ok bytes, s')) :
    s'.remaining < s.remaining ∨
      s'.remaining = s.remaining ∧ bytes.length + s'.unread = s.unread := by
  cases s with
  | plain source =>
    have := source.remaining_read d n
    simp only [read, Prod.mk.injEq, Except.ok.injEq] at h
    obtain ⟨rfl, rfl⟩ := h
    simp only [remaining, unread]
    omega
  | lz4 decoder =>
    simp only [read, Lz4.Decoder.read] at h
    split at h
    · rename_i empty
      have drained : decoder.unread = [] := List.isEmpty_iff.1 empty
      split at h
      · simp at h
      · rename_i block next found
        obtain ⟨most, less⟩ := Lz4.Decoder.remaining_nextBlock found
        simp only [Prod.mk.injEq, Except.ok.injEq] at h
        obtain ⟨rfl, rfl⟩ := h
        simp only [remaining, unread, drained, List.length_nil]
        by_cases nothing : block = []
        · subst nothing
          simp
          omega
        · exact .inl (less nothing)
    · simp only [Prod.mk.injEq, Except.ok.injEq] at h
      obtain ⟨rfl, rfl⟩ := h
      simp only [remaining, unread, List.length_take, List.length_drop, true_and]
      omega

end Stream

end RollingCapture.CaptureFile
