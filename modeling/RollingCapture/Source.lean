import RollingCapture.Disk

/-! A file open for reading, behind a buffer. What the file holds is looked up when the buffer needs
it, so a source shows changes made since it was opened, bytes added at the end among them. -/
namespace RollingCapture

structure Source where
  /-- The file; a directory reads as empty. -/
  entry : Entry
  /-- No byte beyond is read, so that reading ends even if the file keeps growing. -/
  limit : Nat
  offset : Nat := 0
  /-- The bytes taken from the file and not read yet. -/
  buffer : List UInt8 := []
  deriving Repr

namespace Source

def capacity : Nat := 8192

/-- The longest file that a file system holds. -/
def maxFileSize : Nat := 9223372036854775807

def ofEntry (d : Disk) (entry : Entry) : Source where
  entry
  limit := max (d.content entry).size maxFileSize

def ofBytes (bytes : List UInt8) : Source where
  entry := .directory
  limit := 0
  buffer := bytes

/-- The next bytes of the file, at most `n`. -/
def upcoming (s : Source) (d : Disk) (n : Nat) : List UInt8 :=
  ((d.content s.entry).extract s.offset (min (s.offset + n) s.limit)).toList

def remaining (s : Source) : Nat := s.buffer.length + (s.limit - s.offset)

def fill (s : Source) (d : Disk) : Source :=
  if s.buffer.isEmpty then
    let bytes := s.upcoming d capacity
    { s with buffer := bytes, offset := s.offset + bytes.length }
  else s

/-- Reads at most `n` bytes, and none only at the end. A long read passes by an empty buffer. -/
def read (s : Source) (d : Disk) (n : Nat) : List UInt8 × Source :=
  if s.buffer.isEmpty && capacity ≤ n then
    let bytes := s.upcoming d n
    (bytes, { s with offset := s.offset + bytes.length })
  else
    let s := s.fill d
    (s.buffer.take n, { s with buffer := s.buffer.drop n })

theorem length_upcoming (s : Source) (d : Disk) (n : Nat) :
    (s.upcoming d n).length ≤ s.limit - s.offset := by
  simp only [upcoming, Array.length_toList, Array.size_extract]
  omega

theorem length_upcoming_le (s : Source) (d : Disk) (n : Nat) :
    (s.upcoming d n).length ≤ n := by
  simp only [upcoming, Array.length_toList, Array.size_extract]
  omega

theorem remaining_fill (s : Source) (d : Disk) : (s.fill d).remaining = s.remaining := by
  unfold fill
  split
  · rename_i empty
    have := s.length_upcoming d capacity
    have drained : s.buffer = [] := List.isEmpty_iff.1 empty
    simp only [remaining, drained, List.length_nil]
    omega
  · rfl

theorem remaining_read (s : Source) (d : Disk) (n : Nat) :
    (s.read d n).1.length + (s.read d n).2.remaining = s.remaining := by
  unfold read
  split
  · have := s.length_upcoming d n
    simp only [remaining]
    omega
  · rw [← remaining_fill s d]
    simp only [remaining, List.length_take, List.length_drop]
    omega

theorem length_read_le (s : Source) (d : Disk) (n : Nat) : (s.read d n).1.length ≤ n := by
  unfold read
  split
  · exact length_upcoming_le s d n
  · simp only [List.length_take]
    omega

/-- Reads until `n` bytes are there or the source ends. -/
def gather (s : Source) (d : Disk) (n : Nat) : List UInt8 × Source :=
  if n = 0 then ([], s)
  else
    let next := s.read d n
    if _h : next.1 = [] then ([], next.2)
    else
      let later := next.2.gather d (n - next.1.length)
      (next.1 ++ later.1, later.2)
  termination_by n
  decreasing_by
    have : 0 < (s.read d n).1.length := List.length_pos_iff.2 _h
    omega

theorem remaining_gather (s : Source) (d : Disk) (n : Nat) :
    (s.gather d n).1.length + (s.gather d n).2.remaining = s.remaining := by
  fun_induction gather s d n with
  | case1 => simp
  | case2 s n _ next h =>
    have := remaining_read s d n
    simp only [next] at h ⊢
    rw [h] at this
    simpa using this
  | case3 s n _ next h later ih =>
    have := remaining_read s d n
    simp only [List.length_append]
    simp only [later, next] at ih ⊢
    omega

/-- Reads exactly `n` bytes. Short of them everything left is used up. -/
def readExactly (s : Source) (d : Disk) (n : Nat) : Option (List UInt8) × Source :=
  let (bytes, s) := s.gather d n
  (if bytes.length = n then some bytes else none, s)

theorem remaining_readExactly_le (s : Source) (d : Disk) (n : Nat) :
    (s.readExactly d n).2.remaining ≤ s.remaining := by
  have := remaining_gather s d n
  simp only [readExactly]
  omega

theorem remaining_readExactly {s s' : Source} {d : Disk} {n : Nat} {bytes : List UInt8}
    (h : s.readExactly d n = (some bytes, s')) : n + s'.remaining = s.remaining := by
  have := remaining_gather s d n
  simp only [readExactly, Prod.mk.injEq] at h
  obtain ⟨found, rfl⟩ := h
  split at found
  · omega
  · simp at found

end Source

end RollingCapture
