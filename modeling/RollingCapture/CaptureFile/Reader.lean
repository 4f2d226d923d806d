import RollingCapture.CaptureFile.Stream

/-! Reading the records of a capture file through a window of fixed size. A record that cannot fit
into the window is an error even where the file ends inside it. The end of the file and the errors
of a plain file repeat on every further read. -/
namespace RollingCapture.CaptureFile

structure Reader where
  path : String
  compression : Compression
  header : FileHeader
  stream : Stream
  /-- The bytes read but not parsed yet. -/
  window : List UInt8
  exhausted : Bool := false
  deriving Repr

namespace Reader

def capacity : Nat := 262144

/-- Opens a file and reads its header, which has to be in the first bytes that the file gives. -/
def ofPath (d : Disk) (path : String) : Except Error Reader :=
  match d.openToRead path with
  | .error f => .error (.fileOpen path f)
  | .ok .directory => .error (.format path (.io (.system .isDirectory)))
  | .ok entry =>
    let source := (Source.ofEntry d entry).fill d
    let compression := Stream.compression source
    let refuse (p : StreamProblem) : Except Error Reader :=
      .error (.format path (.opening compression p))
    match Stream.ofSource d source with
    | .error p => refuse p
    | .ok stream =>
      match stream.read d capacity with
      | (.error p, _) => refuse p
      | (.ok bytes, stream) =>
        match FileHeader.parse bytes with
        | .error p => refuse p
        | .ok (header, window) => .ok { path, compression, header, stream, window }

def linkType (r : Reader) : LinkType := r.header.linkType

def snaplen (r : Reader) : UInt32 := r.header.snaplen

/-- Whether the file counts nanoseconds. Records are read in microseconds in any case. -/
def isNanosecond (r : Reader) : Bool := r.header.layout.nanosecond

/-- A problem while reading. In a compressed file the compression is to blame. -/
def problem (r : Reader) (p : StreamProblem) : Error :=
  match r.compression with
  | .plain => .format r.path (.reading p)
  | .lz4 => .compression r.path (.reading p)

/-- Whether a record that is not in the window yet can never be. -/
def neverFits : Record.Shortage → Bool
  | .header => false
  | .data total => capacity ≤ total

theorem window_lt {layout : Layout} {window : List UInt8} {s : Record.Shortage}
    (short : Record.parse layout window = .error s) (fits : ¬ neverFits s) :
    window.length < capacity := by
  have less := Record.length_of_shortage short
  cases s with
  | header =>
    have := layout.recordHeaderSize_le
    simp only [Record.Shortage.needed] at less
    simp only [capacity]
    omega
  | data total =>
    simp only [Record.Shortage.needed] at less
    simp only [neverFits, decide_eq_true_eq] at fits
    omega

/-- Reads on behind a window of `held` bytes, as far as it has room, until there are `needed` bytes.
The answer is whether the stream has ended before. -/
def refill (d : Disk) (held needed : Nat) (more : Array UInt8) (s : Stream) :
    Except StreamProblem Bool × Array UInt8 × Stream :=
  if needed ≤ held + more.size then (.ok false, more, s)
  else
    match s.read d (capacity - (held + more.size)) with
    | (.error p, s) => (.error p, more, s)
    | (.ok [], s) => (.ok true, more, s)
    | (.ok (b :: bytes), s) => refill d held needed (more ++ (b :: bytes).toArray) s
  termination_by needed - (held + more.size)
  decreasing_by
    simp only [Array.size_append, List.size_toArray, List.length_cons]
    omega

theorem needed_le_of_refill {d : Disk} {held needed : Nat} {more more' : Array UInt8}
    {s s' : Stream} (h : refill d held needed more s = (.ok false, more', s')) :
    needed ≤ held + more'.size := by
  fun_induction refill d held needed more s with
  | case1 more s enough =>
    simp only [Prod.mk.injEq] at h
    obtain ⟨-, rfl, -⟩ := h
    exact enough
  | case2 => simp at h
  | case3 => simp at h
  | case4 _ _ _ _ _ _ _ ih => exact ih h

/-- Bytes that are gathered come from the file, or were decoded before. -/
theorem refill_progress {d : Disk} {held needed : Nat} {more more' : Array UInt8}
    {s s' : Stream} {ended : Bool} (h : refill d held needed more s = (.ok ended, more', s')) :
    s'.remaining < s.remaining ∨
      s'.remaining = s.remaining ∧ more'.size + s'.unread = more.size + s.unread := by
  fun_induction refill d held needed more s with
  | case1 more s enough =>
    simp only [Prod.mk.injEq] at h
    obtain ⟨-, rfl, rfl⟩ := h
    exact .inr ⟨rfl, rfl⟩
  | case2 => simp at h
  | case3 more s _ next found =>
    simp only [Prod.mk.injEq] at h
    obtain ⟨-, rfl, rfl⟩ := h
    have := Stream.read_progress found
    simp only [List.length_nil] at this
    omega
  | case4 more s _ b bytes next found ih =>
    have now := Stream.read_progress found
    have later := ih h
    simp only [Array.size_append, List.size_toArray] at later
    omega

def nextFrame (d : Disk) (r : Reader) : Except Error (Option Packet) × Reader :=
  match _short : Record.parse r.header.layout r.window with
  | .ok (p, rest) => (.ok (some p), { r with window := rest })
  | .error s =>
    if _fits : neverFits s then (.error (r.problem .recordTooLarge), r)
    else if _more : r.exhausted then
      (if r.window.isEmpty then .ok none else .error (r.problem .truncatedRecord), r)
    else
      match _found :
        refill d r.window.length (s.needed r.header.layout) #[] r.stream with
      | (.error p, more, stream) =>
        (.error (r.problem p), { r with stream, window := r.window ++ more.toList })
      | (.ok exhausted, more, stream) =>
        nextFrame d { r with stream, window := r.window ++ more.toList, exhausted }
  termination_by if r.exhausted then 0 else capacity + 1 - r.window.length
  decreasing_by
    have room := window_lt _short _fits
    have less := Record.length_of_shortage _short
    simp only [Bool.not_eq_true] at _more
    simp only [_more, List.length_append, Array.length_toList]
    cases exhausted with
    | true => simp; omega
    | false =>
      have := needed_le_of_refill _found
      simp; omega

/-- What is left to read: bytes of the file first, bytes decoded or in the window second. -/
def backlog (r : Reader) : Nat × Nat := (r.stream.remaining, r.stream.unread + r.window.length)

theorem backlog_nextFrame {d : Disk} {r r' : Reader} {p : Packet}
    (h : r.nextFrame d = (.ok (some p), r')) :
    Prod.Lex (· < ·) (· < ·) r'.backlog r.backlog := by
  fun_induction nextFrame d r with
  | case1 r q rest found =>
    obtain ⟨-, rfl⟩ := Prod.mk.injEq .. ▸ h
    have := Record.length_parse found
    exact .right _ (by simp only; omega)
  | case2 => simp at h
  | case3 r s short fits more =>
    split at h <;> simp at h
  | case4 => simp at h
  | case5 r s short fits more bytes next stream found ih =>
    have after := ih h
    simp only [backlog, List.length_append, Array.length_toList] at after
    rw [backlog, backlog]
    rcases refill_progress found with less | ⟨remaining_eq, sum⟩
    · rcases Prod.lex_def.1 after with lt | ⟨eq, -⟩
      · exact .left _ _ (by simp only at lt; omega)
      · exact .left _ _ (by simp only at eq; omega)
    · rcases Prod.lex_def.1 after with lt | ⟨eq, lt⟩
      · exact .left _ _ (by simp only at lt; omega)
      · refine Prod.lex_def.2 (.inr ⟨?_, ?_⟩)
        · simp only at eq ⊢; omega
        · simp only [Array.size_empty] at sum
          simp only at lt ⊢; omega

theorem isFatal_of_ofPath {d : Disk} {path : String} {e : Error}
    (h : ofPath d path = .error e) : e.isFatal := by
  unfold ofPath at h
  split at h
  · obtain rfl := Except.error.inj h; rfl
  · obtain rfl := Except.error.inj h; rfl
  · dsimp only at h
    split at h
    · obtain rfl := Except.error.inj h; rfl
    · split at h
      · obtain rfl := Except.error.inj h; rfl
      · split at h
        · obtain rfl := Except.error.inj h; rfl
        · simp at h

theorem isFatal_problem (r : Reader) (p : StreamProblem) : (r.problem p).isFatal := by
  unfold problem
  split <;> rfl

theorem isFatal_of_nextFrame {d : Disk} {r r' : Reader} {e : Error}
    (h : r.nextFrame d = (.error e, r')) : e.isFatal := by
  fun_induction nextFrame d r with
  | case1 => simp at h
  | case2 =>
    simp only [Prod.mk.injEq, Except.error.injEq] at h
    exact h.1 ▸ isFatal_problem _ _
  | case3 =>
    simp only [Prod.mk.injEq] at h
    have result_eq := h.1
    split at result_eq
    · simp at result_eq
    · exact Except.error.inj result_eq ▸ isFatal_problem _ _
  | case4 =>
    simp only [Prod.mk.injEq, Except.error.injEq] at h
    exact h.1 ▸ isFatal_problem _ _
  | case5 _ _ _ _ _ _ _ _ _ ih => exact ih h

def framesAfter (d : Disk) (r : Reader) (before : Array Packet) : Array Packet × Option Error :=
  match _found : r.nextFrame d with
  | (.error e, _) => (before, some e)
  | (.ok none, _) => (before, none)
  | (.ok (some p), r') => framesAfter d r' (before.push p)
  termination_by r.backlog
  decreasing_by exact backlog_nextFrame _found

/-- The remaining records up to the end or the first error, and that error. -/
def frames (d : Disk) (r : Reader) : List Packet × Option Error :=
  let (packets, e) := r.framesAfter d #[]
  (packets.toList, e)

def readAll (d : Disk) (r : Reader) : Except Error (List Packet) :=
  match r.frames d with
  | (packets, none) => .ok packets
  | (_, some e) => .error e

/-- One step of an iteration over the records. There is none at the end of the file. -/
def next (d : Disk) (r : Reader) : Option (Except Error Packet) × Reader :=
  match r.nextFrame d with
  | (.error e, r') => (some (.error e), r')
  | (.ok none, r') => (none, r')
  | (.ok (some p), r') => (some (.ok p), r')

end Reader

end RollingCapture.CaptureFile
