import RollingCapture.CaptureFile.Reader
import RollingCapture.Host

/-! Replaying capture files one after the other as a single session. -/
namespace RollingCapture.Capture

open CaptureFile (Reader)

structure Replay where
  name : String
  pending : List String
  reader : Option Reader
  linkType : LinkType
  snaplen : UInt32
  /-- How many packets it gave; beyond 32 bits the count starts over. -/
  received : UInt32 := 0
  deriving Repr

namespace Replay

/-- Opens the first file, which settles the link type. -/
def ofPaths (h : Host) : List String → Except Error Replay × Host
  | [] => (.error (.invalidConfig .nothingToRead), h)
  | path :: pending =>
    match Reader.ofPath h.disk path with
    | .error e => (.error e, h)
    | .ok reader =>
      (.ok { name := path
             pending
             reader := some reader
             linkType := reader.linkType
             snaplen := reader.snaplen },
        h.note .debug (s!"replaying {path} (" ++ reader.linkType.describe ++ ", "
          ++ reader.compression.name ++ ")"))

/-- Reads on in the current file and, where it has ended, in the files after it. A file that cannot
be opened or has another link type is passed over with an error. -/
def advance (r : Replay) (h : Host) : Except Error (Option Packet) × Replay × Host :=
  match r.reader with
  | none => (.ok none, r, h)
  | some reader =>
    match reader.nextFrame h.disk with
    | (.error e, reader) => (.error e, { r with reader := some reader }, h)
    | (.ok (some p), reader) => (.ok (some p), { r with reader := some reader }, h)
    | (.ok none, reader) =>
      match _more : r.pending with
      | [] => (.ok none, { r with reader := none }, h)
      | path :: pending =>
        match Reader.ofPath h.disk path with
        | .error e => (.error e, { r with reader := some reader, pending }, h)
        | .ok next =>
          if next.linkType = r.linkType then
            advance { r with reader := some next, pending, name := path }
              (h.note .debug s!"replaying {path}")
          else
            (.error (.format path (.linkTypeDiffers next.linkType r.linkType)),
              { r with reader := some reader, pending }, h)
  termination_by r.pending.length
  decreasing_by simp [_more]

def next (r : Replay) (h : Host) : Except Error Packet × Replay × Host :=
  match r.advance h with
  | (.error e, r, h) => (.error e, r, h)
  | (.ok none, r, h) => (.error .noMorePackets, r, h)
  | (.ok (some p), r, h) => (.ok p, { r with received := r.received + 1 }, h)

/-- What is left to read: files first, then the current file. -/
def backlog (r : Replay) : Nat × Nat × Nat :=
  (r.pending.length, (r.reader.map Reader.backlog).getD (0, 0))

/-- The order in which a backlog shrinks. -/
abbrev Less : Nat × Nat × Nat → Nat × Nat × Nat → Prop :=
  Prod.Lex (· < ·) (Prod.Lex (· < ·) (· < ·))

theorem backlog_advance {r r' : Replay} {h h' : Host} {p : Packet}
    (found : r.advance h = (.ok (some p), r', h')) : Less r'.backlog r.backlog := by
  fun_induction advance r h with
  | case1 => simp at found
  | case2 => simp at found
  | case3 r h reader current q reader' next =>
    simp only [Prod.mk.injEq, Except.ok.injEq, Option.some.injEq] at found
    obtain ⟨rfl, rfl, rfl⟩ := found
    simp only [backlog, current, Option.map_some, Option.getD_some]
    exact .right _ (Reader.backlog_nextFrame next)
  | case4 => simp at found
  | case5 => simp at found
  | case6 r h reader current reader' ended path pending more next opened linkType_eq ih =>
    have := ih found
    rcases Prod.lex_def.1 this with less | ⟨equal, -⟩
    · exact .left _ _ (by simp only [backlog, more, List.length_cons] at less ⊢; omega)
    · exact .left _ _ (by simp only [backlog, more, List.length_cons] at equal ⊢; omega)
  | case7 => simp at found

theorem backlog_next {r r' : Replay} {h h' : Host} {p : Packet}
    (found : r.next h = (.ok p, r', h')) : Less r'.backlog r.backlog := by
  unfold next at found
  split at found
  · simp at found
  · simp at found
  · rename_i q s g advanced
    simp only [Prod.mk.injEq, Except.ok.injEq] at found
    obtain ⟨rfl, rfl, rfl⟩ := found
    exact (backlog_advance advanced : Less s.backlog r.backlog)

/-- A replay never waits: what it reports, apart from packets, ends a run. -/
theorem isFatal_of_advance {r r' : Replay} {h h' : Host} {e : Error}
    (found : r.advance h = (.error e, r', h')) : e.isFatal := by
  fun_induction advance r h with
  | case1 => simp at found
  | case2 r h reader current e' reader' failed =>
    simp only [Prod.mk.injEq, Except.error.injEq] at found
    obtain ⟨rfl, -⟩ := found
    exact Reader.isFatal_of_nextFrame failed
  | case3 => simp at found
  | case4 => simp at found
  | case5 r h reader current reader' ended path pending more e' failed =>
    simp only [Prod.mk.injEq, Except.error.injEq] at found
    obtain ⟨rfl, -⟩ := found
    exact Reader.isFatal_of_ofPath failed
  | case6 r h reader current reader' ended path pending more next opened linkType_eq ih =>
    exact ih found
  | case7 =>
    simp only [Prod.mk.injEq, Except.error.injEq] at found
    obtain ⟨rfl, -⟩ := found
    rfl

theorem isFatal_of_next {r r' : Replay} {h h' : Host} {e : Error}
    (found : r.next h = (.error e, r', h')) : e.isFatal := by
  unfold next at found
  split at found
  · rename_i failed
    simp only [Prod.mk.injEq, Except.error.injEq] at found
    obtain ⟨rfl, -⟩ := found
    exact isFatal_of_advance failed
  · simp only [Prod.mk.injEq, Except.error.injEq] at found
    obtain ⟨rfl, -⟩ := found
    rfl
  · simp at found

end Replay

end RollingCapture.Capture
