import RollingCapture.Proofs.CaptureFile.Writing
import RollingCapture.Rotation.Rotator

/-! How a packet sequence is cut into the segments that share a file, as a function of the packets
alone: no file, no path and no counter takes part in it. -/
namespace RollingCapture.Rotation

open CaptureFile

/-- What the cuts depend on. -/
structure Splitter where
  plan : Plan
  linkType : LinkType
  snaplen : UInt32
  deriving DecidableEq, Repr

namespace Splitter

/-- How many bytes a file accepts for the packets of a segment. -/
def taken (s : Splitter) (segment : List Packet) : Nat :=
  (Sink.start s.plan.compression s.linkType s.snaplen).gains segment

/-- A file with `segment` in it is full, or a plain one would exceed its limit with `p`. -/
def Full (s : Splitter) (segment : List Packet) (p : Packet) : Prop :=
  0 < s.plan.maxBytes ∧
    (s.plan.maxBytes ≤ s.taken segment ∨
      s.plan.compression = .plain ∧
        s.plan.maxBytes < s.taken segment + (Record.headerSize + p.header.caplen.toNat))

/-- The window of a file whose first packet came at second `first` is over at second `sec`. -/
def Late (s : Splitter) (first sec : Int) : Prop :=
  ∃ deadline, windowEnd first s.plan.period = some deadline ∧ deadline ≤ sec

instance (s : Splitter) (segment : List Packet) (p : Packet) : Decidable (s.Full segment p) :=
  inferInstanceAs (Decidable (_ ∧ _))

instance (s : Splitter) (first sec : Int) : Decidable (s.Late first sec) :=
  decidable_of_iff ((windowEnd first s.plan.period).any (decide <| · ≤ sec)) (by simp [Late, Option.any_eq_true])

def Cuts (s : Splitter) : List Packet → Packet → Prop
  | [], _ => True
  | first :: more, p => s.Full (first :: more) p ∨ s.Late first.header.sec p.header.sec

instance (s : Splitter) (segment : List Packet) (p : Packet) : Decidable (s.Cuts segment p) :=
  match segment with
  | [] => inferInstanceAs (Decidable True)
  | _ :: _ => inferInstanceAs (Decidable (_ ∨ _))

/-- The segments of packets that follow an unfinished segment. -/
def split (s : Splitter) (segment : List Packet) : List Packet → List (List Packet)
  | [] => [segment]
  | p :: rest =>
    if s.Cuts segment p then segment :: s.split [p] rest else s.split (segment ++ [p]) rest

/-- The segments of a packet sequence. -/
def segments (s : Splitter) : List Packet → List (List Packet)
  | [] => []
  | p :: rest => s.split [p] rest

def content (s : Splitter) (segment : List Packet) : List UInt8 :=
  FileHeader.write s.linkType s.snaplen ++ segment.flatMap Record.bytes

/-- The name of a file whose first packet came at second `sec`, on a host whose zone is `localOffset`
east of UTC. -/
def name (s : Splitter) (localOffset sec : Int) : String :=
  FilePattern.expand s.plan.pattern (s.plan.calendar.offset localOffset) sec

def fileName (s : Splitter) (localOffset : Int) : List Packet → String
  | [] => ""
  | first :: _ => s.name localOffset first.header.sec

variable {s : Splitter} {seen : List Packet} {front : List (List Packet)} {segment : List Packet}

theorem flatten_split (segment packets : List Packet) :
    (s.split segment packets).flatten = segment ++ packets := by
  induction packets generalizing segment with
  | nil => simp [split]
  | cons p rest ih =>
    rw [split]
    split
    · rw [List.flatten_cons, ih, List.singleton_append]
    · rw [ih, List.append_assoc, List.singleton_append]

theorem ne_nil_of_mem_split {segment packets seg : List Packet} (nonempty : segment ≠ [])
    (member : seg ∈ s.split segment packets) : seg ≠ [] := by
  induction packets generalizing segment with
  | nil =>
    rw [split, List.mem_singleton] at member
    exact member ▸ nonempty
  | cons p rest ih =>
    rw [split] at member
    split at member
    · rcases List.mem_cons.1 member with rfl | later
      · exact nonempty
      · exact ih (List.cons_ne_nil p []) later
    · exact ih (List.append_ne_nil_of_left_ne_nil nonempty [p]) member

/-- One more packet changes the last segment only, or begins another. -/
theorem exists_split_concat (first seen : List Packet) :
    ∃ front segment, s.split first seen = front ++ [segment] ∧ ∀ p, s.split first (seen ++ [p]) =
      front ++ if s.Cuts segment p then [segment, [p]] else [segment ++ [p]] := by
  induction seen generalizing first with
  | nil => exact ⟨[], first, rfl, fun _ => rfl⟩
  | cons q rest ih =>
    by_cases cuts : s.Cuts first q
    · obtain ⟨front, segment, here, next⟩ := ih [q]
      refine ⟨first :: front, segment, ?_, fun p => ?_⟩
      · rw [split, if_pos cuts, here, List.cons_append]
      · rw [List.cons_append, split, if_pos cuts, next, List.cons_append]
    · obtain ⟨front, segment, here, next⟩ := ih (first ++ [q])
      refine ⟨front, segment, ?_, fun p => ?_⟩
      · rw [split, if_neg cuts, here]
      · rw [List.cons_append, split, if_neg cuts, next]

theorem segments_concat (before : s.segments seen = front ++ [segment]) (p : Packet) :
    s.segments (seen ++ [p]) =
      front ++ if s.Cuts segment p then [segment, [p]] else [segment ++ [p]] := by
  cases seen with
  | nil => simp [segments] at before
  | cons q rest =>
    obtain ⟨front', segment', here, next⟩ := s.exists_split_concat [q] rest
    obtain ⟨rfl, segment_eq⟩ := List.append_inj' (here.symm.trans before) rfl
    obtain rfl := List.singleton_inj.1 segment_eq
    exact next p

theorem flatten_segments (packets : List Packet) : (s.segments packets).flatten = packets := by
  cases packets with
  | nil => rfl
  | cons p rest => rw [segments, flatten_split, List.singleton_append]

theorem ne_nil_of_mem_segments {packets seg : List Packet} (member : seg ∈ s.segments packets) :
    seg ≠ [] := by
  cases packets with
  | nil => contradiction
  | cons p rest => exact ne_nil_of_mem_split (List.cons_ne_nil p []) member

end Splitter

end RollingCapture.Rotation
