import Mathlib.Data.Int.Init
import Mathlib.Data.List.Dedup
import Mathlib.Data.List.Induction
import RollingCapture.Proofs.Rotation.Calls
import RollingCapture.Proofs.Rotation.Refinement

/-! Rotation by time alone. Windows are counted from the epoch. A packet that comes at or behind the end of
the window of the first packet in the current file begins another file, and no other packet does. -/
namespace RollingCapture.Rotation

namespace Plan

/-- The number of the window that a packet lies in. -/
def window (plan : Plan) (p : Packet) : Int := p.header.sec / plan.period

/-- The window that a file is for, which is that of its first packet. -/
def windowOf (plan : Plan) : List Packet → Int
  | [] => 0
  | first :: _ => plan.window first

/-- The second of a packet is a period away from either end of the 64-bit range, or more. -/
def Covers (plan : Plan) (p : Packet) : Prop :=
  -9223372036854775808 + (plan.period : Int) ≤ p.header.sec ∧
    p.header.sec + (plan.period : Int) < 9223372036854775808

instance (plan : Plan) (p : Packet) : Decidable (plan.Covers p) := inferInstanceAs (Decidable (_ ∧ _))

variable {plan : Plan} {p q : Packet}

theorem window_lt_iff (positive : 0 < plan.period) :
    plan.window p < plan.window q ↔ (plan.window p + 1) * plan.period ≤ q.header.sec := by
  rw [← Int.add_one_le_iff]
  exact Int.le_ediv_iff_mul_le (by omega)

theorem window_le_of_le (positive : 0 < plan.period) (le : p.header.sec ≤ q.header.sec) :
    plan.window p ≤ plan.window q :=
  Int.ediv_le_ediv (by omega) le

end Plan

/-- The end of a window is a multiple of its length, unless it is the last second. -/
theorem windowEnd_eq_min (sec : Int) {period : Nat} (positive : 0 < period) :
    windowEnd sec period = some (min ((sec / min (period : Int) lastSecond + 1) *
      min (period : Int) lastSecond) lastSecond) := by
  simp only [windowEnd, if_neg (Nat.ne_of_gt positive)]
  generalize min (period : Int) lastSecond = length
  have split := Int.mul_ediv_add_emod sec length
  have last : sec - sec % length + length = (sec / length + 1) * length := by
    rw [Int.add_mul, Int.one_mul, Int.mul_comm]
    omega
  rw [last]

theorem windowEnd_of_covers {plan : Plan} {p : Packet} (positive : 0 < plan.period)
    (covers : plan.Covers p) :
    windowEnd p.header.sec plan.period = some ((plan.window p + 1) * plan.period) := by
  obtain ⟨low, high⟩ := covers
  have length : min (plan.period : Int) lastSecond = plan.period := by
    rw [lastSecond]
    omega
  have start : plan.window p * plan.period ≤ p.header.sec := Int.ediv_mul_le _ (by omega)
  have inside : (plan.window p + 1) * plan.period ≤ lastSecond := by
    rw [Int.add_mul, Int.one_mul, lastSecond]
    omega
  rw [windowEnd_eq_min _ positive, length]
  exact congrArg some (Int.min_eq_left inside)

namespace Splitter

variable {s : Splitter} {packets seen segment more : List Packet} {first p : Packet}

/-- Without a limit on bytes a packet begins a segment by its time alone. -/
theorem cuts_iff_late (unlimited : s.plan.maxBytes = 0) :
    s.Cuts (first :: more) p ↔ s.Late first.header.sec p.header.sec := by
  simp [Cuts, Full, unlimited]

/-- The time that matters is the end of the window of the first packet. -/
theorem cuts_iff (s : Splitter) (unlimited : s.plan.maxBytes = 0) (positive : 0 < s.plan.period)
    (covers : s.plan.Covers first) :
    s.Cuts (first :: more) p ↔ (s.plan.window first + 1) * s.plan.period ≤ p.header.sec := by
  rw [cuts_iff_late unlimited, Late, windowEnd_of_covers positive covers]
  simp

/-- Packets are in segments, of which the last goes on. -/
theorem exists_segments_concat (nonempty : seen ≠ []) :
    ∃ front first more, s.segments seen = front ++ [first :: more] := by
  rcases List.eq_nil_or_concat' (s.segments seen) with empty | ⟨front, last, split⟩
  · have flatten_eq := s.flatten_segments seen
    rw [empty] at flatten_eq
    exact absurd flatten_eq.symm nonempty
  · have filled : last ≠ [] := ne_nil_of_mem_segments (by rw [split]; simp)
    obtain ⟨first, more, rfl⟩ := List.exists_cons_of_ne_nil filled
    exact ⟨front, first, more, split⟩

/-- No packet lies behind the window of its segment, and a later segment is for a later window. -/
theorem segments_windows (s : Splitter) (unlimited : s.plan.maxBytes = 0) (positive : 0 < s.plan.period)
    (covers : ∀ p ∈ packets, s.plan.Covers p) :
    (∀ segment ∈ s.segments packets, ∀ p ∈ segment, s.plan.window p ≤ s.plan.windowOf segment) ∧
      ((s.segments packets).map s.plan.windowOf).Pairwise (· < ·) := by
  induction packets using List.reverseRecOn with
  | nil => simp [segments]
  | append_singleton seen p ih =>
    obtain ⟨bound, sorted⟩ := ih fun q member => covers q (List.mem_append_left _ member)
    by_cases empty : seen = []
    · subst empty
      simp [segments, split, Plan.windowOf]
    · obtain ⟨front, first, more, before⟩ := s.exists_segments_concat empty
      have member : first ∈ seen := by
        rw [← s.flatten_segments seen, before]
        simp
      have late : s.Cuts (first :: more) p ↔ s.plan.window first < s.plan.window p := by
        rw [s.cuts_iff unlimited positive (covers first (List.mem_append_left _ member)),
          Plan.window_lt_iff positive]
      rw [segments_concat before]
      rw [before] at bound sorted
      by_cases cuts : s.Cuts (first :: more) p
      · rw [if_pos cuts, List.append_cons front (first :: more) [[p]]]
        constructor
        · exact List.forall_mem_append.2 ⟨bound, by simp [Plan.windowOf]⟩
        · rw [List.map_append, List.pairwise_append]
          refine ⟨sorted, List.pairwise_singleton _ _, fun number earlier later last => ?_⟩
          rw [List.map_append, List.pairwise_append] at sorted
          rw [List.map_append] at earlier
          obtain rfl : later = s.plan.window p := List.mem_singleton.1 last
          have behind := late.1 cuts
          rcases List.mem_append.1 earlier with old | new
          · exact Int.lt_trans (sorted.2.2 number old _ List.mem_cons_self) behind
          · exact List.mem_singleton.1 new ▸ behind
      · rw [if_neg cuts]
        constructor
        · obtain ⟨others, last⟩ := List.forall_mem_append.1 bound
          refine List.forall_mem_append.2 ⟨others, ?_⟩
          rw [List.forall_mem_singleton] at last ⊢
          refine List.forall_mem_append.2 ⟨last, ?_⟩
          rw [List.forall_mem_singleton]
          exact Int.not_lt.1 fun behind => cuts (late.2 behind)
        · rw [List.map_append] at sorted ⊢
          exact sorted

/-- Where time does not go back, the packets of a segment lie in one window. -/
theorem window_eq_of_sorted (s : Splitter) (unlimited : s.plan.maxBytes = 0) (positive : 0 < s.plan.period)
    (covers : ∀ p ∈ packets, s.plan.Covers p)
    (forward : packets.Pairwise (·.header.sec ≤ ·.header.sec)) :
    ∀ segment ∈ s.segments packets, ∀ p ∈ segment, s.plan.window p = s.plan.windowOf segment := by
  intro segment member p inside
  obtain ⟨bound, -⟩ := s.segments_windows unlimited positive covers
  apply Int.le_antisymm (bound segment member p inside)
  have part := List.sublist_flatten_of_mem member
  rw [flatten_segments] at part
  cases segment with
  | nil => contradiction
  | cons first more =>
    obtain ⟨least, -⟩ := List.pairwise_cons.1 (forward.sublist part)
    rcases List.mem_cons.1 inside with rfl | later
    · exact Int.le_refl _
    · exact Plan.window_le_of_le positive (least p later)

/-- Where time does not go back, there is a segment for each window that packets lie in. -/
theorem length_segments_of_sorted (s : Splitter) (unlimited : s.plan.maxBytes = 0)
    (positive : 0 < s.plan.period) (covers : ∀ p ∈ packets, s.plan.Covers p)
    (forward : packets.Pairwise (·.header.sec ≤ ·.header.sec)) :
    (s.segments packets).length = (packets.map s.plan.window).dedup.length := by
  obtain ⟨-, sorted⟩ := s.segments_windows unlimited positive covers
  have window_eq := s.window_eq_of_sorted unlimited positive covers forward
  have distinct : ((s.segments packets).map s.plan.windowOf).Nodup := sorted.imp Int.ne_of_lt
  have perm : ((s.segments packets).map s.plan.windowOf).Perm (packets.map s.plan.window).dedup := by
    rw [List.perm_ext_iff_of_nodup distinct (List.nodup_dedup _)]
    intro number
    rw [List.mem_dedup, List.mem_map, List.mem_map]
    constructor
    · rintro ⟨segment, member, rfl⟩
      obtain ⟨first, more, rfl⟩ := List.exists_cons_of_ne_nil (ne_nil_of_mem_segments member)
      refine ⟨first, ?_, rfl⟩
      rw [← s.flatten_segments packets]
      exact List.mem_flatten_of_mem member List.mem_cons_self
    · rintro ⟨p, member, rfl⟩
      rw [← s.flatten_segments packets] at member
      obtain ⟨segment, among, inside⟩ := List.mem_flatten.1 member
      exact ⟨segment, among, (window_eq segment among p inside).symm⟩
  rw [← perm.length_eq, List.length_map]

end Splitter

/-! What a rotator does. -/

namespace Rotator

def addToLast (files : List (List Packet)) (p : Packet) : List (List Packet) :=
  files.dropLast ++ [files.getLast?.getD [] ++ [p]]

/-- Packets by the opening that took them in, behind those of `files`. If a file was opened for a packet,
the packet is the first in it. -/
def filed (r : Rotator) (h : Host) (files : List (List Packet)) : List Packet → List (List Packet)
  | [] => files
  | p :: packets =>
    match r.write h p with
    | (.error _, _, _) => files
    | (.ok (), r', h') =>
      r'.filed h' (if r'.filesOpened = r.filesOpened then addToLast files p else files ++ [[p]]) packets

/-- The rotator has opened `files`, and the current one is the last of them. -/
structure Fills (r : Rotator) (files : List (List Packet)) : Prop where
  count : r.filesOpened = files.length
  idle : r.current = none → files = []
  last : ∀ f, r.current = some f → ∃ front first more, files = front ++ [first :: more] ∧
    f.deadline = windowEnd first.header.sec r.plan.period

variable {s : Splitter} {r r' : Rotator} {h h' : Host} {f : OpenFile} {p first : Packet}
  {seen packets more : List Packet} {front : List (List Packet)}

theorem addToLast_concat (front : List (List Packet)) (segment : List Packet) (p : Packet) :
    addToLast (front ++ [segment]) p = front ++ [segment ++ [p]] := by
  rw [addToLast, List.dropLast_concat, List.getLast?_concat, Option.getD_some]

/-- Without a limit on bytes a file is over when its window is. -/
theorem isOver_iff_late (unlimited : s.plan.maxBytes = 0)
    (deadline : f.deadline = windowEnd first.header.sec s.plan.period) (sec : Int) (caplen : UInt32) :
    f.isOver s.plan sec caplen = true ↔ s.Late first.header.sec sec := by
  simp [OpenFile.isOver, unlimited, deadline, Splitter.Late, Option.any_eq_true]

/-- A packet goes where the splitter puts it. -/
theorem Fills.write (unlimited : s.plan.maxBytes = 0) (splitter_eq : r.splitter = s)
    (fills : r.Fills (s.segments seen)) (written : r.write h p = (.ok (), r', h')) :
    r'.splitter = s ∧ r'.Fills (s.segments (seen ++ [p])) ∧
      (if r'.filesOpened = r.filesOpened then addToLast (s.segments seen) p
        else s.segments seen ++ [[p]]) = s.segments (seen ++ [p]) := by
  subst splitter_eq
  obtain ⟨count, idle, last⟩ := fills
  have wrote := r.writes h p
  rw [written] at wrote
  cases wrote with
  | accepted ready _ =>
    cases ready with
    | keeps now chosen =>
      obtain ⟨front, first, more, before, deadline⟩ := last _ now
      have on : ¬ r.splitter.Cuts (first :: more) p := by
        rw [Splitter.cuts_iff_late unlimited, ← isOver_iff_late unlimited deadline _ p.header.caplen]
        exact Bool.eq_false_iff.1 (not_isOver_of_keeps now chosen)
      have after := Splitter.segments_concat before p
      rw [if_neg on] at after
      rw [after, if_pos rfl, before, addToLast_concat]
      refine ⟨rfl, ⟨?_, by simp, ?_⟩, rfl⟩
      · simpa [before] using count
      · rintro f' here
        obtain rfl := Option.some.inj here
        exact ⟨front, first, more ++ [p], rfl, deadline⟩
    | opens cleared chosen created without =>
      have after : r.splitter.segments (seen ++ [p]) = r.splitter.segments seen ++ [[p]] := by
        cases cleared with
        | idle now =>
          have flatten_eq := r.splitter.flatten_segments seen
          rw [idle now] at flatten_eq
          obtain rfl : seen = [] := flatten_eq.symm
          rfl
        | closed now late closed =>
          obtain ⟨front, first, more, before, deadline⟩ := last _ now
          have cuts : r.splitter.Cuts (first :: more) p := by
            rw [Splitter.cuts_iff_late unlimited, ← isOver_iff_late unlimited deadline _ p.header.caplen]
            exact late
          rw [Splitter.segments_concat before, if_pos cuts, before, List.append_assoc]
          rfl
      rw [after, if_neg (Nat.succ_ne_self _)]
      refine ⟨rfl, ⟨?_, by simp, ?_⟩, rfl⟩
      · rw [List.length_append, ← count]
        rfl
      · rintro f' here
        obtain rfl := Option.some.inj here
        exact ⟨_, p, [], rfl, rfl⟩

/-- Without a limit on bytes the packets of a run are filed as the splitter cuts them. -/
theorem filed_eq_segments (unlimited : s.plan.maxBytes = 0) (splitter_eq : r.splitter = s)
    (fills : r.Fills (s.segments seen)) (ran : r.writeAll h packets = (.ok (), r', h')) :
    r.filed h (s.segments seen) packets = s.segments (seen ++ packets) ∧
      r'.Fills (s.segments (seen ++ packets)) := by
  induction packets generalizing seen r h with
  | nil =>
    obtain ⟨rfl, -⟩ := Prod.mk.inj (Prod.mk.inj ran).2
    rw [List.append_nil]
    exact ⟨rfl, fills⟩
  | cons p packets ih =>
    obtain ⟨r₁, h₁, written, rest⟩ := exists_of_writeAll_cons ran
    obtain ⟨splitter_eq', fills', next⟩ := fills.write unlimited splitter_eq written
    have later := ih splitter_eq' fills' rest
    rw [← List.append_cons] at later
    simp only [filed, written, next]
    exact later

theorem exists_of_writeAll_append {r'' : Rotator} {h'' : Host}
    (ran : r.writeAll h (seen ++ packets) = (.ok (), r'', h'')) :
    ∃ r' h', r.writeAll h seen = (.ok (), r', h') ∧ r'.writeAll h' packets = (.ok (), r'', h'') := by
  induction seen generalizing r h with
  | nil => exact ⟨r, h, rfl, ran⟩
  | cons p seen ih =>
    obtain ⟨r₁, h₁, written, rest⟩ := exists_of_writeAll_cons ran
    obtain ⟨r', h', first, last⟩ := ih rest
    exact ⟨r', h', by rw [writeAll, written]; exact first, last⟩

theorem filed_new {plan : Plan} {linkType : LinkType} {snaplen : UInt32} {h : Host}
    (unlimited : plan.maxBytes = 0)
    (ran : (new plan linkType snaplen h).1.writeAll (new plan linkType snaplen h).2 packets =
      (.ok (), r', h')) :
    (new plan linkType snaplen h).1.filed (new plan linkType snaplen h).2 [] packets =
        Splitter.segments ⟨plan, linkType, snaplen⟩ packets ∧
      r'.filesOpened = (Splitter.segments ⟨plan, linkType, snaplen⟩ packets).length := by
  have start : (new plan linkType snaplen h).1.Fills (Splitter.segments ⟨plan, linkType, snaplen⟩ []) :=
    ⟨rfl, fun _ => rfl, fun _ now => by contradiction⟩
  obtain ⟨cut, fills⟩ := filed_eq_segments unlimited rfl start ran
  exact ⟨cut, fills.count⟩

end Rotator

/-- A rotator without a limit on bytes, given packets far from the ends of time, files them by windows. No
packet of a file comes at or behind the end of the window of the first one, and it is by coming there that a
packet begins another file. Where time does not go back, packets share a file just if they lie in one window,
and as many files are opened as there are such windows. -/
theorem time_rotation_files_windows {plan : Plan} {linkType : LinkType} {snaplen : UInt32} {h h' : Host}
    {packets : List Packet} {r' : Rotator} (unlimited : plan.maxBytes = 0) (positive : 0 < plan.period)
    (covers : ∀ p ∈ packets, -9223372036854775808 + (plan.period : Int) ≤ p.header.sec ∧
      p.header.sec + (plan.period : Int) < 9223372036854775808)
    (ran : (Rotator.new plan linkType snaplen h).1.writeAll
      (Rotator.new plan linkType snaplen h).2 packets = (.ok (), r', h')) :
    let filed := (Rotator.new plan linkType snaplen h).1.filed (Rotator.new plan linkType snaplen h).2 []
    let window (p : Packet) : Int := p.header.sec / (plan.period : Int)
    (filed packets).flatten = packets ∧ [] ∉ filed packets ∧
      r'.filesOpened = (filed packets).length ∧
      (∀ first more, first :: more ∈ filed packets →
        ∀ p ∈ more, p.header.sec < (window first + 1) * plan.period) ∧
      (∀ before p after front first more, packets = before ++ p :: after →
        filed before = front ++ [first :: more] →
        filed (before ++ [p]) = front ++
          if (window first + 1) * plan.period ≤ p.header.sec then [first :: more, [p]]
          else [first :: more ++ [p]]) ∧
      (packets.Pairwise (·.header.sec ≤ ·.header.sec) →
        (∀ file ∈ filed packets, ∀ p ∈ file, ∀ q ∈ file, window p = window q) ∧
        (filed packets).Pairwise (fun earlier later =>
          ∀ p ∈ earlier, ∀ q ∈ later, window p < window q) ∧
        r'.filesOpened = (packets.map window).dedup.length) := by
  intro filed window
  let s : Splitter := ⟨plan, linkType, snaplen⟩
  have filed_eq (seen rest : List Packet) (split : packets = seen ++ rest) :
      filed seen = s.segments seen := by
    obtain ⟨_, _, first, -⟩ := Rotator.exists_of_writeAll_append (split ▸ ran)
    exact (Rotator.filed_new unlimited first).1
  obtain ⟨cut, count⟩ := Rotator.filed_new unlimited ran
  obtain ⟨bound, sorted⟩ := s.segments_windows unlimited positive covers
  rw [show filed packets = s.segments packets from cut]
  refine ⟨s.flatten_segments packets, fun member => Splitter.ne_nil_of_mem_segments member rfl, count,
    ?_, ?_, fun forward => ⟨?_, ?_, ?_⟩⟩
  · intro first more member p inside
    have least := bound _ member p (List.mem_cons_of_mem _ inside)
    exact Int.not_le.1 fun late => Int.not_lt.2 least ((Plan.window_lt_iff positive).2 late)
  · intro before p after front first more split here
    rw [filed_eq before _ split] at here
    have member : first ∈ packets := by
      rw [split, ← s.flatten_segments before, here]
      simp
    rw [filed_eq (before ++ [p]) after (by rw [split, List.append_cons]), Splitter.segments_concat here]
    congr 1
    apply if_congr ?_ rfl rfl
    exact s.cuts_iff unlimited positive (covers first member)
  · intro file member p inside q inside'
    have window_eq := s.window_eq_of_sorted unlimited positive covers forward file member
    exact (window_eq p inside).trans (window_eq q inside').symm
  · have window_eq := s.window_eq_of_sorted unlimited positive covers forward
    apply (List.pairwise_map.1 sorted).imp_of_mem
    intro earlier later member member' before p inside q inside'
    rw [← window_eq earlier member p inside, ← window_eq later member' q inside'] at before
    exact before
  · rw [count]
    exact s.length_segments_of_sorted unlimited positive covers forward

/-- Windows of ten seconds, two of them before the epoch and one behind an hour without packets. -/
theorem windows_around_epoch_and_gap :
    let plan : Plan := { pattern := "a%H%M%S.pcap", calendar := .utc, period := 10 }
    let packets : List Packet := [-15, -11, -10, -1, 3605, 3609].map fun sec => ⟨⟨sec, 0, 1, 1⟩, [1]⟩
    let started := Rotator.new plan .ethernet 65535 { disk := .fresh }
    plan.maxBytes = 0 ∧ 0 < plan.period ∧ (∀ p ∈ packets, plan.Covers p) ∧
      ∃ r' h', started.1.writeAll started.2 packets = (.ok (), r', h') ∧ r'.filesOpened = 3 ∧
        (started.1.filed started.2 [] packets).flatten = packets := by
  intro plan packets started
  have covers : ∀ p ∈ packets, plan.Covers p := by decide
  obtain ⟨r', h', -, -, ran, -⟩ := Rotator.exists_of_leaves
    (show started.1.leaves started.2 packets (fun _ => true) = true by decide +kernel)
  obtain ⟨flatten_eq, -, -, -, -, sorted⟩ := time_rotation_files_windows rfl (by decide) covers ran
  obtain ⟨-, -, opened⟩ := sorted (by decide)
  have windows : (packets.map fun p => p.header.sec / (plan.period : Int)).dedup.length = 3 := by
    decide +kernel
  exact ⟨rfl, by decide, covers, r', h', ran, opened.trans windows, flatten_eq⟩

end RollingCapture.Rotation
