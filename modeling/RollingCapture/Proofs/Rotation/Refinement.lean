import RollingCapture.Proofs.FilePattern
import RollingCapture.Proofs.Rotation.History

/-! A rotator cuts the packets that it is given just where the splitter does, and each file holds the
last segment that was written to it. -/
namespace RollingCapture.Rotation

open CaptureFile

/-- Writes packets one after the other, up to the first that fails. -/
def Rotator.writeAll (r : Rotator) (h : Host) : List Packet → Except Error Unit × Rotator × Host
  | [] => (.ok (), r, h)
  | p :: packets =>
    match r.write h p with
    | (.error e, r, h) => (.error e, r, h)
    | (.ok (), r, h) => r.writeAll h packets

/-- The name of the file that was opened between two states of a rotator, if one was. -/
def Rotator.openedSince (r r' : Rotator) : List String :=
  if r'.filesOpened = r.filesOpened then [] else r'.currentPath.toList

def Rotator.opened (r : Rotator) (h : Host) : List Packet → List String
  | [] => []
  | p :: packets =>
    match r.write h p with
    | (.error _, _, _) => []
    | (.ok (), r', h') => r.openedSince r' ++ r'.opened h' packets

/-- What the openings are if every packet so far, those `seen`, was acknowledged. If the current file
accepts bytes, the splitter gives the segments. -/
structure Accounts (s : Splitter) (localOffset : Int) (seen : List Packet) (names : List String)
    (done : List Opening) (current : Option Opening) : Prop where
  begun : ∀ o ∈ done ++ current.toList, o.Begun
  idle : current = none → done = []
  packets : (done ++ current.toList).flatMap (·.packets) = seen
  names : (done ++ current.toList).map (s.name localOffset ·.sec) = names
  cut : (∀ o ∈ current, o.entry.refuses = false) →
    (done ++ current.toList).map (·.packets) = s.segments seen

/-- How a packet that is acknowledged goes into the openings: the current one takes it in, or, once it
could be completed, another begins with it. -/
inductive Opening.Continues (p : Packet) :
    List Opening → Option Opening → List Opening → Option Opening → Prop
  | adds {done : List Opening} {o : Opening} : Continues p done (some o) done (some (o.add p))
  | begins {done : List Opening} {current : Option Opening} {entry : Entry} :
      (∀ o ∈ current, o.entry.refuses = false) →
      Continues p done current (done ++ current.toList)
        (some { sec := p.header.sec, entry, packets := [p] })

variable {s : Splitter} {d₀ : Disk} {localOffset : Int} {done openings : List Opening} {o : Opening}
  {current : Option Opening} {r r' r'' : Rotator} {h h' h'' : Host} {p : Packet}
  {seen packets : List Packet} {names : List String}

theorem Rotator.isWhole_of_write (written : r.write h p = (.ok (), r', h')) : Record.IsWhole p := by
  by_cases whole : Record.IsWhole p
  · exact whole
  · rcases chosen : r.fileFor h p.header with ⟨_ | f, r₁, h₁⟩
    · simp [Rotator.write, chosen] at written
    · simp [Rotator.write, chosen, Writer.write_of_not_whole whole] at written

theorem Rotator.exists_of_writeAll_cons (ran : r.writeAll h (p :: packets) = (.ok (), r', h')) :
    ∃ r₁ h₁, r.write h p = (.ok (), r₁, h₁) ∧ r₁.writeAll h₁ packets = (.ok (), r', h') := by
  rw [Rotator.writeAll] at ran
  rcases written : r.write h p with ⟨_ | _, r₁, h₁⟩
  · simp [written] at ran
  · rw [written] at ran
    exact ⟨r₁, h₁, rfl, ran⟩

/-- What every acknowledged packet preserves holds behind the last of them. The motive knows the packets
and the names of files up to there. -/
theorem Rotator.writeAll_induction {motive : List Packet → List String → Rotator → Host → Prop}
    (step : ∀ {seen names r h p r' h'}, motive seen names r h → r.write h p = (.ok (), r', h') →
      motive (seen ++ [p]) (names ++ r.openedSince r') r' h')
    (start : motive seen names r h) (ran : r.writeAll h packets = (.ok (), r', h')) :
    motive (seen ++ packets) (names ++ r.opened h packets) r' h' := by
  induction packets generalizing seen names r h with
  | nil =>
    simp only [Rotator.writeAll, Prod.mk.injEq, true_and] at ran
    obtain ⟨rfl, rfl⟩ := ran
    simpa [Rotator.opened] using start
  | cons p packets ih =>
    obtain ⟨r₁, h₁, written, rest⟩ := Rotator.exists_of_writeAll_cons ran
    have later := ih (step start written) rest
    rw [Rotator.opened, written]
    simpa using later

theorem Rotator.isWhole_of_writeAll (ran : r.writeAll h packets = (.ok (), r', h')) :
    ∀ p ∈ packets, Record.IsWhole p := by
  induction packets generalizing r h with
  | nil => simp
  | cons p packets ih =>
    obtain ⟨r₁, h₁, written, rest⟩ := Rotator.exists_of_writeAll_cons ran
    intro q member
    rcases List.mem_cons.1 member with rfl | later
    · exact Rotator.isWhole_of_write written
    · exact ih rest q later

theorem Rotator.writeAll_append (ran : r.writeAll h seen = (.ok (), r', h')) :
    r.writeAll h (seen ++ packets) = r'.writeAll h' packets := by
  induction seen generalizing r h with
  | nil =>
    simp only [Rotator.writeAll, Prod.mk.injEq, true_and] at ran
    obtain ⟨rfl, rfl⟩ := ran
    rfl
  | cons p seen ih =>
    obtain ⟨r₁, h₁, written, rest⟩ := Rotator.exists_of_writeAll_cons ran
    rw [List.cons_append, Rotator.writeAll, written]
    exact ih rest

namespace Describes

theorem currentPath (describes : Describes s d₀ localOffset done (some o) r.current r h) :
    r.currentPath = some (s.name localOffset o.sec) := by
  rcases now : r.current with _ | f
  · exact absurd (describes.current_eq_none now) (by simp)
  · rw [Rotator.currentPath, now, Option.map_some, (describes.opening_tracks now).path]

theorem acknowledge (describes : Describes s d₀ localOffset done current r.current r h)
    (accounts : Accounts s localOffset seen names done current)
    (written : r.write h p = (.ok (), r', h')) :
    ∃ done' current', Describes s d₀ localOffset done' current' r'.current r' h' ∧
      Accounts s localOffset (seen ++ [p]) (names ++ r.openedSince r') done' current' ∧
      Opening.Continues p done current done' current' := by
  obtain ⟨begun, idle, packets, named, cut⟩ := accounts
  rcases describes.write written with ⟨o, rfl, now, under⟩ | ⟨entry, now, beyond⟩
  · have begunO : o.Begun := begun o (by simp)
    have steady : r'.filesOpened = r.filesOpened := by
      rw [now.opened, describes.opened]
      simp
    refine ⟨_, _, now, ⟨?_, by simp, ?_, ?_, ?_⟩, .adds⟩
    · intro t member
      rcases List.mem_append.1 member with old | new
      · exact begun t (List.mem_append_left _ old)
      · exact List.mem_singleton.1 new ▸ Opening.begun_add begunO p
    · rw [← packets]
      simp [Opening.add]
    · rw [← named, Rotator.openedSince, if_pos steady]
      simp [Opening.add]
    · intro accepted
      have accepts : o.entry.refuses = false := accepted (o.add p) rfl
      have before := (cut fun _ mem => Option.some.inj mem ▸ accepts).symm
      rw [Option.toList_some, List.map_append, List.map_singleton] at before
      rw [Splitter.segments_concat before, if_neg (under begunO accepts)]
      simp [Opening.add]
  · have grown : r'.filesOpened ≠ r.filesOpened := by
      rw [now.opened, describes.opened]
      simp
    refine ⟨_, _, now, ⟨?_, by simp, ?_, ?_, ?_⟩, .begins fun o here => (beyond o here).1⟩
    · intro t member
      rcases List.mem_append.1 member with old | new
      · exact begun t old
      · exact List.mem_singleton.1 new ▸ ⟨p, [], rfl, rfl⟩
    · rw [← packets]
      simp
    · rw [← named, Rotator.openedSince, if_neg grown, now.currentPath]
      simp
    · intro _
      cases current with
      | none =>
        obtain rfl := idle rfl
        obtain rfl : seen = [] := packets.symm
        rfl
      | some o =>
        obtain ⟨accepts, cuts⟩ := beyond o rfl
        have before := (cut fun _ mem => Option.some.inj mem ▸ accepts).symm
        rw [Option.toList_some, List.map_append, List.map_singleton] at before
        rw [Splitter.segments_concat before, if_pos (cuts (begun o (by simp)))]
        simp

theorem writeAll (describes : Describes s d₀ localOffset done current r.current r h)
    (accounts : Accounts s localOffset seen names done current)
    (ran : r.writeAll h packets = (.ok (), r', h')) :
    ∃ done' current', Describes s d₀ localOffset done' current' r'.current r' h' ∧
      Accounts s localOffset (seen ++ packets) (names ++ r.opened h packets) done' current' := by
  refine Rotator.writeAll_induction (motive := fun seen names r h => ∃ done current,
    Describes s d₀ localOffset done current r.current r h ∧
      Accounts s localOffset seen names done current) ?_ ⟨done, current, describes, accounts⟩ ran
  rintro seen names r h p r' h' ⟨done, current, describes, accounts⟩ written
  obtain ⟨done', current', now, accounts', -⟩ := describes.acknowledge accounts written
  exact ⟨done', current', now, accounts'⟩

end Describes

theorem Accounts.start : Accounts s localOffset [] [] [] none :=
  ⟨by simp, fun _ => rfl, rfl, rfl, fun _ => rfl⟩

/-- What a run leaves whose writes all succeed, and whose last file can be completed. -/
theorem exists_openings (describes : Describes s d₀ localOffset [] none r.current r h)
    (ran : r.writeAll h packets = (.ok (), r', h')) (closed : r'.close h' = (.ok (), r'', h'')) :
    ∃ openings, Describes s d₀ localOffset openings none r''.current r'' h'' ∧
      (∀ o ∈ openings, o.Begun) ∧
      openings.map (s.name localOffset ·.sec) = r.opened h packets ∧
      openings.map (·.packets) = s.segments packets := by
  obtain ⟨done, current, now, accounts⟩ := describes.writeAll .start ran
  obtain ⟨completed, accepts⟩ := now.close closed
  exact ⟨_, completed, accounts.begun, accounts.names, accounts.cut (accepts.1 rfl)⟩

/-- Whether all packets are written, the last file is completed, and the disk then passes `check`. -/
def Rotator.leaves (r : Rotator) (h : Host) (packets : List Packet) (check : Disk → Bool) : Bool :=
  match r.writeAll h packets with
  | (.error _, _, _) => false
  | (.ok (), r, h) =>
    match r.close h with
    | (.error _, _, _) => false
    | (.ok (), _, h) => check h.disk

theorem Rotator.exists_of_leaves {check : Disk → Bool} (left : r.leaves h packets check = true) :
    ∃ r' h' r'' h'', r.writeAll h packets = (.ok (), r', h') ∧
      r'.close h' = (.ok (), r'', h'') ∧ check h''.disk = true := by
  unfold Rotator.leaves at left
  split at left
  · contradiction
  · rename_i r' h' ran
    split at left
    · contradiction
    · rename_i r'' h'' closed
      exact ⟨r', h', r'', h'', ran, closed, left⟩

/-- Names of a pattern that does not climb lead to one file only if they are equal. -/
theorem name_eq_of_openToRead {d : Disk} {id : Nat} {a b : Int}
    (level : ¬ FilePattern.Climbs s.plan.pattern)
    (first : d.openToRead (s.name localOffset a) = .ok (.file id))
    (second : d.openToRead (s.name localOffset b) = .ok (.file id)) :
    s.name localOffset a = s.name localOffset b := by
  have start : (s.name localOffset a).startsWith "/" = (s.name localOffset b).startsWith "/" := by
    rw [Bool.eq_iff_iff, Splitter.name, Splitter.name, FilePattern.startsWith_expand_iff,
      FilePattern.startsWith_expand_iff]
  apply FilePattern.expand_eq_of_names_eq
  exact Disk.names_eq_of_openToRead (FilePattern.parent_not_mem_steps level _ a)
    (FilePattern.parent_not_mem_steps level _ b) start first second

/-- A run that succeeds cuts the packets as the splitter does. Afterwards a file that some segment was
written to holds the file header and the records of the last such segment, and any other file is as
it was. Which file a segment was written to is what its name leads to; a pattern that does not climb
leads to one file by one name only. -/
theorem rotator_refines_splitter {plan : Plan} {linkType : LinkType} {snaplen : UInt32}
    (keepsAll : plan.maxFiles = 0)
    (ran : (Rotator.new plan linkType snaplen h).1.writeAll
      (Rotator.new plan linkType snaplen h).2 packets = (.ok (), r', h'))
    (closed : r'.close h' = (.ok (), r'', h'')) :
    let s : Splitter := ⟨plan, linkType, snaplen⟩
    let segments := s.segments packets
    let leads (segment : List Packet) (e : Entry) : Prop :=
      h''.disk.openToRead (s.fileName h.localOffset segment) = .ok e
    segments.flatten = packets ∧ (∀ segment ∈ segments, segment ≠ []) ∧
      (Rotator.new plan linkType snaplen h).1.opened (Rotator.new plan linkType snaplen h).2 packets =
        segments.map (s.fileName h.localOffset) ∧
      r''.filesOpened = segments.length ∧ (r'.abandon h').disk = h''.disk ∧
      (∀ segment ∈ segments, ∃ e, leads segment e) ∧
      (∀ before segment after id, segments = before ++ segment :: after →
        leads segment (.file id) → (∀ later ∈ after, ¬ leads later (.file id)) →
        plan.compression.contentOf (h''.disk.content (.file id)).toList =
          some (s.content segment)) ∧
      (∀ id, (∀ segment ∈ segments, ¬ leads segment (.file id)) →
        h''.disk.content (.file id) = h.disk.content (.file id)) ∧
      (¬ FilePattern.Climbs plan.pattern → ∀ a ∈ segments, ∀ b ∈ segments, ∀ id,
        leads a (.file id) → leads b (.file id) →
        s.fileName h.localOffset a = s.fileName h.localOffset b) := by
  intro s segments leads
  obtain ⟨openings, describes, begun, names, made⟩ :=
    exists_openings (Describes.new plan linkType snaplen h) ran closed
  have cut : openings.map (·.packets) = segments := made
  have files : Files s h.disk h.localOffset openings none h''.disk := describes.files
  have named (o : Opening) (member : o ∈ openings) : leads o.packets o.entry := by
    have opened := files.named keepsAll o (by simpa using member)
    rw [← Opening.fileName_eq (begun o member)] at opened
    exact opened
  have entry_eq {o : Opening} {e : Entry} (member : o ∈ openings) (found : leads o.packets e) :
      o.entry = e :=
    Except.ok.inj ((named o member).symm.trans found)
  have back (segment : List Packet) (member : segment ∈ segments) :
      ∃ o ∈ openings, o.packets = segment := by
    apply List.mem_map.1
    rw [cut]
    exact member
  refine ⟨Splitter.flatten_segments packets, fun _ => Splitter.ne_nil_of_mem_segments, ?_, ?_, ?_, ?_,
    ?_, ?_, ?_⟩
  · rw [← names, ← cut, List.map_map]
    apply List.map_congr_left
    intro o member
    exact (Opening.fileName_eq (begun o member)).symm
  · rw [describes.opened, ← cut]
    simp
  · simp [Rotator.abandon, closed]
  · intro segment member
    obtain ⟨o, inside, rfl⟩ := back segment member
    exact ⟨o.entry, named o inside⟩
  · intro before segment after id split found last
    rw [← cut] at split
    obtain ⟨front, rest, rfl, rfl, tail⟩ := List.map_eq_append_iff.1 split
    obtain ⟨o, back', rfl, rfl, rfl⟩ := List.map_eq_cons_iff.1 tail
    have here : o ∈ front ++ o :: back' := List.mem_append_right _ List.mem_cons_self
    apply files.contentOf_eq (entry_eq here found)
    intro later member shared
    have inside : later ∈ front ++ o :: back' :=
      List.mem_append_right _ (List.mem_cons_of_mem _ member)
    exact last later.packets (List.mem_map_of_mem member) (shared ▸ named later inside)
  · intro id unled
    apply files.content_eq
    intro o member shared
    exact unled o.packets (cut ▸ List.mem_map_of_mem member) (shared ▸ named o member)
  · intro level a memberA b memberB id foundA foundB
    obtain ⟨oA, insideA, rfl⟩ := back a memberA
    obtain ⟨oB, insideB, rfl⟩ := back b memberB
    simp only [leads, Opening.fileName_eq (begun oA insideA),
      Opening.fileName_eq (begun oB insideB)] at foundA foundB ⊢
    exact name_eq_of_openToRead level foundA foundB

/-- Two segments that begin a minute apart have one name where the pattern has no minutes. -/
theorem equal_names_keep_last_segment :
    let plan : Plan := { pattern := "a%S.pcap", calendar := .utc, maxBytes := 1 }
    let p : Packet := ⟨⟨0, 0, 1, 1⟩, [1]⟩
    let q : Packet := ⟨⟨60, 0, 1, 1⟩, [2]⟩
    let started := Rotator.new plan .ethernet 65535 { disk := .fresh }
    ∃ r' h' r'' h'', plan.maxFiles = 0 ∧
      started.1.writeAll started.2 [p, q] = (.ok (), r', h') ∧
      r'.close h' = (.ok (), r'', h'') ∧ r''.filesOpened = 2 ∧
      plan.compression.contentOf (h''.disk.content (.file 0)).toList =
        some (Splitter.content ⟨plan, .ethernet, 65535⟩ [q]) := by
  intro plan p q started
  have cut : Splitter.segments ⟨plan, .ethernet, 65535⟩ [p, q] = [[p], [q]] := by decide +kernel
  obtain ⟨r', h', r'', h'', ran, closed, found⟩ := Rotator.exists_of_leaves
    (show started.1.leaves started.2 [p, q] (fun d =>
        (d.openToRead (Splitter.fileName ⟨plan, .ethernet, 65535⟩ 0 [q])).toOption =
          some (.file 0)) = true by
      decide +kernel)
  obtain ⟨-, -, -, opened, -, -, last, -⟩ := rotator_refines_splitter rfl ran closed
  refine ⟨r', h', r'', h'', rfl, ran, closed, ?_, ?_⟩
  · rw [opened, cut]
    rfl
  · exact last [[p]] [q] [] 0 cut (Disk.eq_ok_of_toOption (of_decide_eq_true found)) (by simp)

end RollingCapture.Rotation
