import RollingCapture.Proofs.Replay
import RollingCapture.Proofs.Rotation.Progress
import RollingCapture.Proofs.Rotation.Repetition
import RollingCapture.Proofs.Run

/-! A run over the files of another run, into another directory: it makes the same files again. -/
namespace RollingCapture.Run

open Capture (Replay Script ScriptStep Session World)
open CaptureFile
open Rotation (Houses Lands Leaves Opening Records Rotator Splitter Storable)

variable {c c' : Config} {script : Script} {w w' v : World} {s' : Session} {summary : Summary}
  {splitter : Splitter} {d₀ : Disk} {localOffset : Int} {seen packets : List Packet}
  {names : List String} {done openings : List Opening} {current : Option Opening} {r r' : Rotator}
  {h h' : Host}

/-- The packets that a run over a script wrote. -/
def written (script : Script) (summary : Summary) : List Packet :=
  (delivered script.steps).take summary.packets

def openedPaths (c : Config) (script : Script) (w : World) (summary : Summary) : List String :=
  let started := Rotator.new c.plan script.linkType script.snaplen w.toHost
  started.1.opened started.2 (written script summary)

theorem Ends.records {name : String} {stopped : Bool} {last : Option ScriptStep}
    {left : List ScriptStep} (ends : Ends name r h stopped last left none r' h')
    (records : Records splitter d₀ localOffset seen names done current r h) :
    Records splitter d₀ localOffset seen names done current r' h' := by
  cases ends with
  | stopped => exact records
  | exhausted => exact records.congr rfl rfl
  | finished => exact records.congr rfl rfl

/-- What a run leaves that succeeds. -/
theorem exists_leaves (keepsAll : c.plan.maxFiles = 0)
    (ran : dump c (.scripted script) w = (.ok summary, s', w')) :
    ∃ r openings, Leaves ⟨c.plan, script.linkType, script.snaplen⟩ w.localOffset
        (written script summary) openings r w'.disk ∧
      openings.map (Splitter.name ⟨c.plan, script.linkType, script.snaplen⟩ w.localOffset ·.sec) =
        openedPaths c script w summary ∧
      summary.packets = r.packets ∧ summary.filesOpened = r.filesOpened ∧ summary.bytes = r.bytes := by
  let started := Rotator.new c.plan script.linkType script.snaplen w.toHost
  obtain ⟨course, r, h, follows, looped⟩ :=
    exists_takes script started.1 { w with toHost := started.2 }
  rcases closed : r.close h with ⟨result, r', h'⟩
  obtain ⟨w₁, dumped, -, -, disk⟩ := exists_dump_eq c looped closed
  obtain ⟨answered, result_eq⟩ := Prod.mk.inj (dumped.symm.trans ran)
  obtain ⟨-, rfl⟩ := Prod.mk.inj result_eq
  obtain ⟨r₁, h₁, wrote, ends⟩ := follows.ends
  obtain ⟨failure, rfl, rfl⟩ := eq_of_answer answered
  rw [failure] at ends
  obtain ⟨done, current, records⟩ :=
    (Records.new c.plan script.linkType script.snaplen w.toHost).writeAll keepsAll wrote
  obtain ⟨leaves, names⟩ := (ends.records records).close keepsAll closed
  rw [← disk] at leaves
  rw [List.nil_append] at names
  have front (stats : Option Statistics) :
      written script ⟨r'.packets, r'.filesOpened, r'.bytes, stats⟩ = delivered course.front := by
    have delivered_eq : delivered script.steps =
        delivered course.front ++ delivered (course.last.toList ++ course.left) := by
      rw [follows.steps, Course.played, List.append_assoc]
      exact List.filterMap_append
    rw [written, delivered_eq, leaves.counted, List.nil_append, List.take_left]
  rw [openedPaths, front]
  rw [List.nil_append] at leaves
  exact ⟨r', done ++ current.toList, leaves, names, rfl, rfl, rfl⟩

/-- A replay is written out to its end, if every name that is due is good. -/
theorem exists_pump_replay {replay : Replay} {linkType : LinkType} {snaplen : UInt32} {loc : Location}
    {leaf : Int → String} {rest packets : List Packet}
    (gives : Replay.Gives w.disk d₀.contents.size linkType snaplen replay rest)
    (records : Records splitter d₀ localOffset seen names done current r w.toHost)
    (houses : Houses d₀ loc leaf (done ++ current.toList) w.disk)
    (keepsAll : splitter.plan.maxFiles = 0) (running : w.stop.isStopped = false)
    (total : seen ++ rest.map Record.stored = packets) (fits : ∀ p ∈ rest, Replay.Fits p)
    (lands : ∀ first more, first :: more ∈ splitter.segments packets →
      Lands d₀ loc (splitter.name localOffset first.header.sec) (leaf first.header.sec)) :
    ∃ replay' r' w' names' done' current',
      pump (.replay replay) r w = (none, .replay replay', r', w') ∧
      Records splitter d₀ localOffset packets names' done' current' r' w'.toHost ∧
      Houses d₀ loc leaf (done' ++ current'.toList) w'.disk := by
  induction rest generalizing replay r w seen names done current with
  | nil =>
    obtain ⟨replay', h', ended, disk, offset⟩ := Replay.exists_next_of_nil gives
    have turn := pump_eq (s := .replay replay) (r := r) running
    simp only [Session.next, ended] at turn
    rw [List.map_nil, List.append_nil] at total
    refine ⟨replay', r, _, names, done, current, turn, total ▸ records.congr disk offset, ?_⟩
    exact disk ▸ houses
  | cons p rest ih =>
    obtain ⟨replay', h', found, disk, offset, gives'⟩ := Replay.exists_next_of_cons gives fits
    rw [List.map_cons, List.append_cons] at total
    have after : Records splitter d₀ localOffset seen names done current r h' :=
      records.congr disk offset
    obtain ⟨r', h₁, names', done', current', wrote, records', houses', larger⟩ :=
      after.exists_write (disk ▸ houses) keepsAll
        (Record.isWhole_stored (fits p List.mem_cons_self).1) (by
          intro front begins
          obtain ⟨more, later, split⟩ :=
            Splitter.exists_segments_append begins (rest.map Record.stored)
          rw [total] at split
          exact lands (Record.stored p) more (split ▸ List.mem_append_right _ List.mem_cons_self))
    have turn := pump_eq (s := .replay replay) (r := r) running
    simp only [Session.next, found, wrote] at turn
    -- What is still to be read was there before, and is as it was.
    rw [disk] at larger
    have gives₁ := gives'.congr larger fun id old => by
      rw [records'.content_eq houses' old, records.content_eq houses old]
    rw [turn]
    exact ih gives₁ records' houses' running total
      (fun q member => fits q (List.mem_cons_of_mem p member))

/-- A run over a replay succeeds that has an empty directory to write to. -/
theorem exists_dump_replay {replay : Replay} {linkType : LinkType} {snaplen : UInt32} {loc : Location}
    {leaf : Int → String}
    (gives : Replay.Gives w.disk w.disk.contents.size linkType snaplen replay packets)
    (length : replay.snaplen = snaplen) (keepsAll : c.plan.maxFiles = 0)
    (running : w.stop.isStopped = false) (empty : ∀ name, w.disk.find? (loc ++ [name]) = none)
    (fits : ∀ p ∈ packets, Replay.Fits p)
    (lands : ∀ first more,
      first :: more ∈ Splitter.segments ⟨c.plan, .ofHandle linkType.code, snaplen⟩
        (packets.map Record.stored) →
      Lands w.disk loc (Splitter.name ⟨c.plan, .ofHandle linkType.code, snaplen⟩ w.localOffset
        first.header.sec) (leaf first.header.sec)) :
    ∃ summary s' w' r openings, dump c (.replay replay) w = (.ok summary, s', w') ∧
      Leaves ⟨c.plan, .ofHandle linkType.code, snaplen⟩ w.localOffset (packets.map Record.stored)
        openings r w'.disk ∧
      Houses w.disk loc leaf openings w'.disk ∧ summary.packets = r.packets ∧
      summary.filesOpened = r.filesOpened ∧ summary.bytes = r.bytes := by
  have records := Records.new c.plan (.ofHandle linkType.code) snaplen w.toHost
  rcases started : Rotator.new c.plan (.ofHandle linkType.code) snaplen w.toHost with ⟨r₀, h₀⟩
  rw [started] at records
  have disk : h₀.disk = w.disk := by
    have disk_eq := (Rotation.Rotator.new_spec c.plan (.ofHandle linkType.code) snaplen w.toHost).1
    rwa [started] at disk_eq
  have houses : Houses w.disk loc leaf ([] ++ (none : Option Opening).toList) h₀.disk := by
    rw [disk]
    exact ⟨.refl empty, by simp⟩
  have gives₀ : Replay.Gives h₀.disk w.disk.contents.size linkType snaplen replay packets := by
    rw [disk]
    exact gives
  obtain ⟨replay', r, w₁, names, done, current, looped, records', houses⟩ :=
    exists_pump_replay (w := { w with toHost := h₀ }) gives₀ records houses keepsAll running rfl fits
      lands
  obtain ⟨r', h', closed, leaves, houses'⟩ := records'.exists_close houses keepsAll
  have ready : Rotator.new c.plan (Session.replay replay).linkType (Session.replay replay).snaplen w.toHost =
      (r₀, h₀) := by
    rw [← started, ← gives.type, ← length]
    rfl
  obtain ⟨w', dumped, -, -, disk'⟩ :=
    exists_dump c (s := .replay replay) (w := w) (by rw [ready]; exact looped) closed
  rw [← disk'] at leaves houses'
  exact ⟨_, _, w', r', _, dumped, leaves, houses', rfl, rfl, rfl⟩

theorem exists_pump_packets (steps : script.steps = packets.map fun p => { outcome := .ok p })
    (running : w.stop.isStopped = false) (ran : r.writeAll w.toHost packets = (.ok (), r', h')) :
    ∃ script' w', pump (.scripted script) r w = (none, .scripted script', r', w') ∧
      w'.toHost = h'.note .debug (script.name ++ ": end of input") := by
  induction packets generalizing script r w with
  | nil =>
    obtain ⟨rfl, rfl⟩ : r = r' ∧ w.toHost = h' := by simpa [Rotator.writeAll] using ran
    exact ⟨script, _, by rw [pump_eq running, next_scripted_nil steps], rfl⟩
  | cons p packets ih =>
    have turn := pump_eq (s := .scripted script) (r := r) running
    rw [next_scripted_cons steps] at turn
    obtain ⟨r₁, h₁, wrote, rest⟩ := Rotator.exists_of_writeAll_cons ran
    have wrote' : r.write (played w [{ outcome := .ok p }]).toHost p = (.ok (), r₁, h₁) := wrote
    simp only [wrote'] at turn
    rw [turn]
    exact ih rfl running rest

theorem close_of_disk_eq {h₁ : Host} (disk : h₁.disk = h.disk) (closed : r.close h = (.ok (), r', h')) :
    ∃ h₁', r.close h₁ = (.ok (), r', h₁') ∧ h₁'.disk = h'.disk := by
  unfold Rotator.close at closed ⊢
  cases now : r.current with
  | none =>
    simp only [now, Prod.mk.injEq, true_and] at closed
    obtain ⟨rfl, rfl⟩ := closed
    exact ⟨h₁, rfl, disk⟩
  | some f =>
    simp only [now, Rotation.OpenFile.finish] at closed
    simp only [Rotation.OpenFile.finish, disk]
    rcases finished : f.writer.close h.disk with ⟨_ | size, d⟩
    · simp [finished] at closed
    · simp only [finished, Prod.mk.injEq, true_and] at closed
      obtain ⟨rfl, rfl⟩ := closed
      exact ⟨_, rfl, rfl⟩

theorem exists_dump_packets {check : Disk → Bool}
    (steps : script.steps = packets.map fun p => { outcome := .ok p })
    (running : w.stop.isStopped = false)
    (left : (Rotator.new c.plan script.linkType script.snaplen w.toHost).1.leaves
      (Rotator.new c.plan script.linkType script.snaplen w.toHost).2 packets check = true) :
    ∃ summary s' w', dump c (.scripted script) w = (.ok summary, s', w') ∧
      summary.packets = packets.length ∧ check w'.disk = true := by
  rcases started : Rotator.new c.plan script.linkType script.snaplen w.toHost with ⟨r₀, h₀⟩
  have describes := Rotation.Describes.new c.plan script.linkType script.snaplen w.toHost
  rw [started] at left describes
  obtain ⟨r, h, r', h', ran, closed, checked⟩ := Rotator.exists_of_leaves left
  obtain ⟨openings, made, -, -, cut⟩ := Rotation.exists_openings describes ran closed
  obtain ⟨script', w₁, looped, noted⟩ :=
    exists_pump_packets (w := { w with toHost := h₀ }) steps running ran
  have disk_eq : w₁.disk = h.disk := by
    rw [noted]
    rfl
  obtain ⟨h₁, closed', disk⟩ := close_of_disk_eq disk_eq closed
  obtain ⟨w', dumped, -, -, disk'⟩ := exists_dump_eq c (by rw [started]; exact looped) closed'
  refine ⟨_, _, w', dumped, ?_, ?_⟩
  · rw [made.packets, Option.toList_none, List.append_nil, List.flatMap_def, cut,
      Splitter.flatten_segments]
  · rw [disk', disk]
    exact checked

/-- A run over `script` led from `w` to `w'`, and its files are on `v` what it left. On `v` another run,
with the same settings, has an empty directory to write to. Its path takes the place of what stands in
front of the names. -/
structure Rerun (c c' : Config) (front directory name : String) (script : Script) (w w' v : World)
    (summary : Summary) : Prop where
  keepsAll : c.plan.maxFiles = 0
  pattern : c.plan.pattern = front ++ name
  isFront : Path.IsFront front
  plain : '/' ∉ name.toList
  again : c'.plan = { c.plan with pattern := directory ++ "/" ++ name }
  literal : '%' ∉ directory.toList
  ran : ∃ s', dump c (.scripted script) w = (.ok summary, s', w')
  nonempty : 0 < summary.packets
  storable : ∀ p ∈ written script summary, Storable p
  distinct : (openedPaths c script w summary).Nodup
  kept : ∀ path ∈ openedPaths c script w summary, ∀ bytes, w'.disk.Holds path bytes →
    v.disk.Holds path bytes
  zone : v.localOffset = w.localOffset
  running : v.stop.isStopped = false
  empty : v.disk.Lists directory []

/-- A run over the files at `paths` succeeds, counts what the run before it counted, and leaves files of
the same names with the same bytes in `directory`, and nothing else. -/
def Reproduces (c' : Config) (directory : String) (paths : List String) (summary : Summary)
    (w' v : World) : Prop :=
  ∃ replay h summary' s' w'', Replay.ofPaths v.toHost paths = (.ok replay, h) ∧
    dump c' (.replay replay) { v with toHost := h } = (.ok summary', s', w'') ∧
    summary'.packets = summary.packets ∧ summary'.filesOpened = summary.filesOpened ∧
    summary'.bytes = summary.bytes ∧
    w''.disk.Lists directory (paths.filterMap Path.fileName?) ∧
    ∀ path ∈ paths, ∃ last bytes, Path.fileName? path = some last ∧ w'.disk.Holds path bytes ∧
      w''.disk.Holds (directory ++ "/" ++ last) bytes

variable {front directory name : String} {linkType : LinkType} {snaplen : UInt32}

/-- Packets that can all be written make a run that can be made again. -/
theorem exists_rerun {check : Disk → Bool} (keepsAll : c.plan.maxFiles = 0)
    (pattern : c.plan.pattern = front ++ name) (isFront : Path.IsFront front)
    (plain : '/' ∉ name.toList) (again : c'.plan = { c.plan with pattern := directory ++ "/" ++ name })
    (literal : '%' ∉ directory.toList) (running : w.stop.isStopped = false)
    (steps : script.steps = packets.map fun p => { outcome := .ok p }) (nonempty : packets ≠ [])
    (storable : ∀ p ∈ packets, Storable p)
    (distinct : ((Rotator.new c.plan script.linkType script.snaplen w.toHost).1.opened
      (Rotator.new c.plan script.linkType script.snaplen w.toHost).2 packets).Nodup)
    (left : (Rotator.new c.plan script.linkType script.snaplen w.toHost).1.leaves
      (Rotator.new c.plan script.linkType script.snaplen w.toHost).2 packets check = true)
    (empty : ∀ d, check d = true → d.Lists directory []) :
    ∃ summary w', Rerun c c' front directory name script w w' { w with disk := w'.disk } summary ∧
      written script summary = packets ∧ check w'.disk = true := by
  obtain ⟨summary, s', w', ran, counted, checked⟩ := exists_dump_packets steps running left
  have wrote : written script summary = packets := by
    have delivers : delivered script.steps = packets := by
      rw [delivered, steps, List.filterMap_map]
      exact List.filterMap_some
    rw [written, delivers, counted, List.take_length]
  refine ⟨summary, w', ?_, wrote, checked⟩
  constructor
  · exact keepsAll
  · exact pattern
  · exact isFront
  · exact plain
  · exact again
  · exact literal
  · exact ⟨s', ran⟩
  · rw [counted]
    exact List.length_pos_iff.2 nonempty
  · rw [wrote]
    exact storable
  · rw [openedPaths, wrote]
    exact distinct
  · exact fun _ _ _ hold => hold
  · rfl
  · exact running
  · exact empty _ checked

theorem fits_of_storable {p : Packet} (storable : Storable p) : Replay.Fits p := by
  obtain ⟨-, -, whole, small⟩ := storable
  refine ⟨whole, ?_⟩
  simp only [Record.headerSize, Reader.capacity]
  omega

/-- The files of a run, wherever they are now, can be replayed. -/
theorem keep_of_holds {d : Disk} (segments : openings.map (·.packets) = splitter.segments packets)
    (hold : ∀ o ∈ openings, d.Holds (splitter.name localOffset o.sec) (splitter.sealed o.packets)) :
    List.Forall₂ (Capture.Keeps d d.contents.size splitter.linkType splitter.snaplen)
      (openings.map (splitter.name localOffset ·.sec)) (splitter.segments packets) := by
  rw [← segments, List.forall₂_map_left_iff, List.forall₂_map_right_iff, List.forall₂_same]
  intro o member
  obtain ⟨id, opened, content⟩ := hold o member
  obtain ⟨place, -, found⟩ := Disk.find?_of_openToRead opened
  refine ⟨id, splitter.plan.compression, ?_, opened, content ▸ splitter.stores_sealed o.packets⟩
  exact d.kept _ _ (Disk.mem_entries_of_find? found (by simp))

/-- A run over the files of another run makes them again, if these are regular files, their names differ
in the last part, and none of the new names is too long. -/
theorem rerun_reproduces (rerun : Rerun c c' front directory name script w w' v summary)
    (regular : ∀ path ∈ openedPaths c script w summary, ∃ bytes, w'.disk.Holds path bytes)
    (apart : ((openedPaths c script w summary).filterMap Path.fileName?).Nodup)
    (short : ∀ last ∈ (openedPaths c script w summary).filterMap Path.fileName?,
      (directory ++ "/" ++ last).utf8ByteSize < Disk.pathLimit) :
    Reproduces c' directory (openedPaths c script w summary) summary w' v := by
  obtain ⟨keepsAll, pattern, isFront, plain, again, literal, ⟨s', ran⟩, nonempty, storable, -, kept,
    zone, running, opened, loc, leads, empty⟩ := rerun
  let s : Splitter := ⟨c.plan, script.linkType, script.snaplen⟩
  obtain ⟨r, openings, leaves, names, counts⟩ :
      ∃ r openings, Leaves s w.localOffset (written script summary) openings r w'.disk ∧
        openings.map (s.name w.localOffset ·.sec) = openedPaths c script w summary ∧
        summary.packets = r.packets ∧ summary.filesOpened = r.filesOpened ∧ summary.bytes = r.bytes :=
    exists_leaves keepsAll ran
  have ne_nil := leaves.ne_nil (counts.1 ▸ nonempty)
  rw [← names] at regular apart short kept ⊢
  have files : ∀ o ∈ openings, ∃ id, o.entry = .file id := by
    intro o member
    obtain ⟨bytes, id, found, -⟩ := regular _ (List.mem_map_of_mem member)
    exact ⟨id, Except.ok.inj ((leaves.named o member).symm.trans found)⟩
  have lasts := leaves.filterMap_fileName? pattern isFront plain files
  rw [lasts] at apart short
  have hold (o : Opening) (member : o ∈ openings) :=
    leaves.holds pattern isFront plain files apart member
  obtain ⟨replay, h, opens, gives, length, disk, offset⟩ :=
    Replay.exists_ofPaths (h := v.toHost) (mt List.map_eq_nil_iff.1 ne_nil)
      (keep_of_holds leaves.segments fun o member => kept _ (List.mem_map_of_mem member) _ (hold o member))
  rw [Splitter.flatten_segments, ← disk] at gives
  rw [← disk] at opened leads empty
  have lands := leaves.lands_again storable pattern isFront plain files literal opened leads
    fun o member => short _ (List.mem_map_of_mem member)
  have settings : s.again (directory ++ "/" ++ name) = ⟨c'.plan, .ofHandle s.linkType.code, s.snaplen⟩ := by
    rw [Splitter.again, again]
  have zone' : w.localOffset = h.localOffset := (offset.trans zone).symm
  obtain ⟨summary', s'', w'', r', openings', dumped, leaves', houses, counts'⟩ :=
    exists_dump_replay (c := c') (w := { v with toHost := h }) gives length (by rw [again]; exact keepsAll)
      running (fun last => by simpa using empty last) (fun p member => fits_of_storable (storable p member))
      (settings ▸ zone' ▸ lands)
  rw [← settings, ← zone'] at leaves'
  rw [← zone'] at houses
  obtain ⟨packets, filesOpened, bytes⟩ := leaves.counts_again storable leaves'
  refine ⟨replay, h, summary', s'', w'', opens, dumped, ?_, ?_, ?_, ?_, ?_⟩
  · rw [counts'.1, packets, counts.1]
  · rw [counts'.2.1, filesOpened, counts.2.1]
  · rw [counts'.2.2, bytes, counts.2.2]
  · rw [lasts, ← leaves.map_sec_again storable leaves']
    exact houses.lists opened leads
  · intro path member
    obtain ⟨o, inside, rfl⟩ := List.mem_map.1 member
    exact ⟨_, _, leaves.fileName?_of_mem pattern isFront plain files inside, hold o inside,
      leaves.holds_again storable leaves' houses plain literal apart inside⟩

/-- Two files, each for the packets of one second. -/
theorem two_files_reproduced :
    let c : Config := ⟨{ pattern := "a%S.pcap", calendar := .utc, period := 1 }, .plain⟩
    let c' : Config := ⟨{ pattern := "out/a%S.pcap", calendar := .utc, period := 1 }, .plain⟩
    let script : Script :=
      { steps := [{ outcome := .ok ⟨⟨0, 0, 1, 1⟩, [1]⟩ }, { outcome := .ok ⟨⟨1, 0, 1, 1⟩, [2]⟩ }] }
    let w : World := { disk := Disk.fresh.addDirectory ["tmp", "home", "out"] }
    ∃ summary w', Rerun c c' "" "out" "a%S.pcap" script w w' { w with disk := w'.disk } summary ∧
      openedPaths c script w summary = ["a00.pcap", "a01.pcap"] ∧
      Reproduces c' "out" ["a00.pcap", "a01.pcap"] summary w' { w with disk := w'.disk } := by
  intro c c' script w
  let packets : List Packet := [⟨⟨0, 0, 1, 1⟩, [1]⟩, ⟨⟨1, 0, 1, 1⟩, [2]⟩]
  let check (d : Disk) : Bool := d.isEmptyAt "out" ["tmp", "home", "out"] &&
    ((d.openToRead "a00.pcap").toOption = some (.file 0) &&
      (d.openToRead "a01.pcap").toOption = some (.file 1))
  have ran : ∃ summary w', Rerun c c' "" "out" "a%S.pcap" script w w' { w with disk := w'.disk } summary ∧
      written script summary = packets ∧ check w'.disk = true := by
    refine exists_rerun rfl rfl (.inl rfl) (by decide) rfl (by decide) rfl rfl (by simp [packets])
      (by decide) (by decide +kernel) (by decide +kernel) ?_
    intro d checked
    exact Disk.lists_nil_of_isEmptyAt (Bool.and_eq_true_iff.1 checked).1
  obtain ⟨summary, w', rerun, wrote, checked⟩ := ran
  have opened : openedPaths c script w summary = ["a00.pcap", "a01.pcap"] := by
    rw [openedPaths, wrote]
    decide +kernel
  obtain ⟨first, second⟩ := Bool.and_eq_true_iff.1 (Bool.and_eq_true_iff.1 checked).2
  refine ⟨summary, w', rerun, opened, ?_⟩
  rw [← opened]
  apply rerun_reproduces rerun
  · rw [opened]
    simp only [List.forall_mem_cons, List.not_mem_nil, false_implies, implies_true, and_true]
    exact ⟨⟨_, 0, Disk.eq_ok_of_toOption (of_decide_eq_true first), rfl⟩,
      ⟨_, 1, Disk.eq_ok_of_toOption (of_decide_eq_true second), rfl⟩⟩
  · rw [opened]
    decide +kernel
  · rw [opened]
    decide +kernel

/-! Where the files cannot be made again. -/

/-- A special file is no capture file. -/
theorem not_reproduces_of_special {path : String} {rest : List String} {kind : SpecialFile}
    (opened : v.disk.openToRead path = .ok (.special kind)) :
    ¬ Reproduces c' directory (path :: rest) summary w' v := by
  rintro ⟨replay, h, -, -, -, opens, -⟩
  obtain ⟨e, failed⟩ := Reader.ofPath_of_special opened
  simp [Replay.ofPaths, failed] at opens

/-- One file cannot have the bytes of two. -/
theorem not_reproduces_of_collision {paths : List String} {a b : String} {bytes bytes' : Array UInt8}
    (inA : a ∈ paths) (inB : b ∈ paths) (fileName_eq : Path.fileName? a = Path.fileName? b)
    (first : w'.disk.Holds a bytes) (second : w'.disk.Holds b bytes') (differ : bytes ≠ bytes') :
    ¬ Reproduces c' directory paths summary w' v := by
  rintro ⟨-, -, -, -, w'', -, -, -, -, -, -, made⟩
  obtain ⟨last, x, nameA, holdA, madeA⟩ := made a inA
  obtain ⟨last', y, nameB, holdB, madeB⟩ := made b inB
  obtain rfl := Option.some.inj (nameA.symm.trans (fileName_eq.trans nameB))
  apply differ
  rw [first.unique holdA, second.unique holdB]
  exact madeA.unique madeB

theorem write_of_long {p : Packet} (idle : r.current = none)
    (long : ∀ localOffset sec, Disk.pathLimit ≤ (r.splitter.name localOffset sec).utf8ByteSize) :
    ∃ e, r.write h p = (.error e, r, h) := by
  obtain ⟨e, failed⟩ := @Disk.exists_create_eq_error h.disk _ (long h.localOffset p.header.sec)
  exact ⟨.fileOpen (r.splitter.name h.localOffset p.header.sec) e, by
    simp only [Rotator.write, Rotator.fileFor, idle, Rotation.Rotator.openFile_of_error failed]⟩

theorem pump_of_long {s : Session} (idle : r.current = none)
    (long : ∀ localOffset sec, Disk.pathLimit ≤ (r.splitter.name localOffset sec).utf8ByteSize) :
    (pump s r w).2.2.1 = r := by
  fun_induction pump s r w with
  | case1 => rfl
  | case2 s r w running p s' w' found e r' h' failed =>
    obtain ⟨_, write_eq⟩ := write_of_long (h := w'.toHost) (p := p) idle long
    rw [write_eq] at failed
    exact (Prod.mk.inj (Prod.mk.inj failed).2).1.symm
  | case3 s r w running p s' w' found r' h' wrote =>
    obtain ⟨_, write_eq⟩ := write_of_long (h := w'.toHost) (p := p) idle long
    rw [write_eq] at wrote
    simp at wrote
  | case4 s r w running s' w' found ih => exact ih idle long
  | case5 => rfl
  | case6 => rfl

/-- Every name in the directory is too long if that of the directory almost is. -/
theorem not_reproduces_of_long {paths : List String}
    (pattern : c'.plan.pattern = directory ++ "/" ++ name) (literal : '%' ∉ directory.toList)
    (long : Disk.pathLimit ≤ (directory ++ "/").utf8ByteSize) (positive : 0 < summary.packets) :
    ¬ Reproduces c' directory paths summary w' v := by
  rintro ⟨replay, h, summary', s', w'', -, dumped, counted, -⟩
  rcases started : Rotator.new c'.plan replay.linkType replay.snaplen h with ⟨r₀, h₀⟩
  have fresh : r₀ = { plan := c'.plan, linkType := replay.linkType, snaplen := replay.snaplen } :=
    (congrArg Prod.fst started).symm
  have far (localOffset sec : Int) :
      Disk.pathLimit ≤ (r₀.splitter.name localOffset sec).utf8ByteSize := by
    have named : r₀.splitter.name localOffset sec =
        FilePattern.expand (directory ++ "/" ++ name) (c'.plan.calendar.offset localOffset) sec := by
      rw [fresh, ← pattern]
      rfl
    rw [named, FilePattern.expand_in_directory literal, String.utf8ByteSize_append]
    exact Nat.le_trans long (Nat.le_add_right _ _)
  rcases looped : pump (.replay replay) r₀ { v with toHost := h₀ } with ⟨failure, s₁, r, w₁⟩
  have idle : r = r₀ := by
    have rotator_eq := pump_of_long (s := .replay replay) (w := { v with toHost := h₀ }) (by rw [fresh]) far
    rwa [looped] at rotator_eq
  subst idle fresh
  simp only [dump, Session.linkType, Session.snaplen, started, looped, Rotator.close] at dumped
  cases failure with
  | none =>
    obtain rfl := Except.ok.inj (Prod.mk.inj dumped).1
    rw [← counted] at positive
    contradiction
  | some e => cases (Prod.mk.inj dumped).1

/-- Three runs that cannot be made again: one into a device, one whose files differ in their directories
only, and one that is to be made again in a directory whose path is just short enough. -/
theorem special_equal_and_long_names_not_reproduced :
    let zero : Packet := ⟨⟨0, 0, 1, 1⟩, [1]⟩
    let one : Packet := ⟨⟨1, 0, 1, 1⟩, [2]⟩
    let config (pattern : String) : Config := ⟨{ pattern, calendar := .utc, period := 1 }, .plain⟩
    let alone : Script := { steps := [{ outcome := .ok zero }] }
    let both : Script := { steps := [{ outcome := .ok zero }, { outcome := .ok one }] }
    let far := Disk.trailing "out" 4092
    let w : World :=
      { disk := ["out", "00", "01"].foldl (fun d name => d.addDirectory ["tmp", "home", name]) .fresh }
    (∃ summary w', Rerun (config "/dev/null") (config "out/null") "/dev/" "out" "null" alone w w'
        { w with disk := w'.disk } summary ∧
      openedPaths (config "/dev/null") alone w summary = ["/dev/null"] ∧
      ¬ Reproduces (config "out/null") "out" ["/dev/null"] summary w' { w with disk := w'.disk }) ∧
    (∃ summary w', Rerun (config "%S/a.pcap") (config "out/a.pcap") "%S/" "out" "a.pcap" both w w'
        { w with disk := w'.disk } summary ∧
      openedPaths (config "%S/a.pcap") both w summary = ["00/a.pcap", "01/a.pcap"] ∧
      ¬ Reproduces (config "out/a.pcap") "out" ["00/a.pcap", "01/a.pcap"] summary w'
        { w with disk := w'.disk }) ∧
    (∃ summary w', Rerun (config "a.pcap") (config (far ++ "/" ++ "a.pcap")) "" far "a.pcap" alone w w'
        { w with disk := w'.disk } summary ∧
      openedPaths (config "a.pcap") alone w summary = ["a.pcap"] ∧
      ¬ Reproduces (config (far ++ "/" ++ "a.pcap")) far ["a.pcap"] summary w'
        { w with disk := w'.disk }) := by
  intro zero one config alone both far w
  refine ⟨?_, ?_, ?_⟩
  · let check (d : Disk) : Bool := d.isEmptyAt "out" ["tmp", "home", "out"] &&
      (d.openToRead "/dev/null").toOption = some (.special .null)
    have ran : ∃ summary w', Rerun (config "/dev/null") (config "out/null") "/dev/" "out" "null" alone
        w w' { w with disk := w'.disk } summary ∧ written alone summary = [zero] ∧
        check w'.disk = true := by
      refine exists_rerun rfl rfl (.inr ⟨"/dev", rfl⟩) (by decide) rfl (by decide) rfl rfl (by simp)
        (by decide) (by decide +kernel) (by decide +kernel) ?_
      intro d checked
      exact Disk.lists_nil_of_isEmptyAt (Bool.and_eq_true_iff.1 checked).1
    obtain ⟨summary, w', rerun, wrote, checked⟩ := ran
    refine ⟨summary, w', rerun, by rw [openedPaths, wrote]; decide +kernel, ?_⟩
    apply not_reproduces_of_special
    exact Disk.eq_ok_of_toOption (of_decide_eq_true (Bool.and_eq_true_iff.1 checked).2)
  · let check (d : Disk) : Bool := d.isEmptyAt "out" ["tmp", "home", "out"] &&
      ((d.openToRead "00/a.pcap").toOption = some (.file 0) &&
        ((d.openToRead "01/a.pcap").toOption = some (.file 1) &&
          d.content (.file 0) ≠ d.content (.file 1)))
    have ran : ∃ summary w', Rerun (config "%S/a.pcap") (config "out/a.pcap") "%S/" "out" "a.pcap" both
        w w' { w with disk := w'.disk } summary ∧ written both summary = [zero, one] ∧
        check w'.disk = true := by
      refine exists_rerun rfl rfl (.inr ⟨"%S", rfl⟩) (by decide) rfl (by decide) rfl rfl (by simp)
        (by decide) (by decide +kernel) (by decide +kernel) ?_
      intro d checked
      exact Disk.lists_nil_of_isEmptyAt (Bool.and_eq_true_iff.1 checked).1
    obtain ⟨summary, w', rerun, wrote, checked⟩ := ran
    simp only [check, Bool.and_eq_true, decide_eq_true_eq] at checked
    obtain ⟨-, first, second, differ⟩ := checked
    refine ⟨summary, w', rerun, by rw [openedPaths, wrote]; decide +kernel, ?_⟩
    have fileName_eq : Path.fileName? "00/a.pcap" = Path.fileName? "01/a.pcap" := by
      decide +kernel
    exact not_reproduces_of_collision (by simp) (by simp) fileName_eq ⟨0, Disk.eq_ok_of_toOption first, rfl⟩
      ⟨1, Disk.eq_ok_of_toOption second, rfl⟩ differ
  · have literal : '%' ∉ far.toList := by
      intro member
      rcases Disk.mem_trailing 4092 member with inside | slash
      · exact absurd inside (by decide)
      · exact absurd slash (by decide)
    have long : Disk.pathLimit ≤ (far ++ "/").utf8ByteSize := by
      rw [String.utf8ByteSize_append, Disk.utf8ByteSize_trailing]
      decide
    have empty (d : Disk) (checked : d.isEmptyAt "out" ["tmp", "home", "out"] = true) : d.Lists far [] :=
      (Disk.lists_nil_of_isEmptyAt checked).trailing 4092 (by decide)
    clear_value far
    have ran : ∃ summary w', Rerun (config "a.pcap") (config (far ++ "/" ++ "a.pcap")) "" far "a.pcap"
        alone w w' { w with disk := w'.disk } summary ∧ written alone summary = [zero] ∧
        w'.disk.isEmptyAt "out" ["tmp", "home", "out"] = true :=
      exists_rerun rfl rfl (.inl rfl) (by decide) rfl literal rfl rfl (by simp) (by decide)
        (by decide +kernel) (by decide +kernel) empty
    obtain ⟨summary, w', rerun, wrote, -⟩ := ran
    refine ⟨summary, w', rerun, by rw [openedPaths, wrote]; decide +kernel, ?_⟩
    exact not_reproduces_of_long rfl literal long rerun.nonempty

end RollingCapture.Run
