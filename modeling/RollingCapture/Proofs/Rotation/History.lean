import RollingCapture.Proofs.CaptureFile.Opening
import RollingCapture.Proofs.Rotation.Splitter

/-! What a rotator has done so far: the files that it opened, in order, and the packets that each has
taken in. The bytes of a file are settled by its latest opening. -/
namespace RollingCapture.Rotation

open CaptureFile

structure Opening where
  sec : Int
  entry : Entry
  packets : List Packet := []
  deriving DecidableEq, Repr

namespace Opening

def add (o : Opening) (p : Packet) : Opening := { o with packets := o.packets ++ [p] }

/-- The file was opened for its first packet. -/
def Begun (o : Opening) : Prop := ∃ first more, o.packets = first :: more ∧ first.header.sec = o.sec

theorem begun_add {o : Opening} (begun : o.Begun) (p : Packet) : (o.add p).Begun := by
  obtain ⟨first, more, packets, sec⟩ := begun
  exact ⟨first, more ++ [p], by rw [add, packets, List.cons_append], sec⟩

def last? (openings : List Opening) (id : Nat) : Option Opening :=
  (openings.filter (·.entry = .file id)).getLast?

theorem last?_concat (openings : List Opening) (o : Opening) (id : Nat) :
    last? (openings ++ [o]) id = if o.entry = .file id then some o else last? openings id := by
  unfold last?
  by_cases here : o.entry = .file id
  · simp [here]
  · simp [here]

theorem last?_eq_none {openings : List Opening} {id : Nat}
    (other : ∀ o ∈ openings, o.entry ≠ .file id) : last? openings id = none := by
  rw [last?, List.getLast?_eq_none_iff, List.filter_eq_nil_iff]
  intro o member
  simpa using other o member

theorem last?_append_cons {before after : List Opening} {o : Opening} {id : Nat}
    (here : o.entry = .file id) (other : ∀ later ∈ after, later.entry ≠ .file id) :
    last? (before ++ o :: after) id = some o := by
  have empty : after.filter (·.entry = .file id) = [] := by
    apply List.filter_eq_nil_iff.2
    intro later member
    simpa using other later member
  rw [last?, List.filter_append, List.filter_cons_of_pos (by simpa using here), empty,
    List.getLast?_append, List.getLast?_singleton]
  rfl

theorem mem_of_last? {openings : List Opening} {o : Opening} {id : Nat}
    (last : last? openings id = some o) : o ∈ openings :=
  (List.mem_filter.1 (List.mem_of_getLast? last)).1

end Opening

/-- What a rotator does with packets, besides what its counters and the disk say. -/
def Rotator.splitter (r : Rotator) : Splitter := ⟨r.plan, r.linkType, r.snaplen⟩

/-- `file` is being written and has taken in just what `o` says. -/
structure Opening.Tracks (s : Splitter) (localOffset : Int) (o : Opening) (file : OpenFile) : Prop where
  path : file.writer.path = s.name localOffset o.sec
  entry : file.writer.entry = o.entry
  compression : file.writer.compression = s.plan.compression
  deadline : file.deadline = windowEnd o.sec s.plan.period
  packets : file.packets = o.packets.length
  accepts : o.entry.refuses = false →
    file.writer.sink = o.packets.foldl Sink.record (.start s.plan.compression s.linkType s.snaplen) ∧
      file.bytes = s.taken o.packets
  stuck : o.entry.refuses = true → file.writer.sink.out.Stuck

/-- The bytes of a file are those of its last opening; without one they are what they were. -/
def Settled (s : Splitter) (d₀ : Disk) (openings : List Opening) (d : Disk) (id : Nat) : Prop :=
  match Opening.last? openings id with
  | none => d.content (.file id) = d₀.content (.file id)
  | some o => s.plan.compression.Stores (d.content (.file id)).toList (s.content o.packets)

/-- What the disk `d` has of the openings `done`, which are complete, and of the one that is `current`,
where the disk was `d₀` at first. Names are kept only if no file is removed. -/
structure Files (s : Splitter) (d₀ : Disk) (localOffset : Int) (done : List Opening)
    (current : Option Opening) (d : Disk) : Prop where
  settled : ∀ id, (∀ o ∈ current, o.entry ≠ .file id) → Settled s d₀ done d id
  kept : ∀ o ∈ done ++ current.toList, ∀ id, o.entry = .file id → id < d.contents.size
  named : s.plan.maxFiles = 0 → ∀ o ∈ done ++ current.toList,
    d.openToRead (s.name localOffset o.sec) = .ok o.entry

/-- The rotator `r` on host `h` has completed the openings `done` and writes to `file`, which is
`current`, if there is one. -/
structure Describes (s : Splitter) (d₀ : Disk) (localOffset : Int) (done : List Opening)
    (current : Option Opening) (file : Option OpenFile) (r : Rotator) (h : Host) : Prop where
  splitter : r.splitter = s
  offset : h.localOffset = localOffset
  opened : r.filesOpened = (done ++ current.toList).length
  packets : r.packets = ((done ++ current.toList).flatMap (·.packets)).length
  tracks : Option.Rel (Opening.Tracks s localOffset) current file
  files : Files s d₀ localOffset done current h.disk

variable {s : Splitter} {d₀ d d' : Disk} {localOffset : Int} {done : List Opening}
  {current : Option Opening} {o : Opening} {file : Option OpenFile} {f : OpenFile} {r r' : Rotator}
  {h h' : Host} {p : Packet}

theorem Opening.fileName_eq (begun : o.Begun) :
    s.fileName localOffset o.packets = s.name localOffset o.sec := by
  obtain ⟨first, more, packets, sec⟩ := begun
  rw [packets, Splitter.fileName, sec]

namespace Files

theorem contentOf_eq {before after : List Opening} {id : Nat}
    (files : Files s d₀ localOffset (before ++ o :: after) none d) (here : o.entry = .file id)
    (last : ∀ later ∈ after, later.entry ≠ .file id) :
    s.plan.compression.contentOf (d.content (.file id)).toList = some (s.content o.packets) := by
  have settled := files.settled id (by simp)
  rw [Settled, Opening.last?_append_cons here last] at settled
  exact Compression.contentOf_of_stores settled

theorem exists_readAll {path : String} {id : Nat}
    (files : Files s d₀ localOffset done none d) (opened : d.openToRead path = .ok (.file id))
    (last : Opening.last? done id = some o)
    (fits : ∀ p ∈ o.packets, Record.IsWhole p ∧ p.header.caplen.toNat ≤ 262127) :
    ∃ reader, Reader.ofPath d path = .ok reader ∧
      reader.readAll d = .ok (o.packets.map Record.stored) := by
  have settled := files.settled id (by simp)
  rw [Settled, last] at settled
  obtain ⟨reader, opens, -, -, header, flow, room⟩ := Reader.ofPath_of_stores opened settled
  refine ⟨reader, opens, ?_⟩
  apply Reader.readAll_bytes room (by rw [header]) flow
  intro p member
  obtain ⟨whole, small⟩ := fits p member
  constructor
  · exact whole
  · simp only [Record.headerSize, Reader.capacity]
    omega

/-- A file that was never opened keeps its bytes. -/
theorem content_of_unopened {id : Nat} (files : Files s d₀ localOffset done current d)
    (other : ∀ o ∈ done ++ current.toList, o.entry ≠ .file id) :
    d.content (.file id) = d₀.content (.file id) := by
  have settled := files.settled id fun o now =>
    other o (List.mem_append_right _ (Option.mem_toList.2 now))
  rw [Settled, Opening.last?_eq_none fun o member => other o (List.mem_append_left _ member)] at settled
  exact settled

theorem content_eq {id : Nat} (files : Files s d₀ localOffset done none d)
    (other : ∀ o ∈ done, o.entry ≠ .file id) : d.content (.file id) = d₀.content (.file id) :=
  files.content_of_unopened (by simpa using other)

theorem store (files : Files s d₀ localOffset done (some o) d) (bytes : Array UInt8) :
    Files s d₀ localOffset done (some o) (d.store o.entry bytes) := by
  constructor
  · intro id other
    have content_eq : (d.store o.entry bytes).content (.file id) = d.content (.file id) :=
      Disk.content_store_of_ne (other o rfl)
    rw [Settled, content_eq]
    exact files.settled id other
  · intro o' member id here
    rw [Disk.size_contents_store]
    exact files.kept o' member id here
  · intro kept o' member
    exact (Disk.extends_store d o.entry bytes).openToRead (files.named kept o' member)

theorem add (files : Files s d₀ localOffset done (some o) d) (p : Packet) :
    Files s d₀ localOffset done (some (o.add p)) d := by
  constructor
  · intro id other
    apply files.settled id
    intro o' here
    cases Option.some.inj here
    exact other (o.add p) rfl
  · intro o' member id here
    rcases List.mem_append.1 member with old | new
    · exact files.kept o' (List.mem_append_left _ old) id here
    · cases List.mem_singleton.1 new
      exact files.kept o (List.mem_append_right _ List.mem_cons_self) id here
  · intro kept o' member
    rcases List.mem_append.1 member with old | new
    · exact files.named kept o' (List.mem_append_left _ old)
    · cases List.mem_singleton.1 new
      exact files.named kept o (List.mem_append_right _ List.mem_cons_self)

theorem complete {bytes : Array UInt8} (files : Files s d₀ localOffset done (some o) d)
    (stores : o.entry.refuses = false → s.plan.compression.Stores bytes.toList (s.content o.packets)) :
    Files s d₀ localOffset (done ++ [o]) none (d.store o.entry bytes) := by
  have stored := files.store bytes
  constructor
  · intro id _
    rw [Settled, Opening.last?_concat]
    by_cases here : o.entry = .file id
    · rw [if_pos here, here]
      rw [Disk.content_store_self (files.kept o (by simp) id here)]
      exact stores (by rw [here]; rfl)
    · rw [if_neg here]
      apply stored.settled id
      intro o' mem
      cases Option.some.inj mem
      exact here
  · simpa using stored.kept
  · simpa using stored.named

theorem create {e : Entry} {sec : Int} (files : Files s d₀ localOffset done none d)
    (created : d.create (s.name localOffset sec) = .ok (e, d')) :
    Files s d₀ localOffset done (some { sec, entry := e }) d' := by
  have larger := Disk.extends_create created
  constructor
  · intro id other
    rw [Settled, Disk.content_create_of_ne created (other _ rfl)]
    exact files.settled id (by simp)
  · intro o member id here
    rcases List.mem_append.1 member with old | new
    · exact Nat.lt_of_lt_of_le (files.kept o (by simpa using old) id here) larger.size
    · cases List.mem_singleton.1 new
      simp only at here
      rw [here] at created
      exact Disk.lt_size_of_create created
  · intro kept o member
    rcases List.mem_append.1 member with old | new
    · exact larger.openToRead (files.named kept o (by simpa using old))
    · cases List.mem_singleton.1 new
      exact Disk.openToRead_create created

theorem of_contents_eq (files : Files s d₀ localOffset done current d)
    (contents : d'.contents = d.contents) (disk_eq : s.plan.maxFiles = 0 → d' = d) :
    Files s d₀ localOffset done current d' := by
  constructor
  · intro id other
    rw [Settled, Disk.content_congr contents]
    exact files.settled id other
  · intro o member id here
    rw [contents]
    exact files.kept o member id here
  · intro kept o member
    rw [disk_eq kept]
    exact files.named kept o member

end Files

theorem Rotator.new_spec (plan : Plan) (linkType : LinkType) (snaplen : UInt32) (h : Host) :
    (Rotator.new plan linkType snaplen h).2.disk = h.disk ∧
      (Rotator.new plan linkType snaplen h).2.localOffset = h.localOffset := by
  unfold Rotator.new
  split <;> exact ⟨rfl, rfl⟩

theorem Rotator.discard_spec (h : Host) (path : String) :
    (Rotator.discard h path).disk.contents = h.disk.contents ∧
      (Rotator.discard h path).localOffset = h.localOffset := by
  unfold Rotator.discard
  split
  · rename_i disk removed
    exact ⟨Disk.contents_remove removed, rfl⟩
  · split <;> exact ⟨rfl, rfl⟩

/-- Retention removes files only where their number is limited. -/
theorem Rotator.retain_spec (r : Rotator) (h : Host) (path : String) :
    ∃ retained h', r.retain h path = ({ r with retained }, h') ∧ h'.localOffset = h.localOffset ∧
      h'.disk.contents = h.disk.contents ∧ (r.plan.maxFiles = 0 → h'.disk = h.disk) := by
  have removed (paths : List String) (h : Host) :
      (paths.foldl Rotator.discard h).disk.contents = h.disk.contents ∧
        (paths.foldl Rotator.discard h).localOffset = h.localOffset := by
    induction paths generalizing h with
    | nil => exact ⟨rfl, rfl⟩
    | cons path paths ih =>
      obtain ⟨contents, offset⟩ := ih (Rotator.discard h path)
      obtain ⟨contents', offset'⟩ := Rotator.discard_spec h path
      exact ⟨contents.trans contents', offset.trans offset'⟩
  obtain ⟨contents, offset⟩ := removed _ h
  refine ⟨_, _, rfl, offset, contents, ?_⟩
  intro unlimited
  simp only [unlimited, if_true, List.take_zero, List.foldl_nil]

theorem Rotator.openFile_of_error {e : IoFailure} {sec : Int}
    (failed : h.disk.create (r.splitter.name h.localOffset sec) = .error e) :
    r.openFile h sec = (.error (.fileOpen (r.splitter.name h.localOffset sec) e), r, h) := by
  unfold Splitter.name Rotator.splitter at failed ⊢
  rw [Rotator.openFile, Writer.create, failed]

theorem Rotator.openFile_of_ok {writer : Writer} {sec : Int}
    (created : Writer.create h.disk (r.splitter.name h.localOffset sec) r.linkType r.snaplen
      r.plan.compression = (.ok writer, d)) :
    ∃ retained h', r.openFile h sec =
        (.ok { writer, deadline := windowEnd sec r.plan.period },
          { r with filesOpened := r.filesOpened + 1, retained }, h') ∧
      h'.localOffset = h.localOffset ∧ h'.disk.contents = d.contents ∧
      (r.plan.maxFiles = 0 → h'.disk = d) := by
  obtain ⟨retained, h', kept, rest⟩ := Rotator.retain_spec
    { r with filesOpened := r.filesOpened + 1 }
    (Host.note { h with disk := d } .info s!"opened {r.splitter.name h.localOffset sec}")
    (r.splitter.name h.localOffset sec)
  refine ⟨retained, h', ?_, rest⟩
  unfold Splitter.name Rotator.splitter at created kept
  simp only [Rotator.openFile, created, kept]

namespace Opening.Tracks

/-- The counters of a file lead to the same cut as its packets do. -/
theorem isOver_iff (tracks : o.Tracks s localOffset f) (begun : o.Begun)
    (accepts : o.entry.refuses = false) (p : Packet) :
    f.isOver s.plan p.header.sec p.header.caplen = true ↔ s.Cuts o.packets p := by
  obtain ⟨first, more, packets, sec⟩ := begun
  have bytes := (tracks.accepts accepts).2
  have count := tracks.packets
  rw [packets, List.length_cons] at count
  have late : f.deadline.any (· ≤ p.header.sec) = true ↔ s.Late first.header.sec p.header.sec := by
    simp [Splitter.Late, tracks.deadline, sec, Option.any_eq_true]
  have size : (f.writer.recordSize? p.header.caplen).any
      (fun size => s.plan.maxBytes < f.bytes + size) = true ↔ s.plan.compression = .plain ∧
        s.plan.maxBytes < s.taken o.packets + (Record.headerSize + p.header.caplen.toNat) := by
    rw [Writer.recordSize?, tracks.compression, bytes]
    cases s.plan.compression <;> simp
  have positive : 0 < f.packets := by omega
  rw [OpenFile.isOver, Bool.or_eq_true, late, Bool.and_eq_true, Bool.or_eq_true, Bool.and_eq_true,
    size, bytes]
  simp only [packets, Splitter.Cuts, Splitter.Full, decide_eq_true_eq, positive, true_and]

/-- The file of an accepting opening holds the file header and the records. -/
theorem holds (tracks : o.Tracks s localOffset f) (accepts : o.entry.refuses = false) :
    f.writer.sink.Holds (s.content o.packets) ∧ f.writer.sink.kind = s.plan.compression := by
  rw [(tracks.accepts accepts).1]
  exact ⟨Sink.foldl_record_holds Sink.start_holds o.packets,
    (Sink.kind_foldl_record o.packets).trans Sink.kind_start⟩

end Opening.Tracks

namespace Describes

theorem current_eq_none (describes : Describes s d₀ localOffset done current file r h)
    (now : file = none) : current = none := by
  subst now
  cases describes.tracks
  rfl

theorem file_eq_none (describes : Describes s d₀ localOffset done none file r h) : file = none := by
  cases describes.tracks
  rfl

theorem exists_tracks (describes : Describes s d₀ localOffset done current file r h)
    (now : file = some f) : ∃ o, current = some o ∧ o.Tracks s localOffset f := by
  subst now
  cases describes.tracks with
  | some tracks => exact ⟨_, rfl, tracks⟩

theorem opening_tracks (describes : Describes s d₀ localOffset done (some o) file r h)
    (now : file = some f) : o.Tracks s localOffset f := by
  obtain ⟨o', opening_eq, tracks⟩ := describes.exists_tracks now
  rwa [Option.some.inj opening_eq]

/-- Completing the current file: a file that refuses bytes fails, any other does not. -/
theorem finish {result : Except Error Unit}
    (describes : Describes s d₀ localOffset done (some o) (some f) r h)
    (finished : f.finish h = (result, h')) :
    Describes s d₀ localOffset (done ++ [o]) none none r h' ∧
      (result = .ok () ↔ o.entry.refuses = false) := by
  obtain ⟨splitter, offset, opened, packets, tracked, files⟩ := describes
  cases tracked with
  | some tracks => ?_
  have moved (disk : Disk) (complete : Files s d₀ localOffset (done ++ [o]) none disk) (h' : Host)
      (localOffset_eq : h'.localOffset = h.localOffset) (disk_eq : h'.disk = disk) :
      Describes s d₀ localOffset (done ++ [o]) none none r h' :=
    ⟨splitter, localOffset_eq.trans offset, by simpa using opened, by simpa using packets, .none,
      disk_eq ▸ complete⟩
  cases accepts : o.entry.refuses with
  | false =>
    obtain ⟨held, kind⟩ := tracks.holds accepts
    obtain ⟨bytes, closed, stores⟩ := Writer.close_of_holds held h.disk
    rw [kind] at stores
    rw [tracks.entry] at closed
    rw [OpenFile.finish, closed] at finished
    obtain ⟨rfl, rfl⟩ := Prod.mk.inj finished
    exact ⟨moved _ (files.complete fun _ => stores) _ rfl rfl, by simp⟩
  | true =>
    obtain ⟨e, failed⟩ := Writer.close_of_stuck (tracks.stuck accepts) h.disk
    rcases closed : f.writer.close h.disk with ⟨result', d⟩
    rw [closed] at failed
    obtain rfl : result' = .error e := failed
    obtain ⟨bytes, rfl⟩ := Writer.exists_store_of_close closed
    rw [tracks.entry] at closed
    rw [OpenFile.finish, closed] at finished
    obtain ⟨rfl, rfl⟩ := Prod.mk.inj finished
    exact ⟨moved _ (files.complete fun other => absurd (accepts.symm.trans other) (by simp)) _ rfl rfl,
      by simp⟩

theorem openFile {sec : Int} {result : Except Error OpenFile}
    (describes : Describes s d₀ localOffset done none none r h)
    (opened : r.openFile h sec = (result, r', h')) :
    r'.current = r.current ∧
      match result with
      | .error _ => Describes s d₀ localOffset done none none r' h'
      | .ok f => ∃ entry, Describes s d₀ localOffset done (some { sec, entry }) (some f) r' h' := by
  obtain ⟨rfl, rfl, count, packets, -, files⟩ := describes
  rcases made : h.disk.create (r.splitter.name h.localOffset sec) with e | ⟨entry, d₁⟩
  · rw [Rotator.openFile_of_error made] at opened
    simp only [Prod.mk.injEq] at opened
    obtain ⟨rfl, rfl, rfl⟩ := opened
    exact ⟨rfl, rfl, rfl, count, packets, .none, files⟩
  · have begun := files.create made
    -- Whatever the sink, the disk is the one of the opening with new bytes in the file at most.
    have reopened {sink : Sink} {d₂ : Disk}
        (created : Writer.create h.disk (r.splitter.name h.localOffset sec) r.linkType r.snaplen
          r.plan.compression = (.ok ⟨r.splitter.name h.localOffset sec, entry, r.linkType,
            r.plan.compression, sink, 0⟩, d₂))
        (stored : Files r.splitter d₀ h.localOffset done (some { sec, entry }) d₂)
        (accepts : entry.refuses = false →
          sink = .start r.plan.compression r.linkType r.snaplen)
        (stuck : entry.refuses = true → sink.out.Stuck) :
        r'.current = r.current ∧
          match result with
          | .error _ => Describes r.splitter d₀ h.localOffset done none none r' h'
          | .ok f => ∃ entry, Describes r.splitter d₀ h.localOffset done
              (some { sec, entry }) (some f) r' h' := by
      obtain ⟨retained, h₁, kept, offset, contents, disk_eq⟩ := Rotator.openFile_of_ok created
      rw [kept] at opened
      simp only [Prod.mk.injEq] at opened
      obtain ⟨rfl, rfl, rfl⟩ := opened
      refine ⟨rfl, entry, rfl, offset, by simpa using count, by simpa using packets, .some ?_,
        stored.of_contents_eq contents disk_eq⟩
      exact ⟨rfl, rfl, rfl, rfl, rfl, fun other => ⟨accepts other, rfl⟩, stuck⟩
    cases accepts : entry.refuses with
    | false =>
      exact reopened (Writer.create_of_accepts made accepts _ _ _) (begun.store _) (fun _ => rfl)
        (fun other => absurd (accepts.symm.trans other) (by simp))
    | true =>
      obtain ⟨sink, created, stuck⟩ := Writer.create_of_refuses made accepts r.linkType r.snaplen
        r.plan.compression
      exact reopened created begun (fun other => absurd (accepts.symm.trans other) (by simp))
        (fun _ => stuck)

/-- What is said does not depend on the log, on the current file of the rotator, or on its bytes. -/
theorem congr (describes : Describes s d₀ localOffset done current file r h)
    (splitter : r'.splitter = r.splitter) (opened : r'.filesOpened = r.filesOpened)
    (packets : r'.packets = r.packets) (disk : h'.disk = h.disk)
    (offset : h'.localOffset = h.localOffset) :
    Describes s d₀ localOffset done current file r' h' :=
  ⟨splitter.trans describes.splitter, offset.trans describes.offset, opened.trans describes.opened,
    packets.trans describes.packets, describes.tracks, disk ▸ describes.files⟩

theorem fileFor {header : PacketHeader} {result : Except Error OpenFile}
    (describes : Describes s d₀ localOffset done current r.current r h)
    (chosen : r.fileFor h header = (result, r', h')) :
    match result with
    | .error _ => r'.current = none ∧
        Describes s d₀ localOffset (done ++ current.toList) none none r' h'
    | .ok f =>
      (∃ o, current = some o ∧ Describes s d₀ localOffset done (some o) (some f) r' h' ∧
        f.isOver s.plan header.sec header.caplen = false) ∨
      (∃ entry, Describes s d₀ localOffset (done ++ current.toList)
          (some { sec := header.sec, entry }) (some f) r' h' ∧
        ∀ o ∈ current, o.entry.refuses = false ∧ ∃ f, o.Tracks s localOffset f ∧
          f.isOver s.plan header.sec header.caplen = true) := by
  have plan : r.plan = s.plan := congrArg Splitter.plan describes.splitter
  cases now : r.current with
  | none =>
    obtain rfl := describes.current_eq_none now
    rw [now] at describes
    simp only [Rotator.fileFor, now] at chosen
    obtain ⟨current_eq, outcome⟩ := openFile describes chosen
    cases result with
    | error => exact ⟨current_eq.trans now, by simpa using outcome⟩
    | ok f =>
      obtain ⟨entry, begun⟩ := outcome
      exact .inr ⟨entry, by simpa using begun, by simp⟩
  | some f =>
    obtain ⟨o, rfl, tracks⟩ := describes.exists_tracks now
    rw [now] at describes
    cases beyond : f.isOver r.plan header.sec header.caplen with
    | false =>
      simp only [Rotator.fileFor, now, beyond, Bool.false_eq_true, if_false, Prod.mk.injEq] at chosen
      obtain ⟨rfl, rfl, rfl⟩ := chosen
      exact .inl ⟨o, rfl, describes.congr rfl rfl rfl rfl rfl, plan ▸ beyond⟩
    | true =>
      simp only [Rotator.fileFor, now, beyond, if_true] at chosen
      generalize noted : h.note .debug _ = h₀ at chosen
      have begun : Describes s d₀ localOffset done (some o) (some f) { r with current := none } h₀ :=
        describes.congr rfl rfl rfl (noted ▸ rfl) (noted ▸ rfl)
      rcases finished : f.finish h₀ with ⟨e | _, h₁⟩
      · rw [finished] at chosen
        simp only [Prod.mk.injEq] at chosen
        obtain ⟨rfl, rfl, rfl⟩ := chosen
        exact ⟨rfl, (begun.finish finished).1⟩
      · rw [finished] at chosen
        obtain ⟨completed, accepts⟩ := begun.finish finished
        obtain ⟨current_eq, outcome⟩ := openFile completed chosen
        cases result with
        | error => exact ⟨current_eq, outcome⟩
        | ok f' =>
          obtain ⟨entry, opened⟩ := outcome
          refine .inr ⟨entry, opened, ?_⟩
          intro o' here
          cases Option.some.inj here
          exact ⟨accepts.1 rfl, f, tracks, plan ▸ beyond⟩

theorem record {result : Except Error Nat} {writer : Writer} {disk : Disk}
    (describes : Describes s d₀ localOffset done (some o) (some f) r h)
    (written : f.writer.write h.disk p = (result, writer, disk)) :
    match result with
    | .ok size => Describes s d₀ localOffset done (some (o.add p))
        (some { f with writer, bytes := f.bytes + size, packets := f.packets + 1 })
        { r with packets := r.packets + 1 } { h with disk }
    | .error _ => Describes s d₀ localOffset done (some o) (some { f with writer }) r
        { h with disk } := by
  obtain ⟨splitter, offset, opened, packets, tracked, files⟩ := describes
  cases tracked with
  | some tracks => ?_
  have count : r.packets + 1 =
      ((done ++ (some (o.add p)).toList).flatMap (·.packets)).length := by
    simp only [Option.toList_some, List.flatMap_append, List.flatMap_singleton,
      List.length_append] at packets
    simp only [Option.toList_some, List.flatMap_append, List.flatMap_singleton,
      List.length_append, Opening.add, List.length_singleton, packets]
    omega
  cases accepts : o.entry.refuses with
  | false =>
    by_cases whole : Record.IsWhole p
    · obtain ⟨sink, bytes⟩ := tracks.accepts accepts
      rw [Writer.write_of_holds (tracks.holds accepts).1 whole, tracks.entry] at written
      simp only [Prod.mk.injEq] at written
      obtain ⟨rfl, rfl, rfl⟩ := written
      refine ⟨splitter, offset, by simpa using opened, count, .some ?_, (files.store _).add p⟩
      refine ⟨tracks.path, rfl, tracks.compression, tracks.deadline, ?_, ?_, ?_⟩
      · simp [Opening.add, tracks.packets]
      · intro _
        constructor
        · simp [Opening.add, sink]
        · simp only [Opening.add, Splitter.taken, Sink.gains_concat, bytes, sink]
      · intro refuses
        exact absurd (accepts.symm.trans refuses) (by simp)
    · rw [Writer.write_of_not_whole whole] at written
      simp only [Prod.mk.injEq] at written
      obtain ⟨rfl, rfl, rfl⟩ := written
      exact ⟨splitter, offset, opened, packets, .some tracks, files⟩
  | true =>
    have refuses : f.writer.entry.refuses = true := by rw [tracks.entry, accepts]
    obtain ⟨result', sink, packets', done', stuck⟩ :=
      Writer.write_of_stuck (tracks.stuck accepts) refuses h.disk p
    rw [done'] at written
    simp only [Prod.mk.injEq] at written
    obtain ⟨rfl, rfl, rfl⟩ := written
    have never (other : o.entry.refuses = false) : False := by simp [accepts] at other
    cases result' with
    | ok size =>
      refine ⟨splitter, offset, by simpa using opened, count, .some ?_, files.add p⟩
      exact ⟨tracks.path, tracks.entry, tracks.compression, tracks.deadline,
        by simp [Opening.add, tracks.packets], fun other => (never other).elim, fun _ => stuck⟩
    | error e =>
      refine ⟨splitter, offset, opened, packets, .some ?_, files⟩
      exact ⟨tracks.path, tracks.entry, tracks.compression, tracks.deadline, tracks.packets,
        fun other => (never other).elim, fun _ => stuck⟩

/-- Writing a packet. A packet that is acknowledged goes into the current file, unless it cuts, and
else into a new one; a packet that fails changes nothing about those before it. -/
theorem write {result : Except Error Unit}
    (describes : Describes s d₀ localOffset done current r.current r h)
    (written : r.write h p = (result, r', h')) :
    match result with
    | .ok () =>
      (∃ o, current = some o ∧
        Describes s d₀ localOffset done (some (o.add p)) r'.current r' h' ∧
        (o.Begun → o.entry.refuses = false → ¬ s.Cuts o.packets p)) ∨
      (∃ entry, Describes s d₀ localOffset (done ++ current.toList)
          (some { sec := p.header.sec, entry, packets := [p] }) r'.current r' h' ∧
        ∀ o ∈ current, o.entry.refuses = false ∧ (o.Begun → s.Cuts o.packets p))
    | .error _ => ∃ done' current',
        Describes s d₀ localOffset done' current' r'.current r' h' ∧
        (done' ++ current'.toList).flatMap (·.packets) =
          (done ++ current.toList).flatMap (·.packets) := by
  rcases chosen : r.fileFor h p.header with ⟨e | f, r₁, h₁⟩
  · obtain ⟨absent, failed⟩ := describes.fileFor chosen
    simp only [Rotator.write, chosen, Prod.mk.injEq] at written
    obtain ⟨rfl, rfl, rfl⟩ := written
    exact ⟨_, _, by rw [absent]; exact failed, by simp⟩
  · rcases recorded : f.writer.write h₁.disk p with ⟨e | size, writer, disk⟩
    · simp only [Rotator.write, chosen, recorded, Prod.mk.injEq] at written
      obtain ⟨rfl, rfl, rfl⟩ := written
      rcases describes.fileFor chosen with ⟨o, rfl, now, -⟩ | ⟨entry, now, -⟩
      · exact ⟨_, _, (now.record recorded).congr rfl rfl rfl rfl rfl, rfl⟩
      · exact ⟨_, _, (now.record recorded).congr rfl rfl rfl rfl rfl, by simp⟩
    · simp only [Rotator.write, chosen, recorded, Prod.mk.injEq] at written
      obtain ⟨rfl, rfl, rfl⟩ := written
      rcases describes.fileFor chosen with ⟨o, rfl, now, under⟩ | ⟨entry, now, beyond⟩
      · refine .inl ⟨o, rfl, (now.record recorded).congr rfl rfl rfl rfl rfl, ?_⟩
        intro begun accepts cuts
        rw [((now.opening_tracks rfl).isOver_iff begun accepts p).2 cuts] at under
        contradiction
      · refine .inr ⟨entry, (now.record recorded).congr rfl rfl rfl rfl rfl, ?_⟩
        intro o here
        obtain ⟨accepts, f', tracks, full⟩ := beyond o here
        constructor
        · exact accepts
        · intro begun
          exact (tracks.isOver_iff begun accepts p).1 full

/-- Completing the last file: it fails just where that file refuses bytes. -/
theorem close {result : Except Error Unit}
    (describes : Describes s d₀ localOffset done current r.current r h)
    (closed : r.close h = (result, r', h')) :
    Describes s d₀ localOffset (done ++ current.toList) none r'.current r' h' ∧
      (result = .ok () ↔ ∀ o ∈ current, o.entry.refuses = false) := by
  cases now : r.current with
  | none =>
    obtain rfl := describes.current_eq_none now
    rw [now] at describes
    simp only [Rotator.close, now, Prod.mk.injEq] at closed
    obtain ⟨rfl, rfl, rfl⟩ := closed
    exact ⟨by simpa [now] using describes, by simp⟩
  | some f =>
    obtain ⟨o, rfl, -⟩ := describes.exists_tracks now
    rw [now] at describes
    rcases finished : f.finish h with ⟨result', h₁⟩
    simp only [Rotator.close, now, finished, Prod.mk.injEq] at closed
    obtain ⟨rfl, rfl, rfl⟩ := closed
    obtain ⟨completed, accepts⟩ := describes.finish finished
    exact ⟨completed.congr rfl rfl rfl rfl rfl, by simpa using accepts⟩

theorem new (plan : Plan) (linkType : LinkType) (snaplen : UInt32) (h : Host) :
    Describes ⟨plan, linkType, snaplen⟩ h.disk h.localOffset [] none
      (Rotator.new plan linkType snaplen h).1.current (Rotator.new plan linkType snaplen h).1
      (Rotator.new plan linkType snaplen h).2 := by
  obtain ⟨disk, offset⟩ := Rotator.new_spec plan linkType snaplen h
  refine ⟨rfl, offset, rfl, rfl, .none, ?_⟩
  rw [disk]
  exact ⟨fun _ _ => rfl, by simp, by simp⟩

end Describes

end RollingCapture.Rotation
