import Mathlib.Data.List.Basic
import RollingCapture.Proofs.Disk.Directory
import RollingCapture.Proofs.Rotation.Footprint
import RollingCapture.Proofs.Rotation.Refinement

/-! The exact bytes that a run leaves in its files, as a function of the packets that each was opened
for, and the exact count of bytes. Nothing is removed here. -/
namespace RollingCapture.Rotation

open CaptureFile

/-- How a packet is acknowledged where no files are removed. -/
inductive Rotator.Acknowledges (r : Rotator) (h : Host) (p : Packet) (r' : Rotator) (h' : Host) : Prop
  | keeps {f : OpenFile} {size : Nat} {writer : Writer} : r.current = some f →
      f.writer.write h.disk p = (.ok size, writer, h'.disk) → r'.bytes = r.bytes + size →
      r'.filesOpened = r.filesOpened → Acknowledges r h p r' h'
  | opens {d disk : Disk} {first writer : Writer} {size : Nat} : Clears r h p.header d →
      r.create d h.localOffset p.header.sec = (.ok first, disk) →
      first.write disk p = (.ok size, writer, h'.disk) → r'.bytes = r.bytes + size →
      r'.filesOpened = r.filesOpened + 1 → r'.current.map (·.writer.entry) = some first.entry →
      Acknowledges r h p r' h'

/-- How a packet that is acknowledged goes into the openings, and what it does to the disk. -/
inductive Rotator.Goes (r : Rotator) (h : Host) (p : Packet) (r' : Rotator) (h' : Host) :
    List Opening → Option Opening → List Opening → Option Opening → Prop
  | adds {done : List Opening} {o : Opening} {f : OpenFile} {size : Nat} {writer : Writer} :
      r.current = some f → f.writer.write h.disk p = (.ok size, writer, h'.disk) →
      r'.bytes = r.bytes + size → Goes r h p r' h' done (some o) done (some (o.add p))
  | begins {done : List Opening} {current : Option Opening} {d disk : Disk} {first writer : Writer}
      {size : Nat} : (∀ o ∈ current, o.entry.refuses = false) → Clears r h p.header d →
      r.create d h.localOffset p.header.sec = (.ok first, disk) →
      first.write disk p = (.ok size, writer, h'.disk) → r'.bytes = r.bytes + size →
      Goes r h p r' h' done current (done ++ current.toList)
        (some { sec := p.header.sec, entry := first.entry, packets := [p] })

namespace Splitter

/-- The bytes of a file with `segment` in it, once it is complete. -/
def sealed (s : Splitter) (segment : List Packet) : Array UInt8 :=
  ((segment.foldl Sink.record (.start s.plan.compression s.linkType s.snaplen)).finish "").2.written

/-- The last part of a file's name, if the pattern ends with `name`. -/
def leaf (s : Splitter) (name : String) (localOffset sec : Int) : String :=
  FilePattern.expand name (s.plan.calendar.offset localOffset) sec

end Splitter

/-- The rotator `r` has counted what the files of the openings took in. Those that are complete have
just the bytes that their packets come to, the last opening of each file counting. -/
structure Seals (s : Splitter) (done : List Opening) (current : Option Opening) (r : Rotator)
    (d : Disk) : Prop where
  bytes : (∀ o ∈ current, o.entry.refuses = false) →
    r.bytes = ((done ++ current.toList).map (s.taken ·.packets)).sum
  sealed : ∀ id, (∀ o ∈ current, o.entry ≠ .file id) → ∀ o, Opening.last? done id = some o →
    d.content (.file id) = s.sealed o.packets

variable {s : Splitter} {d₀ d d' : Disk} {localOffset : Int} {done done' : List Opening} {o : Opening}
  {current current' : Option Opening} {f : OpenFile} {r r' : Rotator} {h h' : Host} {p : Packet}
  {packets : List Packet}

namespace Rotator

theorem acknowledges (keepsAll : r.plan.maxFiles = 0) (written : r.write h p = (.ok (), r', h')) :
    r.Acknowledges h p r' h' := by
  have wrote := r.writes h p
  rw [written] at wrote
  cases wrote with
  | accepted ready wrote =>
    cases ready with
    | keeps now chosen => exact .keeps now wrote rfl rfl
    | @opens first d disk h₁ cleared chosen created without =>
      have empty : r.dropped first.path = [] := by
        rw [dropped, surplus, if_pos keepsAll, List.take_zero]
      rw [empty] at without
      rw [show _ = disk from without] at wrote
      obtain ⟨-, entry, -⟩ := Writer.keeps_of_write wrote
      exact .opens cleared created wrote rfl rfl (congrArg some entry)

end Rotator

theorem Opening.Continues.goes (continues : Opening.Continues p done current done' current')
    (describes : Describes s d₀ localOffset done current r.current r h)
    (describes' : Describes s d₀ localOffset done' current' r'.current r' h')
    (acknowledges : r.Acknowledges h p r' h') : r.Goes h p r' h' done current done' current' := by
  have opened := describes.opened
  have opened' := describes'.opened
  cases continues with
  | adds =>
    cases acknowledges with
    | keeps now wrote bytes => exact .adds now wrote bytes
    | opens _ _ _ _ more =>
      simp only [Option.toList_some, List.length_append, List.length_singleton] at opened opened'
      omega
  | begins accept =>
    rw [Option.toList_some, List.length_append, List.length_singleton] at opened'
    cases acknowledges with
    | keeps _ _ _ filesOpened_eq => omega
    | opens cleared created wrote bytes more now =>
      -- The new opening is that of the file that is current now.
      obtain ⟨f, here, entry'⟩ := Option.map_eq_some_iff.1 now
      have tracks := describes'.tracks
      rw [here] at tracks
      cases tracks with
      | some tracks =>
        obtain rfl := tracks.entry.symm.trans entry'
        exact .begins accept cleared created wrote bytes

theorem Opening.last?_of_nodup {openings : List Opening} {id : Nat}
    (distinct : (openings.map (·.entry)).Nodup) (member : o ∈ openings) (here : o.entry = .file id) :
    last? openings id = some o := by
  obtain ⟨before, after, rfl⟩ := List.append_of_mem member
  rw [List.map_append, List.map_cons, List.nodup_append, List.nodup_cons] at distinct
  apply last?_append_cons here
  intro later member' entry_eq
  apply distinct.2.1.1
  rw [here, ← entry_eq]
  exact List.mem_map_of_mem member'

/-- The name in the messages makes no difference to the bytes. -/
theorem written_finish (sink : Sink) (path path' : String) :
    (sink.finish path).2.written = (sink.finish path').2.written := by
  cases sink with
  | plain out => rfl
  | lz4 encoder =>
    rcases finished : encoder.finish with ⟨_ | _, out⟩
    all_goals simp only [Sink.finish, finished]

/-- A complete file holds the file header and its packets. -/
theorem Splitter.stores_sealed (s : Splitter) (segment : List Packet) :
    s.plan.compression.Stores (s.sealed segment).toList (s.content segment) := by
  have held : (segment.foldl Sink.record (.start s.plan.compression s.linkType s.snaplen)).Holds
      (s.content segment) := Sink.foldl_record_holds Sink.start_holds segment
  obtain ⟨out, finished, -, stores⟩ := Sink.finish_holds held ""
  rw [Sink.kind_foldl_record, Sink.kind_start] at stores
  rw [sealed, finished]
  exact stores

namespace Opening.Tracks

theorem close_eq (tracks : o.Tracks s localOffset f) (accepts : o.entry.refuses = false) (d : Disk) :
    (f.writer.close d).2 = d.store o.entry (s.sealed o.packets) := by
  have bytes := written_finish f.writer.sink f.writer.path ""
  rw [(tracks.accepts accepts).1] at bytes
  simp only [Writer.close, tracks.entry, (tracks.accepts accepts).1, bytes]
  rfl

theorem write_eq {size : Nat} {writer : Writer} (tracks : o.Tracks s localOffset f)
    (accepts : o.entry.refuses = false) (whole : Record.IsWhole p)
    (wrote : f.writer.write d p = (.ok size, writer, d')) :
    s.taken (o.add p).packets = s.taken o.packets + size := by
  rw [Writer.write_of_holds (tracks.holds accepts).1 whole] at wrote
  obtain rfl := Except.ok.inj (Prod.mk.inj wrote).1
  rw [Splitter.taken, Opening.add, Sink.gains_concat, (tracks.accepts accepts).1]
  rfl

end Opening.Tracks

theorem content_write_of_ne {id : Nat} {w writer : Writer} {result : Except Error Nat}
    (wrote : w.write d p = (result, writer, d')) (other : w.entry ≠ .file id) :
    d'.content (.file id) = d.content (.file id) := by
  obtain ⟨-, -, -, bytes, rfl⟩ := Writer.keeps_of_write wrote
  exact Disk.content_store_of_ne other

namespace Seals

theorem sealed_of_close {result : Except Error Nat} {id : Nat} {t : Opening}
    (seals : Seals s done (some o) r h.disk)
    (describes : Describes s d₀ localOffset done (some o) (some f) r h)
    (accepts : o.entry.refuses = false) (closed : f.writer.close h.disk = (result, d))
    (last : Opening.last? (done ++ [o]) id = some t) : d.content (.file id) = s.sealed t.packets := by
  have tracks := describes.opening_tracks rfl
  have stored := tracks.close_eq accepts h.disk
  rw [closed] at stored
  obtain rfl : d = _ := stored
  rw [Opening.last?_concat] at last
  by_cases here : o.entry = .file id
  · rw [if_pos here] at last
    obtain rfl := Option.some.inj last
    rw [here]
    exact Disk.content_store_self (describes.files.kept o (by simp) id here)
  · rw [if_neg here] at last
    rw [Disk.content_store_of_ne here]
    refine seals.sealed id ?_ t last
    intro o' mem
    cases Option.some.inj mem
    exact here

/-- What was completed before the next file is opened. -/
theorem sealed_of_clears (seals : Seals s done current r h.disk)
    (describes : Describes s d₀ localOffset done current r.current r h)
    (accept : ∀ o ∈ current, o.entry.refuses = false) (cleared : r.Clears h p.header d) {id : Nat}
    (last : Opening.last? (done ++ current.toList) id = some o) :
    d.content (.file id) = s.sealed o.packets := by
  cases cleared with
  | idle now =>
    obtain rfl := describes.current_eq_none now
    rw [Option.toList_none, List.append_nil] at last
    exact seals.sealed id (by simp) o last
  | closed now full closed =>
    obtain ⟨t, rfl, -⟩ := describes.exists_tracks now
    rw [now] at describes
    exact seals.sealed_of_close describes (accept t rfl) closed last

theorem adds (seals : Seals s done (some o) r h.disk)
    (describes : Describes s d₀ localOffset done (some o) r.current r h) (whole : Record.IsWhole p)
    {size : Nat} {writer : Writer} (now : r.current = some f)
    (wrote : f.writer.write h.disk p = (.ok size, writer, d')) (bytes : r'.bytes = r.bytes + size) :
    Seals s done (some (o.add p)) r' d' := by
  have tracks := describes.opening_tracks now
  constructor
  · intro accept
    have accepts : o.entry.refuses = false := accept (o.add p) rfl
    have before := seals.bytes fun _ mem => Option.some.inj mem ▸ accepts
    rw [bytes, before]
    simp only [Option.toList_some, List.map_append, List.map_singleton, List.sum_append,
      List.sum_singleton, tracks.write_eq accepts whole wrote]
    omega
  · intro id other t last
    have elsewhere : o.entry ≠ .file id := other (o.add p) rfl
    rw [content_write_of_ne wrote (by rw [tracks.entry]; exact elsewhere)]
    refine seals.sealed id ?_ t last
    intro t' mem
    cases Option.some.inj mem
    exact elsewhere

theorem begins (seals : Seals s done current r h.disk)
    (describes : Describes s d₀ localOffset done current r.current r h) (whole : Record.IsWhole p)
    (accept : ∀ o ∈ current, o.entry.refuses = false) {disk : Disk} {first writer : Writer}
    {size : Nat} (cleared : r.Clears h p.header d)
    (created : r.create d h.localOffset p.header.sec = (.ok first, disk))
    (wrote : first.write disk p = (.ok size, writer, d')) (bytes : r'.bytes = r.bytes + size) :
    Seals s (done ++ current.toList)
      (some { sec := p.header.sec, entry := first.entry, packets := [p] }) r' d' := by
  obtain ⟨sink, d₁, content, made, first_eq, -, stored⟩ := Writer.exists_of_create created
  constructor
  · intro accept'
    have accepts : first.entry.refuses = false := accept' _ rfl
    have begun := Writer.create_of_accepts made accepts r.linkType r.snaplen r.plan.compression
    have first' : first.sink = .start s.plan.compression s.linkType s.snaplen := by
      rw [← describes.splitter]
      exact congrArg Writer.sink (Except.ok.inj (Prod.mk.inj (created.symm.trans begun)).1)
    rw [Writer.write_of_holds (first' ▸ Sink.start_holds) whole, first'] at wrote
    obtain rfl := Except.ok.inj (Prod.mk.inj wrote).1
    have one : s.taken [p] = (Sink.start s.plan.compression s.linkType s.snaplen).gain p := by
      rw [Splitter.taken, Sink.gains, Sink.gains, Nat.add_zero]
    rw [bytes, seals.bytes accept]
    simp [one, Nat.add_assoc]
  · intro id other o last
    have elsewhere : first.entry ≠ .file id := other _ rfl
    rw [content_write_of_ne wrote elsewhere, stored, Disk.content_store_of_ne elsewhere,
      Disk.content_create_of_ne made elsewhere]
    exact seals.sealed_of_clears describes accept cleared last

theorem write (seals : Seals s done current r h.disk)
    (describes : Describes s d₀ localOffset done current r.current r h) (whole : Record.IsWhole p)
    (goes : r.Goes h p r' h' done current done' current') : Seals s done' current' r' h'.disk := by
  cases goes with
  | adds now wrote bytes => exact seals.adds describes whole now wrote bytes
  | begins accept cleared created wrote bytes =>
    exact seals.begins describes whole accept cleared created wrote bytes

theorem close (seals : Seals s done current r h.disk)
    (describes : Describes s d₀ localOffset done current r.current r h)
    (closed : r.close h = (.ok (), r', h')) :
    Seals s (done ++ current.toList) none r' h'.disk := by
  have accept := (describes.close closed).2.1 rfl
  have bytes := seals.bytes accept
  have closes := r.closes h
  rw [closed] at closes
  generalize answer : Except.ok () = result at closes
  cases closes with
  | idle now =>
    obtain rfl := describes.current_eq_none now
    exact ⟨fun _ => by simpa using bytes, by simpa using seals.sealed⟩
  | closed now closed =>
    obtain ⟨t, rfl, -⟩ := describes.exists_tracks now
    rw [now] at describes
    refine ⟨fun _ => by simpa using bytes, ?_⟩
    intro id _ o last
    exact seals.sealed_of_close describes (accept t rfl) closed last

end Seals

/-- The rotator has written the packets `seen` into the openings, under these names. -/
structure Records (s : Splitter) (d₀ : Disk) (localOffset : Int) (seen : List Packet)
    (names : List String) (done : List Opening) (current : Option Opening) (r : Rotator) (h : Host) :
    Prop where
  describes : Describes s d₀ localOffset done current r.current r h
  accounts : Accounts s localOffset seen names done current
  seals : Seals s done current r h.disk

/-- What a run over `packets` leaves that has succeeded. -/
structure Leaves (s : Splitter) (localOffset : Int) (packets : List Packet) (openings : List Opening)
    (r : Rotator) (d : Disk) : Prop where
  begun : ∀ o ∈ openings, o.Begun
  segments : openings.map (·.packets) = s.segments packets
  filesOpened : r.filesOpened = (s.segments packets).length
  counted : r.packets = packets.length
  bytes : r.bytes = ((s.segments packets).map s.taken).sum
  named : ∀ o ∈ openings, d.openToRead (s.name localOffset o.sec) = .ok o.entry
  sealed : ∀ id o, Opening.last? openings id = some o → d.content (.file id) = s.sealed o.packets

namespace Records

variable {seen : List Packet} {names : List String}

theorem new (plan : Plan) (linkType : LinkType) (snaplen : UInt32) (h : Host) :
    Records ⟨plan, linkType, snaplen⟩ h.disk h.localOffset [] [] [] none
      (Rotator.new plan linkType snaplen h).1 (Rotator.new plan linkType snaplen h).2 :=
  ⟨.new plan linkType snaplen h, .start, ⟨fun _ => rfl, by simp [Opening.last?]⟩⟩

theorem congr (records : Records s d₀ localOffset seen names done current r h)
    (disk : h'.disk = h.disk) (offset : h'.localOffset = h.localOffset) :
    Records s d₀ localOffset seen names done current r h' :=
  ⟨records.describes.congr rfl rfl rfl disk offset, records.accounts, disk ▸ records.seals⟩

theorem write (records : Records s d₀ localOffset seen names done current r h)
    (keepsAll : s.plan.maxFiles = 0) (written : r.write h p = (.ok (), r', h')) :
    ∃ done' current', Records s d₀ localOffset (seen ++ [p]) (names ++ r.openedSince r') done' current'
        r' h' ∧ r.Goes h p r' h' done current done' current' := by
  obtain ⟨describes, accounts, seals⟩ := records
  obtain ⟨done', current', now, accounts', continues⟩ := describes.acknowledge accounts written
  have plan : r.plan = s.plan := congrArg Splitter.plan describes.splitter
  have goes := continues.goes describes now (Rotator.acknowledges (plan ▸ keepsAll) written)
  exact ⟨done', current', ⟨now, accounts', seals.write describes (Rotator.isWhole_of_write written) goes⟩,
    goes⟩

theorem writeAll (records : Records s d₀ localOffset seen names done current r h)
    (keepsAll : s.plan.maxFiles = 0) (ran : r.writeAll h packets = (.ok (), r', h')) :
    ∃ done' current', Records s d₀ localOffset (seen ++ packets) (names ++ r.opened h packets) done'
      current' r' h' := by
  refine Rotator.writeAll_induction (motive := fun seen names r h => ∃ done current,
    Records s d₀ localOffset seen names done current r h) ?_ ⟨done, current, records⟩ ran
  rintro seen names r h p r' h' ⟨done, current, records⟩ written
  obtain ⟨done', current', now, -⟩ := records.write keepsAll written
  exact ⟨done', current', now⟩

theorem close (records : Records s d₀ localOffset seen names done current r h)
    (keepsAll : s.plan.maxFiles = 0) (closed : r.close h = (.ok (), r', h')) :
    Leaves s localOffset seen (done ++ current.toList) r' h'.disk ∧
      (done ++ current.toList).map (s.name localOffset ·.sec) = names := by
  obtain ⟨describes, accounts, seals⟩ := records
  obtain ⟨completed, accept⟩ := describes.close closed
  have sealed := seals.close describes closed
  have segments := accounts.cut (accept.1 rfl)
  refine ⟨⟨accounts.begun, segments, ?_, ?_, ?_, ?_, ?_⟩, accounts.names⟩
  · rw [completed.opened, ← segments]
    simp
  · rw [completed.packets, ← accounts.packets]
    simp
  · rw [sealed.bytes (by simp), ← segments, List.map_map, Option.toList_none, List.append_nil]
    rfl
  · intro o member
    exact completed.files.named keepsAll o (by simpa using member)
  · intro id o last
    exact sealed.sealed id (by simp) o last

end Records

namespace Leaves

variable {openings : List Opening} {front name : String}

theorem ne_nil (leaves : Leaves s localOffset packets openings r d) (positive : 0 < r.packets) :
    openings ≠ [] := by
  rintro rfl
  have flatten_eq := Splitter.flatten_segments (s := s) packets
  rw [← leaves.segments] at flatten_eq
  rw [leaves.counted, ← flatten_eq] at positive
  contradiction

section Regular

variable (leaves : Leaves s localOffset packets openings r d)
  (pattern : s.plan.pattern = front ++ name) (isFront : Path.IsFront front) (plain : '/' ∉ name.toList)
  (regular : ∀ o ∈ openings, ∃ id, o.entry = .file id)

include leaves pattern isFront plain regular

/-- A regular file has the name that the pattern ends with. -/
theorem leaf_of_mem (member : o ∈ openings) :
    Path.IsName (s.leaf name localOffset o.sec) ∧ '\x00' ∉ (s.leaf name localOffset o.sec).toList ∧
      (s.leaf name localOffset o.sec).utf8ByteSize ≤ Disk.maxNameBytes ∧
      ∃ loc, d.find? (loc ++ [s.leaf name localOffset o.sec]) = some o.entry := by
  obtain ⟨id, here⟩ := regular o member
  have opened := leaves.named o member
  rw [here, Splitter.name, pattern, FilePattern.expand_append isFront] at opened
  rw [here]
  exact Disk.exists_of_openToRead_append (FilePattern.isFront_expand isFront _ _)
    (FilePattern.slash_not_mem_expand plain _ _) opened

theorem fileName?_of_mem (member : o ∈ openings) :
    Path.fileName? (s.name localOffset o.sec) = some (s.leaf name localOffset o.sec) := by
  rw [Splitter.name, pattern, FilePattern.expand_append isFront]
  exact Path.fileName?_append (FilePattern.isFront_expand isFront _ _)
    (leaves.leaf_of_mem pattern isFront plain regular member).1

theorem filterMap_fileName? :
    (openings.map (s.name localOffset ·.sec)).filterMap Path.fileName? =
      openings.map (s.leaf name localOffset ·.sec) := by
  rw [List.filterMap_map]
  apply List.filterMap_eq_map_iff_forall_eq_some.2
  intro o member
  exact leaves.fileName?_of_mem pattern isFront plain regular member

/-- Files with different names are different files, and each has the bytes of its segment. -/
theorem content_eq (distinct : (openings.map (s.leaf name localOffset ·.sec)).Nodup)
    (member : o ∈ openings) {id : Nat} (here : o.entry = .file id) :
    d.content (.file id) = s.sealed o.packets := by
  have entries : (openings.map (·.entry)).Nodup := by
    rw [List.Nodup, List.pairwise_map] at distinct ⊢
    refine distinct.imp_of_mem ?_
    intro a b memberA memberB different entry_eq
    obtain ⟨id, entry⟩ := regular a memberA
    obtain ⟨-, -, -, loc, found⟩ := leaves.leaf_of_mem pattern isFront plain regular memberA
    obtain ⟨-, -, -, loc', found'⟩ := leaves.leaf_of_mem pattern isFront plain regular memberB
    rw [entry] at found entry_eq
    rw [← entry_eq] at found'
    have last := congrArg List.getLast? (Disk.location_eq found found')
    rw [List.getLast?_concat, List.getLast?_concat] at last
    exact different (Option.some.inj last)
  exact leaves.sealed id o (Opening.last?_of_nodup entries member here)

theorem holds (distinct : (openings.map (s.leaf name localOffset ·.sec)).Nodup) (member : o ∈ openings) :
    d.Holds (s.name localOffset o.sec) (s.sealed o.packets) := by
  obtain ⟨id, here⟩ := regular o member
  exact ⟨id, here ▸ leaves.named o member,
    leaves.content_eq pattern isFront plain regular distinct member here⟩

end Regular

end Leaves

end RollingCapture.Rotation
