import RollingCapture.Proofs.Rotation.Sealing

/-! When a rotator cannot fail: packets that are whole are written, as long as every file that is due
can be created. -/
namespace RollingCapture.Rotation

open CaptureFile

variable {s : Splitter} {d₀ d d' : Disk} {localOffset : Int} {done : List Opening} {o : Opening}
  {current : Option Opening} {f : OpenFile} {r : Rotator} {h : Host} {p : Packet}
  {seen : List Packet} {names : List String}

namespace Describes

theorem exists_write (describes : Describes s d₀ localOffset done current r.current r h)
    (whole : Record.IsWhole p) (accept : ∀ o ∈ current, o.entry.refuses = false)
    (opens : ∀ d, r.Clears h p.header d → ∃ e d', e.refuses = false ∧
      d.create (s.name localOffset p.header.sec) = .ok (e, d')) :
    ∃ r' h', r.write h p = (.ok (), r', h') := by
  obtain rfl := describes.splitter
  obtain rfl := describes.offset
  have holds (f : OpenFile) (now : r.current = some f) : ∃ content, f.writer.sink.Holds content := by
    obtain ⟨o, rfl, tracks⟩ := describes.exists_tracks now
    exact ⟨_, (tracks.holds (accept o rfl)).1⟩
  have created (d : Disk) (cleared : r.Clears h p.header d) :
      ∃ writer d', r.create d h.localOffset p.header.sec = (.ok writer, d') ∧
        writer.sink = .start r.plan.compression r.linkType r.snaplen := by
    obtain ⟨e, d', accepts, created⟩ := opens d cleared
    exact ⟨_, _, Writer.create_of_accepts created accepts r.linkType r.snaplen r.plan.compression, rfl⟩
  have wrote := r.writes h p
  rcases answer : r.write h p with ⟨result, r', h'⟩
  rw [answer] at wrote
  cases wrote with
  | accepted => exact ⟨_, _, rfl⟩
  | unready failed =>
    cases failed with
    | unclosed now chosen failed =>
      obtain ⟨content, held⟩ := holds _ now
      obtain ⟨bytes, closed, -⟩ := Writer.close_of_holds held h.disk
      rw [closed] at failed
      simp at failed
    | unopened cleared chosen failed =>
      obtain ⟨writer, d', made, -⟩ := created _ cleared
      rw [made] at failed
      simp at failed
  | refused ready failed =>
    cases ready with
    | keeps now =>
      obtain ⟨content, held⟩ := holds _ now
      rw [Writer.write_of_holds held whole] at failed
      simp at failed
    | opens cleared chosen made =>
      obtain ⟨writer, d', made', started⟩ := created _ cleared
      obtain rfl := Except.ok.inj (Prod.mk.inj (made.symm.trans made')).1
      rw [Writer.write_of_holds (started ▸ Sink.start_holds) whole] at failed
      simp at failed

theorem exists_close (describes : Describes s d₀ localOffset done current r.current r h)
    (accept : ∀ o ∈ current, o.entry.refuses = false) :
    ∃ r' h', r.close h = (.ok (), r', h') := by
  rcases closed : r.close h with ⟨result, r', h'⟩
  obtain rfl := (describes.close closed).2.2 accept
  exact ⟨r', h', rfl⟩

end Describes

/-- A packet for which a file is due begins a segment. -/
theorem Records.begins_of_clears (records : Records s d₀ localOffset seen names done current r h)
    (accept : ∀ o ∈ current, o.entry.refuses = false) (cleared : r.Clears h p.header d) :
    ∃ front, s.segments (seen ++ [p]) = front ++ [[p]] := by
  obtain ⟨describes, accounts, -⟩ := records
  cases cleared with
  | idle now =>
    obtain rfl := describes.current_eq_none now
    obtain rfl := accounts.idle rfl
    obtain rfl : seen = [] := accounts.packets.symm
    exact ⟨[], rfl⟩
  | @closed f _ _ now full =>
    obtain ⟨t, rfl, tracks⟩ := describes.exists_tracks now
    have plan : r.plan = s.plan := congrArg Splitter.plan describes.splitter
    rw [plan] at full
    have cuts := (tracks.isOver_iff (accounts.begun t (by simp)) (accept t rfl) p).1 full
    have before := (accounts.cut accept).symm
    rw [Option.toList_some, List.map_append, List.map_singleton] at before
    rw [Splitter.segments_concat before, if_pos cuts]
    exact ⟨done.map (·.packets) ++ [t.packets], by simp⟩

/-- Completing the file before the next stores into that file, or nowhere. -/
theorem exists_store_of_clears (cleared : r.Clears h p.header d) :
    ∃ e bytes, d = h.disk.store e bytes := by
  cases cleared with
  | idle => exact ⟨.directory, #[], rfl⟩
  | closed now full closed => exact ⟨_, Writer.exists_store_of_close closed⟩

/-- What the first packet of a file does to the disk: the file before is completed, and the new one is
created and written. -/
theorem exists_stores_of_begins {disk : Disk} {first writer : Writer} {size : Nat}
    (cleared : r.Clears h p.header d)
    (created : r.create d h.localOffset p.header.sec = (.ok first, disk))
    (wrote : first.write disk p = (.ok size, writer, d')) :
    ∃ e bytes d₁ content,
      (h.disk.store e bytes).create (r.splitter.name h.localOffset p.header.sec) =
          .ok (first.entry, d₁) ∧
        d' = d₁.store first.entry content := by
  obtain ⟨e, bytes, rfl⟩ := exists_store_of_clears cleared
  obtain ⟨sink, d₁, content, made, -, -, rfl⟩ := Writer.exists_of_create created
  obtain ⟨-, -, -, content', stored⟩ := Writer.keeps_of_write wrote
  rw [Disk.store_store] at stored
  exact ⟨e, bytes, d₁, content', made, stored⟩

/-- Where nothing is removed, everything is still found under its name. -/
theorem extends_of_goes {done' : List Opening} {current' : Option Opening} {r' : Rotator} {h' : Host}
    (goes : r.Goes h p r' h' done current done' current') : h.disk.Extends h'.disk := by
  cases goes with
  | adds now wrote =>
    obtain ⟨-, -, -, bytes, stored⟩ := Writer.keeps_of_write wrote
    rw [stored]
    exact Disk.extends_store _ _ bytes
  | begins accept clears created wrote =>
    obtain ⟨e, bytes, d₁, content, made, stored⟩ := exists_stores_of_begins clears created wrote
    rw [stored]
    have first := (Disk.extends_store h.disk e bytes).trans (Disk.extends_create made)
    exact first.trans (Disk.extends_store d₁ _ content)

/-- The directory at `loc`, empty on the disk `d₀`, holds just the files of these openings, by the last
parts of their names. All of them are new. -/
structure Houses (d₀ : Disk) (loc : Location) (leaf : Int → String) (openings : List Opening)
    (d : Disk) : Prop where
  fills : d₀.Fills loc (openings.map (leaf ·.sec)) d
  entries : ∀ o ∈ openings, d.find? (loc ++ [leaf o.sec]) = some o.entry

/-- A path leads to a name in the directory at `loc`, and the name is not too long. -/
def Lands (d₀ : Disk) (loc : Location) (path name : String) : Prop :=
  d₀.locate path = .ok ⟨loc ++ [name], false⟩ ∧ name.utf8ByteSize ≤ Disk.maxNameBytes

variable {loc : Location} {leaf : Int → String} {openings done' : List Opening}
  {current' : Option Opening} {r' : Rotator} {h' : Host}

namespace Houses

theorem exists_file (houses : Houses d₀ loc leaf openings d) (member : o ∈ openings) :
    ∃ id, o.entry = .file id ∧ d₀.contents.size ≤ id :=
  (houses.fills.holds _ _ (houses.entries o member)).2

theorem accept (houses : Houses d₀ loc leaf (done ++ current.toList) d) :
    ∀ o ∈ current, o.entry.refuses = false := by
  intro o now
  obtain ⟨id, file, -⟩ := houses.exists_file (List.mem_append_right _ (Option.mem_toList.2 now))
  rw [file]
  rfl

theorem store (houses : Houses d₀ loc leaf openings d) (e : Entry) (bytes : Array UInt8) :
    Houses d₀ loc leaf openings (d.store e bytes) :=
  ⟨houses.fills.store e bytes, fun o member => (Disk.find?_store _).trans (houses.entries o member)⟩

theorem add (houses : Houses d₀ loc leaf (done ++ [o]) d) (p : Packet) :
    Houses d₀ loc leaf (done ++ [o.add p]) d := by
  obtain ⟨fills, entries⟩ := houses
  constructor
  · simpa [Opening.add] using fills
  · intro t member
    rcases List.mem_append.1 member with old | new
    · exact entries t (List.mem_append_left _ old)
    · cases List.mem_singleton.1 new
      exact entries o (by simp)

theorem create {path : String} (houses : Houses d₀ loc leaf openings d)
    (lands : Lands d₀ loc path (leaf o.sec)) (created : d.create path = .ok (o.entry, d')) :
    Houses d₀ loc leaf (openings ++ [o]) d' := by
  obtain ⟨fills, here⟩ := houses.fills.create (houses.fills.larger.locate lands.1) created
  constructor
  · simpa using fills
  · intro t member
    rcases List.mem_append.1 member with old | new
    · exact (Disk.extends_create created).entry _ _ (houses.entries t old)
    · rw [List.mem_singleton.1 new]
      exact here

theorem exists_create {path name : String} (houses : Houses d₀ loc leaf openings d)
    (lands : Lands d₀ loc path name) : ∃ e d', e.refuses = false ∧ d.create path = .ok (e, d') := by
  obtain ⟨id, d', created⟩ :=
    houses.fills.exists_create (houses.fills.larger.locate lands.1) lands.2
  exact ⟨.file id, d', rfl, created⟩

theorem goes (houses : Houses d₀ loc leaf (done ++ current.toList) h.disk)
    (goes : r.Goes h p r' h' done current done' current')
    (lands : ∀ d, r.Clears h p.header d →
      Lands d₀ loc (r.splitter.name h.localOffset p.header.sec) (leaf p.header.sec)) :
    Houses d₀ loc leaf (done' ++ current'.toList) h'.disk := by
  cases goes with
  | adds now wrote =>
    obtain ⟨-, -, -, bytes, stored⟩ := Writer.keeps_of_write wrote
    rw [stored]
    exact (houses.add p).store _ bytes
  | begins accept clears created wrote =>
    obtain ⟨e, bytes, d₁, content, made, stored⟩ := exists_stores_of_begins clears created wrote
    rw [stored]
    exact ((houses.store e bytes).create (lands _ clears) made).store _ content

theorem lists {directory : String} (houses : Houses d₀ loc leaf openings d)
    (opened : d₀.openToRead directory = .ok .directory) (leads : d₀.Leads directory loc) :
    d.Lists directory (openings.map (leaf ·.sec)) := by
  obtain ⟨place, located, rfl⟩ := leads
  refine ⟨houses.fills.larger.openToRead opened, place.location,
    ⟨place, houses.fills.larger.locate located, rfl⟩, ?_⟩
  intro name
  constructor
  · intro found
    obtain ⟨e, here⟩ := Option.isSome_iff_exists.1 found
    exact (houses.fills.holds name e here).1
  · intro member
    obtain ⟨o, inside, rfl⟩ := List.mem_map.1 member
    rw [houses.entries o inside]
    rfl

end Houses

namespace Records

theorem content_eq (records : Records s d₀ localOffset seen names done current r h)
    (houses : Houses d₀ loc leaf (done ++ current.toList) h.disk) {id : Nat}
    (old : id < d₀.contents.size) : h.disk.content (.file id) = d₀.content (.file id) := by
  apply records.describes.files.content_of_unopened
  intro o member entry_eq
  obtain ⟨id', file, new⟩ := houses.exists_file member
  obtain rfl := Entry.file.inj (file.symm.trans entry_eq)
  omega

/-- A packet is written if the name of the file that it may begin is good. -/
theorem exists_write (records : Records s d₀ localOffset seen names done current r h)
    (houses : Houses d₀ loc leaf (done ++ current.toList) h.disk) (keepsAll : s.plan.maxFiles = 0)
    (whole : Record.IsWhole p)
    (lands : ∀ front, s.segments (seen ++ [p]) = front ++ [[p]] →
      Lands d₀ loc (s.name localOffset p.header.sec) (leaf p.header.sec)) :
    ∃ r' h' names' done' current', r.write h p = (.ok (), r', h') ∧
      Records s d₀ localOffset (seen ++ [p]) names' done' current' r' h' ∧
      Houses d₀ loc leaf (done' ++ current'.toList) h'.disk ∧ h.disk.Extends h'.disk := by
  have lands' (d : Disk) (clears : r.Clears h p.header d) :
      Lands d₀ loc (s.name localOffset p.header.sec) (leaf p.header.sec) := by
    obtain ⟨front, begins⟩ := records.begins_of_clears houses.accept clears
    exact lands front begins
  obtain ⟨r', h', written⟩ := records.describes.exists_write whole houses.accept (by
    intro d clears
    obtain ⟨e, bytes, rfl⟩ := exists_store_of_clears clears
    exact (houses.store e bytes).exists_create (lands' _ clears))
  obtain ⟨done', current', records', goes⟩ := records.write keepsAll written
  rw [← records.describes.splitter, ← records.describes.offset] at lands'
  exact ⟨r', h', _, done', current', written, records', houses.goes goes lands', extends_of_goes goes⟩

theorem exists_close (records : Records s d₀ localOffset seen names done current r h)
    (houses : Houses d₀ loc leaf (done ++ current.toList) h.disk) (keepsAll : s.plan.maxFiles = 0) :
    ∃ r' h', r.close h = (.ok (), r', h') ∧
      Leaves s localOffset seen (done ++ current.toList) r' h'.disk ∧
      Houses d₀ loc leaf (done ++ current.toList) h'.disk := by
  obtain ⟨r', h', closed⟩ := records.describes.exists_close houses.accept
  refine ⟨r', h', closed, (records.close keepsAll closed).1, ?_⟩
  have closes := r.closes h
  rw [closed] at closes
  generalize answer : Except.ok () = result at closes
  cases closes with
  | idle => exact houses
  | closed now closed =>
    obtain ⟨bytes, stored⟩ := Writer.exists_store_of_close closed
    rw [stored]
    exact houses.store _ bytes

end Records

end RollingCapture.Rotation
