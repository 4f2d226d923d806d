import RollingCapture.Disk
import RollingCapture.Proofs.Path

/-! Files keep what others do not write. Storing into one file leaves the rest alone, names stay found
as long as nothing is removed, and a file that was created is found under its name. -/
namespace RollingCapture.Disk

variable {d d' : Disk} {e e' : Entry} {id : Nat} {path : String} {bytes bytes' : Array UInt8}

@[simp] theorem entries_store : (d.store e bytes).entries = d.entries := by
  cases e <;> rfl

@[simp] theorem home_store : (d.store e bytes).home = d.home := by
  cases e <;> rfl

@[simp] theorem size_contents_store : (d.store e bytes).contents.size = d.contents.size := by
  cases e with
  | file id => exact Array.size_setIfInBounds
  | directory => rfl
  | special => rfl

theorem content_store_self (exists' : id < d.contents.size) :
    (d.store (.file id) bytes).content (.file id) = bytes := by
  simp [store, content, Array.getD, exists']

theorem content_store_of_ne (other : e ≠ .file id) :
    (d.store e bytes).content (.file id) = d.content (.file id) := by
  cases e with
  | file id' =>
    have different : id' ≠ id := by
      rintro rfl
      exact other rfl
    simp [store, content, Array.getElem?_setIfInBounds_ne different]
  | directory => rfl
  | special => rfl

theorem store_store : (d.store e bytes).store e bytes' = d.store e bytes' := by
  cases e with
  | file id => simp [store, Array.setIfInBounds_setIfInBounds]
  | directory => rfl
  | special => rfl

theorem store_content (d : Disk) (e : Entry) : d.store e (d.content e) = d := by
  cases e with
  | file id =>
    have unchanged : d.contents.setIfInBounds id (d.contents.getD id #[]) = d.contents := by
      apply Array.ext_getElem?
      intro i
      rw [Array.getElem?_setIfInBounds]
      split
      · rename_i here
        subst here
        split
        · rename_i inside
          simp [inside]
        · rename_i outside
          simp [outside]
      · rfl
    simp only [store, content, unchanged]
  | directory => rfl
  | special => rfl

theorem store_of_refuses (refuses : e.refuses) : d.store e bytes = d := by
  cases e with
  | file => contradiction
  | directory => rfl
  | special => rfl

theorem find?_store (loc : Location) : (d.store e bytes).find? loc = d.find? loc := by
  simp only [find?, entries_store]

/-- Paths begin at the same place in both, and what `d` has at a location is there in `d'`. -/
structure Extends (d d' : Disk) : Prop where
  home : d'.home = d.home
  entry : ∀ loc e, d.find? loc = some e → d'.find? loc = some e
  size : d.contents.size ≤ d'.contents.size

theorem Extends.trans {d₁ d₂ d₃ : Disk} (first : d₁.Extends d₂) (second : d₂.Extends d₃) :
    d₁.Extends d₃ :=
  ⟨second.home.trans first.home, fun loc e found => second.entry loc e (first.entry loc e found),
    Nat.le_trans first.size second.size⟩

theorem extends_store (d : Disk) (e : Entry) (bytes : Array UInt8) : d.Extends (d.store e bytes) :=
  ⟨home_store, fun loc _ found => (find?_store loc).trans found, Nat.le_of_eq size_contents_store.symm⟩

theorem find?_addFile_self {loc : Location} (nonempty : loc ≠ []) :
    (d.addFile loc).2.find? loc = .some (d.addFile loc).1 := by
  simp [addFile, find?, nonempty]

theorem lookup_filter_ne {loc at' : Location} (other : at' ≠ loc)
    (entries : List (Location × Entry)) :
    (entries.filter (·.1 ≠ loc)).lookup at' = entries.lookup at' := by
  induction entries with
  | nil => rfl
  | cons entry entries ih =>
    rcases entry with ⟨here, e⟩
    by_cases here_eq : here = loc
    · have differs : (at' == here) = false := by simpa [here_eq] using other
      rw [List.filter_cons_of_neg (by simp [here_eq]), List.lookup_cons, differs, ih]
    · rw [List.filter_cons_of_pos (by simp [here_eq]), List.lookup_cons, List.lookup_cons, ih]

theorem find?_addFile_of_ne {loc at' : Location} (other : at' ≠ loc) :
    (d.addFile loc).2.find? at' = d.find? at' := by
  unfold find?
  split
  · rfl
  · have differs : (at' == loc) = false := by simpa using other
    rw [addFile, List.lookup_cons, differs]
    exact lookup_filter_ne other d.entries

theorem extends_addFile {loc : Location} (missing : d.find? loc = none) :
    d.Extends (d.addFile loc).2 := by
  constructor
  · rfl
  · intro at' e found
    have other : at' ≠ loc := by
      rintro rfl
      rw [missing] at found
      contradiction
    rw [find?_addFile_of_ne other, found]
  · simp [addFile]

theorem bind_eq_ok {ε α β : Type} {x : Except ε α} {f : α → Except ε β} {b : β}
    (h : x >>= f = .ok b) : ∃ a, x = .ok a ∧ f a = .ok b := by
  cases x with
  | error => contradiction
  | ok a => exact ⟨a, rfl, h⟩

def start (d : Disk) (path : String) : Location := if path.startsWith "/" then [] else d.home

/-- The place that a path leads to by these steps: a name in a directory, or a directory. -/
inductive Arrives (d : Disk) (path : String) : List Path.Part → Place → Prop
  | named {above : List Path.Part} {name : String} {loc : Location} :
      d.walk (d.start path) above = .ok loc →
      Arrives d path (above ++ [.named name]) ⟨loc ++ [name], path.endsWith "/"⟩
  | directory {steps : List Path.Part} {loc : Location} :
      (∀ above name, steps ≠ above ++ [.named name]) → d.walk (d.start path) steps = .ok loc →
      Arrives d path steps ⟨loc, true⟩

theorem locate_eq_ok_iff {place : Place} :
    d.locate path = .ok place ↔
      '\x00' ∉ path.toList ∧ path ≠ "" ∧ path.utf8ByteSize < pathLimit ∧
        d.Arrives path (Path.steps path) place := by
  by_cases nul : '\x00' ∈ path.toList
  · simp [locate, nul]
  by_cases empty : path = ""
  · simp [locate, empty]
  by_cases long : pathLimit ≤ path.utf8ByteSize
  · simp [locate, nul, empty, long, Nat.not_lt.2 long]
  have clean : ¬ path.toList.contains '\x00' = true := by simpa using nul
  rw [locate, if_neg clean, if_neg empty, if_neg long, and_iff_right nul, and_iff_right empty,
    and_iff_right (Nat.lt_of_not_le long)]
  have begins : (if path.startsWith "/" then [] else d.home) = d.start path := rfl
  simp only [begins]
  constructor
  · intro located
    split at located
    · rename_i name last
      obtain ⟨above, split⟩ := List.getLast?_eq_some_iff.1 last
      rw [split, List.dropLast_concat] at located
      split at located
      · contradiction
      · rename_i loc walked
        obtain rfl := Except.ok.inj located
        rw [split]
        exact .named walked
    · rename_i other
      split at located
      · contradiction
      · rename_i loc walked
        obtain rfl := Except.ok.inj located
        refine .directory ?_ walked
        intro above name split
        exact other name (by rw [split, List.getLast?_concat])
  · intro arrives
    generalize Path.steps path = steps at arrives ⊢
    cases arrives with
    | named walked => simp only [List.getLast?_concat, List.dropLast_concat, walked]
    | directory other walked =>
      split
      · rename_i name last
        obtain ⟨above, split⟩ := List.getLast?_eq_some_iff.1 last
        exact absurd split (other above name)
      · rw [walked]

theorem lookUp_eq_ok_iff {place : Place} {held : Option Entry} :
    d.lookUp place = .ok held ↔
      (∀ name ∈ place.location.getLast?, name.utf8ByteSize ≤ maxNameBytes) ∧
        d.find? place.location = held := by
  unfold lookUp
  cases place.location.getLast? with
  | none => simp
  | some name =>
    by_cases long : maxNameBytes < name.utf8ByteSize
    · simp [long, Nat.not_le.2 long]
    · simp [long, Nat.le_of_not_lt long]

/-- What opens: a place that is found, and that is a directory if it can only mean one. -/
theorem openToRead_eq_ok_iff :
    d.openToRead path = .ok e ↔ ∃ place, d.locate path = .ok place ∧ d.lookUp place = .ok (some e) ∧
      (place.isDirectoryOnly = true → e = .directory) := by
  constructor
  · intro opened
    obtain ⟨place, located, rest⟩ := bind_eq_ok opened
    obtain ⟨held, seen, answer⟩ := bind_eq_ok rest
    refine ⟨place, located, ?_⟩
    split at answer
    · contradiction
    · cases answer
      exact ⟨seen, fun _ => rfl⟩
    · split at answer
      · contradiction
      · rename_i open'
        cases answer
        exact ⟨seen, fun only => absurd only open'⟩
  · rintro ⟨place, located, seen, only⟩
    simp only [openToRead, located, seen, bind, Except.bind]
    cases e with
    | directory => rfl
    | file => exact if_neg fun closed => nomatch only closed
    | special => exact if_neg fun closed => nomatch only closed

/-- Paths begin at the same place in both, and the directories of `d` are directories of `d'`. -/
structure Roads (d d' : Disk) : Prop where
  home : d'.home = d.home
  directory : ∀ loc, d.find? loc = some .directory → d'.find? loc = some .directory

theorem Extends.roads (extends' : d.Extends d') : d.Roads d' :=
  ⟨extends'.home, fun loc found => extends'.entry loc .directory found⟩

/-! What can be resolved can be resolved where the directories are still there, to the same end. -/

theorem Roads.walk (roads : d.Roads d') {loc loc' : Location} {steps : List Path.Part}
    (found : d.walk loc steps = .ok loc') : d'.walk loc steps = .ok loc' := by
  fun_induction Disk.walk d loc steps with
  | case1 => simpa [Disk.walk] using found
  | case2 loc rest ih => exact ih found
  | case3 loc rest ih => exact ih found
  | case4 => simp at found
  | case5 => simp at found
  | case6 loc name rest short directory ih =>
    rw [Disk.walk, if_neg short, roads.directory _ directory]
    exact ih found
  | case7 => simp at found

theorem Roads.start (roads : d.Roads d') (path : String) : d'.start path = d.start path := by
  rw [Disk.start, Disk.start, roads.home]

theorem Roads.arrives (roads : d.Roads d') {steps : List Path.Part} {place : Place}
    (arrives : d.Arrives path steps place) : d'.Arrives path steps place := by
  cases arrives with
  | named walked => exact .named (roads.start path ▸ roads.walk walked)
  | directory other walked => exact .directory other (roads.start path ▸ roads.walk walked)

theorem Roads.locate (roads : d.Roads d') {place : Place}
    (found : d.locate path = .ok place) : d'.locate path = .ok place := by
  obtain ⟨clean, nonempty, short, arrives⟩ := locate_eq_ok_iff.1 found
  exact locate_eq_ok_iff.2 ⟨clean, nonempty, short, roads.arrives arrives⟩

theorem Extends.locate (extends' : d.Extends d') {place : Place}
    (found : d.locate path = .ok place) : d'.locate path = .ok place :=
  extends'.roads.locate found

theorem Extends.lookUp (extends' : d.Extends d') {place : Place} (found : d.lookUp place = .ok (some e)) :
    d'.lookUp place = .ok (some e) := by
  obtain ⟨short, here⟩ := lookUp_eq_ok_iff.1 found
  exact lookUp_eq_ok_iff.2 ⟨short, extends'.entry _ _ here⟩

theorem Extends.openToRead (extends' : d.Extends d') (found : d.openToRead path = .ok e) :
    d'.openToRead path = .ok e := by
  obtain ⟨place, located, seen, only⟩ := openToRead_eq_ok_iff.1 found
  exact openToRead_eq_ok_iff.2 ⟨place, extends'.locate located, extends'.lookUp seen, only⟩

/-- What creating a file comes to: an entry that was there is emptied, or a new file is added. -/
theorem create_cases (created : d.create path = .ok (e, d')) :
    ∃ place, d.locate path = .ok place ∧ place.isDirectoryOnly = false ∧
      (d.lookUp place = .ok (some e) ∧ e ≠ .directory ∧ d' = d.store e #[] ∨
        d.lookUp place = .ok none ∧ e = (d.addFile place.location).1 ∧
          d' = (d.addFile place.location).2) := by
  obtain ⟨place, located, rest⟩ := bind_eq_ok created
  simp only at rest
  split at rest
  · contradiction
  · rename_i mayBeFile
    obtain ⟨held, seen, answer⟩ := bind_eq_ok rest
    refine ⟨place, located, by simpa using mayBeFile, ?_⟩
    split at answer
    · contradiction
    · rename_i held' notDirectory
      obtain ⟨rfl, rfl⟩ := Prod.mk.inj (Except.ok.inj answer)
      exact .inl ⟨seen, fun held_eq => notDirectory (by rw [held_eq]), rfl⟩
    · obtain ⟨rfl, rfl⟩ := Prod.mk.inj (Except.ok.inj answer)
      exact .inr ⟨seen, rfl, rfl⟩

theorem find?_of_lookUp {place : Place} {held : Option Entry} (seen : d.lookUp place = .ok held) :
    d.find? place.location = held :=
  (lookUp_eq_ok_iff.1 seen).2

theorem mem_entries_of_find? {loc : Location} (found : d.find? loc = some e)
    (file : e ≠ .directory) : (loc, e) ∈ d.entries := by
  unfold find? at found
  split at found
  · exact absurd (Option.some.inj found).symm file
  · obtain ⟨before, after, split, -⟩ := List.lookup_eq_some_iff.1 found
    rw [split]
    exact List.mem_append_right _ List.mem_cons_self

theorem extends_create (created : d.create path = .ok (e, d')) : d.Extends d' := by
  obtain ⟨place, -, -, ⟨-, -, rfl⟩ | ⟨seen, -, rfl⟩⟩ := create_cases created
  · exact extends_store d e #[]
  · exact extends_addFile (find?_of_lookUp seen)

theorem ne_directory_of_create (created : d.create path = .ok (e, d')) : e ≠ .directory := by
  obtain ⟨place, -, -, ⟨-, file, -⟩ | ⟨-, rfl, -⟩⟩ := create_cases created
  · exact file
  · exact Entry.noConfusion

theorem openToRead_create (created : d.create path = .ok (e, d')) : d'.openToRead path = .ok e := by
  have larger := extends_create created
  have file := ne_directory_of_create created
  obtain ⟨place, located, mayBeFile, cases'⟩ := create_cases created
  refine openToRead_eq_ok_iff.2 ⟨place, larger.locate located, ?_, by simp [mayBeFile]⟩
  rcases cases' with ⟨seen, -, -⟩ | ⟨seen, rfl, rfl⟩
  · exact larger.lookUp seen
  · obtain ⟨short, missing⟩ := lookUp_eq_ok_iff.1 seen
    have nonempty : place.location ≠ [] := by
      intro root
      simp [find?, root] at missing
    exact lookUp_eq_ok_iff.2 ⟨short, find?_addFile_self nonempty⟩

theorem content_create_of_ne (created : d.create path = .ok (e, d')) (other : e ≠ .file id) :
    d'.content (.file id) = d.content (.file id) := by
  obtain ⟨place, -, -, ⟨-, -, rfl⟩ | ⟨-, rfl, rfl⟩⟩ := create_cases created
  · exact content_store_of_ne other
  · have different : id ≠ d.contents.size := by
      rintro rfl
      exact other rfl
    simp [addFile, content, Array.getElem?_push, different]

theorem lt_size_of_create (created : d.create path = .ok (.file id, d')) :
    id < d'.contents.size := by
  obtain ⟨place, -, -, ⟨seen, file, rfl⟩ | ⟨-, file_eq, rfl⟩⟩ := create_cases created
  · rw [size_contents_store]
    exact d.kept _ _ (mem_entries_of_find? (find?_of_lookUp seen) file)
  · obtain rfl := Entry.file.inj file_eq
    simp [addFile]

theorem find?_of_openToRead (opened : d.openToRead path = .ok e) :
    ∃ place, d.locate path = .ok place ∧ d.find? place.location = some e := by
  obtain ⟨place, located, seen, -⟩ := openToRead_eq_ok_iff.1 opened
  exact ⟨place, located, find?_of_lookUp seen⟩

theorem content_congr (contents_eq : d'.contents = d.contents) (e : Entry) :
    d'.content e = d.content e := by
  cases e <;> simp only [content, contents_eq]

theorem contents_remove (removed : d.remove path = .ok d') : d'.contents = d.contents := by
  obtain ⟨place, -, rest⟩ := bind_eq_ok removed
  obtain ⟨held, -, answer⟩ := bind_eq_ok rest
  split at answer
  · contradiction
  · contradiction
  · contradiction
  · simp only at answer
    split at answer
    · contradiction
    · obtain rfl := Except.ok.inj answer
      rfl

/-- A way that does not lead up ends below its start, at the names on it. -/
theorem walk_eq_append {loc loc' : Location} {steps : List Path.Part} (level : .parent ∉ steps)
    (walked : d.walk loc steps = .ok loc') : loc' = loc ++ steps.filterMap Path.Part.name? := by
  fun_induction Disk.walk d loc steps with
  | case1 => simpa using (Except.ok.inj walked).symm
  | case2 loc rest ih => exact ih (fun up => level (List.mem_cons_of_mem _ up)) walked
  | case3 => exact absurd List.mem_cons_self level
  | case4 => simp at walked
  | case5 => simp at walked
  | case6 loc name rest short directory ih =>
    rw [ih (fun up => level (List.mem_cons_of_mem _ up)) walked, List.append_assoc]
    rfl
  | case7 => simp at walked

/-- A path that does not lead up stands for the names on it. -/
theorem locate_eq_append {place : Place} (level : .parent ∉ Path.steps path)
    (located : d.locate path = .ok place) :
    place.location = (if path.startsWith "/" then [] else d.home) ++
      (Path.steps path).filterMap Path.Part.name? := by
  obtain ⟨-, -, -, arrives⟩ := locate_eq_ok_iff.1 located
  generalize Path.steps path = steps at arrives level ⊢
  cases arrives with
  | named walked =>
    have above := walk_eq_append (fun up => level (List.mem_append_left _ up)) walked
    rw [above, List.filterMap_append, List.append_assoc]
    rfl
  | directory other walked => exact walk_eq_append level walked

/-- Paths that do not lead up and open the same file stand for the same names. -/
theorem names_eq_of_openToRead {path' : String} (level : .parent ∉ Path.steps path)
    (level' : .parent ∉ Path.steps path') (start : path.startsWith "/" = path'.startsWith "/")
    (opened : d.openToRead path = .ok (.file id)) (opened' : d.openToRead path' = .ok (.file id)) :
    (Path.steps path).filterMap Path.Part.name? = (Path.steps path').filterMap Path.Part.name? := by
  obtain ⟨place, located, here⟩ := find?_of_openToRead opened
  obtain ⟨place', located', here'⟩ := find?_of_openToRead opened'
  have location_eq := d.unshared _ _ id (mem_entries_of_find? here (by simp))
    (mem_entries_of_find? here' (by simp))
  rw [locate_eq_append level located, locate_eq_append level' located', start] at location_eq
  exact List.append_cancel_left location_eq

/-! Disks that are made for a run. -/

theorem contents_makeDirectories (d : Disk) (loc : Location) :
    (d.makeDirectories loc).contents = d.contents := by
  unfold makeDirectories
  generalize List.range loc.length = depths
  induction depths generalizing d with
  | nil => rfl
  | cons n depths ih =>
    rw [List.foldl_cons, ih]
    dsimp only
    split <;> rfl

theorem content_addFileWith_self (new : d.contents.size = id) (path : String) (bytes : Array UInt8) :
    (d.addFileWith path bytes).content (.file id) = bytes := by
  subst new
  have size := congrArg Array.size (contents_makeDirectories d (d.named path).dropLast)
  simp only [addFileWith, addFile, size]
  exact content_store_self (by simp [size])

theorem content_addFileWith_of_lt (old : id < d.contents.size) (path : String) (bytes : Array UInt8) :
    (d.addFileWith path bytes).content (.file id) = d.content (.file id) := by
  have contents_eq := contents_makeDirectories d (d.named path).dropLast
  have other : Entry.file d.contents.size ≠ .file id := by
    intro clash
    obtain rfl := Entry.file.inj clash
    exact Nat.lt_irrefl _ old
  simp only [addFileWith, addFile, contents_eq]
  rw [content_store_of_ne other]
  simp [content, Array.getElem?_push, old, Nat.ne_of_lt old]
/-! Results can be evaluated without comparing errors or disks. -/

theorem eq_ok_of_toOption {ε α : Type} {x : Except ε α} {a : α} (h : x.toOption = some a) :
    x = .ok a := by
  cases x with
  | error => contradiction
  | ok => exact congrArg Except.ok (Option.some.inj h)

theorem exists_of_create (made : (d.create path).toOption.map (·.1) = some e) :
    ∃ d', d.create path = .ok (e, d') := by
  obtain ⟨⟨e', d'⟩, created, rfl⟩ := Option.map_eq_some_iff.1 made
  exact ⟨d', eq_ok_of_toOption created⟩

end RollingCapture.Disk
