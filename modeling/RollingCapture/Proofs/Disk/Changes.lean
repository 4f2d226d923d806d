import RollingCapture.Proofs.Disk

/-! What an operation on the disk may change, by the places and the files it concerns. No operation
here makes or removes a directory, so that a path leads to the same place before and after. -/
namespace RollingCapture.Disk

variable {d d' d'' : Disk} {e : Entry} {id : Nat} {path : String} {bytes : Array UInt8}
  {loc : Location} {gone come gone' come' : Location → Prop} {written written' : Entry → Prop}

/-- Where a path leads, whether or not there is anything. -/
def Leads (d : Disk) (path : String) (loc : Location) : Prop :=
  ∃ place, d.locate path = .ok place ∧ place.location = loc

theorem Leads.unique {loc' : Location} (first : d.Leads path loc) (second : d.Leads path loc') :
    loc = loc' := by
  obtain ⟨place, located, rfl⟩ := first
  obtain ⟨place', located', rfl⟩ := second
  cases located.symm.trans located'
  rfl

/-- Where a path leads can be evaluated on a disk that is known. -/
theorem leads_of_map_locate (evaluated : (d.locate path).toOption.map (·.location) = some loc) :
    d.Leads path loc := by
  obtain ⟨place, located, here⟩ := Option.map_eq_some_iff.1 evaluated
  exact ⟨place, eq_ok_of_toOption located, here⟩

/-- The disk `d` has become `d'`: what was at the places `gone` may be missing, there may be new files
at the places `come`, and of the files at other places only those `written` may have other bytes. -/
structure Changes (gone come : Location → Prop) (written : Entry → Prop) (d d' : Disk) : Prop where
  home : d'.home = d.home
  directory : ∀ loc, d'.find? loc = some .directory ↔ d.find? loc = some .directory
  kept : ∀ loc e, ¬ gone loc → d.find? loc = some e → d'.find? loc = some e
  old : ∀ loc e, ¬ come loc → d'.find? loc = some e → d.find? loc = some e
  content : ∀ loc id, ¬ gone loc → ¬ come loc → d.find? loc = some (.file id) → ¬ written (.file id) →
    d'.content (.file id) = d.content (.file id)

namespace Changes

theorem refl (d : Disk) : Changes gone come written d d :=
  ⟨rfl, fun _ => Iff.rfl, fun _ _ _ found => found, fun _ _ _ found => found, fun _ _ _ _ _ _ => rfl⟩

theorem trans (first : Changes gone come written d d') (second : Changes gone come written d' d'') :
    Changes gone come written d d'' := by
  constructor
  · exact second.home.trans first.home
  · intro loc
    exact (second.directory loc).trans (first.directory loc)
  · intro loc e stays found
    exact second.kept loc e stays (first.kept loc e stays found)
  · intro loc e stays found
    exact first.old loc e stays (second.old loc e stays found)
  · intro loc id stays old found unwritten
    have next := first.kept loc _ stays found
    rw [second.content loc id stays old next unwritten, first.content loc id stays old found unwritten]

theorem mono (changes : Changes gone come written d d') (more : ∀ loc, gone loc → gone' loc)
    (further : ∀ loc, come loc → come' loc) (others : ∀ e, written e → written' e) :
    Changes gone' come' written' d d' := by
  constructor
  · exact changes.home
  · exact changes.directory
  · intro loc e stays found
    exact changes.kept loc e (fun lost => stays (more loc lost)) found
  · intro loc e stays found
    exact changes.old loc e (fun made => stays (further loc made)) found
  · intro loc id stays old found unwritten
    exact changes.content loc id (fun lost => stays (more loc lost)) (fun made => old (further loc made))
      found (fun other => unwritten (others _ other))

theorem roads (changes : Changes gone come written d d') : d.Roads d' :=
  ⟨changes.home, fun loc => (changes.directory loc).2⟩

theorem roads_back (changes : Changes gone come written d d') : d'.Roads d :=
  ⟨changes.home.symm, fun loc => (changes.directory loc).1⟩

theorem locate_iff (changes : Changes gone come written d d') (place : Place) :
    d'.locate path = .ok place ↔ d.locate path = .ok place :=
  ⟨changes.roads_back.locate, changes.roads.locate⟩

theorem leads_iff (changes : Changes gone come written d d') :
    d'.Leads path loc ↔ d.Leads path loc := by
  unfold Leads
  simp only [changes.locate_iff]

end Changes

theorem openToRead_of_find? {place : Place} (located : d.locate path = .ok place)
    (located' : d'.locate path = .ok place) (find_eq : d'.find? place.location = d.find? place.location) :
    d'.openToRead path = d.openToRead path := by
  have seen : d'.lookUp place = d.lookUp place := by simp only [lookUp, find_eq]
  simp only [openToRead, located, located', bind, Except.bind, seen]

namespace Changes

/-- A path to a place from which nothing is removed still opens what it did. -/
theorem openToRead (changes : Changes gone come written d d')
    (stays : ∀ loc, d.Leads path loc → ¬ gone loc) (opened : d.openToRead path = .ok e) :
    d'.openToRead path = .ok e := by
  obtain ⟨place, located, found⟩ := find?_of_openToRead opened
  have still := changes.kept _ e (stays _ ⟨place, located, rfl⟩) found
  rw [openToRead_of_find? located ((changes.locate_iff place).2 located) (still.trans found.symm)]
  exact opened

/-- A path to a place where nothing new came opened what it opens now. -/
theorem openToRead_before (changes : Changes gone come written d d')
    (old : ∀ loc, d.Leads path loc → ¬ come loc) (opened : d'.openToRead path = .ok e) :
    d.openToRead path = .ok e := by
  obtain ⟨place, located', found'⟩ := find?_of_openToRead opened
  have located := (changes.locate_iff place).1 located'
  have found := changes.old _ e (old _ ⟨place, located, rfl⟩) found'
  rw [← openToRead_of_find? located located' (found'.trans found.symm)]
  exact opened

theorem openToRead_iff (changes : Changes gone come written d d')
    (stays : ∀ loc, d.Leads path loc → ¬ gone loc) (old : ∀ loc, d.Leads path loc → ¬ come loc) :
    d'.openToRead path = .ok e ↔ d.openToRead path = .ok e :=
  ⟨changes.openToRead_before old, changes.openToRead stays⟩

/-- A path to a place that is left alone reads as before, unless it leads to a file that is written. -/
theorem read_eq (changes : Changes gone come written d d')
    (stays : ∀ loc, d.Leads path loc → ¬ gone loc) (old : ∀ loc, d.Leads path loc → ¬ come loc)
    (unwritten : ∀ id, d.openToRead path = .ok (.file id) → ¬ written (.file id)) :
    (d'.read path).toOption = (d.read path).toOption := by
  have opens (e : Entry) := changes.openToRead_iff (e := e) stays old
  rcases opened : d.openToRead path with f | e
  · rcases opened' : d'.openToRead path with f' | e'
    · simp only [Disk.read, opened, opened', bind, Except.bind, Except.toOption]
    · rw [(opens e').1 opened'] at opened
      contradiction
  · have opened' := (opens e).2 opened
    have content : d'.content e = d.content e := by
      cases e with
      | directory => rfl
      | special kind => cases kind <;> rfl
      | file id =>
        obtain ⟨place, located, found⟩ := find?_of_openToRead opened
        exact changes.content _ id (stays _ ⟨place, located, rfl⟩) (old _ ⟨place, located, rfl⟩) found
          (unwritten id opened)
    simp only [Disk.read, opened, opened', bind, Except.bind]
    cases e with
    | directory => rfl
    | special => simp only [content]
    | file => simp only [content]

end Changes

/-! What the operations change. -/

theorem changes_store (d : Disk) (e : Entry) (bytes : Array UInt8)
    (concerns : ∀ loc id, e = .file id → d.find? loc = some (.file id) →
      come loc ∨ written (.file id)) :
    Changes gone come written d (d.store e bytes) := by
  constructor
  · exact home_store
  · intro loc
    rw [find?_store]
  · intro loc e' _ found
    rw [find?_store, found]
  · intro loc e' _ found
    rw [← found, find?_store]
  · intro loc id _ old found unwritten
    apply content_store_of_ne
    rintro rfl
    rcases concerns loc id rfl found with made | wrote
    · exact old made
    · exact unwritten wrote

theorem location_eq {loc' : Location} (first : d.find? loc = some (.file id))
    (second : d.find? loc' = some (.file id)) : loc = loc' :=
  d.unshared _ _ id (mem_entries_of_find? first (by simp)) (mem_entries_of_find? second (by simp))

theorem find?_ne_size (found : d.find? loc = some (.file id)) : id ≠ d.contents.size :=
  Nat.ne_of_lt (d.kept _ _ (mem_entries_of_find? found (by simp)))

theorem changes_create (created : d.create path = .ok (e, d')) :
    Changes gone (d.Leads path) written d d' := by
  obtain ⟨place, located, -, ⟨seen, -, rfl⟩ | ⟨seen, rfl, rfl⟩⟩ := create_cases created
  · cases e with
    | directory => exact .refl d
    | special => exact .refl d
    | file id =>
      apply changes_store
      intro loc id' file_eq found
      cases file_eq
      rw [location_eq found (find?_of_lookUp seen)]
      exact .inl ⟨place, located, rfl⟩
  · have missing := find?_of_lookUp seen
    have elsewhere {loc : Location} (old : ¬ d.Leads path loc) : loc ≠ place.location := by
      rintro rfl
      exact old ⟨place, located, rfl⟩
    have nonempty : place.location ≠ [] := by
      intro root
      simp [find?, root] at missing
    constructor
    · rfl
    · intro loc
      by_cases here : loc = place.location
      · rw [here, find?_addFile_self nonempty, missing]
        simp [addFile]
      · rw [find?_addFile_of_ne here]
    · intro loc e _ found
      rw [find?_addFile_of_ne, found]
      rintro rfl
      rw [missing] at found
      contradiction
    · intro loc e old found
      rw [← found, find?_addFile_of_ne (elsewhere old)]
    · intro loc id _ _ found _
      apply content_create_of_ne created
      intro file_eq
      exact find?_ne_size found (Entry.file.inj file_eq).symm

theorem find?_removeEntry_of_ne {loc' : Location} (other : loc' ≠ loc) :
    (d.removeEntry loc).find? loc' = d.find? loc' := by
  unfold find?
  split
  · rfl
  · exact lookup_filter_ne other d.entries

theorem find?_removeEntry_self (nonempty : loc ≠ []) : (d.removeEntry loc).find? loc = none := by
  simp only [find?, nonempty, if_false, removeEntry, List.lookup_eq_none_iff]
  intro entry member
  simpa using Ne.symm (of_decide_eq_true (List.mem_filter.1 member).2)

/-- Removing a file takes away what the path leads to. -/
theorem remove_cases (removed : d.remove path = .ok d') :
    ∃ place id, d.locate path = .ok place ∧ d.find? place.location = some (.file id) ∧
      d' = d.removeEntry place.location := by
  obtain ⟨place, located, rest⟩ := bind_eq_ok removed
  obtain ⟨held, seen, answer⟩ := bind_eq_ok rest
  split at answer
  · contradiction
  · contradiction
  · contradiction
  · rename_i id
    simp only at answer
    split at answer
    · contradiction
    · exact ⟨place, id, located, find?_of_lookUp seen, (Except.ok.inj answer).symm⟩

theorem changes_remove (removed : d.remove path = .ok d') :
    Changes (d.Leads path) come written d d' := by
  obtain ⟨place, id, located, found, rfl⟩ := remove_cases removed
  have root : place.location ≠ [] := by
    intro root
    simp [find?, root] at found
  have elsewhere {loc : Location} (stays : ¬ d.Leads path loc) : loc ≠ place.location := by
    rintro rfl
    exact stays ⟨place, located, rfl⟩
  constructor
  · rfl
  · intro loc
    by_cases here : loc = place.location
    · rw [here, find?_removeEntry_self root, found]
      simp
    · rw [find?_removeEntry_of_ne here]
  · intro loc e stays found
    rw [find?_removeEntry_of_ne (elsewhere stays), found]
  · intro loc e _ still
    by_cases here : loc = place.location
    · rw [here, find?_removeEntry_self root] at still
      contradiction
    · rwa [find?_removeEntry_of_ne here] at still
  · intro loc id' _ _ _ _
    rfl

/-- Nothing is left where a removed file was. -/
theorem openToRead_ne_of_remove (removed : d.remove path = .ok d') : d'.openToRead path ≠ .ok e := by
  intro opened
  obtain ⟨place, id, located, found, rfl⟩ := remove_cases removed
  obtain ⟨place', located', still⟩ := find?_of_openToRead opened
  have changes : Changes (d.Leads path) (fun _ => False) (fun _ => False) d
      (d.removeEntry place.location) := changes_remove removed
  have locate_eq := (changes.locate_iff place').1 located'
  rw [located] at locate_eq
  cases Except.ok.inj locate_eq
  rw [find?_removeEntry_self] at still
  · contradiction
  · intro root
    simp [find?, root] at found

end RollingCapture.Disk
