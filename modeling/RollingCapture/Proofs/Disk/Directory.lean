import RollingCapture.Proofs.Disk.Changes

/-! Files by their names in one directory. -/
namespace RollingCapture.Disk

variable {d d' : Disk} {loc : Location} {front name path : String} {id : Nat} {e : Entry}

/-- There is a regular file at `path`, and these are its bytes. -/
def Holds (d : Disk) (path : String) (bytes : Array UInt8) : Prop :=
  ∃ id, d.openToRead path = .ok (.file id) ∧ d.content (.file id) = bytes

/-- The directory at `path` holds just what has these names. -/
def Lists (d : Disk) (path : String) (names : List String) : Prop :=
  d.openToRead path = .ok .directory ∧
    ∃ loc, d.Leads path loc ∧ ∀ name, (d.find? (loc ++ [name])).isSome = true ↔ name ∈ names

theorem Holds.unique {bytes bytes' : Array UInt8} (first : d.Holds path bytes)
    (second : d.Holds path bytes') : bytes = bytes' := by
  obtain ⟨id, opened, rfl⟩ := first
  obtain ⟨id', opened', rfl⟩ := second
  cases opened.symm.trans opened'
  rfl

theorem walk_append (d : Disk) (loc : Location) (steps rest : List Path.Part) :
    d.walk loc (steps ++ rest) = d.walk loc steps >>= fun loc => d.walk loc rest := by
  fun_induction Disk.walk d loc steps with
  | case1 => rfl
  | case2 loc steps ih => exact ih
  | case3 loc steps ih => exact ih
  | case4 loc name steps long =>
    rw [List.cons_append, Disk.walk, if_pos long]
    rfl
  | case5 loc name steps short missing =>
    simp only [List.cons_append, Disk.walk, if_neg short, missing]
    rfl
  | case6 loc name steps short directory ih =>
    simp only [List.cons_append, Disk.walk, if_neg short, directory]
    exact ih
  | case7 loc name steps short e other found =>
    simp only [List.cons_append, Disk.walk, if_neg short, found]
    rfl

theorem arrives_named_iff {above : List Path.Part} {place : Place} :
    d.Arrives path (above ++ [.named name]) place ↔
      ∃ loc, d.walk (d.start path) above = .ok loc ∧ place = ⟨loc ++ [name], path.endsWith "/"⟩ := by
  constructor
  · intro arrives
    generalize split : above ++ [.named name] = steps at arrives
    cases arrives with
    | named walked =>
      obtain ⟨rfl, last⟩ := List.append_inj' split rfl
      obtain rfl := Path.Part.named.inj (List.singleton_inj.1 last)
      exact ⟨_, walked, rfl⟩
    | directory other => exact absurd split.symm (other above name)
  · rintro ⟨loc, walked, rfl⟩
    exact .named walked

/-- A path that ends with a name leads to that name in the directory in front of it. -/
theorem locate_append_iff (isFront : Path.IsFront front) (isName : Path.IsName name) {place : Place} :
    d.locate (front ++ name) = .ok place ↔
      '\x00' ∉ (front ++ name).toList ∧ (front ++ name).utf8ByteSize < pathLimit ∧
        ∃ loc, d.walk (d.start (front ++ name)) (Path.steps front) = .ok loc ∧
          place = ⟨loc ++ [name], false⟩ := by
  have steps : Path.steps (front ++ name) = Path.steps front ++ [.named name] := by
    rw [Path.steps_append isFront isName.1, isName.2, Option.toList_some]
  rw [locate_eq_ok_iff, steps, arrives_named_iff, Path.endsWith_append isName,
    and_iff_right (Path.append_ne_empty isName front)]

/-- Nothing can be created under a path that is too long. -/
theorem exists_create_eq_error (long : pathLimit ≤ path.utf8ByteSize) :
    ∃ e, d.create path = .error e := by
  rcases located : d.locate path with e | place
  · exact ⟨e, by simp only [create, located, bind, Except.bind]⟩
  · obtain ⟨-, -, short, -⟩ := locate_eq_ok_iff.1 located
    omega

/-- A path that does not end with a name can only mean a directory. -/
theorem isDirectoryOnly_of_locate (isFront : Path.IsFront front) (plain : '/' ∉ name.toList)
    (other : Path.step? name ≠ some (.named name)) {place : Place}
    (located : d.locate (front ++ name) = .ok place) : place.isDirectoryOnly = true := by
  obtain ⟨-, nonempty, -, arrives⟩ := locate_eq_ok_iff.1 located
  rw [Path.steps_append isFront plain] at arrives
  generalize split : Path.steps front ++ (Path.step? name).toList = steps at arrives
  cases arrives with
  | directory => rfl
  | named walked =>
    rcases Path.step?_cases name with ⟨-, rfl⟩ | current | parent | step_eq
    · -- The last step is that of the front, which ends with a slash.
      rcases isFront with rfl | ⟨above, rfl⟩
      · exact absurd rfl nonempty
      · apply (Path.endsWith_slash_iff _).2
        rw [String.append_empty, String.toList_append]
        exact List.suffix_append _ _
    · rw [current, Option.toList_some] at split
      simpa using (List.append_inj' split rfl).2
    · rw [parent, Option.toList_some] at split
      simpa using (List.append_inj' split rfl).2
    · exact absurd step_eq other

/-- A path that opens a file ends with the name of the file. -/
theorem exists_of_openToRead_append (isFront : Path.IsFront front) (plain : '/' ∉ name.toList)
    (opened : d.openToRead (front ++ name) = .ok (.file id)) :
    Path.IsName name ∧ '\x00' ∉ name.toList ∧ name.utf8ByteSize ≤ maxNameBytes ∧
      ∃ loc, d.find? (loc ++ [name]) = some (.file id) := by
  obtain ⟨place, located, seen, only⟩ := openToRead_eq_ok_iff.1 opened
  have isName : Path.IsName name := by
    refine ⟨plain, Decidable.of_not_not ?_⟩
    intro other
    exact Entry.noConfusion (only (isDirectoryOnly_of_locate isFront plain other located))
  obtain ⟨clean, -, loc, -, rfl⟩ := (locate_append_iff isFront isName).1 located
  obtain ⟨short, found⟩ := lookUp_eq_ok_iff.1 seen
  refine ⟨isName, ?_, short name List.getLast?_concat, loc, found⟩
  intro nul
  rw [String.toList_append] at clean
  exact clean (List.mem_append_right _ nul)

/-- A directory that opens is where the steps to it lead. -/
theorem walk_of_directory {place : Place} (located : d.locate path = .ok place)
    (seen : d.lookUp place = .ok (some .directory)) :
    '\x00' ∉ path.toList ∧ path ≠ "" ∧ d.walk (d.start path) (Path.steps path) = .ok place.location := by
  obtain ⟨clean, nonempty, -, arrives⟩ := locate_eq_ok_iff.1 located
  refine ⟨clean, nonempty, ?_⟩
  generalize Path.steps path = steps at arrives ⊢
  cases arrives with
  | @named above name loc walked =>
    obtain ⟨short, found⟩ := lookUp_eq_ok_iff.1 seen
    have fits : ¬ maxNameBytes < name.utf8ByteSize := Nat.not_lt.2 (short name List.getLast?_concat)
    rw [walk_append, walked]
    simp only [bind, Except.bind, walk, if_neg fits, found]
  | directory other walked => exact walked

/-- What is behind a nonempty path does not matter to where the way begins. -/
theorem start_append (nonempty : path ≠ "") (more : String) : d.start (path ++ more) = d.start path := by
  have ne_nil : path.toList ≠ [] := by
    intro empty
    exact nonempty (String.toList_inj.1 (empty.trans String.toList_empty.symm))
  obtain ⟨c, rest, cons⟩ := List.exists_cons_of_ne_nil ne_nil
  have start_eq : (path ++ more).startsWith "/" = path.startsWith "/" := by
    rw [Bool.eq_iff_iff, String.startsWith_string_iff, String.startsWith_string_iff,
      String.toList_append, cons, Path.toList_slash, List.cons_append, List.cons_prefix_cons,
      List.cons_prefix_cons]
    simp
  rw [start, start, start_eq]

theorem locate_concat_slash {place : Place} (located : d.locate path = .ok place)
    (short : (path ++ "/").utf8ByteSize < pathLimit) :
    ∃ place', d.locate (path ++ "/") = .ok place' ∧ place'.location = place.location := by
  obtain ⟨clean, nonempty, -, arrives⟩ := locate_eq_ok_iff.1 located
  have start' := start_append (d := d) nonempty "/"
  have arrives' : ∃ place', d.Arrives (path ++ "/") (Path.steps (path ++ "/")) place' ∧
      place'.location = place.location := by
    rw [Path.steps_concat_slash]
    generalize Path.steps path = steps at arrives ⊢
    cases arrives with
    | named walked => exact ⟨_, .named (start' ▸ walked), rfl⟩
    | directory other walked => exact ⟨_, .directory other (start' ▸ walked), rfl⟩
  obtain ⟨place', arrives', location_eq⟩ := arrives'
  refine ⟨place', locate_eq_ok_iff.2 ⟨?_, ?_, short, arrives'⟩, location_eq⟩
  · simpa [String.toList_append, Path.toList_slash] using clean
  · intro empty
    rw [← String.toList_inj, String.toList_append, Path.toList_slash] at empty
    simp at empty

theorem Lists.concat_slash {names : List String} (lists : d.Lists path names)
    (short : (path ++ "/").utf8ByteSize < pathLimit) : d.Lists (path ++ "/") names := by
  obtain ⟨opened, loc, ⟨place, located, rfl⟩, holds⟩ := lists
  obtain ⟨place', located', location_eq⟩ := locate_concat_slash located short
  refine ⟨?_, place.location, ⟨place', located', location_eq⟩, holds⟩
  obtain ⟨place₁, located₁, seen, -⟩ := openToRead_eq_ok_iff.1 opened
  obtain rfl := Except.ok.inj (located.symm.trans located₁)
  have seen' : d.lookUp place' = .ok (some .directory) := by
    rw [← seen, lookUp, lookUp, location_eq]
  exact openToRead_eq_ok_iff.2 ⟨place', located', seen', fun _ => rfl⟩

def trailing (path : String) : Nat → String
  | 0 => path
  | n + 1 => trailing path n ++ "/"

theorem utf8ByteSize_trailing (path : String) (n : Nat) :
    (trailing path n).utf8ByteSize = path.utf8ByteSize + n := by
  have slash : "/".utf8ByteSize = 1 := by decide
  induction n with
  | zero => rfl
  | succ n ih => rw [trailing, String.utf8ByteSize_append, ih, slash, Nat.add_assoc]

theorem mem_trailing {c : Char} (n : Nat) (member : c ∈ (trailing path n).toList) :
    c ∈ path.toList ∨ c = '/' := by
  induction n with
  | zero => exact .inl member
  | succ n ih =>
    rw [trailing, String.toList_append, Path.toList_slash] at member
    rcases List.mem_append.1 member with before | last
    · exact ih before
    · exact .inr (List.mem_singleton.1 last)

theorem Lists.trailing {names : List String} (lists : d.Lists path names) (n : Nat)
    (short : path.utf8ByteSize + n < pathLimit) : d.Lists (trailing path n) names := by
  induction n with
  | zero => exact lists
  | succ n ih =>
    apply (ih (by omega)).concat_slash
    have size := utf8ByteSize_trailing path (n + 1)
    rw [Disk.trailing] at size
    omega

theorem locate_in_directory {directory : String} (opened : d.openToRead directory = .ok .directory)
    (leads : d.Leads directory loc) (isName : Path.IsName name) (clean : '\x00' ∉ name.toList)
    (short : (directory ++ "/" ++ name).utf8ByteSize < pathLimit) :
    d.locate (directory ++ "/" ++ name) = .ok ⟨loc ++ [name], false⟩ := by
  obtain ⟨place, located, seen, -⟩ := openToRead_eq_ok_iff.1 opened
  obtain ⟨place', located', rfl⟩ := leads
  obtain rfl := Except.ok.inj (located.symm.trans located')
  obtain ⟨clean', nonempty, walked⟩ := walk_of_directory located seen
  apply (locate_append_iff (.inr ⟨directory, rfl⟩) isName).2
  refine ⟨?_, short, place.location, ?_, rfl⟩
  · simp [String.toList_append, Path.toList_slash, clean', clean]
  · rw [String.append_assoc, start_append nonempty, Path.steps_concat_slash]
    exact walked

/-- Whether `path` leads to a directory at `loc` that holds nothing. -/
def isEmptyAt (d : Disk) (path : String) (loc : Location) : Bool :=
  (d.openToRead path).toOption = some .directory &&
    (d.locate path).toOption.map (·.location) = some loc && d.entries.all (·.1.dropLast ≠ loc)

theorem lists_nil_of_isEmptyAt (empty : d.isEmptyAt path loc = true) : d.Lists path [] := by
  simp only [isEmptyAt, Bool.and_eq_true, decide_eq_true_eq, List.all_eq_true] at empty
  obtain ⟨⟨opened, located⟩, free⟩ := empty
  obtain ⟨place, here, leads⟩ := Option.map_eq_some_iff.1 located
  refine ⟨eq_ok_of_toOption opened, loc, ⟨place, eq_ok_of_toOption here, leads⟩, ?_⟩
  intro name
  constructor
  · intro found
    obtain ⟨e, here⟩ := Option.isSome_iff_exists.1 found
    rw [find?, if_neg (by simp)] at here
    obtain ⟨before, after, split, -⟩ := List.lookup_eq_some_iff.1 here
    have member : (loc ++ [name], e) ∈ d.entries := by
      rw [split]
      exact List.mem_append_right _ List.mem_cons_self
    exact absurd List.dropLast_concat (free _ member)
  · intro never
    contradiction

theorem Extends.refl (d : Disk) : d.Extends d := ⟨rfl, fun _ _ found => found, Nat.le_refl _⟩

/-- The directory at `loc` was empty on the disk `d₀`. What is in it on `d` are new files, under these
names. -/
structure Fills (d₀ : Disk) (loc : Location) (names : List String) (d : Disk) : Prop where
  larger : d₀.Extends d
  holds : ∀ name e, d.find? (loc ++ [name]) = some e →
    name ∈ names ∧ ∃ id, e = .file id ∧ d₀.contents.size ≤ id

namespace Fills

variable {d₀ : Disk} {names : List String}

theorem refl (empty : ∀ name, d.find? (loc ++ [name]) = none) : Fills d loc [] d := by
  refine ⟨.refl d, ?_⟩
  intro name e found
  rw [empty name] at found
  contradiction

theorem store (fills : Fills d₀ loc names d) (e : Entry) (bytes : Array UInt8) :
    Fills d₀ loc names (d.store e bytes) := by
  constructor
  · exact fills.larger.trans (extends_store d e bytes)
  · intro name e' found
    rw [find?_store] at found
    exact fills.holds name e' found

/-- Any name that is not too long can be opened for writing. -/
theorem exists_create (fills : Fills d₀ loc names d)
    (located : d.locate path = .ok ⟨loc ++ [name], false⟩)
    (fits : name.utf8ByteSize ≤ maxNameBytes) :
    ∃ id d', d.create path = .ok (.file id, d') := by
  have seen : d.lookUp ⟨loc ++ [name], false⟩ = .ok (d.find? (loc ++ [name])) :=
    lookUp_eq_ok_iff.2 ⟨by simpa using fits, rfl⟩
  rcases found : d.find? (loc ++ [name]) with _ | e
  · rw [found] at seen
    refine ⟨d.contents.size, (d.addFile (loc ++ [name])).2, ?_⟩
    simp only [Disk.create, located, seen, bind, Except.bind]
    rfl
  · obtain ⟨-, id, rfl, -⟩ := fills.holds name e found
    rw [found] at seen
    refine ⟨id, d.store (.file id) #[], ?_⟩
    simp only [Disk.create, located, seen, bind, Except.bind]
    rfl

theorem create (fills : Fills d₀ loc names d)
    (located : d.locate path = .ok ⟨loc ++ [name], false⟩) (created : d.create path = .ok (e, d')) :
    Fills d₀ loc (names ++ [name]) d' ∧ d'.find? (loc ++ [name]) = some e := by
  have larger := fills.larger.trans (extends_create created)
  obtain ⟨place, located', -, cases'⟩ := create_cases created
  obtain rfl := Except.ok.inj (located.symm.trans located')
  have here : d'.find? (loc ++ [name]) = some e ∧ ∃ id, e = .file id ∧ d₀.contents.size ≤ id := by
    rcases cases' with ⟨seen, -, rfl⟩ | ⟨-, rfl, rfl⟩
    · have found := find?_of_lookUp seen
      exact ⟨(find?_store _).trans found, (fills.holds name e found).2⟩
    · exact ⟨find?_addFile_self (by simp), d.contents.size, rfl, fills.larger.size⟩
  refine ⟨⟨larger, ?_⟩, here.1⟩
  intro name' e' found'
  by_cases name_eq : name' = name
  · subst name_eq
    rw [here.1] at found'
    obtain rfl := Option.some.inj found'
    exact ⟨by simp, here.2⟩
  · have before : d.find? (loc ++ [name']) = some e' := by
      rcases cases' with ⟨-, -, rfl⟩ | ⟨-, -, rfl⟩
      · rwa [find?_store] at found'
      · rwa [find?_addFile_of_ne (by simpa using name_eq)] at found'
    obtain ⟨member, new⟩ := fills.holds name' e' before
    exact ⟨List.mem_append_left _ member, new⟩

end Fills

end RollingCapture.Disk
