import RollingCapture.Path

/-! Which names between slashes lead down, and which do not. -/
namespace RollingCapture.Path

/-- What a name between slashes means. -/
def step? : String → Option Part
  | "" => none
  | "." => some .current
  | ".." => some .parent
  | name => some (.named name)

theorem steps_eq (path : String) : steps path = (segments path).filterMap step? := rfl

def Part.name? : Part → Option String
  | named name => some name
  | _ => none

theorem step?_of_mem {name : String} {c : Char} (member : c ∈ name.toList) (other : c ≠ '.') :
    step? name = some (.named name) := by
  unfold step?
  split
  · contradiction
  · exact absurd (List.mem_singleton.1 member) other
  · have dots : "..".toList = ['.', '.'] := by decide
    rw [dots] at member
    exact absurd (by simpa using member) other
  · rfl

theorem eq_of_step?_parent {name : String} (parent : step? name = some .parent) : name = ".." := by
  unfold step? at parent
  split at parent
  · contradiction
  · simp at parent
  · rfl
  · simp at parent

/-- Whether a text can be the name of a file: one name between slashes that leads down. -/
def IsName (name : String) : Prop := '/' ∉ name.toList ∧ step? name = some (.named name)

/-- What stands in front of a name in a path: nothing, or a text that ends with a slash. -/
def IsFront (front : String) : Prop := front = "" ∨ ∃ above, front = above ++ "/"

theorem step?_cases (name : String) :
    step? name = none ∧ name = "" ∨ step? name = some .current ∨ step? name = some .parent ∨
      step? name = some (.named name) := by
  unfold step?
  split
  · exact .inl ⟨rfl, rfl⟩
  · exact .inr (.inl rfl)
  · exact .inr (.inr (.inl rfl))
  · exact .inr (.inr (.inr rfl))

theorem toList_slash : "/".toList = ['/'] := by decide

theorem steps_concat_slash (above : String) : steps (above ++ "/") = steps above := by
  have split : (above ++ "/").toList = above.toList ++ '/' :: [] := by
    rw [String.toList_append, toList_slash]
  rw [steps_eq, segments, split, List.splitOn_append_cons_self, List.map_append,
    List.filterMap_append]
  exact List.append_nil _

theorem steps_append {front name : String} (isFront : IsFront front) (plain : '/' ∉ name.toList) :
    steps (front ++ name) = steps front ++ (step? name).toList := by
  have last : ((name.toList.splitOn '/').map String.ofList).filterMap step? =
      (step? name).toList := by
    rw [List.splitOn_eq_singleton plain, List.map_singleton, String.ofList_toList, List.filterMap_cons]
    cases step? name <;> rfl
  rcases isFront with rfl | ⟨above, rfl⟩
  · rw [String.empty_append, steps_eq, segments, last]
    rfl
  · have split : (above ++ "/" ++ name).toList = above.toList ++ '/' :: name.toList := by
      simp [String.toList_append, toList_slash]
    rw [steps_concat_slash, steps_eq, segments, split, List.splitOn_append_cons_self, List.map_append,
      List.filterMap_append, last]
    rfl

theorem fileName?_append {front name : String} (isFront : IsFront front) (isName : IsName name) :
    fileName? (front ++ name) = some name := by
  obtain ⟨plain, named⟩ := isName
  have moves : ((steps (front ++ name)).filter (· ≠ .current)).getLast? = some (.named name) := by
    rw [steps_append isFront plain, named, List.filter_append, List.getLast?_append]
    simp
  have last : (parts (front ++ name)).getLast? = some (.named name) := by
    rw [parts]
    split
    · rw [List.getLast?_cons, moves]
      rfl
    · exact moves
  rw [fileName?, last]

theorem endsWith_slash_iff (path : String) : path.endsWith "/" = true ↔ ['/'] <:+ path.toList := by
  rw [String.endsWith_eq_endsWith_toSlice, String.Slice.endsWith_string_iff, String.copy_toSlice,
    toList_slash]

theorem IsName.toList_ne_nil {name : String} (isName : IsName name) : name.toList ≠ [] := by
  intro empty
  obtain rfl := String.toList_inj.1 (empty.trans String.toList_empty.symm)
  simp [IsName, step?] at isName

theorem append_ne_empty {name : String} (isName : IsName name) (front : String) : front ++ name ≠ "" := by
  intro empty
  rw [← String.toList_inj, String.toList_append, String.toList_empty] at empty
  exact isName.toList_ne_nil (List.append_eq_nil_iff.1 empty).2

theorem endsWith_append {name : String} (isName : IsName name) (front : String) :
    (front ++ name).endsWith "/" = false := by
  rw [Bool.eq_false_iff]
  intro ends
  obtain ⟨before, split⟩ := (endsWith_slash_iff _).1 ends
  have last := congrArg List.getLast? split
  rw [String.toList_append, List.getLast?_append, List.getLast?_singleton, List.getLast?_append,
    List.getLast?_eq_some_getLast isName.toList_ne_nil] at last
  have slash := Option.some.inj last
  exact isName.1 (slash ▸ List.getLast_mem isName.toList_ne_nil)

end RollingCapture.Path
