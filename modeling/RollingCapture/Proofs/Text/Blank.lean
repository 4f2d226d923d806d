import Mathlib.Data.List.DropRight
import RollingCapture.Text

/-! White space around a text. Trimming takes away all of it and nothing else. -/
namespace RollingCapture.Text

variable {text middle front back last : List Char} {c : Char}

def Blank (text : List Char) : Prop := ∀ c ∈ text, isBlank c = true

/-- A text that is not white space at either end. -/
structure Trimmed (text : List Char) : Prop where
  first : ∀ c ∈ text.head?, isBlank c = false
  last : ∀ c ∈ text.getLast?, isBlank c = false

/-- What is left of a text without the white space around it. -/
structure Trims (text middle : List Char) : Prop where
  around : ∃ front back, Blank front ∧ Blank back ∧ text = front ++ middle ++ back
  inner : Trimmed middle

theorem trimmed_nil : Trimmed [] := ⟨by simp, by simp⟩

/-- Anything may stand between two such texts. -/
theorem Trimmed.append (front : Trimmed text) (back : Trimmed last) (nonempty : text ≠ [])
    (nonempty' : last ≠ []) (middle : List Char) : Trimmed (text ++ middle ++ last) := by
  constructor
  · rw [List.append_assoc, List.head?_append_of_ne_nil _ nonempty]
    exact front.first
  · rw [List.getLast?_append_of_ne_nil _ nonempty']
    exact back.last

theorem trimEnd_append (blank : Blank back) : trimEnd (text ++ back) = trimEnd text := by
  unfold trimEnd
  rw [List.reverse_append, List.dropWhile_append_of_pos]
  intro c member
  exact blank c (List.mem_reverse.1 member)

theorem trim_append (blank : Blank back) : trim (text ++ back) = trim text := by
  by_cases within : Blank text
  · rw [trim, trim, List.dropWhile_append_of_pos within, List.dropWhile_eq_nil_iff.2 blank,
      List.dropWhile_eq_nil_iff.2 within]
  · have nonempty : text.dropWhile isBlank ≠ [] := fun empty => within (List.dropWhile_eq_nil_iff.1 empty)
    rw [trim, List.dropWhile_append, if_neg (by simpa using nonempty), trimEnd_append blank, trim]

theorem trim_append_left (blank : Blank front) : trim (front ++ text) = trim text := by
  rw [trim, trim, List.dropWhile_append_of_pos blank]

theorem trim_of_trimmed (inner : Trimmed text) : trim text = text := by
  have front : text.dropWhile isBlank = text := by
    cases text with
    | nil => rfl
    | cons c rest => rw [List.dropWhile_cons_of_neg (by simp [inner.first c rfl])]
  rw [trim, front]
  refine List.rdropWhile_eq_self_iff.2 fun nonempty => ?_
  simp [inner.last _ (List.getLast?_eq_some_getLast nonempty)]

theorem trim_eq (text : List Char) :
    trim text = (text.dropWhile isBlank).rdropWhile isBlank := rfl

theorem trimmed_trim (text : List Char) : Trimmed (trim text) := by
  rw [trim_eq]
  obtain ⟨rest, whole⟩ := List.rdropWhile_prefix isBlank (l := text.dropWhile isBlank)
  constructor
  · intro c member
    have start : (text.dropWhile isBlank).head? = some c := by
      rw [← whole, List.head?_append, Option.mem_def.1 member, Option.some_or]
    simpa [start] using List.head?_dropWhile_not isBlank text
  · intro c member
    obtain ⟨nonempty, rfl⟩ := List.mem_getLast?_eq_getLast member
    simpa using List.rdropWhile_last_not isBlank _ nonempty

theorem trims_trim (text : List Char) : Trims text (trim text) := by
  refine ⟨⟨text.takeWhile isBlank, (text.dropWhile isBlank).rtakeWhile isBlank, ?_, ?_, ?_⟩,
    trimmed_trim text⟩
  · exact fun c member => List.mem_takeWhile_imp member
  · exact fun c member => List.mem_rtakeWhile_imp member
  · rw [trim_eq, List.append_assoc, List.rdropWhile_append_rtakeWhile, List.takeWhile_append_dropWhile]

/-- A text can be trimmed in one way only. -/
theorem trims_iff : Trims text middle ↔ trim text = middle := by
  constructor
  · rintro ⟨⟨front, back, before, behind, rfl⟩, inner⟩
    rw [trim_append behind, trim_append_left before, trim_of_trimmed inner]
  · rintro rfl
    exact trims_trim text

theorem trim_eq_nil_iff : trim text = [] ↔ Blank text := by
  constructor
  · intro empty
    obtain ⟨⟨front, back, before, behind, whole⟩, -⟩ := trims_iff.2 empty
    intro c member
    rw [whole, List.append_nil, List.mem_append] at member
    exact member.elim (before c) (behind c)
  · intro blank
    exact trims_iff.1 ⟨⟨text, [], blank, by simp [Blank], by simp⟩, trimmed_nil⟩

theorem mem_of_mem_trim (member : c ∈ trim text) : c ∈ text := by
  obtain ⟨⟨front, back, -, -, whole⟩, -⟩ := trims_trim text
  rw [whole]
  simp [member]

end RollingCapture.Text
