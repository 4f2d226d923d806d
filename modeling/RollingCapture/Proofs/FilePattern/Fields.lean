import RollingCapture.Proofs.FilePattern.Order
import RollingCapture.Rotation.Rotator

/-! A pattern that names a field of the time gives two names at least, and any other pattern one name only.
The texts of several fields cannot make up for each other: two instants at which all fields differ have
different names, and there are such instants in every time zone. -/
namespace RollingCapture

namespace CivilTime

variable {t t' : CivilTime} {offset : Int}

theorem eq_of_instant_eq (valid : t.IsValid) (valid' : t'.IsValid) (instant_eq : t.instant = t'.instant) :
    t = t' := by
  rcases lt_trichotomy t.fields t'.fields with before | equal | behind
  · exact absurd instant_eq (Int.ne_of_lt (instant_lt_of_fields_lt valid valid' before))
  · exact fields_injective equal
  · exact absurd instant_eq.symm (Int.ne_of_lt (instant_lt_of_fields_lt valid' valid behind))

theorem ofSeconds_instant (valid : t.IsValid) (early : earliest ≤ t.instant - offset)
    (late : t.instant - offset ≤ latest) : ofSeconds offset (t.instant - offset) = t := by
  obtain ⟨valid', instant⟩ := ofSeconds_spec offset early late
  exact eq_of_instant_eq valid' valid (by rw [instant, Int.sub_add_cancel])

def newYear (year : Int) : CivilTime := ⟨year, 1, 1, 0, 0, 0⟩

/-- A time of the year that has no field in common with the first second of the year before. -/
def apart (year : Int) : CivilTime := ⟨year, 2, 2, 1, 1, 1⟩

theorem isValid_newYear (year : Int) : (newYear year).IsValid := by
  constructor <;> simp [newYear, daysInMonth]

theorem isValid_apart (year : Int) : (apart year).IsValid := by
  have long : 2 ≤ daysInMonth year 2 := by
    simp only [daysInMonth]
    split <;> decide
  constructor <;> simp [apart, long]

theorem value_newYear_ne_apart (year : Int) (f : TimeField) :
    f.value (newYear year) ≠ f.value (apart (year + 1)) := by
  cases f <;> simp only [TimeField.value, newYear, apart] <;> omega

/-- Wherever times are shown, some two instants are shown without a field in common. The years repeat
after four centuries, so there are such instants close to the epoch. -/
theorem exists_apart (offset : Int) :
    ∃ a b, (earliest ≤ a ∧ a ≤ latest) ∧ (earliest ≤ b ∧ b ≤ latest) ∧
      ∀ f : TimeField, f.value (ofSeconds offset a) ≠ f.value (ofSeconds offset b) := by
  let year := 1970 + 400 * (offset / 12622780800)
  have start : (newYear year).instant = yearStart year * 86400 := instant_newYear year
  have next : (newYear (year + 1)).instant = yearStart (year + 1) * 86400 := instant_newYear _
  have last : (newYear (year + 2)).instant = yearStart (year + 2) * 86400 := instant_newYear _
  have least := ((isValid_apart (year + 1)).newYear_le_iff (year + 1)).2 (Int.le_refl _)
  have most := mt ((isValid_apart (year + 1)).newYear_le_iff (year + 2)).1
    (Int.not_le.2 (show year + 1 < year + 2 by omega))
  rw [yearStart_eq] at start next last
  have bounds : earliest ≤ (newYear year).instant - offset ∧ (newYear year).instant - offset ≤ latest ∧
      earliest ≤ (apart (year + 1)).instant - offset ∧
      (apart (year + 1)).instant - offset ≤ latest := by
    simp only [newYear] at start next last
    unfold earliest latest
    simp only [year, newYear] at *
    omega
  obtain ⟨early, late, early', late'⟩ := bounds
  refine ⟨_, _, ⟨early, late⟩, ⟨early', late'⟩, fun f => ?_⟩
  rw [ofSeconds_instant (isValid_newYear year) early late,
    ofSeconds_instant (isValid_apart (year + 1)) early' late']
  exact value_newYear_ne_apart year f

end CivilTime

namespace FilePattern

variable {c : Char} {cs : List Char}

theorem mem_letters_iff : c ∈ letters ↔ ∃ f, TimeField.ofLetter? c = some f := by
  unfold TimeField.ofLetter?
  split <;> simp_all [letters]

/-- The search for a field reads a pattern as its tokens are read. -/
theorem namesField_iff (cs : List Char) : namesField cs = true ↔ ∃ f, .field f ∈ tokens cs := by
  induction cs using tokens.induct with
  | case1 => simp [namesField, tokens]
  | case2 => simp [namesField, tokens]
  | case3 c rest ih =>
    rw [namesField, tokens, Bool.or_eq_true, ih, List.contains_iff_mem, mem_letters_iff]
    cases letter : TimeField.ofLetter? c <;> simp
  | case4 c rest notLast notSign ih =>
    have other := ne_sign notLast notSign
    rw [tokens_cons other, namesField, ih]
    · simp
    · exact fun here => absurd here other
    · exact fun _ _ here => absurd here other

theorem hasFields_iff (pattern : String) :
    hasFields pattern = true ↔ ∃ f, .field f ∈ tokens pattern.toList :=
  namesField_iff pattern.toList

/-- The second of two percent signs begins no field, but the third one does. -/
example : hasFields "%%Y%%d%" = false ∧ hasFields "%%%Y" = true := by decide +kernel

/-- Whether some two instants that have a civil time have different names. -/
def Varies (pattern : String) (offset : Int) : Prop :=
  ∃ a b, (CivilTime.earliest ≤ a ∧ a ≤ CivilTime.latest) ∧
    (CivilTime.earliest ≤ b ∧ b ≤ CivilTime.latest) ∧ expand pattern offset a ≠ expand pattern offset b

/-- Without a field all instants have one name, those without a civil time too. -/
theorem expand_eq_of_not_hasFields {pattern : String} (fieldless : ¬ hasFields pattern = true)
    (offset a b : Int) : expand pattern offset a = expand pattern offset b := by
  have literal (f : TimeField) : .field f ∉ tokens pattern.toList :=
    fun member => fieldless ((hasFields_iff pattern).2 ⟨f, member⟩)
  rw [expand, expand, flatMap_render_of_no_field literal]

theorem varies_iff (pattern : String) (offset : Int) :
    Varies pattern offset ↔ hasFields pattern = true := by
  constructor
  · rintro ⟨a, b, -, -, differ⟩
    by_contra fieldless
    exact differ (expand_eq_of_not_hasFields fieldless offset a b)
  · intro has
    obtain ⟨f, member⟩ := (hasFields_iff pattern).1 has
    obtain ⟨a, b, valid, valid', apart⟩ := CivilTime.exists_apart offset
    refine ⟨a, b, valid, valid', fun expand_eq => apart f ?_⟩
    have texts := render_eq_of_flatMap_eq (CivilTime.isShort_ofSeconds offset a)
      (CivilTime.isShort_ofSeconds offset b) (String.ofList_injective expand_eq) _ member
    simp only [Token.render, TimeField.render_eq] at texts
    exact Text.zeroPadded_injective texts

end FilePattern

theorem Host.note_ne (h : Host) (severity : Severity) (text : String) : h.note severity text ≠ h := by
  intro note_eq
  have sizes := congrArg (·.log.size) note_eq
  simp [note, Log.note] at sizes

/-- A pattern has a field if and only if some two of its names differ, in any calendar and any time zone. A
rotator that goes over to other files warns beforehand that they overwrite each other if and only if all
names are the same. -/
theorem FilePattern.hasFields_iff_names_differ :
    (∀ (pattern : String) (calendar : Calendar) (localOffset : Int),
      hasFields pattern = true ↔
        ∃ a b : Int, (-8334601228800 ≤ a ∧ a ≤ 8210266876799) ∧ (-8334601228800 ≤ b ∧ b ≤ 8210266876799) ∧
          expand pattern (calendar.offset localOffset) a ≠ expand pattern (calendar.offset localOffset) b) ∧
    ∀ (plan : Rotation.Plan) (linkType : LinkType) (snaplen : UInt32) (h : Host),
      let started := Rotation.Rotator.new plan linkType snaplen h
      let constant := ¬ Varies plan.pattern (plan.calendar.offset h.localOffset)
      (started.2 = h.note .warn
          (plan.pattern ++ ": no time placeholders, each rotation overwrites the previous file") ↔
        plan.rotates = true ∧ constant) ∧
      (started.2 = h ↔ ¬ (plan.rotates = true ∧ constant)) := by
  refine ⟨fun pattern calendar localOffset => (varies_iff pattern _).symm, ?_⟩
  intro plan linkType snaplen h started constant
  have warns : plan.rotates = true ∧ constant ↔ (plan.rotates && !hasFields plan.pattern) = true := by
    simp only [constant, varies_iff, Bool.and_eq_true, Bool.not_eq_true']
    simp
  rw [warns]
  simp only [started, Rotation.Rotator.new]
  split
  · rename_i due
    simp [due, Host.note_ne]
  · rename_i due
    simp [due, Ne.symm (Host.note_ne h _ _)]

end RollingCapture
