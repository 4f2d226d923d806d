import Mathlib.Data.Char
import RollingCapture.Proofs.Calendar.Gregorian
import RollingCapture.Proofs.FilePattern

/-! Names of a pattern that has the fields of the time in order, from the year to the second, are in the
order of the times while years have four digits, and tell the second that they are for. -/
namespace RollingCapture

namespace Text

variable {a b : List Char} {c : Char} {m n : Int} {width : Nat}

/-- Of texts of one length the smaller one stays so, whatever follows. -/
theorem append_lt_append (length : a.length = b.length) (less : a < b) (x y : List Char) :
    a ++ x < b ++ y := by
  induction a generalizing b with
  | nil =>
    obtain rfl := List.length_eq_zero_iff.1 length.symm
    exact absurd less (List.not_lt_nil _)
  | cons c a ih =>
    cases b with
    | nil => simp at length
    | cons d b =>
      rw [List.cons_append, List.cons_append, List.cons_lt_cons_iff]
      rcases List.cons_lt_cons_iff.1 less with first | ⟨rfl, rest⟩
      · exact .inl first
      · exact .inr ⟨rfl, ih (by simpa using length) rest⟩

theorem toNat_of_isDigit (digit : c.isDigit = true) : 48 ≤ c.toNat ∧ c.toNat ≤ 57 := by
  simp only [Char.isDigit, Bool.and_eq_true, decide_eq_true_eq, ge_iff_le, UInt32.le_iff_toNat_le] at digit
  exact digit

theorem ofDigitChars_lt {i j : Nat} (length : a.length = b.length)
    (digits : ∀ c ∈ a ++ b, c.isDigit = true) (less : i < j ∨ i = j ∧ a < b) :
    Nat.ofDigitChars 10 a i < Nat.ofDigitChars 10 b j := by
  induction a generalizing b i j with
  | nil =>
    obtain rfl := List.length_eq_zero_iff.1 length.symm
    simpa using less
  | cons c a ih =>
    cases b with
    | nil => simp at length
    | cons d b =>
      have here := toNat_of_isDigit (digits c (by simp))
      have there := toNat_of_isDigit (digits d (by simp))
      have zero : '0'.toNat = 48 := rfl
      rw [Nat.ofDigitChars_cons, Nat.ofDigitChars_cons, zero]
      refine ih (by simpa using length) (fun e member => digits e ?_) ?_
      · simp only [List.mem_append, List.mem_cons] at member ⊢
        tauto
      · rcases less with before | ⟨rfl, less⟩
        · exact .inl (by omega)
        · rcases List.cons_lt_cons_iff.1 less with first | ⟨rfl, rest⟩
          · have first : c.toNat < d.toNat := first
            exact .inl (by omega)
          · exact .inr ⟨rfl, rest⟩

theorem isDigit_of_mem_zeroPadded (nonneg : 0 ≤ n) (member : c ∈ zeroPadded width n) :
    c.isDigit = true := by
  simp only [zeroPadded, if_neg (Int.not_lt.2 nonneg), List.nil_append, List.mem_append,
    List.mem_replicate] at member
  rcases member with ⟨-, rfl⟩ | digit
  · rfl
  · exact Nat.isDigit_of_mem_toDigits (by decide) (by decide) digit

theorem ofDigitChars_zeroPadded (width : Nat) (nonneg : 0 ≤ n) :
    (Nat.ofDigitChars 10 (zeroPadded width n) 0 : Int) = n := by
  have unsigned : '-' ∉ zeroPadded width n := fun member =>
    absurd (isDigit_of_mem_zeroPadded nonneg member) (by decide)
  have value := unpad_zeroPadded width n
  rwa [unpad, if_neg unsigned] at value

theorem zeroPadded_lt (nonneg : 0 ≤ m) (less : m < n) (small : n < 10 ^ width) (positive : 0 < width) :
    zeroPadded width m < zeroPadded width n := by
  have nonneg' : 0 ≤ n := by omega
  have length : (zeroPadded width m).length = (zeroPadded width n).length := by
    rw [length_zeroPadded nonneg (by omega) positive, length_zeroPadded nonneg' small positive]
  rcases lt_trichotomy (zeroPadded width m) (zeroPadded width n) with before | zeroPadded_eq | behind
  · exact before
  · exact absurd (zeroPadded_injective zeroPadded_eq) (by omega)
  · have digits : ∀ c ∈ zeroPadded width n ++ zeroPadded width m, c.isDigit = true :=
      List.forall_mem_append.2 ⟨fun _ => isDigit_of_mem_zeroPadded nonneg',
        fun _ => isDigit_of_mem_zeroPadded nonneg⟩
    have values := ofDigitChars_lt length.symm digits (.inr ⟨rfl, behind⟩) (i := 0)
    have first := ofDigitChars_zeroPadded width nonneg
    have second := ofDigitChars_zeroPadded width nonneg'
    omega

end Text

namespace TimeField

def value (t : CivilTime) : TimeField → Int
  | shortYear => t.year % 100
  | year => t.year
  | month => t.month
  | day => t.day
  | hour => t.hour
  | minute => t.minute
  | second => t.second

def width : TimeField → Nat
  | year => 4
  | _ => 2

variable {t : CivilTime}

theorem render_eq (t : CivilTime) (f : TimeField) : f.render t = Text.zeroPadded f.width (f.value t) := by
  cases f <;> rfl

theorem width_pos (f : TimeField) : 0 < f.width := by
  cases f <;> decide

/-- While the year has four digits, every field is as wide as it is shown. -/
theorem value_bounds (valid : t.IsValid) (year : 0 ≤ t.year ∧ t.year < 10000) (f : TimeField) :
    0 ≤ f.value t ∧ f.value t < 10 ^ f.width := by
  have dayOfMonth : t.day < 100 := by
    have longest : CivilTime.daysInMonth t.year t.month ≤ 31 := by
      unfold CivilTime.daysInMonth
      split
      · split <;> decide
      all_goals decide
    have := valid.day.2
    omega
  have month := valid.month
  have hour := valid.hour
  have minute := valid.minute
  have second := valid.second
  cases f <;> simp only [value, width] <;> omega

end TimeField

namespace FilePattern

def Token.field? : Token → Option TimeField
  | literal _ => none
  | field f => some f

variable {pattern : String} {t t' : CivilTime} {ts : List Token} {offset a b : Int}

/-- Texts of one pattern are in the order of the values that its fields show. -/
theorem flatMap_render_lt (bounds : ∀ f : TimeField, 0 ≤ f.value t ∧ f.value t < 10 ^ f.width)
    (bounds' : ∀ f : TimeField, 0 ≤ f.value t' ∧ f.value t' < 10 ^ f.width)
    (less : (ts.filterMap Token.field?).map (TimeField.value t) <
      (ts.filterMap Token.field?).map (TimeField.value t')) :
    ts.flatMap (Token.render t) < ts.flatMap (Token.render t') := by
  induction ts with
  | nil => exact absurd less (List.not_lt_nil _)
  | cons tok ts ih =>
    rw [List.flatMap_cons, List.flatMap_cons]
    cases tok with
    | literal c => exact List.append_left_lt (ih less)
    | field f =>
      have length : (f.render t).length = (f.render t').length := by
        rw [f.render_eq, f.render_eq, Text.length_zeroPadded (bounds f).1 (bounds f).2 f.width_pos,
          Text.length_zeroPadded (bounds' f).1 (bounds' f).2 f.width_pos]
      rcases List.cons_lt_cons_iff.1 less with first | ⟨value_eq, rest⟩
      · apply Text.append_lt_append length
        rw [f.render_eq, f.render_eq]
        exact Text.zeroPadded_lt (bounds f).1 first (bounds' f).2 f.width_pos
      · have text : (Token.field f).render t = (Token.field f).render t' := by
          show f.render t = f.render t'
          rw [f.render_eq, f.render_eq, value_eq]
        rw [text]
        exact List.append_left_lt (ih rest)

/-- Whether the fields of a pattern are those of the time, each once and the greatest first. -/
def Chronological (pattern : String) : Prop :=
  (tokens pattern.toList).filterMap Token.field? =
    [.year, .month, .day, .hour, .minute, .second]

instance (pattern : String) : Decidable (Chronological pattern) := inferInstanceAs (Decidable (_ = _))

theorem hasAllFields_of_chronological (chronological : Chronological pattern) : HasAllFields pattern := by
  intro f named
  rw [← show _ = _ from chronological] at named
  obtain ⟨tok, member, field_eq⟩ := List.mem_filterMap.1 named
  cases tok with
  | literal c => contradiction
  | field g => exact Option.some.inj field_eq ▸ member

/-- Instants within years of four digits have times, and show them with four digits. -/
theorem bounds_of_fourDigits (first : CivilTime.instant ⟨0, 1, 1, 0, 0, 0⟩ ≤ a)
    (last : a < CivilTime.instant ⟨10000, 1, 1, 0, 0, 0⟩) :
    (CivilTime.ofSeconds 0 a).IsValid ∧ (CivilTime.ofSeconds 0 a).instant = a ∧
      ∀ f : TimeField, 0 ≤ f.value (CivilTime.ofSeconds 0 a) ∧
        f.value (CivilTime.ofSeconds 0 a) < 10 ^ f.width := by
  have early : CivilTime.earliest ≤ a := by
    rw [CivilTime.instant_newYear, CivilTime.yearStart_eq] at first
    unfold CivilTime.earliest
    omega
  have late : a ≤ CivilTime.latest := by
    rw [CivilTime.instant_newYear, CivilTime.yearStart_eq] at last
    unfold CivilTime.latest
    omega
  obtain ⟨valid, instant_eq⟩ := CivilTime.ofSeconds_spec 0 early late
  rw [Int.add_zero] at instant_eq
  have least := (valid.newYear_le_iff 0).1 (by rw [instant_eq]; exact first)
  have most := mt (valid.newYear_le_iff 10000).2 (by rw [instant_eq]; exact Int.not_le.2 last)
  exact ⟨valid, instant_eq, TimeField.value_bounds valid ⟨least, Int.not_le.1 most⟩⟩

/-- The names of a pattern with the fields of the time in order. While years have four digits, they come in
the order of the instants. Each shows a date and a time of the calendar, which are as far from the epoch as
the instant is where it is shown, so that no two instants have one name. -/
theorem names_follow_time (chronological : Chronological pattern) (localOffset : Int) :
    (∀ a b, CivilTime.instant ⟨0, 1, 1, 0, 0, 0⟩ ≤ a → a < b →
      b < CivilTime.instant ⟨10000, 1, 1, 0, 0, 0⟩ →
      expand pattern (Calendar.utc.offset localOffset) a <
        expand pattern (Calendar.utc.offset localOffset) b) ∧
    (∀ (calendar : Calendar) (sec : Int), -8334601228800 ≤ sec → sec ≤ 8210266876799 →
      ∃ shown : CivilTime, shown.IsValid ∧ shown.instant = sec + calendar.offset localOffset ∧
        expand pattern (calendar.offset localOffset) sec =
          String.ofList ((tokens pattern.toList).flatMap (Token.render shown)) ∧
        ∀ f : TimeField, Text.unpad (f.render shown) = f.value shown) ∧
    ∀ (calendar : Calendar) (a b : Int), -8334601228800 ≤ a → a ≤ 8210266876799 →
      -8334601228800 ≤ b → b ≤ 8210266876799 →
      expand pattern (calendar.offset localOffset) a = expand pattern (calendar.offset localOffset) b →
      a = b := by
  refine ⟨fun a b first less last => ?_, fun calendar sec early late => ?_,
    fun calendar a b early late early' late' expand_eq => ?_⟩
  · obtain ⟨valid, instant, bounds⟩ := bounds_of_fourDigits first (Int.lt_trans less last)
    obtain ⟨valid', instant', bounds'⟩ :=
      bounds_of_fourDigits (Int.le_trans first (Int.le_of_lt less)) last
    have fields := CivilTime.fields_lt_of_instant_lt valid valid' (by rw [instant, instant']; exact less)
    rw [String.lt_iff, expand, expand, String.toList_ofList, String.toList_ofList]
    apply flatMap_render_lt bounds bounds'
    rw [show _ = _ from chronological]
    exact fields
  · obtain ⟨valid, instant⟩ := CivilTime.ofSeconds_spec (calendar.offset localOffset) early late
    exact ⟨_, valid, instant, rfl, fun f => by rw [f.render_eq, Text.unpad_zeroPadded]⟩
  · exact expand_injective (hasAllFields_of_chronological chronological) ⟨early, early'⟩ ⟨late, late'⟩
      expand_eq

/-- A pattern with percent signs that are doubled, dropped and last, at the end of February in a leap year
that ends a century. -/
theorem leap_day_name_follows :
    let pattern := "100%%/%Y-%m-%d%%%H%M:%-%S%"
    Chronological pattern ∧ expand pattern 0 951782399 < expand pattern 0 951782400 ∧
      expand pattern 3600 951782399 ≠ expand pattern 3600 951782400 := by
  intro pattern
  have chronological : Chronological pattern := by decide +kernel
  obtain ⟨ordered, -, injective⟩ := names_follow_time chronological 3600
  refine ⟨chronological, ordered _ _ ?_ (by decide) ?_, fun expand_eq => ?_⟩
  · rw [CivilTime.instant_newYear, CivilTime.yearStart_eq]
    decide
  · rw [CivilTime.instant_newYear, CivilTime.yearStart_eq]
    decide
  · exact absurd (injective .local _ _ (by decide) (by decide) (by decide) (by decide) expand_eq) (by decide)

end FilePattern

end RollingCapture
