import Mathlib.Data.Int.Order.Basic
import Mathlib.Data.List.Lex
import Mathlib.Order.Monotone.Basic
import Mathlib.Tactic.IntervalCases
import RollingCapture.Proofs.Calendar

/-! The calendar that civil times belong to, said without eras: which dates and times there are, and how
far each is from the epoch, by adding up the years, months and days between. An instant has its civil time
in it, and of two civil times the one that is smaller field by field is the earlier. -/
namespace RollingCapture.CivilTime

/-- Every fourth year is a leap year, but of the years that end a century every fourth only. -/
def IsLeap (year : Int) : Prop := 4 ∣ year ∧ (100 ∣ year → 400 ∣ year)

instance (year : Int) : Decidable (IsLeap year) := inferInstanceAs (Decidable (_ ∧ _))

def daysInYear (year : Int) : Nat := if IsLeap year then 366 else 365

def daysInMonth (year : Int) : Nat → Nat
  | 2 => if IsLeap year then 29 else 28
  | 4 | 6 | 9 | 11 => 30
  | _ => 31

structure IsValid (t : CivilTime) : Prop where
  month : 1 ≤ t.month ∧ t.month ≤ 12
  day : 1 ≤ t.day ∧ t.day ≤ daysInMonth t.year t.month
  hour : t.hour < 24
  minute : t.minute < 60
  second : t.second < 60

/-- How many days the `n` years from `year` on have. -/
def daysInYears (year : Int) : Nat → Nat
  | 0 => 0
  | n + 1 => daysInYears year n + daysInYear (year + n)

/-- The first day of a year, counted from 1970-01-01. -/
def yearStart (year : Int) : Int :=
  daysInYears 1970 (year - 1970).toNat - daysInYears year (1970 - year).toNat

/-- How many days the months of a year have before `month`. -/
def monthStart (year : Int) : Nat → Nat
  | 0 | 1 => 0
  | month + 2 => monthStart year (month + 1) + daysInMonth year (month + 1)

/-- The day of a date, counted from 1970-01-01. -/
def dayNumber (year : Int) (month day : Nat) : Int :=
  yearStart year + monthStart year month + (day - 1)

/-- The distance from 1970-01-01 00:00:00 in seconds. -/
def instant (t : CivilTime) : Int :=
  dayNumber t.year t.month t.day * 86400 + t.hour * 3600 + t.minute * 60 + t.second

variable {year : Int} {day : Nat} {t t' : CivilTime}

/-! Years and months in a row. -/

theorem daysInYears_succ (year : Int) (n : Nat) :
    daysInYears year (n + 1) = daysInYear year + daysInYears (year + 1) n := by
  induction n with
  | zero => simp [daysInYears]
  | succ n ih =>
    have last : year + (n + 1 : Nat) = year + 1 + n := by omega
    rw [daysInYears, ih, daysInYears, last, Nat.add_assoc]

theorem yearStart_add_one (year : Int) : yearStart (year + 1) = yearStart year + daysInYear year := by
  unfold yearStart
  by_cases past : 1970 ≤ year
  · have more : (year + 1 - 1970).toNat = (year - 1970).toNat + 1 := by omega
    have this : 1970 + ((year - 1970).toNat : Int) = year := by omega
    have zero : (1970 - year).toNat = 0 := by omega
    have zero' : (1970 - (year + 1)).toNat = 0 := by omega
    rw [more, zero, zero']
    simp only [daysInYears, this]
    omega
  · have fewer : (1970 - year).toNat = (1970 - (year + 1)).toNat + 1 := by omega
    have zero : (year - 1970).toNat = 0 := by omega
    have zero' : (year + 1 - 1970).toNat = 0 := by omega
    rw [fewer, zero, zero', daysInYears_succ]
    omega

theorem yearStart_mono {year later : Int} (le : year ≤ later) : yearStart year ≤ yearStart later :=
  monotone_int_of_le_succ (fun year => by rw [yearStart_add_one]; omega) le

/-- The days of a year, with the leap years that the quotients count up to it and not before. -/
theorem daysInYear_eq (year : Int) :
    (daysInYear year : Int) = 365 + (year / 4 - (year - 1) / 4) - (year / 100 - (year - 1) / 100) +
      (year / 400 - (year - 1) / 400) := by
  unfold daysInYear
  by_cases leap : IsLeap year
  · rw [if_pos leap]
    unfold IsLeap at leap
    omega
  · rw [if_neg leap]
    unfold IsLeap at leap
    omega

/-- The first day of a year without adding up years. -/
theorem yearStart_eq (year : Int) :
    yearStart year =
      365 * (year - 1970) + (year - 1) / 4 - (year - 1) / 100 + (year - 1) / 400 - 477 := by
  induction year using Int.inductionOn' (b := 1970) with
  | zero => decide
  | succ k _ ih =>
    rw [yearStart_add_one, ih, daysInYear_eq]
    omega
  | pred k _ ih =>
    have next := yearStart_add_one (k - 1)
    rw [Int.sub_add_cancel, ih, daysInYear_eq] at next
    omega

theorem monthStart_add_one {month : Nat} (positive : 1 ≤ month) :
    monthStart year (month + 1) = monthStart year month + daysInMonth year month := by
  obtain ⟨month, rfl⟩ := Nat.exists_eq_add_of_le' positive
  rfl

theorem monthStart_mono (year : Int) : Monotone (monthStart year) :=
  monotone_nat_of_le_succ fun month => by
    cases month with
    | zero => exact Nat.le_refl _
    | succ month => exact Nat.le_add_right _ _

theorem monthStart_thirteen (year : Int) : monthStart year 13 = daysInYear year := by
  unfold daysInYear
  by_cases leap : IsLeap year <;> simp [monthStart, daysInMonth, leap]

/-! A year that begins in March. -/

theorem monthStart_add_three (year : Int) {m : Nat} (inYear : m < 10) :
    (monthStart year (m + 3) : Int) = daysInYear year - 306 + ((153 * m + 2) / 5 : Nat) := by
  unfold daysInYear
  by_cases leap : IsLeap year <;> interval_cases m <;> simp [monthStart, daysInMonth, leap]

theorem daysInMonth_add_three (year : Int) {m : Nat} (inYear : m < 10) :
    daysInMonth year (m + 3) = (153 * (m + 1) + 2) / 5 - (153 * m + 2) / 5 := by
  interval_cases m <;> rfl

/-- The date of a day in a year that begins in March. The year ends with February of the next one. -/
theorem monthDay_spec (inYear : day ≤ 364 ∨ day = 365 ∧ IsLeap (year + 1)) :
    let date := monthDay day
    let shown := year + if date.1 ≤ 2 then 1 else 0
    (1 ≤ date.1 ∧ date.1 ≤ 12) ∧ (1 ≤ date.2 ∧ date.2 ≤ daysInMonth shown date.1) ∧
      dayNumber shown date.1 date.2 = yearStart (year + 1) - 306 + day := by
  obtain ⟨m, month_eq⟩ : ∃ m, (5 * day + 2) / 153 = m := ⟨_, rfl⟩
  have bound : m < 12 := by omega
  simp only [monthDay, month_eq]
  by_cases spring : m < 10
  · have beyond : ¬ m + 3 ≤ 2 := by omega
    have start := monthStart_add_three year spring
    have length := daysInMonth_add_three year spring
    have next := yearStart_add_one year
    simp only [if_pos spring, if_neg beyond, Int.add_zero, dayNumber]
    omega
  · obtain rfl | rfl : m = 10 ∨ m = 11 := by omega
    · have first : monthStart (year + 1) 1 = 0 := rfl
      have number : dayNumber (year + 1) 1 (day - 306 + 1) = yearStart (year + 1) - 306 + day := by
        rw [dayNumber, first]
        omega
      exact ⟨by decide, ⟨by omega, show day - 306 + 1 ≤ 31 by omega⟩, number⟩
    · have second : monthStart (year + 1) 2 = 31 := rfl
      have number : dayNumber (year + 1) 2 (day - 337 + 1) = yearStart (year + 1) - 306 + day := by
        rw [dayNumber, second]
        omega
      have length : day - 337 + 1 ≤ if IsLeap (year + 1) then 29 else 28 := by
        rcases inYear with short | ⟨rfl, leap⟩
        · split <;> omega
        · rw [if_pos leap]
      exact ⟨by decide, ⟨by omega, length⟩, number⟩

/-! Years within an era. -/

theorem yearOfEra_mono : Monotone yearOfEra :=
  monotone_nat_of_le_succ fun day => Nat.div_le_div_right (by omega)

theorem le_yearOfEra_daysBefore : ∀ year < 400, year ≤ yearOfEra (daysBefore year) := by
  decide +kernel

theorem lt_daysBefore_add_one (more : yearOfEra day < 399) : day < daysBefore (yearOfEra day + 1) := by
  by_contra beyond
  have later := yearOfEra_mono (Nat.not_lt.1 beyond)
  have reached := le_yearOfEra_daysBefore (yearOfEra day + 1) (by omega)
  omega

theorem daysBefore_add_one {year : Nat} (more : year < 399) :
    daysBefore (year + 1) = daysBefore year + daysInYear (year + 1) := by
  have days := daysInYear_eq (year + 1)
  unfold daysBefore
  omega

theorem isLeap_of_era (year era : Int) : IsLeap (year + 400 * era + 1) ↔ IsLeap (year + 1) := by
  unfold IsLeap
  omega

/-- Only a year that ends with February of a leap year has a 366th day. -/
theorem dayOfYear_le (inEra : day < 146097) (era : Int) :
    day - daysBefore (yearOfEra day) ≤ 364 ∨ day - daysBefore (yearOfEra day) = 365 ∧
      IsLeap (yearOfEra day + 400 * era + 1) := by
  obtain ⟨least, most⟩ := daysBefore_le inEra
  have bound := yearOfEra_le inEra
  by_cases last : yearOfEra day = 399
  · have leap : IsLeap (yearOfEra day + 400 * era + 1) := by
      rw [last, IsLeap]
      omega
    simp only [leap, and_true]
    omega
  · have next : day < daysBefore (yearOfEra day + 1) := lt_daysBefore_add_one (by omega)
    rw [daysBefore_add_one (by omega), daysInYear] at next
    rw [isLeap_of_era]
    split at next
    · rename_i leap
      simp only [leap, and_true]
      omega
    · omega

/-- Where a year that begins in March comes in the calendar. -/
theorem yearStart_march (inEra : day < 146097) (era : Int) :
    yearStart (yearOfEra day + 400 * era + 1) - 306 =
      daysBefore (yearOfEra day) + 146097 * era - 719468 := by
  have bound := yearOfEra_le inEra
  rw [yearStart_eq]
  unfold daysBefore
  omega

/-- The date of a day is a date of the calendar, and its own. -/
theorem ofDay_spec (n : Int) :
    let date := ofDay n
    (1 ≤ date.2.1 ∧ date.2.1 ≤ 12) ∧ (1 ≤ date.2.2 ∧ date.2.2 ≤ daysInMonth date.1 date.2.1) ∧
      dayNumber date.1 date.2.1 date.2.2 = n := by
  have inEra : ((n + 719468) % 146097).toNat < 146097 := by omega
  obtain ⟨month, dayOfMonth, number⟩ := monthDay_spec (dayOfYear_le inEra ((n + 719468) / 146097))
  have start := yearStart_march inEra ((n + 719468) / 146097)
  obtain ⟨least, -⟩ := daysBefore_le inEra
  rw [ofDay_eq]
  refine ⟨month, dayOfMonth, number.trans ?_⟩
  rw [start]
  omega

/-- What is shown for an instant is a time of the calendar, and as far from the epoch as the instant is where
it is shown. -/
theorem ofSeconds_spec (offset : Int) {sec : Int} (early : earliest ≤ sec) (late : sec ≤ latest) :
    (ofSeconds offset sec).IsValid ∧ (ofSeconds offset sec).instant = sec + offset := by
  obtain ⟨month, day, number⟩ := ofDay_spec ((sec + offset) / 86400)
  unfold ofSeconds
  rw [if_neg (by omega)]
  refine ⟨⟨month, day, ?_, ?_, ?_⟩, ?_⟩
  · dsimp only
    omega
  · dsimp only
    omega
  · dsimp only
    omega
  · simp only [instant, number]
    omega

/-! The order of times. -/

/-- The fields of a time, the greatest first. -/
def fields (t : CivilTime) : List Int := [t.year, t.month, t.day, t.hour, t.minute, t.second]

theorem fields_injective (fields_eq : t.fields = t'.fields) : t = t' := by
  rcases t with ⟨_, _, _, _, _, _⟩
  rcases t' with ⟨_, _, _, _, _, _⟩
  simpa only [fields, List.cons.injEq, Int.natCast_inj, and_true, mk.injEq] using fields_eq

theorem IsValid.dayOfYear (valid : t.IsValid) :
    monthStart t.year t.month + t.day ≤ monthStart t.year (t.month + 1) ∧
      monthStart t.year (t.month + 1) ≤ daysInYear t.year := by
  obtain ⟨⟨positive, most⟩, ⟨-, day⟩, -⟩ := valid
  constructor
  · rw [monthStart_add_one positive]
    omega
  · rw [← monthStart_thirteen]
    exact monthStart_mono _ (by omega)

/-- Of two times the one that is smaller field by field comes first. -/
theorem instant_lt_of_fields_lt (valid : t.IsValid) (valid' : t'.IsValid) (less : t.fields < t'.fields) :
    t.instant < t'.instant := by
  obtain ⟨ends, year⟩ := valid.dayOfYear
  have day := valid'.day.1
  have hour := valid.hour
  have minute := valid.minute
  have second := valid.second
  simp only [fields, List.cons_lt_cons_iff, List.not_lt_nil, and_false, or_false, Int.ofNat_lt,
    Int.natCast_inj] at less
  unfold instant dayNumber
  rcases less with earlier | ⟨sameYear, earlier | ⟨sameMonth, rest⟩⟩
  · have years := yearStart_mono (Int.add_one_le_iff.2 earlier)
    rw [yearStart_add_one] at years
    omega
  · have months := monthStart_mono t.year (Nat.add_one_le_iff.2 earlier)
    rw [← sameYear]
    omega
  · rw [← sameYear, ← sameMonth]
    omega

theorem instant_newYear (year : Int) : instant ⟨year, 1, 1, 0, 0, 0⟩ = yearStart year * 86400 := by
  have first : monthStart year 1 = 0 := rfl
  simp only [instant, dayNumber, first]
  omega

/-- A year begins before all its times, and behind those of the years before. -/
theorem IsValid.newYear_le_iff (valid : t.IsValid) (year : Int) :
    instant ⟨year, 1, 1, 0, 0, 0⟩ ≤ t.instant ↔ year ≤ t.year := by
  obtain ⟨ends, most⟩ := valid.dayOfYear
  have day := valid.day.1
  have hour := valid.hour
  have minute := valid.minute
  have second := valid.second
  rw [instant_newYear]
  constructor
  · intro begun
    by_contra before
    have years := yearStart_mono (Int.add_one_le_iff.2 (Int.not_le.1 before))
    rw [yearStart_add_one] at years
    unfold instant dayNumber at begun
    omega
  · intro later
    have years := yearStart_mono later
    unfold instant dayNumber
    omega

/-- Times are in the order of their fields. -/
theorem fields_lt_of_instant_lt (valid : t.IsValid) (valid' : t'.IsValid)
    (less : t.instant < t'.instant) : t.fields < t'.fields := by
  rcases lt_trichotomy t.fields t'.fields with before | fields_eq | behind
  · exact before
  · rw [fields_injective fields_eq] at less
    exact absurd less (Int.lt_irrefl _)
  · exact absurd (instant_lt_of_fields_lt valid' valid behind) (Int.lt_asymm less)

end RollingCapture.CivilTime
