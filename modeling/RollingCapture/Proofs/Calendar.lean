import RollingCapture.Calendar

/-! A civil time tells its instant: the date tells the day, and the time of day the rest. -/
namespace RollingCapture.CivilTime

def yearOfEra (day : Nat) : Nat := (day - day / 1460 + day / 36524 - day / 146096) / 365

/-- How many days of an era are over when a year begins. -/
def daysBefore (year : Nat) : Nat := 365 * year + year / 4 - year / 100

variable {day : Nat}

/-! The quotients bound each other only within a century, so the centuries are taken one by one. -/

theorem yearOfEra_le (inEra : day < 146097) : yearOfEra day ≤ 399 := by
  unfold yearOfEra
  omega

theorem daysBefore_le (inEra : day < 146097) :
    daysBefore (yearOfEra day) ≤ day ∧ day ≤ daysBefore (yearOfEra day) + 365 := by
  obtain ⟨year, yearOfEra_eq⟩ : ∃ year, yearOfEra day = year := ⟨_, rfl⟩
  have bound := yearOfEra_le inEra
  rw [yearOfEra_eq] at bound ⊢
  unfold yearOfEra at yearOfEra_eq
  have century : year / 100 = 0 ∨ year / 100 = 1 ∨ year / 100 = 2 ∨ year / 100 = 3 := by omega
  have century' : day / 36524 = 0 ∨ day / 36524 = 1 ∨ day / 36524 = 2 ∨ day / 36524 = 3 ∨
      day / 36524 = 4 := by omega
  unfold daysBefore
  rcases century with c | c | c | c <;> rcases century' with c' | c' | c' | c' | c' <;>
    constructor <;> omega

/-- The month and the day of the month, by the day of a year that begins in March. -/
def monthDay (day : Nat) : Nat × Nat :=
  let marchMonth := (5 * day + 2) / 153
  (if marchMonth < 10 then marchMonth + 3 else marchMonth - 9, day - (153 * marchMonth + 2) / 5 + 1)

theorem monthDay_injective {a b : Nat} (inYear : a ≤ 365) (inYear' : b ≤ 365)
    (monthDay_eq : monthDay a = monthDay b) : a = b := by
  obtain ⟨months, days⟩ := Prod.mk.inj monthDay_eq
  have months' : (5 * a + 2) / 153 = (5 * b + 2) / 153 := by
    split at months <;> split at months <;> omega
  omega

theorem ofDay_eq (n : Int) :
    ofDay n =
      let day := ((n + 719468) % 146097).toNat
      let date := monthDay (day - daysBefore (yearOfEra day))
      (yearOfEra day + 400 * ((n + 719468) / 146097) + (if date.1 ≤ 2 then 1 else 0), date) := rfl

theorem ofDay_injective {m n : Int} (day_eq : ofDay m = ofDay n) : m = n := by
  rw [ofDay_eq, ofDay_eq] at day_eq
  obtain ⟨years, dates⟩ := Prod.mk.inj day_eq
  have inEra (n : Int) : ((n + 719468) % 146097).toNat < 146097 := by omega
  have boundM := daysBefore_le (inEra m)
  have boundN := daysBefore_le (inEra n)
  have yearM := yearOfEra_le (inEra m)
  have yearN := yearOfEra_le (inEra n)
  have days := monthDay_injective (by omega) (by omega) dates
  rw [dates, Int.add_left_inj] at years
  have era : (m + 719468) / 146097 = (n + 719468) / 146097 := by omega
  have year : yearOfEra ((m + 719468) % 146097).toNat = yearOfEra ((n + 719468) % 146097).toNat := by
    omega
  rw [year] at boundM days
  omega

theorem ofDay_lt (n : Int) : (ofDay n).2.1 < 100 ∧ (ofDay n).2.2 < 100 := by
  have inEra : ((n + 719468) % 146097).toNat < 146097 := by omega
  have bound := daysBefore_le inEra
  rw [ofDay_eq]
  simp only [monthDay]
  constructor
  · split <;> omega
  · omega

/-- Every field but the year has at most two digits. -/
structure IsShort (t : CivilTime) : Prop where
  month : t.month < 100
  day : t.day < 100
  hour : t.hour < 100
  minute : t.minute < 100
  second : t.second < 100

theorem isShort_ofSeconds (offset sec : Int) : (ofSeconds offset sec).IsShort := by
  unfold ofSeconds
  split
  · exact ⟨by decide, by decide, by decide, by decide, by decide⟩
  · obtain ⟨month, day⟩ := ofDay_lt ((sec + offset) / 86400)
    exact ⟨month, day, by dsimp only; omega, by dsimp only; omega, by dsimp only; omega⟩

/-- Within the limits of civil times, times at one place tell instants apart. -/
theorem ofSeconds_injective {offset a b : Int} (early : earliest ≤ a ∧ earliest ≤ b)
    (late : a ≤ latest ∧ b ≤ latest) (ofSeconds_eq : ofSeconds offset a = ofSeconds offset b) : a = b := by
  unfold ofSeconds at ofSeconds_eq
  rw [if_neg (by omega), if_neg (by omega)] at ofSeconds_eq
  obtain ⟨year, month, day, hour, minute, second⟩ := CivilTime.mk.inj ofSeconds_eq
  have date : ofDay ((a + offset) / 86400) = ofDay ((b + offset) / 86400) :=
    Prod.ext year (Prod.ext month day)
  have days := ofDay_injective date
  omega

end RollingCapture.CivilTime
