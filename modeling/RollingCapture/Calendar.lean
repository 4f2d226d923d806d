/-! Civil time in the proleptic Gregorian calendar, in UTC or at a fixed distance from it. -/
namespace RollingCapture

inductive Calendar where
  | local
  | utc
  deriving DecidableEq, Repr

/-- Seconds to add to UTC under a calendar, on a host whose zone is `localOffset` east of UTC. -/
def Calendar.offset (calendar : Calendar) (localOffset : Int) : Int :=
  match calendar with
  | .local => localOffset
  | .utc => 0

structure CivilTime where
  year : Int
  month : Nat
  day : Nat
  hour : Nat
  minute : Nat
  second : Nat
  deriving DecidableEq, Repr

namespace CivilTime

def epoch : CivilTime := ⟨1970, 1, 1, 0, 0, 0⟩

/-- The date of a day, counted from 1970-01-01. Days are counted within eras of 400 years, which
all have 146097 days, and within years that begin in March, so that a leap day ends its year. -/
def ofDay (day : Int) : Int × Nat × Nat :=
  let shifted := day + 719468
  let era := shifted / 146097
  let dayOfEra := (shifted % 146097).toNat
  let yearOfEra :=
    (dayOfEra - dayOfEra / 1460 + dayOfEra / 36524 - dayOfEra / 146096) / 365
  let dayOfYear := dayOfEra - (365 * yearOfEra + yearOfEra / 4 - yearOfEra / 100)
  let marchMonth := (5 * dayOfYear + 2) / 153
  let dayOfMonth := dayOfYear - (153 * marchMonth + 2) / 5 + 1
  let month := if marchMonth < 10 then marchMonth + 3 else marchMonth - 9
  (yearOfEra + 400 * era + (if month ≤ 2 then 1 else 0), month, dayOfMonth)

def earliest : Int := -8334601228800

def latest : Int := 8210266876799

/-- The civil time `sec` seconds after the epoch, shown `offset` seconds ahead of UTC. The limits
apply before the offset. An instant outside them shows as the epoch. -/
def ofSeconds (offset sec : Int) : CivilTime :=
  if sec < earliest ∨ latest < sec then epoch
  else
    let shown := sec + offset
    let (year, month, day) := ofDay (shown / 86400)
    let rest := (shown % 86400).toNat
    ⟨year, month, day, rest / 3600, rest / 60 % 60, rest % 60⟩

end CivilTime

end RollingCapture
