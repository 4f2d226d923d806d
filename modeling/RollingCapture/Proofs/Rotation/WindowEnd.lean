import RollingCapture.Proofs.Rotation.Windows

/-! The ends of windows over the whole range of signed 64-bit seconds, and the machine words that give them.
A window that begins in that range ends at the next multiple of its length, or is cut off at the last second. -/
namespace RollingCapture.Rotation

/-- How long windows are. A period that no second reaches counts as the last second. -/
def windowLength (period : Nat) : Int := min (period : Int) lastSecond

/-- The window of a second begins in the range of signed 64-bit seconds. -/
def BeginsInRange (sec : Int) (period : Nat) : Prop :=
  -9223372036854775808 ≤ sec - sec % windowLength period

instance (sec : Int) (period : Nat) : Decidable (BeginsInRange sec period) :=
  inferInstanceAs (Decidable (_ ≤ _))

/-- The first multiple of the length behind a second. -/
def boundary (sec : Int) (period : Nat) : Int := (sec / windowLength period + 1) * windowLength period

section Boundary

variable {sec later last next : Int} {period : Nat}

theorem windowLength_pos (positive : 0 < period) : 0 < windowLength period := by
  rw [windowLength, lastSecond]
  omega

theorem lt_boundary (sec : Int) (positive : 0 < period) : sec < boundary sec period :=
  Int.lt_ediv_add_one_mul_self sec (windowLength_pos positive)

theorem boundary_le (sec : Int) (positive : 0 < period) : boundary sec period ≤ sec + windowLength period := by
  have start := Int.ediv_mul_le sec (Int.ne_of_gt (windowLength_pos positive))
  rw [boundary, Int.add_mul, Int.one_mul]
  omega

theorem boundary_mono (positive : 0 < period) (le : sec ≤ later) :
    boundary sec period ≤ boundary later period := by
  have long := windowLength_pos positive
  have windows := Int.ediv_le_ediv long le
  exact Int.mul_le_mul_of_nonneg_right (Int.add_le_add_right windows 1) (Int.le_of_lt long)

theorem windowEnd_eq_some_iff (sec : Int) (positive : 0 < period) :
    windowEnd sec period = some last ↔ last = min lastSecond (boundary sec period) := by
  rw [windowEnd_eq_min sec positive, Int.min_comm lastSecond, Option.some.injEq, eq_comm]
  rfl

/-- Only the last second itself has no end behind it. -/
theorem lt_windowEnd_iff (positive : 0 < period) (range : sec ≤ lastSecond)
    (found : windowEnd sec period = some last) : sec < last ↔ sec ≠ lastSecond := by
  rw [windowEnd_eq_some_iff _ positive] at found
  have behind := lt_boundary sec positive
  omega

theorem windowEnd_le (positive : 0 < period) (found : windowEnd sec period = some last) :
    last ≤ sec + windowLength period := by
  rw [windowEnd_eq_some_iff _ positive] at found
  have near := boundary_le sec positive
  omega

theorem dvd_windowEnd (positive : 0 < period) (reached : boundary sec period ≤ lastSecond)
    (found : windowEnd sec period = some last) : windowLength period ∣ last := by
  rw [windowEnd_eq_some_iff _ positive, Int.min_eq_right reached] at found
  exact ⟨_, found.trans (Int.mul_comm _ _)⟩

theorem windowEnd_eq_of_window_eq (positive : 0 < period)
    (window_eq : sec / windowLength period = later / windowLength period)
    (found : windowEnd sec period = some last) (found' : windowEnd later period = some next) :
    last = next := by
  rw [windowEnd_eq_some_iff _ positive] at found found'
  rw [found, found', boundary, boundary, window_eq]

theorem windowEnd_mono (positive : 0 < period) (le : sec ≤ later) (found : windowEnd sec period = some last)
    (found' : windowEnd later period = some next) : last ≤ next := by
  rw [windowEnd_eq_some_iff _ positive] at found found'
  have ahead := boundary_mono positive le
  omega

end Boundary

/-! Arithmetic on signed words. -/
namespace Word

/-- The signed word for `n`, or the greatest one if `n` is greater. -/
def clamp (n : UInt64) : Int64 := if n ≤ 9223372036854775807 then n.toInt64 else Int64.maxValue

/-- The remainder by a positive word that is not negative. The one of `%` has the sign of `a`. -/
def remainder (a b : Int64) : Int64 := if a % b < 0 then a % b + b else a % b

/-- The sum, or the end of the range that it lies beyond. -/
def saturatingAdd (a b : Int64) : Int64 :=
  if a.toBitVec.saddOverflow b.toBitVec then if b < 0 then Int64.minValue else Int64.maxValue
  else a + b

/-- `Rotation.windowEnd` by words. The subtraction goes round if a window begins before the first second. -/
def windowEnd (sec : Int64) (period : UInt64) : Option Int64 :=
  if period = 0 then none
  else
    let length := clamp period
    some (saturatingAdd (sec - remainder sec length) length)

variable {a b sec : Int64} {period : UInt64}

theorem toInt_clamp (n : UInt64) : (clamp n).toInt = windowLength n.toNat := by
  have fits : n ≤ 9223372036854775807 ↔ n.toNat ≤ 9223372036854775807 := UInt64.le_iff_toNat_le
  rw [clamp, windowLength, lastSecond]
  split
  case isTrue small =>
    rw [fits] at small
    have toInt_eq : n.toInt64.toInt = n.toNat := by
      rw [← Int64.toInt_toBitVec, UInt64.toBitVec_toInt64, ← UInt64.toNat_toBitVec]
      apply BitVec.toInt_eq_toNat_of_lt
      rw [UInt64.toNat_toBitVec]
      omega
    omega
  case isFalse large =>
    rw [fits] at large
    rw [Int64.toInt_maxValue]
    omega

theorem toInt_remainder (positive : 0 < b.toInt) : (remainder a b).toInt = a.toInt % b.toInt := by
  have signed : a % b < 0 ↔ a.toInt.tmod b.toInt < 0 := by
    rw [Int64.lt_iff_toInt_lt, Int64.toInt_mod, Int64.toInt_zero]
  have tmod_eq : a.toInt.tmod b.toInt % b.toInt = a.toInt % b.toInt := by
    have split := Int.add_mul_emod_self_left (a.toInt.tmod b.toInt) b.toInt (a.toInt.tdiv b.toInt)
    rw [Int.tmod_add_mul_tdiv] at split
    exact split.symm
  have below := Int.tmod_lt_of_pos a.toInt positive
  have above := Int.lt_tmod_of_pos a.toInt positive
  have greatest := b.toInt_lt
  rw [remainder, ← tmod_eq]
  split
  case isTrue negative =>
    rw [signed] at negative
    rw [Int64.toInt_add, Int64.toInt_mod, Int.bmod_eq_of_le (by omega) (by omega), ← Int.add_emod_right]
    exact (Int.emod_eq_of_lt (by omega) (by omega)).symm
  case isFalse nonnegative =>
    rw [signed] at nonnegative
    rw [Int64.toInt_mod]
    exact (Int.emod_eq_of_lt (by omega) below).symm

theorem toInt_saturatingAdd (a b : Int64) :
    (saturatingAdd a b).toInt = max (-9223372036854775808) (min (a.toInt + b.toInt) lastSecond) := by
  have overflows : a.toBitVec.saddOverflow b.toBitVec = true ↔
      9223372036854775808 ≤ a.toInt + b.toInt ∨ a.toInt + b.toInt < -9223372036854775808 := by
    simp [BitVec.saddOverflow]
  have signed : b < 0 ↔ b.toInt < 0 := Int64.lt_iff_toInt_lt
  have low := a.le_toInt
  have high := a.toInt_lt
  rw [saturatingAdd, lastSecond]
  split
  case isTrue beyond =>
    rw [overflows] at beyond
    split
    case isTrue negative =>
      rw [signed] at negative
      rw [Int64.toInt_minValue]
      omega
    case isFalse nonnegative =>
      rw [signed] at nonnegative
      rw [Int64.toInt_maxValue]
      omega
  case isFalse within =>
    rw [overflows] at within
    rw [Int64.toInt_add, Int.bmod_eq_of_le (by omega) (by omega)]
    omega

theorem toInt_start (positive : 0 < b.toInt)
    (inside : -9223372036854775808 ≤ a.toInt - a.toInt % b.toInt) :
    (a - remainder a b).toInt = a.toInt - a.toInt % b.toInt := by
  have least := Int.emod_nonneg a.toInt (Int.ne_of_gt positive)
  have high := a.toInt_lt
  rw [Int64.toInt_sub, toInt_remainder positive, Int.bmod_eq_of_le (by omega) (by omega)]

/-- Words give the end of every window that begins in the range of seconds. -/
theorem map_toInt_windowEnd (positive : 0 < period)
    (inside : BeginsInRange sec.toInt period.toNat) :
    (windowEnd sec period).map Int64.toInt = Rotation.windowEnd sec.toInt period.toNat := by
  rw [BeginsInRange] at inside
  have positive' : 0 < period.toNat := UInt64.lt_iff_toNat_lt.1 positive
  have nonzero : period ≠ 0 := fun zero => by simp [zero] at positive'
  have length := toInt_clamp period
  have long : 0 < (clamp period).toInt := length ▸ windowLength_pos positive'
  have start := toInt_start long (length ▸ inside)
  rw [windowEnd, if_neg nonzero, Rotation.windowEnd, if_neg (Nat.ne_of_gt positive'), Option.map_some,
    toInt_saturatingAdd, start, length]
  -- An end is behind its beginning, so nothing is cut off at the first second.
  have bounded := windowLength_pos positive'
  rw [Int.max_eq_right (by rw [lastSecond]; omega)]
  rfl

/-- The minute of the first second begins before it, and the subtraction goes round to the other end. -/
example : windowEnd Int64.minValue 60 = some Int64.maxValue := by decide

end Word

/-- For each period and each second whose window begins in the range of seconds, words and numbers give the
same end of the window. It is the next multiple of the length, and in place of a greater one the last second.
It is behind the second, unless that is the last, and by no more than the length. It is the same throughout a
window, and no later second has an earlier one. -/
theorem windowEnd_aligned {period : UInt64} {sec : Int64} (positive : 0 < period)
    (inside : BeginsInRange sec.toInt period.toNat) :
    ∃ last : Int, windowEnd sec.toInt period.toNat = some last ∧
      (Word.windowEnd sec period).map Int64.toInt = some last ∧
      last = min lastSecond ((sec.toInt / windowLength period.toNat + 1) * windowLength period.toNat) ∧
      (sec.toInt < last ↔ sec.toInt ≠ lastSecond) ∧
      last ≤ sec.toInt + windowLength period.toNat ∧
      ((sec.toInt / windowLength period.toNat + 1) * windowLength period.toNat ≤ lastSecond →
        windowLength period.toNat ∣ last) ∧
      ∀ later : Int64, BeginsInRange later.toInt period.toNat →
        ∀ next, windowEnd later.toInt period.toNat = some next →
          (sec.toInt / windowLength period.toNat = later.toInt / windowLength period.toNat → last = next) ∧
            (sec.toInt ≤ later.toInt → last ≤ next) := by
  have positive' : 0 < period.toNat := UInt64.lt_iff_toNat_lt.1 positive
  have range : sec.toInt ≤ lastSecond := Int.le_of_lt_add_one sec.toInt_lt
  have found := (windowEnd_eq_some_iff sec.toInt positive').2 rfl
  refine ⟨_, found, ?_, rfl, lt_windowEnd_iff positive' range found, windowEnd_le positive' found,
    fun reached => dvd_windowEnd positive' reached found, fun later _ next found' => ⟨?_, ?_⟩⟩
  · rw [Word.map_toInt_windowEnd positive inside, found]
  · intro window_eq
    exact windowEnd_eq_of_window_eq positive' window_eq found found'
  · intro le
    exact windowEnd_mono positive' le found found'

/-- With the greatest period the window that begins with the first second but one ends at the epoch, and the
window of the last second is cut off there. -/
theorem ends_of_longest_windows :
    let period : UInt64 := 18446744073709551615
    let first : Int64 := -9223372036854775807
    0 < period ∧ BeginsInRange first.toInt period.toNat ∧
      windowEnd first.toInt period.toNat = some 0 ∧ Word.windowEnd first period = some 0 ∧
      windowEnd Int64.maxValue.toInt period.toNat = some Int64.maxValue.toInt := by
  intro period first
  have positive : 0 < period := by decide
  have inside : BeginsInRange first.toInt period.toNat := by decide
  obtain ⟨last, ends, words, value, -⟩ := windowEnd_aligned positive inside
  have epoch : last = 0 := value.trans (by decide)
  obtain ⟨word, given, word_eq⟩ := Option.map_eq_some_iff.1 words
  have zero : word = 0 := Int64.toInt_inj.1 (word_eq.trans epoch)
  obtain ⟨cut, ends', -, value', -⟩ :=
    windowEnd_aligned positive (show BeginsInRange Int64.maxValue.toInt period.toNat by decide)
  have cut_eq : cut = Int64.maxValue.toInt := value'.trans (by decide)
  exact ⟨positive, inside, epoch ▸ ends, zero ▸ given, cut_eq ▸ ends'⟩

end RollingCapture.Rotation
