import RollingCapture.Settings
import RollingCapture.Proofs.Text.Blank
import Mathlib.Data.List.Forall2
import Mathlib.Data.Nat.Digits.Defs
import Mathlib.Tactic.IntervalCases

/-! The texts that are sizes and the sizes they are, with no bound on a number. Reading keeps every number
below the limit, digit by digit. No number shrinks while digits are added to it, so one that reaches the
limit on the way is above it at the end too. -/
namespace RollingCapture.Text.Size

open List (Forall₂)

/-- `c` is the ASCII digit for `d`. -/
def Digit (base : Nat) (c : Char) (d : Nat) : Prop :=
  d < base ∧ ("0123456789abcdef".toList[d]? = some c ∨ "0123456789ABCDEF".toList[d]? = some c)

/-- `digits` have the value `v`. There is one digit at least, and as many zeros in front as there may be. -/
def Digits (base : Nat) (digits : List Char) (v : Nat) : Prop :=
  digits ≠ [] ∧ ∃ values, Forall₂ (Digit base) digits values ∧ v = Nat.ofDigits base values.reverse

/-- `text` is a number of value `v`, with or without a plus sign. -/
def Numeral (base : Nat) (text : List Char) (v : Nat) : Prop :=
  ∃ sign digits, text = sign ++ digits ∧ (sign = [] ∨ sign = ['+']) ∧ Digits base digits v

/-- A decimal number, or a hexadecimal one behind its prefix. -/
inductive Body : List Char → Nat → Prop where
  | decimal {text v} (number : Numeral 10 text v) : Body text v
  | hexadecimal {text v} {x : Char} (either : x = 'x' ∨ x = 'X') (number : Numeral 16 text v) :
    Body ('0' :: x :: text) v

/-- The factor at the end of a size. -/
inductive Suffix : List Char → Nat → Prop where
  | none : Suffix [] 1
  | thousands {c} (letter : c = 'k' ∨ c = 'K') : Suffix [c] (10 ^ 3)
  | millions {c} (letter : c = 'm' ∨ c = 'M') : Suffix [c] (10 ^ 6)
  | billions {c} (letter : c = 'g' ∨ c = 'G') : Suffix [c] (10 ^ 9)

/-- `text` is a size of `n` bytes, however many that are. -/
def Written (text : List Char) (n : Nat) : Prop :=
  ∃ body suffix v factor, text = body ++ suffix ∧ Body body v ∧ Suffix suffix factor ∧ n = v * factor

variable {base n m d d' v v' : Nat} {c : Char} {text digits : List Char} {values : List Nat}

theorem checked_eq_some_iff : checked n = some m ↔ n < limit ∧ m = n := by
  unfold checked
  split <;> simp_all [eq_comm]

theorem code_of_digit? (read : digit? c = some d) :
    c = Char.ofNat (d + 48) ∧ d < 10 ∨ (c = Char.ofNat (d + 87) ∨ c = Char.ofNat (d + 55)) ∧ 10 ≤ d := by
  have range (low high : Char) : low ≤ c ∧ c ≤ high ↔ low.toNat ≤ c.toNat ∧ c.toNat ≤ high.toNat := by
    simp only [Char.le_def, UInt32.le_iff_toNat_le]
    rfl
  have code {k : Nat} (toNat_eq : c.toNat = k) : c = Char.ofNat k := by rw [← toNat_eq, Char.ofNat_toNat]
  simp only [digit?, range, Char.reduceToNat] at read
  split at read
  · cases read
    exact .inl ⟨code (by omega), by omega⟩
  · split at read
    · cases read
      exact .inr ⟨.inl (code (by omega)), by omega⟩
    · obtain ⟨inside, some_eq⟩ := Option.ite_none_right_eq_some.1 read
      cases some_eq
      exact .inr ⟨.inr (code (by omega)), by omega⟩

theorem digit_iff (small : base ≤ 16) : (digit? c).filter (· < base) = some d ↔ Digit base c d := by
  rw [Option.filter_eq_some_iff, decide_eq_true_eq, and_comm]
  refine and_congr_right fun below => ?_
  have bound : d < 16 := Nat.lt_of_lt_of_le below small
  constructor
  · intro read
    have codes := code_of_digit? read
    interval_cases d <;> simp at codes ⊢ <;> tauto
  · intro place
    interval_cases d <;> rcases place with place | place <;> cases place <;> rfl

theorem append?_eq_some_iff (small : base ≤ 16) :
    append? base n c = some m ↔ ∃ d, Digit base c d ∧ m = n * base + d ∧ m < limit := by
  simp only [append?, Option.bind_eq_bind, Option.bind_eq_some_iff, checked_eq_some_iff, digit_iff small]
  constructor
  · rintro ⟨d, digit, _, ⟨-, rfl⟩, below, rfl⟩
    exact ⟨d, digit, rfl, below⟩
  · rintro ⟨d, digit, rfl, below⟩
    exact ⟨d, digit, _, ⟨Nat.lt_of_le_of_lt (Nat.le_add_right _ d) below, rfl⟩, below, rfl⟩

/-- The digits' own number, with the number in front of them as many places up. -/
def shifted (base n : Nat) (values : List Nat) : Nat :=
  Nat.ofDigits base values.reverse + n * base ^ values.length

theorem shifted_cons : shifted base n (d :: values) = shifted base (n * base + d) values := by
  simp only [shifted, Nat.ofDigits_reverse_cons, List.length_cons]
  ring

theorem le_shifted (positive : 0 < base) : n ≤ shifted base n values :=
  Nat.le_trans (Nat.le_mul_of_pos_right n (Nat.pow_pos positive)) (Nat.le_add_left _ _)

/-- By induction on the digits. A number below the limit was below it after every digit. -/
theorem foldlM_append?_iff (positive : 0 < base) (small : base ≤ 16) (below : n < limit) :
    digits.foldlM (append? base) n = some m ↔
      ∃ values, Forall₂ (Digit base) digits values ∧ m = shifted base n values ∧ m < limit := by
  induction digits generalizing n with
  | nil =>
    simp only [List.foldlM_nil, Option.pure_def, Option.some.injEq, List.forall₂_nil_left_iff]
    simp [shifted]
    omega
  | cons c rest ih =>
    simp only [List.foldlM_cons, Option.bind_eq_bind, Option.bind_eq_some_iff,
      append?_eq_some_iff small, List.forall₂_cons_left_iff]
    constructor
    · rintro ⟨next, ⟨d, digit, rfl, below'⟩, read⟩
      obtain ⟨values, digits, rfl, final⟩ := (ih below').1 read
      exact ⟨d :: values, ⟨d, values, digit, digits, rfl⟩, shifted_cons.symm, final⟩
    · rintro ⟨_, ⟨d, values, digit, digits, rfl⟩, rfl, final⟩
      rw [shifted_cons] at final
      have below' := Nat.lt_of_le_of_lt (le_shifted positive) final
      exact ⟨_, ⟨d, digit, rfl, below'⟩, (ih below').2 ⟨values, digits, shifted_cons, shifted_cons ▸ final⟩⟩

theorem not_digit_plus : ¬ Digit base '+' d := by
  rintro ⟨-, place⟩
  have noPlus : '+' ∉ "0123456789abcdef".toList ++ "0123456789ABCDEF".toList := by decide
  rw [List.mem_append, not_or] at noPlus
  exact place.elim (noPlus.1 ∘ List.mem_of_getElem?) (noPlus.2 ∘ List.mem_of_getElem?)

theorem digits_iff (positive : 0 < base) (small : base ≤ 16) :
    (if digits.isEmpty then none else digits.foldlM (append? base) 0) = some v ↔
      Digits base digits v ∧ v < limit := by
  have start : 0 < limit := by decide
  simp only [Option.ite_none_left_eq_some, List.isEmpty_iff, foldlM_append?_iff positive small start, Digits,
    shifted, Nat.zero_mul, Nat.add_zero, and_assoc, ← exists_and_right, ne_eq]

theorem numeral_plus_iff : Numeral base ('+' :: text) v ↔ Digits base text v := by
  constructor
  · rintro ⟨_, digits, whole, rfl | rfl, nonempty, values, each, value⟩
    · obtain rfl : '+' :: text = digits := whole
      cases each with
      | cons digit _ => exact absurd digit not_digit_plus
    · obtain rfl : text = digits := by simpa using whole
      exact ⟨nonempty, values, each, value⟩
  · exact fun number => ⟨['+'], text, rfl, .inr rfl, number⟩

theorem numeral_iff (unsigned : ∀ rest, text ≠ '+' :: rest) : Numeral base text v ↔ Digits base text v := by
  constructor
  · rintro ⟨_, digits, rfl, rfl | rfl, number⟩
    · exact number
    · exact absurd rfl (unsigned digits)
  · exact fun number => ⟨[], text, rfl, .inl rfl, number⟩

theorem number?_iff (positive : 0 < base) (small : base ≤ 16) :
    number? base text = some v ↔ Numeral base text v ∧ v < limit := by
  unfold number?
  split
  · rw [digits_iff positive small, numeral_plus_iff]
  · rename_i unsigned
    rw [digits_iff positive small, numeral_iff unsigned]

/-- A letter behind the first zero belongs to the prefix of a hexadecimal number. -/
theorem not_numeral_ten (either : c = 'x' ∨ c = 'X') : ¬ Numeral 10 ('0' :: c :: text) v := by
  rw [numeral_iff (by simp)]
  rintro ⟨-, values, each, -⟩
  obtain ⟨_, _, -, rest, -⟩ := List.forall₂_cons_left_iff.1 each
  obtain ⟨d, _, ⟨below, place⟩, -, -⟩ := List.forall₂_cons_left_iff.1 rest
  rcases either with rfl | rfl <;> interval_cases d <;> simp at place

theorem body?_iff : body? text = some v ↔ Body text v ∧ v < limit := by
  have hexadecimal {c : Char} {rest : List Char} (either : c = 'x' ∨ c = 'X') :
      number? 16 rest = some v ↔ Body ('0' :: c :: rest) v ∧ v < limit := by
    rw [number?_iff (by decide) (by decide)]
    refine and_congr_left fun _ => ⟨.hexadecimal either, fun body => ?_⟩
    cases body with
    | decimal number => exact absurd number (not_numeral_ten either)
    | hexadecimal _ number => exact number
  unfold body?
  split
  · exact hexadecimal (.inl rfl)
  · exact hexadecimal (.inr rfl)
  · rename_i small capital
    rw [number?_iff (by decide) (by decide)]
    refine and_congr_left fun _ => ⟨.decimal, fun body => ?_⟩
    cases body with
    | decimal number => exact number
    | hexadecimal either _ =>
      rcases either with rfl | rfl
      · exact absurd rfl (small _)
      · exact absurd rfl (capital _)

theorem factor?_eq_some_iff : factor? c = some n ↔ Suffix [c] n := by
  constructor
  · unfold factor?
    intro read
    split at read <;> cases read
    · exact .thousands (.inl rfl)
    · exact .thousands (.inr rfl)
    · exact .millions (.inl rfl)
    · exact .millions (.inr rfl)
    · exact .billions (.inl rfl)
    · exact .billions (.inr rfl)
  · rintro (_ | ⟨rfl | rfl⟩ | ⟨rfl | rfl⟩ | ⟨rfl | rfl⟩) <;> rfl

theorem factor?_of_digit (small : base ≤ 16) (digit : Digit base c d) : factor? c = none := by
  obtain ⟨below, place⟩ := digit
  have bound : d < 16 := Nat.lt_of_lt_of_le below small
  interval_cases d <;> rcases place with place | place <;> cases place <;> rfl

theorem digit_of_mem (each : Forall₂ (Digit base) digits values) (member : c ∈ digits) :
    ∃ d, Digit base c d := by
  induction each with
  | nil => cases member
  | cons digit _ ih =>
    rcases List.mem_cons.1 member with rfl | member
    · exact ⟨_, digit⟩
    · exact ih member

theorem Numeral.last (small : base ≤ 16) (number : Numeral base text v) (front : List Char) :
    ∃ c, (front ++ text).getLast? = some c ∧ factor? c = none := by
  obtain ⟨sign, digits, rfl, -, nonempty, values, each, -⟩ := number
  obtain ⟨d, digit⟩ := digit_of_mem each (List.getLast_mem nonempty)
  refine ⟨_, ?_, factor?_of_digit small digit⟩
  rw [← List.append_assoc, List.getLast?_append_of_ne_nil _ nonempty, List.getLast?_eq_some_getLast nonempty]

/-- No number ends in a letter that is a factor. -/
theorem Body.last (body : Body text v) : ∃ c, text.getLast? = some c ∧ factor? c = none := by
  cases body with
  | decimal number => exact number.last (by decide) []
  | hexadecimal _ number => exact number.last (by decide) ['0', _]

theorem suffix_split (text : List Char) :
    ∃ suffix, text = (split text).1 ++ suffix ∧ Suffix suffix (split text).2 := by
  unfold split
  split
  · rename_i factor read
    obtain ⟨c, last, letter⟩ := Option.bind_eq_some_iff.1 read
    exact ⟨[c], (List.dropLast_append_getLast? c last).symm, factor?_eq_some_iff.1 letter⟩
  · exact ⟨[], (List.append_nil text).symm, .none⟩

theorem split_append (body : Body text v) {suffix : List Char} (factor : Suffix suffix n) :
    split (text ++ suffix) = (text, n) := by
  have letter {c : Char} (factor : Suffix [c] n) : split (text ++ [c]) = (text, n) := by
    simp [split, factor?_eq_some_iff.2 factor]
  cases factor with
  | none =>
    obtain ⟨c, last, other⟩ := body.last
    simp [split, last, other]
  | thousands either => exact letter (.thousands either)
  | millions either => exact letter (.millions either)
  | billions either => exact letter (.billions either)

theorem written_iff : Written text n ↔ ∃ v, Body (split text).1 v ∧ n = v * (split text).2 := by
  constructor
  · rintro ⟨_, _, v, factor, rfl, body, suffix, rfl⟩
    rw [split_append body suffix]
    exact ⟨v, body, rfl⟩
  · rintro ⟨v, body, rfl⟩
    obtain ⟨suffix, whole, factor⟩ := suffix_split text
    exact ⟨_, suffix, v, _, whole, body, factor, rfl⟩

theorem Suffix.pos {suffix : List Char} (factor : Suffix suffix n) : 0 < n := by
  cases factor <;> decide

theorem parse?_iff {text : String} :
    parse? text = some n ↔ Written (trim text.toList) n ∧ n < limit := by
  obtain ⟨suffix, -, factor⟩ := suffix_split (trim text.toList)
  simp only [parse?, Option.bind_eq_bind, Option.bind_eq_some_iff, checked_eq_some_iff, body?_iff,
    written_iff]
  constructor
  · rintro ⟨v, ⟨body, -⟩, below, rfl⟩
    exact ⟨⟨v, body, rfl⟩, below⟩
  · rintro ⟨⟨v, body, rfl⟩, below⟩
    exact ⟨v, ⟨body, Nat.lt_of_le_of_lt (Nat.le_mul_of_pos_right v factor.pos) below⟩, below, rfl⟩

/-- The first text is fifteen thousand, the second one is the least whole number of billions too large. -/
example : parse? " 0x+0fK\t" = some 15000 ∧ parse? "18446744074g" = none := by decide +kernel

theorem digit_rightUnique (small : base ≤ 16) : Relator.RightUnique (Digit base) :=
  fun _ _ _ one other =>
    Option.some.inj (((digit_iff small).2 one).symm.trans ((digit_iff small).2 other))

theorem Numeral.unique (small : base ≤ 16) (one : Numeral base text v) (other : Numeral base text v') :
    v = v' := by
  have digits {digits : List Char} (one : Digits base digits v) (other : Digits base digits v') : v = v' := by
    obtain ⟨-, values, each, rfl⟩ := one
    obtain ⟨-, values', each', rfl⟩ := other
    rw [(digit_rightUnique small).forall₂ each each']
  by_cases signed : ∃ rest, text = '+' :: rest
  · obtain ⟨rest, rfl⟩ := signed
    exact digits (numeral_plus_iff.1 one) (numeral_plus_iff.1 other)
  · have unsigned (rest : List Char) : text ≠ '+' :: rest := fun text_eq => signed ⟨rest, text_eq⟩
    exact digits ((numeral_iff unsigned).1 one) ((numeral_iff unsigned).1 other)

theorem Body.unique (one : Body text v) (other : Body text v') : v = v' := by
  cases one with
  | decimal number =>
    cases other with
    | decimal number' => exact number.unique (by decide) number'
    | hexadecimal either _ => exact absurd number (not_numeral_ten either)
  | hexadecimal either number =>
    cases other with
    | decimal number' => exact absurd number' (not_numeral_ten either)
    | hexadecimal _ number' => exact number.unique (by decide) number'

/-- A text is one size at most. -/
theorem Written.unique (one : Written text n) (other : Written text m) : n = m := by
  obtain ⟨v, body, rfl⟩ := written_iff.1 one
  obtain ⟨v', body', rfl⟩ := written_iff.1 other
  rw [body.unique body']

end RollingCapture.Text.Size

namespace RollingCapture

open Text

/-- A setting's size is what is written between the white space around it, if that is below the 64th power
of two. Every other text is refused, the sizes from there on too. -/
theorem Settings.size_eq_written (text : String) :
    ∃ inner, Trims text.toList inner ∧
      (∀ n, Settings.size text = .ok n ↔ Size.Written inner n ∧ n < 2 ^ 64) ∧
      (∀ n m, Size.Written inner n → Size.Written inner m → n = m) ∧
      ((¬ ∃ n, Size.Written inner n ∧ n < 2 ^ 64) →
        Settings.size text = .error (.invalidConfig (.notASize text))) := by
  have accepts (n : Nat) :
      Settings.size text = .ok n ↔ Size.Written (trim text.toList) n ∧ n < 2 ^ 64 := by
    rw [show (2 : Nat) ^ 64 = Size.limit from rfl, ← Size.parse?_iff, Settings.size]
    cases Size.parse? text <;> simp
  refine ⟨trim text.toList, trims_trim _, accepts, fun _ _ => Size.Written.unique, fun unwritten => ?_⟩
  cases read : Settings.size text with
  | ok n => exact absurd ⟨n, (accepts n).1 read⟩ unwritten
  | error e =>
    unfold Settings.size at read
    split at read <;> simp_all

end RollingCapture
