import RollingCapture.Text.Utf8
import Mathlib.Tactic.IntervalCases

/-! Every text is read back from its bytes. A character is one, two, three or four bytes, by its size; the
first byte says how many, and the others hold six bits each. -/
namespace RollingCapture.Text.Utf8

variable {index x : Nat} {p : Pending} {rest : List UInt8}

/-- A byte from 0x80 on begins what it can begin. -/
theorem decodeFrom_lead {b : UInt8} (start : Pending.start? b = some p) :
    decodeFrom index none (b :: rest) = decodeFrom index (some p) rest := by
  have high : ¬ b < 0x80 := by
    intro low
    have : b < 0xC2 := UInt8.lt_trans low (by decide)
    simp [Pending.start?, this] at start
  rw [decodeFrom, if_neg high, start]

/-- A byte of six bits goes on with the character. -/
theorem decodeFrom_tail (bits : x < 64) (low : p.low.toNat ≤ x + 128) (high : x + 128 ≤ p.high.toNat) :
    decodeFrom index (some p) (UInt8.ofNat (x + 128) :: rest) =
      if p.need = 1 then
        (Char.ofNat (p.bits * 64 + x) :: ·) <$> decodeFrom (index + p.seen + 1) none rest
      else decodeFrom index (some ⟨p.seen + 1, p.need - 1, 0x80, 0xBF, p.bits * 64 + x⟩) rest := by
  have byte : (UInt8.ofNat (x + 128)).toNat = x + 128 := UInt8.toNat_ofNat_of_lt' (show x + 128 < 256 by omega)
  have low : p.low ≤ UInt8.ofNat (x + 128) := by rw [UInt8.le_iff_toNat_le, byte]; exact low
  have high : UInt8.ofNat (x + 128) ≤ p.high := by rw [UInt8.le_iff_toNat_le, byte]; exact high
  have six : (x + 128) % 64 = x := by omega
  rw [decodeFrom]
  simp only [low, high, decide_true, Bool.and_self, if_true, byte, six]

theorem start?_two (most : 2 ≤ x) (least : x < 32) :
    Pending.start? (UInt8.ofNat (x + 192)) = some ⟨1, 1, 0x80, 0xBF, x⟩ := by
  interval_cases x <;> rfl

/-- No character of three bytes is below 0x800, and none is a surrogate. -/
theorem start?_three (least : x < 16) :
    Pending.start? (UInt8.ofNat (x + 224)) =
      some ⟨1, 2, if x = 0 then 0xA0 else 0x80, if x = 13 then 0x9F else 0xBF, x⟩ := by
  interval_cases x <;> rfl

/-- No character of four bytes is below 0x10000, and none is past 0x10FFFF. -/
theorem start?_four (least : x < 5) :
    Pending.start? (UInt8.ofNat (x + 240)) =
      some ⟨1, 3, if x = 0 then 0x90 else 0x80, if x = 4 then 0x8F else 0xBF, x⟩ := by
  interval_cases x <;> rfl

/-- Decoding takes a character's own bytes and goes on behind them. -/
theorem decodeFrom_encodeChar (c : Char) (index : Nat) (rest : List UInt8) :
    ∃ next, decodeFrom index none (String.utf8EncodeChar c ++ rest) =
      (c :: ·) <$> decodeFrom next none rest := by
  have valid : c.toNat < 0xD800 ∨ 0xDFFF < c.toNat ∧ c.toNat < 0x110000 := c.valid
  have code : Char.ofNat c.toNat = c := Char.ofNat_toNat c
  simp only [String.utf8EncodeChar]
  rw [show c.val.toNat = c.toNat from rfl]
  generalize c.toNat = v at valid code
  split
  · refine ⟨index + 1, ?_⟩
    have byte : (UInt8.ofNat v).toNat = v := UInt8.toNat_ofNat_of_lt' (show v < 256 by omega)
    have ascii : UInt8.ofNat v < 0x80 := by
      rw [UInt8.lt_iff_toNat_lt, byte]
      exact show v < 128 by omega
    rw [List.singleton_append, decodeFrom, if_pos ascii, byte, code]
  · split
    · refine ⟨index + 1 + 1, ?_⟩
      have whole : v / 64 % 32 * 64 + v % 64 = v := by omega
      rw [List.cons_append, List.singleton_append,
        decodeFrom_lead (start?_two (by omega) (Nat.mod_lt _ (by decide))),
        decodeFrom_tail (Nat.mod_lt _ (by decide)) (by simp) (by simp; omega)]
      simp only [if_true, whole, code]
    · split
      · refine ⟨index + 2 + 1, ?_⟩
        have whole : (v / 4096 % 16 * 64 + v / 64 % 64) * 64 + v % 64 = v := by omega
        rw [List.cons_append, List.cons_append, List.singleton_append,
          decodeFrom_lead (start?_three (Nat.mod_lt _ (by decide))),
          decodeFrom_tail (Nat.mod_lt _ (by decide)) (by dsimp only; split <;> simp; omega)
            (by dsimp only; split <;> simp <;> omega), if_neg (by simp),
          decodeFrom_tail (Nat.mod_lt _ (by decide)) (by simp) (by simp; omega)]
        simp only [if_true, whole, code]
      · refine ⟨index + 3 + 1, ?_⟩
        have whole : ((v / 262144 % 8 * 64 + v / 4096 % 64) * 64 + v / 64 % 64) * 64 + v % 64 = v := by
          omega
        rw [List.cons_append, List.cons_append, List.cons_append, List.singleton_append,
          decodeFrom_lead (start?_four (by omega)),
          decodeFrom_tail (Nat.mod_lt _ (by decide)) (by dsimp only; split <;> simp; omega)
            (by dsimp only; split <;> simp <;> omega), if_neg (by simp),
          decodeFrom_tail (Nat.mod_lt _ (by decide)) (by simp) (by simp; omega), if_neg (by simp),
          decodeFrom_tail (Nat.mod_lt _ (by decide)) (by simp) (by simp; omega)]
        simp only [if_true, whole, code]

theorem decodeFrom_flatMap (text : List Char) (index : Nat) :
    decodeFrom index none (text.flatMap String.utf8EncodeChar) = .ok text := by
  induction text generalizing index with
  | nil => rw [List.flatMap_nil, decodeFrom]
  | cons c text ih =>
    obtain ⟨next, step⟩ := decodeFrom_encodeChar c index (text.flatMap String.utf8EncodeChar)
    rw [List.flatMap_cons, step, ih]
    rfl

theorem encode_eq (text : String) : encode text = text.toList.flatMap String.utf8EncodeChar := by
  rw [encode, String.toUTF8, ← String.utf8Encode_toList, List.utf8Encode, List.toList_data_toByteArray]

theorem decode_encode (text : String) : decode (encode text) = .ok text := by
  rw [decode, encode_eq, decodeFrom_flatMap]
  exact congrArg Except.ok (String.ofList_toList)

end RollingCapture.Text.Utf8
