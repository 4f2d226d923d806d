/-! Numbers as fixed runs of bytes, in either byte order. -/
namespace RollingCapture.Bytes

/-- The low `width` bytes of `n`, least significant first. -/
def littleEndian : Nat → Nat → List UInt8
  | 0, _ => []
  | width + 1, n => n.toUInt8 :: littleEndian width (n / 256)

def ofLittleEndian : List UInt8 → Nat
  | [] => 0
  | b :: rest => b.toNat + 256 * ofLittleEndian rest

def ofBigEndian (bytes : List UInt8) : Nat := ofLittleEndian bytes.reverse

theorem length_littleEndian (width n : Nat) : (littleEndian width n).length = width := by
  induction width generalizing n with
  | zero => rfl
  | succ width ih => simp [littleEndian, ih]

/-- How many numbers `width` bytes can tell apart. -/
def span : Nat → Nat
  | 0 => 1
  | width + 1 => 256 * span width

/-- A number reads back up to a multiple of the span. -/
theorem ofLittleEndian_littleEndian (width n : Nat) :
    ofLittleEndian (littleEndian width n) = n % span width := by
  induction width generalizing n with
  | zero => simp [littleEndian, ofLittleEndian, span, Nat.mod_one]
  | succ width ih => rw [littleEndian, ofLittleEndian, ih, span, Nat.mod_mul]; simp

theorem ofLittleEndian_lt (bytes : List UInt8) : ofLittleEndian bytes < span bytes.length := by
  induction bytes with
  | nil => decide
  | cons b rest ih =>
    have digit := b.toNat_lt
    simp only [ofLittleEndian, List.length_cons, span]
    omega

def word (n : UInt32) : List UInt8 := littleEndian 4 n.toNat

/-- The four low bytes of any integer in two's complement, least significant first. -/
def lowWord (n : Int) : List UInt8 := littleEndian 4 (n % span 4).toNat

@[simp] theorem length_word (n : UInt32) : (word n).length = 4 := length_littleEndian _ _

@[simp] theorem length_lowWord (n : Int) : (lowWord n).length = 4 := length_littleEndian _ _

@[simp] theorem ofLittleEndian_word (n : UInt32) : ofLittleEndian (word n) = n.toNat := by
  rw [word, ofLittleEndian_littleEndian]
  exact Nat.mod_eq_of_lt n.toNat_lt

@[simp] theorem ofLittleEndian_lowWord (n : Int) :
    (ofLittleEndian (lowWord n) : Int) = n % 4294967296 := by
  have size : span 4 = 4294967296 := by decide
  have bound : 0 ≤ n % 4294967296 := Int.emod_nonneg _ (by decide)
  have less : n % 4294967296 < 4294967296 := Int.emod_lt_of_pos _ (by decide)
  rw [lowWord, ofLittleEndian_littleEndian, size, Nat.mod_eq_of_lt (by omega)]
  exact Int.toNat_of_nonneg bound

end RollingCapture.Bytes
