/-! LZ4 blocks. A block is a run of sequences, each made of literal bytes and a copy of bytes that
came before, and ends with literals alone. Decoding refuses a block that breaks a rule; it never
delivers part of one. -/
namespace RollingCapture.Lz4.Block

def minMatch : Nat := 4

/-- The part of a length that follows a full four-bit field: bytes of 255 add up, any other byte
ends the length. -/
def longLength : List UInt8 → Option (Nat × List UInt8)
  | [] => none
  | b :: rest =>
    if b = 255 then (longLength rest).map fun (n, rest) => (n + 255, rest)
    else some (b.toNat, rest)

def length? (field : Nat) (bytes : List UInt8) : Option (Nat × List UInt8) :=
  if field = 15 then (longLength bytes).map fun (n, rest) => (n + 15, rest)
  else some (field, bytes)

inductive Step where
  | last (literals : List UInt8)
  /-- Literals, then a copy of `count` bytes from `offset` bytes back, then the rest. -/
  | copy (literals : List UInt8) (offset count : Nat) (rest : List UInt8)

/-- Splits the first sequence off a block. -/
def step? (bytes : List UInt8) : Option Step :=
  match bytes with
  | [] => none
  | token :: bytes =>
    match length? (token.toNat / 16) bytes with
    | none => none
    | some (size, bytes) =>
      let (literals, bytes) := bytes.splitAt size
      if literals.length < size then none
      else match bytes with
        | [] => some (.last literals)
        | [_] => none
        | low :: high :: bytes =>
          match length? (token.toNat % 16) bytes with
          | none => none
          | some (count, rest) =>
            some (.copy literals (low.toNat + 256 * high.toNat) (count + minMatch) rest)

theorem longLength_length {bytes rest : List UInt8} {n : Nat}
    (h : longLength bytes = some (n, rest)) : rest.length < bytes.length := by
  induction bytes generalizing n rest with
  | nil => simp [longLength] at h
  | cons b bytes ih =>
    unfold longLength at h
    split at h
    · obtain ⟨⟨m, tail⟩, inner, result_eq⟩ := Option.map_eq_some_iff.1 h
      obtain ⟨-, rfl⟩ := Prod.mk.injEq .. ▸ result_eq
      have := ih inner
      simp only [List.length_cons]
      omega
    · obtain ⟨-, rfl⟩ := Prod.mk.injEq .. ▸ Option.some.inj h
      simp

theorem length?_length {field n : Nat} {bytes rest : List UInt8}
    (h : length? field bytes = some (n, rest)) : rest.length ≤ bytes.length := by
  unfold length? at h
  split at h
  · obtain ⟨⟨m, tail⟩, inner, result_eq⟩ := Option.map_eq_some_iff.1 h
    obtain ⟨-, rfl⟩ := Prod.mk.injEq .. ▸ result_eq
    exact Nat.le_of_lt (longLength_length inner)
  · obtain ⟨-, rfl⟩ := Prod.mk.injEq .. ▸ Option.some.inj h
    exact Nat.le_refl _

theorem step?_length {bytes literals rest : List UInt8} {offset count : Nat}
    (h : step? bytes = some (.copy literals offset count rest)) : rest.length < bytes.length := by
  cases bytes with
  | nil => simp [step?] at h
  | cons token bytes =>
    simp only [step?, List.splitAt_eq] at h
    split at h
    · simp at h
    · rename_i size tail first
      split at h
      · simp at h
      · split at h
        · simp at h
        · simp at h
        · rename_i low high body cut
          split at h
          · simp at h
          · rename_i count' rest' second
            simp only [Option.some.injEq, Step.copy.injEq] at h
            obtain ⟨-, -, -, rfl⟩ := h
            have a := length?_length first
            have b := length?_length second
            have c : (tail.drop size).length ≤ tail.length := by simp
            rw [cut] at c
            simp only [List.length_cons] at c ⊢
            omega

/-- The byte `offset` bytes back from the end of `out`, which follows on `history`. -/
def byteBack (history out : Array UInt8) (offset : Nat) : UInt8 :=
  if offset ≤ out.size then out.getD (out.size - offset) 0
  else history.getD (history.size + out.size - offset) 0

/-- Copies `count` bytes from `offset` back, one at a time, so that a copy may run into itself. -/
def copyBack (history out : Array UInt8) (offset : Nat) : Nat → Array UInt8
  | 0 => out
  | count + 1 => copyBack history (out.push (byteBack history out offset)) offset count

/-- Decodes sequences onto `out`, which may not grow beyond `limit` bytes. Copies may reach back
into `history`. -/
def decodeOnto (limit : Nat) (history out : Array UInt8) (bytes : List UInt8) :
    Option (Array UInt8) :=
  match _h : step? bytes with
  | none => none
  | some (.last literals) =>
    let out := out ++ literals
    if limit < out.size then none else some out
  | some (.copy literals offset count rest) =>
    let out := out ++ literals
    if limit < out.size + count ∨ offset = 0 ∨ history.size + out.size < offset then none
    else decodeOnto limit history (copyBack history out offset count) rest
  termination_by bytes.length
  decreasing_by exact step?_length _h

/-- The bytes of a block of at most `size` bytes that follows on `history`. -/
def decodeAfter (history : Array UInt8) (size : Nat) (bytes : List UInt8) : Option (Array UInt8) :=
  decodeOnto size history #[] bytes

/-- The bytes of a block of at most `size` bytes that stands alone. -/
def decode (size : Nat) (bytes : List UInt8) : Option (Array UInt8) := decodeAfter #[] size bytes

end RollingCapture.Lz4.Block
