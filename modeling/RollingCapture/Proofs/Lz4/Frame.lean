import RollingCapture.Compression
import RollingCapture.Lz4.Frame

/-! What the frames written here are made of: a start, blocks that each stand for some bytes of the
content, and an end mark. The relation speaks of finished bytes only, not of how they came about. -/
namespace RollingCapture.Lz4

namespace Block

variable {limit limit' : Nat} {history out result : Array UInt8} {bytes literals rest : List UInt8}
  {offset count : Nat}

theorem decodeOnto_last (found : step? bytes = some (.last literals))
    (within : ¬ limit < (out ++ literals).size) :
    decodeOnto limit history out bytes = some (out ++ literals) := by
  rw [decodeOnto]
  split <;> simp_all

theorem decodeOnto_copy (found : step? bytes = some (.copy literals offset count rest))
    (within : ¬ (limit < (out ++ literals).size + count ∨ offset = 0 ∨
      history.size + (out ++ literals).size < offset)) :
    decodeOnto limit history out bytes =
      decodeOnto limit history (copyBack history (out ++ literals) offset count) rest := by
  rw [decodeOnto]
  split
  · simp_all
  · simp_all
  · rename_i again
    obtain ⟨rfl, rfl, rfl, rfl⟩ := Step.copy.inj (Option.some.inj (again.symm.trans found))
    exact if_neg within

theorem decodeOnto_of_le (wider : limit ≤ limit')
    (decoded : decodeOnto limit history out bytes = some result) :
    decodeOnto limit' history out bytes = some result := by
  fun_induction decodeOnto limit history out bytes with
  | case1 => contradiction
  | case2 => contradiction
  | case3 out bytes literals found grown within =>
    rw [decodeOnto_last found (fun beyond => within (Nat.lt_of_le_of_lt wider beyond))]
    exact decoded
  | case4 => contradiction
  | case5 out bytes literals offset count rest found grown within ih =>
    rw [decodeOnto_copy found (fun beyond =>
      within (beyond.imp_left (Nat.lt_of_le_of_lt wider)))]
    exact ih decoded

theorem decode_of_le {size size' : Nat} {bytes : List UInt8} {result : Array UInt8}
    (wider : size ≤ size') (decoded : decode size bytes = some result) :
    decode size' bytes = some result :=
  decodeOnto_of_le wider decoded

/-- An empty block stands for nothing, not even for no bytes. -/
theorem decodeAfter_nil (history : Array UInt8) (size : Nat) : decodeAfter history size [] = none := by
  rw [decodeAfter, decodeOnto]
  rfl

end Block

namespace Frame

namespace Mark

theorem length_bytes (mark : Mark) : mark.bytes.length = 4 := by
  cases mark <;> exact Bytes.length_littleEndian _ _

theorem ofWord_stop : ofWord (Bytes.ofLittleEndian stop.bytes) = stop := by decide

theorem ofWord_stored {size : Nat} (fits : size < topBit) :
    ofWord (Bytes.ofLittleEndian (stored size).bytes) = stored size := by
  have size_mod : (topBit + size) % Bytes.span 4 = topBit + size := by
    apply Nat.mod_eq_of_lt
    simp only [topBit, Bytes.span] at fits ⊢
    omega
  have top : 0 < topBit := by decide
  rw [bytes, Bytes.ofLittleEndian_littleEndian, size_mod, ofWord, if_neg (by omega),
    if_pos (Nat.le_add_right _ _), Nat.add_sub_cancel_left]

theorem ofWord_compressed {size : Nat} (positive : size ≠ 0) (fits : size < topBit) :
    ofWord (Bytes.ofLittleEndian (compressed size).bytes) = compressed size := by
  have size_mod : size % Bytes.span 4 = size := by
    apply Nat.mod_eq_of_lt
    simp only [topBit, Bytes.span] at fits ⊢
    omega
  rw [bytes, Bytes.ofLittleEndian_littleEndian, size_mod, ofWord, if_neg positive,
    if_neg (Nat.not_le.2 fits)]

end Mark

/-- `mark` and `bytes` are a block that stands for `content`. -/
inductive Packs (content : List UInt8) : Mark → List UInt8 → Prop where
  | stored : Packs content (.stored content.length) content
  | compressed {bytes : List UInt8} : bytes.length < content.length →
      Block.decode blockSize bytes = some content.toArray →
      Packs content (.compressed bytes.length) bytes

/-- `bytes` are blocks that stand for `content`, none of them empty and none but the last short. -/
inductive Blocks : (content bytes : List UInt8) → Prop where
  | nil : Blocks [] []
  | cons {block body content bytes : List UInt8} {mark : Mark} : block ≠ [] →
      block.length ≤ blockSize → block.length = blockSize ∨ content = [] → Packs block mark body →
      Blocks content bytes → Blocks (block ++ content) (mark.bytes ++ (body ++ bytes))

/-- `bytes` are a whole frame that stands for `content`. -/
def Encodes (bytes content : List UInt8) : Prop :=
  ∃ body, Blocks content body ∧ bytes = start ++ (body ++ Mark.stop.bytes)

theorem Blocks.snoc {content block bytes body : List UInt8} {mark : Mark}
    (first : Blocks content bytes) (full : blockSize ∣ content.length) (nonempty : block ≠ [])
    (fits : block.length ≤ blockSize) (packs : Packs block mark body) :
    Blocks (content ++ block) (bytes ++ (mark.bytes ++ body)) := by
  induction first with
  | nil => simpa using cons nonempty fits (.inr rfl) packs .nil
  | @cons front _ content _ _ frontSome frontFits frontFull frontPacks _ ih =>
    rw [List.length_append] at full
    have frontLength : front.length = blockSize := by
      rcases frontFull with length | last
      · exact length
      · rw [last, List.length_nil, Nat.add_zero] at full
        exact Nat.le_antisymm frontFits (Nat.le_of_dvd (List.length_pos_iff.2 frontSome) full)
    have behind : blockSize ∣ content.length := by
      rw [frontLength] at full
      exact (Nat.dvd_add_right (Nat.dvd_refl blockSize)).1 full
    rw [List.append_assoc, List.append_assoc, List.append_assoc]
    exact .cons frontSome frontFits (.inl frontLength) frontPacks (ih behind)

/-- A checked block stands for the bytes it was made of. -/
theorem packs_of_pack {c c' : Compressor} {block : Array UInt8} {mark : Mark} {bytes : List UInt8}
    (fits : block.size ≤ blockSize) (packed : pack c true block = ((mark, bytes), c')) :
    Packs block.toList mark bytes := by
  simp only [pack] at packed
  split at packed
  · rename_i small
    obtain ⟨⟨rfl, rfl⟩, -⟩ := packed
    apply Packs.compressed (by simpa using small.1)
    exact Block.decode_of_le fits (by simpa using small.2 trivial)
  · obtain ⟨⟨rfl, rfl⟩, -⟩ := packed
    rw [← Array.length_toList]
    exact .stored

end Frame

end RollingCapture.Lz4

/-- `bytes` are a file that holds `content`, stored in this way. -/
def RollingCapture.Compression.Stores (c : Compression) (bytes content : List UInt8) : Prop :=
  match c with
  | .plain => bytes = content
  | .lz4 => Lz4.Frame.Encodes bytes content
