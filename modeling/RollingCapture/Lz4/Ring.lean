/-! The room for the blocks of a linked frame. They are laid down one behind the other in a ring of
two blocks and a window, the window being how far copies reach back. Where a whole block might not
fit any more, the ring starts over at its beginning, and the last window of bytes stays in place
until as many new ones have come. Until then a block may grow up to the bytes that stay, and these
begin beyond a whole block (`maxBlock_le_room`); afterwards a block has its usual size at most. -/
namespace RollingCapture.Lz4

/-- Where the blocks of a linked frame are laid down. -/
structure Ring where
  position : Nat := 0
  /-- Where the bytes begin that stayed in place when the ring last started over. -/
  kept : Option Nat := none
  deriving DecidableEq, Repr

namespace Ring

/-- How far copies reach back. -/
def window : Nat := 65536

def capacity (maxBlock : Nat) : Nat := 2 * maxBlock + window

/-- Starts over where a whole block might not fit. -/
def turn (r : Ring) (maxBlock : Nat) : Ring :=
  if capacity maxBlock < r.position + maxBlock then
    { position := 0, kept := some (r.position - window) }
  else r

def room (r : Ring) (maxBlock : Nat) : Nat :=
  match r.kept with
  | none => maxBlock
  | some start => if r.position < window then start else maxBlock

def advance (r : Ring) (size : Nat) : Ring := { r with position := r.position + size }

/-- What stays in place begins beyond a whole block. -/
def Fits (r : Ring) (maxBlock : Nat) : Prop := ∀ start ∈ r.kept, maxBlock ≤ start

theorem fits_empty (maxBlock : Nat) : Fits {} maxBlock := by simp [Fits]

theorem Fits.turn {r : Ring} {maxBlock : Nat} (h : r.Fits maxBlock) :
    (r.turn maxBlock).Fits maxBlock := by
  unfold Ring.turn
  split
  · rename_i full
    intro start found
    obtain rfl := Option.some.inj found
    simp only [capacity] at full
    omega
  · exact h

theorem Fits.advance {r : Ring} {maxBlock : Nat} (h : r.Fits maxBlock) (size : Nat) :
    (r.advance size).Fits maxBlock := h

theorem maxBlock_le_room {r : Ring} {maxBlock : Nat} (h : r.Fits maxBlock) :
    maxBlock ≤ r.room maxBlock := by
  unfold room
  split
  · exact Nat.le_refl _
  · rename_i start found
    split
    · exact h start found
    · exact Nat.le_refl _

end Ring

end RollingCapture.Lz4
