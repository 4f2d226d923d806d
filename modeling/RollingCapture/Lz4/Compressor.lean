import RollingCapture.Lz4.Block

/-! A greedy block compressor: a table remembers the last place of each five-byte hash, a hit is
checked, stretched both ways and emitted, and misses make the search take longer steps. The table
is kept from block to block, and places are counted from the start of the content, so that those of
earlier blocks are recognised and passed by. Nothing is claimed of the output here; whoever uses it
checks that it decodes. It does not if a block is compressed a second time, as each place found in
the table may then be the very place that is looked up. -/
namespace RollingCapture.Lz4

structure Compressor where
  table : Array Nat := Array.replicate 4096 0
  /-- Where the next block begins in the content. -/
  base : Nat := 0
  deriving Repr

namespace Compressor

/-- No copy begins within this many bytes of the end. -/
def matchMargin : Nat := 12

/-- No copy reaches into this many last bytes. -/
def endMargin : Nat := 6

/-- The farthest that a copy can reach back. -/
def maxDistance : Nat := 65535

/-- Eight bytes from `pos`, the first of them lowest. -/
def batch (input : Array UInt8) (pos : Nat) : UInt64 :=
  let at' (i : Nat) : UInt64 := (input.getD (pos + i) 0).toUInt64
  at' 0 ||| (at' 1 <<< 8) ||| (at' 2 <<< 16) ||| (at' 3 <<< 24) ||| (at' 4 <<< 32)
    ||| (at' 5 <<< 40) ||| (at' 6 <<< 48) ||| (at' 7 <<< 56)

/-- The table slot of the five bytes from `pos`. -/
def slot (input : Array UInt8) (pos : Nat) : Nat :=
  (((batch input pos <<< 24) * 889523592379) >>> 52).toNat

def sameWord (input : Array UInt8) (a b : Nat) : Bool :=
  input.getD a 0 = input.getD b 0 && input.getD (a + 1) 0 = input.getD (b + 1) 0
    && input.getD (a + 2) 0 = input.getD (b + 2) 0 && input.getD (a + 3) 0 = input.getD (b + 3) 0

/-- Searches from `pos` for a place whose next four bytes occurred before. The answer is that place
and the earlier one. -/
def search (input : Array UInt8) (base last : Nat) (table : Array Nat) (pos misses : Nat) :
    Option (Nat × Nat) × Array Nat :=
  if last < pos then (none, table)
  else
    let s := slot input pos
    let candidate := table.getD s 0
    let table := table.setIfInBounds s (base + pos)
    if base ≤ candidate && candidate ≤ base + pos && base + pos - candidate ≤ maxDistance
        && sameWord input (candidate - base) pos then
      (some (pos, candidate - base), table)
    else search input base last table (pos + 1 + misses / 32) (misses + 1)
  termination_by last + 1 - pos

/-- How far a copy can begin before `pos` and `candidate`, not before `start`. -/
def stretchBack (input : Array UInt8) (start : Nat) : Nat → Nat → Nat
  | pos + 1, candidate + 1 =>
    if start < pos + 1 && input.getD pos 0 = input.getD candidate 0 then
      stretchBack input start pos candidate + 1
    else 0
  | _, _ => 0

/-- How many bytes from `pos` and `candidate` on agree, up to `stop`. -/
def agree (input : Array UInt8) (stop pos candidate : Nat) : Nat :=
  if pos < stop && input.getD pos 0 = input.getD candidate 0 then
    agree input stop (pos + 1) (candidate + 1) + 1
  else 0
  termination_by stop - pos
  decreasing_by all_goals simp_all; omega

/-- The part of a length that does not fit its four-bit field. -/
def longLength (out : Array UInt8) (n : Nat) : Array UInt8 :=
  (out ++ Array.replicate (n / 255) 255).push (n % 255).toUInt8

/-- Appends a token with the literals `input[start..stop)`. `field` is its lower half. -/
def literals (input out : Array UInt8) (start stop field : Nat) : Array UInt8 :=
  let size := stop - start
  let out := out.push (min size 15 * 16 + field).toUInt8
  let out := if 15 ≤ size then longLength out (size - 15) else out
  out ++ input.extract start stop

/-- Emits sequences until none is found, then the last literals. -/
def emit (input : Array UInt8) (base : Nat) :
    Nat → (table : Array Nat) → (pos start : Nat) → (out : Array UInt8) → Array UInt8 × Array Nat
  | 0, table, _, start, out => (literals input out start input.size 0, table)
  | fuel + 1, table, pos, start, out =>
    match search input base (input.size - matchMargin) table pos 0 with
    | (none, table) => (literals input out start input.size 0, table)
    | (some (found, candidate), table) =>
      let back := stretchBack input start found candidate
      let begin := found - back
      let source := candidate - back
      let extra := agree input (input.size - endMargin) (begin + Block.minMatch)
        (source + Block.minMatch)
      let stop := begin + Block.minMatch + extra
      let table := table.setIfInBounds (slot input (stop - 2)) (base + (stop - 2))
      let offset := begin - source
      let out := literals input out start begin (min extra 15)
      let out := (out.push offset.toUInt8).push (offset / 256).toUInt8
      let out := if 15 ≤ extra then longLength out (extra - 15) else out
      emit input base fuel table stop stop out

/-- The compressed form of a block. The content begins with a literal; a later block need not, as
far as the search knows. -/
def compress (c : Compressor) (input : Array UInt8) : Array UInt8 × Compressor :=
  if input.size ≤ matchMargin then (literals input #[] 0 input.size 0, c)
  else
    let (table, pos) :=
      if c.base = 0 then (c.table.setIfInBounds (slot input 0) 0, 1) else (c.table, 0)
    let (out, table) := emit input c.base input.size table pos 0 #[]
    (out, { c with table })

def advance (c : Compressor) (size : Nat) : Compressor := { c with base := c.base + size }

end Compressor

end RollingCapture.Lz4
