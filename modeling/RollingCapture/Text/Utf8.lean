/-! Strict UTF-8 decoding that says where and how bytes fail to be text. Overlong forms, surrogates
and code points past U+10FFFF are refused at the first byte that rules them out. -/
namespace RollingCapture.Text

structure Utf8Error where
  /-- The byte index at which the sequence that fails begins. -/
  index : Nat
  /-- How many bytes of it could still begin a character; `none` if the input ends inside it. -/
  length : Option Nat
  deriving DecidableEq, Repr

def Utf8Error.message (e : Utf8Error) : String :=
  match e.length with
  | some n => s!"invalid utf-8 sequence of {n} bytes from index {e.index}"
  | none => s!"incomplete utf-8 byte sequence from index {e.index}"

namespace Utf8

/-- A character whose first bytes have been read. -/
structure Pending where
  seen : Nat
  need : Nat
  /-- The range the next byte must lie in. -/
  low : UInt8
  high : UInt8
  bits : Nat

/-- The character that a byte from 0x80 on begins, if it can begin one. -/
def Pending.start? (b : UInt8) : Option Pending :=
  if b < 0xC2 then none
  else if b < 0xE0 then some ⟨1, 1, 0x80, 0xBF, b.toNat % 32⟩
  else if b = 0xE0 then some ⟨1, 2, 0xA0, 0xBF, 0⟩
  else if b = 0xED then some ⟨1, 2, 0x80, 0x9F, 13⟩
  else if b < 0xF0 then some ⟨1, 2, 0x80, 0xBF, b.toNat % 16⟩
  else if b = 0xF0 then some ⟨1, 3, 0x90, 0xBF, 0⟩
  else if b < 0xF4 then some ⟨1, 3, 0x80, 0xBF, b.toNat % 8⟩
  else if b = 0xF4 then some ⟨1, 3, 0x80, 0x8F, 4⟩
  else none

/-- Reads on from byte `index`, where the character in progress, if any, begins. -/
def decodeFrom (index : Nat) : Option Pending → List UInt8 → Except Utf8Error (List Char)
  | none, [] => .ok []
  | some _, [] => .error ⟨index, none⟩
  | none, b :: rest =>
    if b < 0x80 then (Char.ofNat b.toNat :: ·) <$> decodeFrom (index + 1) none rest
    else match Pending.start? b with
      | none => .error ⟨index, some 1⟩
      | some p => decodeFrom index (some p) rest
  | some p, b :: rest =>
    if p.low ≤ b && b ≤ p.high then
      let bits := p.bits * 64 + b.toNat % 64
      if p.need = 1 then (Char.ofNat bits :: ·) <$> decodeFrom (index + p.seen + 1) none rest
      else decodeFrom index (some ⟨p.seen + 1, p.need - 1, 0x80, 0xBF, bits⟩) rest
    else .error ⟨index, some p.seen⟩

def decode (bytes : List UInt8) : Except Utf8Error String :=
  String.ofList <$> decodeFrom 0 none bytes

def encode (text : String) : List UInt8 := text.toUTF8.data.toList

end Utf8

end RollingCapture.Text
