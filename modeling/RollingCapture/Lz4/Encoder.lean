import RollingCapture.Lz4.Frame
import RollingCapture.Output

/-! Writing one LZ4 frame as its content arrives. The start of the frame goes out with the first
byte. A full block waits until more bytes come, and the rest goes out at the end. A block that the
output refused is tried again with the next bytes. -/
namespace RollingCapture.Lz4

structure Encoder where
  out : Output
  block : Array UInt8 := #[]
  started : Bool := false
  compressor : Compressor := {}
  /-- Whether the output took every block. A frame that lacks bytes is lost, so its further blocks
  go out as the compressor leaves them. -/
  intact : Bool := true
  deriving Repr

namespace Encoder

def begin (e : Encoder) : Except IoFailure Unit × Encoder :=
  if e.started then (.ok (), e)
  else
    match e.out.write Frame.start with
    | (.error f, out) => (.error f, { e with out })
    | (.ok (), out) => (.ok (), { e with out, started := true })

/-- Writes the waiting bytes as a block. On failure they keep waiting, though the block's size may
have been accepted, and the compressor remembers that it has seen them. -/
def emit (e : Encoder) : Except IoFailure Unit × Encoder :=
  let ((mark, bytes), compressor) := Frame.pack e.compressor e.intact e.block
  match e.out.write mark.bytes with
  | (.error f, out) => (.error f, { e with out, compressor, intact := false })
  | (.ok (), out) =>
    match out.write bytes with
    | (.error f, out) => (.error f, { e with out, compressor, intact := false })
    | (.ok (), out) =>
      (.ok (), { e with out, block := #[], compressor := compressor.advance e.block.size })

def makeRoom (e : Encoder) : Except IoFailure Unit × Encoder :=
  if e.block.size < Frame.blockSize then (.ok (), e) else e.emit

/-- Takes in bytes up to the first that finds no room. -/
def absorb (e : Encoder) : List UInt8 → Except IoFailure Unit × Encoder
  | [] => (.ok (), e)
  | b :: rest =>
    match e.makeRoom with
    | (.error f, e) => (.error f, e)
    | (.ok (), e) => absorb { e with block := e.block.push b } rest

def write (e : Encoder) (bytes : List UInt8) : Except IoFailure Unit × Encoder :=
  if bytes.isEmpty then (.ok (), e)
  else
    match e.begin with
    | (.error f, e) => (.error f, e)
    | (.ok (), e) => e.absorb bytes

def finish (e : Encoder) : Except IoFailure Unit × Output :=
  match if e.block.isEmpty then (.ok (), e) else e.emit with
  | (.error f, e) => (.error f, e.out)
  | (.ok (), e) =>
    match e.begin with
    | (.error f, e) => (.error f, e.out)
    | (.ok (), e) => e.out.write Frame.Mark.stop.bytes

end Encoder

end RollingCapture.Lz4
