import RollingCapture.Disk

/-! A file open for writing, behind a buffer. Bytes count as accepted once they are in the buffer
or in the file, so a device that refuses them shows only when the buffer has to be emptied. -/
namespace RollingCapture

structure Output where
  refuses : Bool
  written : Array UInt8 := #[]
  pending : Array UInt8 := #[]
  /-- How many bytes were accepted. -/
  accepted : Nat := 0
  deriving Repr

namespace Output

def capacity : Nat := 8192

def noSpace : IoFailure := .system .noSpace

/-- Moves the buffer into the file. A file that refuses leaves it as it is. -/
def flush (o : Output) : Except IoFailure Unit × Output :=
  if o.pending.isEmpty then (.ok (), o)
  else if o.refuses then (.error noSpace, o)
  else (.ok (), { o with written := o.written ++ o.pending, pending := #[] })

/-- Accepts `bytes` after the buffer has been emptied as far as they need it: into the buffer, or
into the file at once where they would fill the buffer on their own. -/
def accept (o : Output) (bytes : List UInt8) : Except IoFailure Unit × Output :=
  let n := bytes.length
  if capacity ≤ n then
    if o.refuses then (.error noSpace, o)
    else (.ok (), { o with written := o.written ++ bytes, accepted := o.accepted + n })
  else (.ok (), { o with pending := o.pending ++ bytes, accepted := o.accepted + n })

/-- Writes all of `bytes` or, if the file refuses, none of them. -/
def write (o : Output) (bytes : List UInt8) : Except IoFailure Unit × Output :=
  if bytes.isEmpty then (.ok (), o)
  else if capacity - o.pending.size < bytes.length then
    match o.flush with
    | (.error e, o) => (.error e, o)
    | (.ok (), o) => o.accept bytes
  else o.accept bytes

def bytes (o : Output) : List UInt8 := o.written.toList ++ o.pending.toList

end Output

end RollingCapture
