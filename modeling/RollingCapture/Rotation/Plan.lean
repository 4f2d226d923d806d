import RollingCapture.Calendar
import RollingCapture.Compression

/-! When output goes over to the next file, and what the files are called. -/
namespace RollingCapture.Rotation

/-- The settings of rotation. A zero turns off what it limits. -/
structure Plan where
  pattern : String
  calendar : Calendar := .local
  compression : Compression := .plain
  /-- A file of this many bytes is full. -/
  maxBytes : Nat := 0
  /-- The length of the time windows that share a file. -/
  period : Nat := 0
  /-- How many files are kept. -/
  maxFiles : Nat := 0
  deriving DecidableEq, Repr

/-- The greatest time stamp, in signed 64-bit seconds. -/
def lastSecond : Int := 9223372036854775807

/-- The end of the window that contains `sec`. Windows are `period` seconds long and counted from
the epoch, and no window ends later than the last second. Without a period there is no end. This is the
computation on signed 64-bit seconds where the window begins at or above `-2 ^ 63`, and only there: below,
the beginning is no 64-bit number. -/
def windowEnd (sec : Int) (period : Nat) : Option Int :=
  if period = 0 then none
  else
    let length := min (period : Int) lastSecond
    some (min (sec - sec % length + length) lastSecond)

namespace Plan

def rotates (p : Plan) : Bool := 0 < p.maxBytes || 0 < p.period

end Plan

end RollingCapture.Rotation
