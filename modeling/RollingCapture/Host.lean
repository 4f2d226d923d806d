import RollingCapture.Disk
import RollingCapture.Error
import RollingCapture.Log

/-! What a run finds around it: files, a log, a time zone, and accounts. -/
namespace RollingCapture

structure Account where
  name : String
  uid : Nat
  gid : Nat
  deriving DecidableEq, Repr

namespace Account

/-- The accounts that hosts have from the start. -/
def standard : List Account :=
  [⟨"root", 0, 0⟩, ⟨"daemon", 1, 1⟩, ⟨"bin", 2, 2⟩, ⟨"sys", 3, 3⟩, ⟨"sync", 4, 65534⟩,
    ⟨"games", 5, 60⟩, ⟨"man", 6, 12⟩, ⟨"lp", 7, 7⟩, ⟨"mail", 8, 8⟩, ⟨"news", 9, 9⟩,
    ⟨"uucp", 10, 10⟩, ⟨"proxy", 13, 13⟩, ⟨"www-data", 33, 33⟩, ⟨"backup", 34, 34⟩,
    ⟨"list", 38, 38⟩, ⟨"irc", 39, 39⟩, ⟨"nobody", 65534, 65534⟩]

def find (accounts : List Account) (user : String) : Except Error Account :=
  if user.toList.contains '\x00' then .error .nulInString
  else
    match accounts.find? (·.name = user) with
    | some a => .ok a
    | none => .error (.privilege (.noSuchUser user))

def changeText (a : Account) : String :=
  s!"relinquished privileges to {a.name} (uid {a.uid}, gid {a.gid})"

end Account

structure Host where
  disk : Disk
  log : Log := #[]
  /-- Seconds to add to UTC for local time. -/
  localOffset : Int := 0
  accounts : List Account := Account.standard
  deriving Repr

namespace Host

def note (h : Host) (severity : Severity) (text : String) : Host :=
  { h with log := h.log.note severity text }

end Host

end RollingCapture
