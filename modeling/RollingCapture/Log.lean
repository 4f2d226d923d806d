/-! Messages about a run, in the order in which they arise. -/
namespace RollingCapture

inductive Severity where
  | error | warn | info | debug | trace
  deriving DecidableEq, Repr

namespace Severity

def all : List Severity := [error, warn, info, debug, trace]

def name : Severity → String
  | error => "ERROR"
  | warn => "WARN"
  | info => "INFO"
  | debug => "DEBUG"
  | trace => "TRACE"

def ofName? (name : String) : Option Severity := all.find? (·.name == name)

def rank : Severity → Nat
  | error => 0
  | warn => 1
  | info => 2
  | debug => 3
  | trace => 4

end Severity

structure Message where
  severity : Severity
  text : String
  deriving DecidableEq, Repr

/-- The messages so far, the first one first. -/
abbrev Log := Array Message

namespace Log

def note (log : Log) (severity : Severity) (text : String) : Log := log.push ⟨severity, text⟩

/-- The messages at least as grave as `least`, one line each. -/
def lines (log : Log) (least : Severity) : List String :=
  (log.toList.filter fun m => m.severity.rank ≤ least.rank).map fun m =>
    s!"{m.severity.name} {m.text}"

end Log

end RollingCapture
