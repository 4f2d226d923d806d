/-! Requests to stop a run. The first asks for an orderly end, every later one for an immediate
one. -/
namespace RollingCapture

/-- What a request amounts to. -/
inductive StopKind where
  | graceful
  | immediate
  deriving DecidableEq, Repr

/-- The requests made so far, shared by everyone who holds the signal. -/
structure StopSignal where
  requests : Nat := 0
  deriving DecidableEq, Repr

namespace StopSignal

def isStopped (t : StopSignal) : Bool := 0 < t.requests

def isImmediate (t : StopSignal) : Bool := 1 < t.requests

def request (t : StopSignal) : StopKind × StopSignal :=
  (if t.requests = 0 then .graceful else .immediate, ⟨t.requests + 1⟩)

def requestTimes (t : StopSignal) (n : Nat) : StopSignal := ⟨t.requests + n⟩

end StopSignal

/-- Holders of stop signals by number. Holders made from one another share one signal. -/
structure StopHolders where
  signals : Array StopSignal := #[{}]
  /-- For each holder the index of its signal. -/
  holders : Array Nat := #[0]

namespace StopHolders

def signal (s : StopHolders) (holder : Nat) : StopSignal :=
  s.signals.getD (s.holders.getD holder 0) {}

def request (s : StopHolders) (holder : Nat) : StopKind × StopHolders :=
  let (kind, signal) := (s.signal holder).request
  (kind, { s with signals := s.signals.setIfInBounds (s.holders.getD holder 0) signal })

/-- Adds a holder that shares the signal of `holder`. The answer is the new holder's number. -/
def share (s : StopHolders) (holder : Nat) : Nat × StopHolders :=
  (s.holders.size, { s with holders := s.holders.push (s.holders.getD holder 0) })

/-- Adds a holder with a signal of its own. The answer is the new holder's number. -/
def add (s : StopHolders) : Nat × StopHolders :=
  (s.holders.size,
    { signals := s.signals.push {}, holders := s.holders.push s.signals.size })

end StopHolders

end RollingCapture
