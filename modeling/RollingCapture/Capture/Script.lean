import RollingCapture.Device
import RollingCapture.Error
import RollingCapture.Packet

/-! Captures played from a script: what each read gives, and what a provider answers. They stand for
any session and any provider, since a script may hold any sequence of outcomes. -/
namespace RollingCapture.Capture

structure ScriptStep where
  outcome : Except Error Packet
  /-- How many requests to stop come in while the read waits. -/
  stops : Nat := 0
  deriving Repr

/-- A session that plays a script. After the last step the input is over. -/
structure Script where
  name : String := "scripted"
  linkType : LinkType := .ethernet
  snaplen : UInt32 := 65536
  steps : List ScriptStep := []
  /-- What the session says of its statistics; by default what it has delivered. -/
  stats : Option (Except Error Statistics) := none
  filterError : Option Error := none
  delivered : Nat := 0
  deriving Repr

namespace Script

def statistics (s : Script) : Except Error Statistics := s.stats.getD (.ok ⟨s.delivered, 0, 0⟩)

end Script

inductive Question where
  | devices
  | opening (r : Request)
  | linkName (t : LinkType)
  | linkDescription (t : LinkType)
  | filter (program : String) (optimize : Bool)
  deriving DecidableEq, Repr

structure ScriptedProvider where
  devices : Option (Except Error (List Device)) := none
  opening : Option (Except Error Script) := none
  linkName : Option (Except Error String) := none
  linkDescription : Option (Except Error String) := none
  deriving Repr

namespace ScriptedProvider

/-- A scripted answer. Without one the question fails under its name. -/
def answer (name : String) (scripted : Option (Except Error α)) : Except Error α :=
  scripted.getD (.error (.library s!"unscripted {name}"))

end ScriptedProvider

structure Witnessed where
  questions : Array Question := #[]
  pulled : Nat := 0
  deriving Repr

end RollingCapture.Capture
