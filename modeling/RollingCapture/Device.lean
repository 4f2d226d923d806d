/-! Network devices as the capture library lists them, and what a live capture on one is to be opened
with. -/
namespace RollingCapture

inductive DeviceFlag where
  | loopback | up | running | wireless
  deriving DecidableEq, Repr

namespace DeviceFlag

/-- Every flag, in the order of its bit. -/
def all : List DeviceFlag := [loopback, up, running, wireless]

def bit : DeviceFlag → UInt32
  | loopback => 1
  | up => 2
  | running => 4
  | wireless => 8

def name : DeviceFlag → String
  | loopback => "LOOPBACK"
  | up => "UP"
  | running => "RUNNING"
  | wireless => "WIRELESS"

def stateName : DeviceFlag → String
  | loopback => "loopback"
  | up => "up"
  | running => "running"
  | wireless => "wireless"

end DeviceFlag

structure DeviceFlags where
  bits : UInt32
  deriving DecidableEq, Repr

namespace DeviceFlags

def empty : DeviceFlags := ⟨0⟩

/-- The known flags among `bits`. -/
def ofBits (bits : UInt32) : DeviceFlags := ⟨bits &&& 15⟩

def has (s : DeviceFlags) (f : DeviceFlag) : Bool := s.bits &&& f.bit = f.bit

def contains (s other : DeviceFlags) : Bool := s.bits &&& other.bits = other.bits

def isEmpty (s : DeviceFlags) : Bool := s.bits = 0

def describe (s : DeviceFlags) : String :=
  if s.isEmpty then "(empty)"
  else " | ".intercalate ((DeviceFlag.all.filter s.has).map DeviceFlag.name)

end DeviceFlags

structure Device where
  name : String
  desc : Option String := none
  flags : DeviceFlags := .empty
  deriving DecidableEq, Repr

namespace Device

def states (d : Device) : List DeviceFlag :=
  [DeviceFlag.up, .running, .loopback, .wireless].filter d.flags.has

def describe (d : Device) : String :=
  let about := match d.desc with
    | some desc => s!"({desc})"
    | none => "(No description available)"
  let states := match d.states with
    | [] => ""
    | fs => " [" ++ ", ".intercalate (fs.map DeviceFlag.stateName) ++ "]"
  d.name ++ " \t" ++ about ++ states

end Device

/-- How to open a live capture. -/
structure Capture.Request where
  device : Device
  snaplen : Int32 := 65536
  promisc : Bool := true
  timeoutMs : Int32 := 10
  /-- Whether to put a wireless device into monitor mode. -/
  monitor : Bool := false
  deriving DecidableEq, Repr

end RollingCapture
