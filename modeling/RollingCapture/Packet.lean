import RollingCapture.Text

/-! Captured packets: a header that says when and how much, and the bytes that were kept. How many packets
a capture received and lost. -/
namespace RollingCapture

/-- What is known of a packet besides its bytes. Times are signed 64-bit counts. -/
structure PacketHeader where
  /-- Capture time, whole seconds since the epoch. -/
  sec : Int
  /-- Capture time, microseconds within the second. -/
  usec : Int
  caplen : UInt32
  len : UInt32
  deriving DecidableEq, Repr

namespace PacketHeader

/-- The capture time as seconds, a point, and at least six digits. -/
def timeText (h : PacketHeader) : String :=
  s!"{h.sec}." ++ String.ofList (Text.zeroPadded 6 h.usec)

def describe (h : PacketHeader) : String :=
  "PacketHeader \x7b ts: " ++ h.timeText ++ s!", caplen: {h.caplen}, len: {h.len} \x7d"

end PacketHeader

/-- A captured packet. Nothing ties `data` to `header.caplen`: a writer checks it. -/
structure Packet where
  header : PacketHeader
  data : List UInt8
  deriving DecidableEq, Repr

structure Statistics where
  received : Nat
  /-- Lost because the capture buffer was full. -/
  dropped : Nat
  /-- Lost by the network interface or its driver. -/
  ifDropped : Nat
  deriving DecidableEq, Repr

namespace Statistics

def totalDropped (s : Statistics) : Nat := s.dropped + s.ifDropped

def statusText (s : Statistics) : String := s!"packets={s.received}, drops={s.totalDropped}"

def describe (s : Statistics) : String :=
  s!"Stat \x7b received: {s.received}, dropped: {s.dropped}, if_dropped: {s.ifDropped} \x7d"

end Statistics

end RollingCapture
