import RollingCapture.Calendar
import RollingCapture.CaptureFile.Reader

/-! Totals of one capture file. -/
namespace RollingCapture.CaptureFile

structure Summary where
  path : String
  linkType : LinkType
  compression : Compression
  snaplen : UInt32
  packets : Nat
  /-- Captured bytes without record headers. -/
  bytes : Nat
  first : Option PacketHeader
  last : Option PacketHeader
  deriving DecidableEq, Repr

namespace Summary

def ofFrames (r : Reader) (packets : List Packet) : Summary where
  path := r.path
  linkType := r.linkType
  compression := r.compression
  snaplen := r.snaplen
  packets := packets.length
  bytes := packets.foldl (fun n p => n + p.data.length) 0
  first := packets.head?.map (·.header)
  last := packets.getLast?.map (·.header)

def ofPath (d : Disk) (path : String) : Except Error Summary := do
  let r ← Reader.ofPath d path
  let packets ← r.readAll d
  return ofFrames r packets

/-- A capture time in UTC, down to the microsecond. Before and after the years that have a civil
time the seconds are shown. -/
def timeText : Option PacketHeader → String
  | none => "-"
  | some h =>
    if h.sec < CivilTime.earliest ∨ CivilTime.latest < h.sec then h.timeText
    else
      let t := CivilTime.ofSeconds 0 h.sec
      let two (n : Nat) : String := String.ofList (Text.zeroPadded 2 n)
      String.ofList (Text.zeroPadded 4 t.year) ++ "-" ++ two t.month ++ "-" ++ two t.day ++ " "
        ++ two t.hour ++ ":" ++ two t.minute ++ ":" ++ two t.second ++ "."
        ++ String.ofList (Text.zeroPadded 6 h.usec)

def describe (s : Summary) : String :=
  let kind := match s.compression with
    | .plain => ""
    | .lz4 => ", lz4"
  s!"{s.path}: " ++ s.linkType.describe ++ kind
    ++ s!", snaplen {s.snaplen}, {s.packets} packets, {s.bytes} bytes, first "
    ++ timeText s.first ++ ", last " ++ timeText s.last

end Summary

end RollingCapture.CaptureFile
