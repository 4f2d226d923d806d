import RollingCapture.CaptureFile.Writer
import RollingCapture.FilePattern
import RollingCapture.Host
import RollingCapture.Rotation.Plan

/-! Writing packets into a sequence of files. A packet that asks for a new file is written to that
file alone. -/
namespace RollingCapture.Rotation

open CaptureFile (Writer)

structure OpenFile where
  writer : Writer
  /-- How many bytes the file accepted for packets. -/
  bytes : Nat := 0
  packets : Nat := 0
  /-- The first second that belongs into another file. -/
  deadline : Option Int
  deriving Repr

structure Rotator where
  plan : Plan
  linkType : LinkType
  snaplen : UInt32
  current : Option OpenFile := none
  /-- The files that were opened and not removed, each once, by their latest opening. -/
  retained : List String := []
  filesOpened : Nat := 0
  packets : Nat := 0
  /-- How many bytes all files accepted for packets. -/
  bytes : Nat := 0
  deriving Repr

namespace OpenFile

/-- Whether a packet of second `sec` with `caplen` bytes belongs into another file: this one is
full, or a plain file would exceed its limit although it holds packets, or its time is over. -/
def isOver (f : OpenFile) (plan : Plan) (sec : Int) (caplen : UInt32) : Bool :=
  (0 < plan.maxBytes &&
    (plan.maxBytes ≤ f.bytes ||
      (0 < f.packets &&
        (f.writer.recordSize? caplen).any fun size => plan.maxBytes < f.bytes + size)))
  || f.deadline.any (· ≤ sec)

def finish (f : OpenFile) (h : Host) : Except Error Unit × Host :=
  match f.writer.close h.disk with
  | (.error e, disk) => (.error e, { h with disk })
  | (.ok size, disk) =>
    (.ok (), Host.note { h with disk } .info
      s!"closed {f.writer.path} ({f.packets} packets, {size} bytes)")

end OpenFile

namespace Rotator

/-- A rotator that has opened no file. Rotation among equal names deserves a warning. -/
def new (plan : Plan) (linkType : LinkType) (snaplen : UInt32) (h : Host) : Rotator × Host :=
  let h :=
    if plan.rotates && !FilePattern.hasFields plan.pattern then
      h.note .warn (plan.pattern
        ++ ": no time placeholders, each rotation overwrites the previous file")
    else h
  ({ plan, linkType, snaplen }, h)

/-- Removes a file that is no longer kept. A failure is only noted. -/
def discard (h : Host) (path : String) : Host :=
  match h.disk.remove path with
  | .ok disk => Host.note { h with disk } .info s!"removed {path}"
  | .error f =>
    if f = .system .notFound then h.note .debug s!"{path} already gone"
    else h.note .warn (path ++ ": couldn't remove: " ++ f.message)

/-- Remembers that `path` was opened, and removes the files that are too many. -/
def retain (r : Rotator) (h : Host) (path : String) : Rotator × Host :=
  let names := r.retained.filter (· ≠ path) ++ [path]
  let surplus := if r.plan.maxFiles = 0 then 0 else names.length - r.plan.maxFiles
  ({ r with retained := names.drop surplus }, (names.take surplus).foldl discard h)

def openFile (r : Rotator) (h : Host) (sec : Int) : Except Error OpenFile × Rotator × Host :=
  let path := FilePattern.expand r.plan.pattern (r.plan.calendar.offset h.localOffset) sec
  match Writer.create h.disk path r.linkType r.snaplen r.plan.compression with
  | (.error e, disk) => (.error e, r, { h with disk })
  | (.ok writer, disk) =>
    let h := Host.note { h with disk } .info s!"opened {path}"
    let (r, h) := retain { r with filesOpened := r.filesOpened + 1 } h path
    (.ok { writer, deadline := windowEnd sec r.plan.period }, r, h)

/-- The file that a packet goes into. While it is chosen no file is current. -/
def fileFor (r : Rotator) (h : Host) (header : PacketHeader) :
    Except Error OpenFile × Rotator × Host :=
  match r.current with
  | none => r.openFile h header.sec
  | some f =>
    let r := { r with current := none }
    if f.isOver r.plan header.sec header.caplen then
      let h := h.note .debug
        s!"rotating {f.writer.path} after {f.packets} packets, {f.bytes} bytes"
      match f.finish h with
      | (.error e, h) => (.error e, r, h)
      | (.ok (), h) => r.openFile h header.sec
    else (.ok f, r, h)

/-- Writes a packet, into a new file where one is due. -/
def write (r : Rotator) (h : Host) (p : Packet) : Except Error Unit × Rotator × Host :=
  match r.fileFor h p.header with
  | (.error e, r, h) => (.error e, r, h)
  | (.ok f, r, h) =>
    match f.writer.write h.disk p with
    | (.error e, writer, disk) =>
      (.error e, { r with current := some { f with writer } }, { h with disk })
    | (.ok size, writer, disk) =>
      let f := { f with writer, bytes := f.bytes + size, packets := f.packets + 1 }
      let r :=
        { r with current := some f, bytes := r.bytes + size, packets := r.packets + 1 }
      (.ok (), r, Host.note { h with disk } .trace
        (p.header.describe ++ s!" -> {size} bytes"))

def close (r : Rotator) (h : Host) : Except Error Unit × Rotator × Host :=
  match r.current with
  | none => (.ok (), r, h)
  | some f =>
    let (result, h) := f.finish h
    (result, { r with current := none }, h)

/-- Completes the current file where nobody waits for the answer: a failure is only noted. -/
def abandon (r : Rotator) (h : Host) : Host :=
  match r.close h with
  | (.error e, _, h) => h.note .warn e.message
  | (.ok (), _, h) => h

def currentPath (r : Rotator) : Option String := r.current.map (·.writer.path)

end Rotator

end RollingCapture.Rotation
