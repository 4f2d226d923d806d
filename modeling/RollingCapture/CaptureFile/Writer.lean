import RollingCapture.CaptureFile.Format
import RollingCapture.Log
import RollingCapture.Lz4.Encoder

/-! Writing a capture file, plain or inside one LZ4 frame. What has left the buffers is on the disk
after every operation; the rest follows when the file is closed. -/
namespace RollingCapture.CaptureFile

/-- Where the bytes of a capture file go. -/
inductive Sink where
  | plain (out : Output)
  | lz4 (encoder : Lz4.Encoder)
  deriving Repr

namespace Sink

def new (compression : Compression) (refuses : Bool) : Sink :=
  match compression with
  | .plain => .plain { refuses }
  | .lz4 => .lz4 { out := { refuses } }

def out : Sink → Output
  | plain out => out
  | lz4 encoder => encoder.out

def write (bytes : List UInt8) : Sink → Except IoFailure Unit × Sink
  | plain out =>
    let (result, out) := out.write bytes
    (result, .plain out)
  | lz4 encoder =>
    let (result, encoder) := encoder.write bytes
    (result, .lz4 encoder)

/-- Ends the frame, if there is one, and empties the buffer. -/
def finish (path : String) : Sink → Except Error Unit × Output
  | plain out =>
    let (result, out) := out.flush
    (result.mapError (.write path), out)
  | lz4 encoder =>
    match encoder.finish with
    | (.error f, out) => (.error (.compression path (.writing f)), out)
    | (.ok (), out) =>
      let (result, out) := out.flush
      (result.mapError (.write path), out)

end Sink

structure Writer where
  path : String
  entry : Entry
  linkType : LinkType
  compression : Compression
  sink : Sink
  packets : Nat := 0
  deriving Repr

namespace Writer

/-- How many bytes the file has accepted, after compression. -/
def bytesWritten (w : Writer) : Nat := w.sink.out.accepted

/-- Puts on the disk what has left the buffers. -/
def commit (w : Writer) (d : Disk) : Disk := d.store w.entry w.sink.out.written

def append (w : Writer) (d : Disk) (bytes : List UInt8) : Except Error Unit × Writer × Disk :=
  let (sink, d) := d.lend w.entry w.sink
  let (result, sink) := sink.write bytes
  let w := { w with sink }
  (result.mapError (.write w.path), w, w.commit d)

/-- Creates a file, or empties it, and writes the file header. -/
def create (d : Disk) (path : String) (linkType : LinkType) (snaplen : UInt32)
    (compression : Compression) : Except Error Writer × Disk :=
  match d.create path with
  | .error f => (.error (.fileOpen path f), d)
  | .ok (entry, d) =>
    let w : Writer :=
      { path, entry, linkType, compression, sink := .new compression entry.refuses }
    match w.append d (FileHeader.write linkType snaplen) with
    | (.error e, _, d) => (.error e, d)
    | (.ok (), w, d) => (.ok w, d)

/-- Writes a record. The answer is how many bytes the file accepted meanwhile, which under
compression may be none. -/
def write (w : Writer) (d : Disk) (p : Packet) : Except Error Nat × Writer × Disk :=
  let size := p.header.caplen.toNat
  let data := p.data.take size
  if data.length < size then
    (.error (.write w.path (.shortData size p.data.length)), w, d)
  else
    let before := w.bytesWritten
    match w.append d (Record.header p.header) with
    | (.error e, w, d) => (.error e, w, d)
    | (.ok (), w, d) =>
      match w.append d data with
      | (.error e, w, d) => (.error e, w, d)
      | (.ok (), w, d) =>
        let w := { w with packets := w.packets + 1 }
        (.ok (w.bytesWritten - before), w, d)

/-- How many bytes a record of `caplen` bytes adds to the file, where that is known beforehand. -/
def recordSize? (w : Writer) (caplen : UInt32) : Option Nat :=
  match w.compression with
  | .plain => some (Record.headerSize + caplen.toNat)
  | .lz4 => none

def close (w : Writer) (d : Disk) : Except Error Nat × Disk :=
  let (result, out) := w.sink.finish w.path
  (result.map fun () => out.accepted, d.store w.entry out.written)

/-- Completes the file where nobody waits for the answer: a failure is only noted. -/
def abandon (w : Writer) (d : Disk) (log : Log) : Disk × Log :=
  match w.close d with
  | (.error e, d) => (d, log.note .warn e.message)
  | (.ok _, d) => (d, log)

end Writer

end RollingCapture.CaptureFile
