import RollingCapture.CaptureFile.Writer
import RollingCapture.Proofs.CaptureFile.Format
import RollingCapture.Proofs.Disk
import RollingCapture.Proofs.Lz4.Encoder

/-! A file that accepts bytes takes in the file header and every whole record, and once it is complete
it holds just them. A file that refuses bytes cannot be completed. -/
namespace RollingCapture.CaptureFile

variable {mode : Compression} {linkType : LinkType} {snaplen : UInt32} {p : Packet}
  {content : List UInt8}

theorem mapError_ok {ε ε' α : Type} (f : ε → ε') (a : α) :
    (Except.ok a).mapError f = .ok a := rfl

theorem mapError_error {ε ε' α : Type} (f : ε → ε') (e : ε) :
    (Except.error e : Except ε α).mapError f = .error (f e) := rfl

namespace Sink

variable {s : Sink}

def kind : Sink → Compression
  | plain _ => .plain
  | lz4 _ => .lz4

/-- The sink accepts bytes and has taken in exactly `content`. -/
def Holds : Sink → List UInt8 → Prop
  | plain out, content => out.Holds content
  | lz4 encoder, content => encoder.Holds content

theorem new_holds (mode : Compression) : (new mode false).Holds [] := by
  cases mode with
  | plain => exact Output.holds_empty
  | lz4 => exact Lz4.Encoder.holds_empty

theorem write_plain (out : Output) (bytes : List UInt8) :
    (plain out).write bytes = ((out.write bytes).1, .plain (out.write bytes).2) := rfl

theorem write_lz4 (encoder : Lz4.Encoder) (bytes : List UInt8) :
    (lz4 encoder).write bytes = ((encoder.write bytes).1, .lz4 (encoder.write bytes).2) := rfl

theorem write_holds (held : s.Holds content) (bytes : List UInt8) :
    (s.write bytes).1 = .ok () ∧ (s.write bytes).2.Holds (content ++ bytes) := by
  cases s with
  | plain out =>
    obtain ⟨out', done, held'⟩ := Output.write_holds held bytes
    rw [write_plain, done]
    exact ⟨rfl, held'⟩
  | lz4 encoder =>
    obtain ⟨encoder', done, held'⟩ := Lz4.Encoder.write_holds held bytes
    rw [write_lz4, done]
    exact ⟨rfl, held'⟩

@[simp] theorem kind_write (bytes : List UInt8) : (s.write bytes).2.kind = s.kind := by
  cases s with
  | plain out => rw [write_plain, kind, kind]
  | lz4 encoder => rw [write_lz4, kind, kind]

theorem finish_holds (held : s.Holds content) (path : String) :
    ∃ out, s.finish path = (.ok (), out) ∧ out.accepted = out.written.size ∧
      s.kind.Stores out.written.toList content := by
  cases s with
  | plain out =>
    obtain ⟨out', done, held', flushed⟩ := Output.flush_holds held
    exact ⟨out', by simp [finish, done, mapError_ok], held'.accepted_eq_size flushed,
      held'.written_eq flushed⟩
  | lz4 encoder =>
    obtain ⟨out, bytes, done, held', encodes⟩ := Lz4.Encoder.finish_holds held
    obtain ⟨out', done', held'', flushed⟩ := Output.flush_holds held'
    refine ⟨out', by simp [finish, done, done', mapError_ok], held''.accepted_eq_size flushed, ?_⟩
    rw [held''.written_eq flushed]
    exact encodes

theorem write_stuck (stuck : s.out.Stuck) (bytes : List UInt8) : (s.write bytes).2.out.Stuck := by
  cases s with
  | plain out =>
    rw [write_plain]
    exact Output.write_stuck stuck bytes
  | lz4 encoder =>
    rw [write_lz4]
    exact Lz4.Encoder.write_stuck stuck bytes

/-- A file that refuses bytes still takes the file header into its buffer. -/
theorem new_write_stuck (mode : Compression) (linkType : LinkType) (snaplen : UInt32) :
    ((new mode true).write (FileHeader.write linkType snaplen)).1 = .ok () ∧
      ((new mode true).write (FileHeader.write linkType snaplen)).2.out.Stuck := by
  have length := FileHeader.length_write linkType snaplen
  have nonempty : FileHeader.write linkType snaplen ≠ [] := by
    intro empty
    rw [empty] at length
    contradiction
  cases mode with
  | plain =>
    have small : (FileHeader.write linkType snaplen).length < Output.capacity := by
      rw [length]
      decide
    obtain ⟨out, done, stuck⟩ := Output.write_of_refuses nonempty small
    rw [new, write_plain, done]
    exact ⟨rfl, stuck⟩
  | lz4 =>
    have small : (FileHeader.write linkType snaplen).length < Lz4.Frame.blockSize := by
      rw [length]
      decide
    obtain ⟨encoder, done, stuck⟩ := Lz4.Encoder.write_of_refuses nonempty small
    rw [new, write_lz4, done]
    exact ⟨rfl, stuck⟩

theorem finish_stuck (stuck : s.out.Stuck) (path : String) :
    ∃ e, (s.finish path).1 = .error e := by
  cases s with
  | plain out =>
    have refused : out.flush = (.error Output.noSpace, out) := Output.flush_stuck stuck
    exact ⟨_, by simp only [finish, refused]; rfl⟩
  | lz4 encoder =>
    have still : encoder.finish.2.Stuck := Lz4.Encoder.finish_stuck stuck
    rcases finished : encoder.finish with ⟨_ | _, out⟩
    · exact ⟨_, by simp only [finish, finished]; rfl⟩
    · rw [finished] at still
      exact ⟨_, by simp only [finish, finished, Output.flush_stuck still]; rfl⟩

def start (mode : Compression) (linkType : LinkType) (snaplen : UInt32) : Sink :=
  ((new mode false).write (FileHeader.write linkType snaplen)).2

def record (s : Sink) (p : Packet) : Sink :=
  ((s.write (Record.header p.header)).2.write (p.data.take p.header.caplen.toNat)).2

/-- How many bytes the file accepts while it takes in a record. -/
def gain (s : Sink) (p : Packet) : Nat := (s.record p).out.accepted - s.out.accepted

def gains (s : Sink) : List Packet → Nat
  | [] => 0
  | p :: packets => s.gain p + (s.record p).gains packets

theorem gains_concat (s : Sink) (packets : List Packet) (p : Packet) :
    s.gains (packets ++ [p]) = s.gains packets + (packets.foldl record s).gain p := by
  induction packets generalizing s with
  | nil => simp [gains]
  | cons q packets ih =>
    simp only [List.cons_append, gains, ih, List.foldl_cons]
    omega

theorem kind_start : (start mode linkType snaplen).kind = mode := by
  rw [start, kind_write]
  cases mode <;> rfl

@[simp] theorem kind_record (p : Packet) : (s.record p).kind = s.kind := by
  rw [record, kind_write, kind_write]

theorem kind_foldl_record (packets : List Packet) : (packets.foldl record s).kind = s.kind := by
  induction packets generalizing s with
  | nil => rfl
  | cons p packets ih => rw [List.foldl_cons, ih, kind_record]

theorem start_holds : (start mode linkType snaplen).Holds (FileHeader.write linkType snaplen) := by
  have held := (write_holds (new_holds mode) (FileHeader.write linkType snaplen)).2
  rw [List.nil_append] at held
  exact held

theorem record_holds (held : s.Holds content) (p : Packet) :
    (s.record p).Holds (content ++ Record.bytes p) := by
  have first := (write_holds held (Record.header p.header)).2
  have second := (write_holds first (p.data.take p.header.caplen.toNat)).2
  rw [List.append_assoc] at second
  exact second

theorem foldl_record_holds (held : s.Holds content) (packets : List Packet) :
    (packets.foldl record s).Holds (content ++ packets.flatMap Record.bytes) := by
  induction packets generalizing s content with
  | nil => simpa using held
  | cons p packets ih =>
    rw [List.foldl_cons, List.flatMap_cons, ← List.append_assoc]
    exact ih (record_holds held p)

end Sink

namespace Writer

variable {w : Writer} {d : Disk}

theorem append_eq (w : Writer) (d : Disk) (bytes : List UInt8) :
    w.append d bytes = ((w.sink.write bytes).1.mapError (.write w.path),
      { w with sink := (w.sink.write bytes).2 },
      d.store w.entry (w.sink.write bytes).2.out.written) := by
  simp only [append, Disk.lend, commit, Disk.store_store]

theorem write_of_holds (held : w.sink.Holds content) (whole : Record.IsWhole p) (d : Disk) :
    w.write d p = (.ok (w.sink.gain p),
      { w with sink := w.sink.record p, packets := w.packets + 1 },
      d.store w.entry (w.sink.record p).out.written) := by
  have length : ¬ (p.data.take p.header.caplen.toNat).length < p.header.caplen.toNat := by
    rw [List.length_take, Nat.min_eq_left whole]
    exact Nat.lt_irrefl _
  obtain ⟨header, held₁⟩ := Sink.write_holds held (Record.header p.header)
  obtain ⟨data, -⟩ := Sink.write_holds held₁ (p.data.take p.header.caplen.toNat)
  rw [write, if_neg length]
  simp only [append_eq, header, data, mapError_ok, Disk.store_store]
  rfl

theorem write_of_not_whole (short : ¬ Record.IsWhole p) (w : Writer) (d : Disk) :
    w.write d p =
      (.error (.write w.path (.shortData p.header.caplen.toNat p.data.length)), w, d) := by
  have length : (p.data.take p.header.caplen.toNat).length < p.header.caplen.toNat := by
    rw [List.length_take]
    exact Nat.lt_of_le_of_lt (Nat.min_le_right _ _) (Nat.not_le.1 short)
  rw [write, if_pos length]

/-- Whatever comes of it, a write to a file that refuses bytes leaves the file as it was. -/
theorem write_of_stuck (stuck : w.sink.out.Stuck) (refuses : w.entry.refuses) (d : Disk)
    (p : Packet) :
    ∃ result sink packets, w.write d p = (result, { w with sink, packets }, d) ∧ sink.out.Stuck := by
  have unchanged (bytes : Array UInt8) : d.store w.entry bytes = d := Disk.store_of_refuses refuses
  have first := Sink.write_stuck stuck (Record.header p.header)
  have second := Sink.write_stuck first (p.data.take p.header.caplen.toNat)
  unfold write
  simp only [append_eq, unchanged]
  split
  · exact ⟨_, w.sink, w.packets, rfl, stuck⟩
  · rcases (w.sink.write (Record.header p.header)).1 with e | -
    · exact ⟨_, _, w.packets, rfl, first⟩
    · simp only [mapError_ok]
      rcases ((w.sink.write (Record.header p.header)).2.write
          (p.data.take p.header.caplen.toNat)).1 with e | -
      · refine ⟨.error (.write w.path e), _, w.packets, ?_, second⟩
        simp only [mapError_error, unchanged]
      · refine ⟨.ok (w.sink.gain p), _, w.packets + 1, ?_, second⟩
        simp only [mapError_ok, unchanged]
        rfl

theorem close_of_holds (held : w.sink.Holds content) (d : Disk) :
    ∃ bytes, w.close d = (.ok bytes.size, d.store w.entry bytes) ∧
      w.sink.kind.Stores bytes.toList content := by
  obtain ⟨out, done, size, stores⟩ := Sink.finish_holds held w.path
  exact ⟨out.written, by simp [close, done, Except.map, size], stores⟩

theorem close_of_stuck (stuck : w.sink.out.Stuck) (d : Disk) : ∃ e, (w.close d).1 = .error e := by
  obtain ⟨e, failed⟩ := Sink.finish_stuck stuck w.path
  rcases finished : w.sink.finish w.path with ⟨result, out⟩
  rw [finished] at failed
  subst failed
  exact ⟨e, by simp [close, finished, Except.map]⟩

/-- Completing a file stores into no other. -/
theorem exists_store_of_close {result : Except Error Nat} {d' : Disk}
    (closed : w.close d = (result, d')) : ∃ bytes, d' = d.store w.entry bytes :=
  ⟨_, (congrArg Prod.snd closed).symm⟩

theorem abandon_fst (w : Writer) (d : Disk) (log : Log) : (w.abandon d log).1 = (w.close d).2 := by
  rcases closed : w.close d with ⟨_ | _, d'⟩ <;> simp [abandon, closed]

theorem create_of_accepts {path : String} {e : Entry} {d' : Disk}
    (opened : d.create path = .ok (e, d')) (accepts : e.refuses = false) (linkType : LinkType)
    (snaplen : UInt32) (mode : Compression) :
    create d path linkType snaplen mode =
      (.ok { path, entry := e, linkType, compression := mode,
             sink := .start mode linkType snaplen },
        d'.store e (Sink.start mode linkType snaplen).out.written) := by
  have written := (Sink.write_holds (Sink.new_holds mode) (FileHeader.write linkType snaplen)).1
  simp only [create, opened, append_eq, accepts, written, mapError_ok]
  rfl

theorem create_of_refuses {path : String} {e : Entry} {d' : Disk}
    (opened : d.create path = .ok (e, d')) (refuses : e.refuses = true) (linkType : LinkType)
    (snaplen : UInt32) (mode : Compression) :
    ∃ sink, create d path linkType snaplen mode =
      (.ok { path, entry := e, linkType, compression := mode, sink }, d') ∧ sink.out.Stuck := by
  obtain ⟨written, stuck⟩ := Sink.new_write_stuck mode linkType snaplen
  refine ⟨_, ?_, stuck⟩
  simp only [create, opened, append_eq, refuses, written, mapError_ok,
    Disk.store_of_refuses refuses]

/-- A writer that was created writes to the file that was, in the mode that was asked for. -/
theorem exists_of_create {path : String} {d' : Disk}
    (created : create d path linkType snaplen mode = (.ok w, d')) :
    ∃ sink d₁ bytes, d.create path = .ok (w.entry, d₁) ∧
      w = { path, entry := w.entry, linkType, compression := mode, sink } ∧ sink.kind = mode ∧
      d' = d₁.store w.entry bytes := by
  rcases opened : d.create path with failure | ⟨e, d₁⟩
  · simp [create, opened] at created
  · have kind : ((Sink.new mode e.refuses).write (FileHeader.write linkType snaplen)).2.kind = mode := by
      rw [Sink.kind_write]
      cases mode <;> rfl
    rcases written : ((Sink.new mode e.refuses).write (FileHeader.write linkType snaplen)).1 with f | _
    · simp [create, opened, append_eq, written, mapError_error] at created
    · simp only [create, opened, append_eq, written, mapError_ok, Prod.mk.injEq,
        Except.ok.injEq] at created
      obtain ⟨rfl, rfl⟩ := created
      exact ⟨_, d₁, _, rfl, rfl, kind, rfl⟩

theorem eq_of_create_error {path : String} {d' : Disk} {e : Error}
    (failed : create d path linkType snaplen mode = (.error e, d')) : d' = d := by
  rcases opened : d.create path with failure | ⟨entry, d₁⟩
  · simp only [create, opened, Prod.mk.injEq] at failed
    exact failed.2.symm
  · cases refuses : entry.refuses with
    | false => simp [create_of_accepts opened refuses] at failed
    | true =>
      obtain ⟨sink, created, -⟩ := create_of_refuses opened refuses linkType snaplen mode
      simp [created] at failed

/-- Writing a packet changes the sink and the count of a writer, and no other file. -/
theorem exists_write_eq (w : Writer) (d : Disk) (p : Packet) :
    ∃ result sink packets bytes,
      w.write d p = (result, { w with sink, packets }, d.store w.entry bytes) ∧
        sink.kind = w.sink.kind := by
  unfold write
  simp only [append_eq]
  split
  · exact ⟨_, w.sink, w.packets, d.content w.entry, by rw [Disk.store_content], rfl⟩
  · rcases (w.sink.write (Record.header p.header)).1 with e | _
    · exact ⟨_, _, w.packets, _, rfl, Sink.kind_write _⟩
    · simp only [mapError_ok, Disk.store_store]
      have kind := (Sink.kind_write (s := (w.sink.write (Record.header p.header)).2)
        (p.data.take p.header.caplen.toNat)).trans (Sink.kind_write _)
      rcases ((w.sink.write (Record.header p.header)).2.write
          (p.data.take p.header.caplen.toNat)).1 with e | _
      · exact ⟨_, _, w.packets, _, rfl, kind⟩
      · exact ⟨_, _, w.packets + 1, _, rfl, kind⟩

theorem keeps_of_write {result : Except Error Nat} {w' : Writer} {d' : Disk}
    (wrote : w.write d p = (result, w', d')) :
    w'.path = w.path ∧ w'.entry = w.entry ∧ w'.sink.kind = w.sink.kind ∧
      ∃ bytes, d' = d.store w.entry bytes := by
  obtain ⟨result', sink, packets, bytes, write_eq, kind⟩ := exists_write_eq w d p
  obtain ⟨-, rfl, rfl⟩ : result = result' ∧ w' = _ ∧ d' = _ := by
    simpa only [Prod.mk.injEq] using wrote.symm.trans write_eq
  exact ⟨rfl, rfl, kind, bytes, rfl⟩

def writeAll (w : Writer) (d : Disk) : List Packet → Except Error Unit × Writer × Disk
  | [] => (.ok (), w, d)
  | p :: packets =>
    match w.write d p with
    | (.error e, w, d) => (.error e, w, d)
    | (.ok _, w, d) => w.writeAll d packets

/-- Whole records all go into a file that accepts bytes, and nothing else changes. -/
theorem writeAll_of_holds {packets : List Packet} (held : w.sink.Holds content)
    (whole : ∀ p ∈ packets, Record.IsWhole p) (d : Disk) :
    ∃ d', w.writeAll d packets =
        (.ok (), { w with sink := packets.foldl Sink.record w.sink
                          packets := w.packets + packets.length }, d') ∧
      ∀ bytes, d'.store w.entry bytes = d.store w.entry bytes := by
  induction packets generalizing w content d with
  | nil => exact ⟨d, rfl, fun _ => rfl⟩
  | cons p packets ih =>
    have written := write_of_holds held (whole p List.mem_cons_self) d
    obtain ⟨d', rest, store_eq⟩ := ih
      (w := { w with sink := w.sink.record p, packets := w.packets + 1 }) (Sink.record_holds held p)
      (fun q member => whole q (List.mem_cons_of_mem p member))
      (d.store w.entry (w.sink.record p).out.written)
    refine ⟨d', ?_, fun bytes => (store_eq bytes).trans Disk.store_store⟩
    rw [writeAll, written]
    simp only [rest, List.foldl_cons, List.length_cons]
    rw [Nat.add_assoc, Nat.add_comm 1]

/-- A file that accepts bytes can be written and completed, and its size is the answer. -/
theorem exists_closed {path : String} {e : Entry} {d' : Disk} {packets : List Packet}
    (opened : d.create path = .ok (e, d')) (accepts : e.refuses = false)
    (whole : ∀ p ∈ packets, Record.IsWhole p) (linkType : LinkType) (snaplen : UInt32)
    (mode : Compression) :
    ∃ w d₁ w' d₂ bytes, create d path linkType snaplen mode = (.ok w, d₁) ∧
      w.writeAll d₁ packets = (.ok (), w', d₂) ∧
      w'.close d₂ = (.ok bytes.size, d'.store e bytes) ∧
      mode.Stores bytes.toList
        (FileHeader.write linkType snaplen ++ packets.flatMap Record.bytes) := by
  have started : (Sink.start mode linkType snaplen).Holds (FileHeader.write linkType snaplen) :=
    Sink.start_holds
  have created := create_of_accepts opened accepts linkType snaplen mode
  obtain ⟨d₂, written, store_eq⟩ := writeAll_of_holds
    (w := { path, entry := e, linkType, compression := mode, sink := .start mode linkType snaplen })
    started whole (d'.store e (Sink.start mode linkType snaplen).out.written)
  obtain ⟨bytes, closed, stores⟩ := close_of_holds
    (w := { path, entry := e, linkType, compression := mode
            sink := packets.foldl Sink.record (.start mode linkType snaplen)
            packets := 0 + packets.length })
    (Sink.foldl_record_holds started packets) d₂
  rw [Sink.kind_foldl_record, Sink.kind_start] at stores
  refine ⟨_, _, _, d₂, bytes, created, written, ?_, stores⟩
  rw [closed, store_eq, Disk.store_store]

end Writer

end RollingCapture.CaptureFile
