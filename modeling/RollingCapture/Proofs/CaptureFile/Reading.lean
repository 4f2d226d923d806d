import RollingCapture.CaptureFile.Reader
import RollingCapture.Proofs.CaptureFile.Format
import RollingCapture.Proofs.Lz4.Decoder

/-! Reading through the window is parsing the bytes that the stream still gives: which of them are in
the window already, and how the stream cuts them, makes no difference. -/
namespace RollingCapture.CaptureFile

namespace Stream

/-- Every byte still to come, and the problem behind them, if there is one. -/
def flow (d : Disk) : Stream → List UInt8 × Option StreamProblem
  | plain source => (source.rest d, none)
  | lz4 decoder => (decoder.unread ++ (decoder.flow d).1, (decoder.flow d).2)

variable {d : Disk} {n : Nat} {s s' : Stream}

theorem flow_of_read_error {p : StreamProblem} (found : s.read d n = (.error p, s')) :
    s.flow d = ([], some p) := by
  cases s with
  | plain source => simp [read] at found
  | lz4 decoder =>
    simp only [read, Lz4.Decoder.read] at found
    split at found
    · rename_i drained
      have empty : decoder.unread = [] := List.isEmpty_iff.1 drained
      split at found
      · rename_i e r failed
        obtain rfl := Except.error.inj (Prod.mk.inj found).1
        simp [flow, empty, Lz4.Decoder.flow_of_error failed]
      · simp at found
    · simp at found

theorem flow_of_read {bytes : List UInt8} (positive : n ≠ 0) (found : s.read d n = (.ok bytes, s')) :
    if bytes = [] then s.flow d = ([], none)
    else s.flow d = (bytes ++ (s'.flow d).1, (s'.flow d).2) := by
  cases s with
  | plain source =>
    simp only [read, Prod.mk.injEq, Except.ok.injEq] at found
    obtain ⟨rfl, rfl⟩ := found
    have split := Source.append_rest_read source d n
    split
    · rename_i ended
      rw [flow, Source.rest_of_read_eq_nil positive ended]
    · rw [flow, flow, split]
  | lz4 decoder =>
    simp only [read, Lz4.Decoder.read] at found
    split at found
    · rename_i drained
      have empty : decoder.unread = [] := List.isEmpty_iff.1 drained
      split at found
      · simp at found
      · rename_i block r next
        obtain ⟨result_eq, rfl⟩ := Prod.mk.inj found
        obtain rfl := Except.ok.inj result_eq
        split
        · rename_i ended
          obtain rfl := (List.take_eq_nil_iff.1 ended).resolve_left positive
          simp [flow, empty, Lz4.Decoder.flow_of_nil next]
        · rename_i given
          have nonempty : block ≠ [] := by
            intro nothing
            exact given (by simp [nothing])
          simp only [flow, empty, List.nil_append, Lz4.Decoder.flow_of_block nonempty next,
            Lz4.Decoder.flow_unread, ← List.append_assoc, List.take_append_drop]
    · rename_i held
      obtain ⟨result_eq, rfl⟩ := Prod.mk.inj found
      obtain rfl := Except.ok.inj result_eq
      rw [if_neg ?_]
      · simp only [flow, Lz4.Decoder.flow_unread, ← List.append_assoc, List.take_append_drop]
      · intro nothing
        exact held (List.isEmpty_iff.2 ((List.take_eq_nil_iff.1 nothing).resolve_left positive))

end Stream

namespace Record

variable {layout : Layout} {bytes more rest : List UInt8} {p : Packet} {n : Nat}

/-- The size of the first record, as its header gives it. -/
def total (layout : Layout) (bytes : List UInt8) : Nat :=
  layout.recordHeaderSize + layout.field (bytes.take layout.recordHeaderSize) 8

/-- The first record of bytes that hold all of it. -/
def first (layout : Layout) (bytes : List UInt8) : Packet :=
  let head := bytes.take layout.recordHeaderSize
  { header :=
      { sec := layout.field head 0
        usec := layout.microseconds (layout.field head 4)
        caplen := (layout.field head 8).toUInt32
        len := (layout.field head 12).toUInt32 }
    data := (bytes.take (total layout bytes)).drop layout.recordHeaderSize }

/-- Whether there is a record depends on how many bytes there are, and on its header. -/
theorem parse_eq (layout : Layout) (bytes : List UInt8) :
    parse layout bytes =
      if bytes.length < layout.recordHeaderSize then .error .header
      else if bytes.length < total layout bytes then .error (.data (total layout bytes))
      else .ok (first layout bytes, bytes.drop (total layout bytes)) := by
  have data : (bytes.take (total layout bytes)).drop layout.recordHeaderSize =
      (bytes.drop layout.recordHeaderSize).take
        (layout.field (bytes.take layout.recordHeaderSize) 8) := by
    rw [List.drop_take, total, Nat.add_sub_cancel_left]
  simp only [parse, List.splitAt_eq, List.length_take, List.length_drop, first, data,
    List.drop_drop]
  by_cases short : bytes.length < layout.recordHeaderSize
  · rw [if_pos (by omega), if_pos short]
  · rw [if_neg (by omega), if_neg short]
    by_cases cut : bytes.length < total layout bytes
    · rw [if_pos (by rw [total] at cut; omega), if_pos cut, total]
    · rw [if_neg (by rw [total] at cut; omega), if_neg cut, total]

theorem total_append (more : List UInt8) (whole : layout.recordHeaderSize ≤ bytes.length) :
    total layout (bytes ++ more) = total layout bytes := by
  rw [total, total, List.take_append_of_le_length whole]

theorem first_append (more : List UInt8) (whole : layout.recordHeaderSize ≤ bytes.length)
    (enough : total layout bytes ≤ bytes.length) :
    first layout (bytes ++ more) = first layout bytes := by
  simp only [first, total_append more whole, List.take_append_of_le_length whole,
    List.take_append_of_le_length enough]

theorem recordHeaderSize_le_of_parse (found : parse layout bytes = .ok (p, rest)) :
    layout.recordHeaderSize ≤ bytes.length := by
  apply Nat.not_lt.1
  intro short
  rw [parse_eq, if_pos short] at found
  contradiction

theorem length_of_parse (found : parse layout bytes = .ok (p, rest)) :
    bytes.length = total layout bytes + rest.length := by
  rw [parse_eq] at found
  split at found
  · contradiction
  · split at found
    · contradiction
    · rename_i enough
      obtain ⟨-, rfl⟩ := Prod.mk.inj (Except.ok.inj found)
      rw [List.length_drop]
      omega

theorem parse_append (found : parse layout bytes = .ok (p, rest)) :
    parse layout (bytes ++ more) = .ok (p, rest ++ more) := by
  have whole := recordHeaderSize_le_of_parse found
  have enough : total layout bytes ≤ bytes.length := by
    rw [length_of_parse found]
    omega
  rw [parse_eq, if_neg (by omega), if_neg (by omega)] at found
  obtain ⟨rfl, rfl⟩ := Prod.mk.inj (Except.ok.inj found)
  rw [parse_eq, List.length_append, total_append more whole, if_neg (by omega), if_neg (by omega),
    first_append more whole enough, List.drop_append_of_le_length enough]

/-- A shortage that further bytes do not make up for remains. -/
theorem parse_append_of_lt {s : Shortage} (short : parse layout bytes = .error s)
    (few : (bytes ++ more).length < s.needed layout) :
    parse layout (bytes ++ more) = .error s := by
  rw [parse_eq] at short
  split at short
  · obtain rfl := Except.error.inj short
    rw [Shortage.needed] at few
    rw [parse_eq, if_pos few]
  · rename_i whole
    split at short
    · obtain rfl := Except.error.inj short
      have total_eq := total_append more (Nat.not_lt.1 whole)
      rw [Shortage.needed] at few
      rw [parse_eq, total_eq, if_neg (by rw [List.length_append]; omega), if_pos few]
    · contradiction

theorem recordHeaderSize_le_of_shortage (short : parse layout bytes = .error (.data n)) :
    layout.recordHeaderSize ≤ bytes.length := by
  apply Nat.not_lt.1
  intro few
  rw [parse_eq, if_pos few] at short
  simp at short

theorem total_of_shortage (short : parse layout bytes = .error (.data n)) (more : List UInt8) :
    total layout (bytes ++ more) = n ∧ bytes ≠ [] := by
  rw [parse_eq] at short
  split at short
  · simp at short
  · rename_i whole
    split at short
    · obtain rfl := Shortage.data.inj (Except.error.inj short)
      constructor
      · exact total_append more (Nat.not_lt.1 whole)
      · rintro rfl
        exact whole layout.recordHeaderSize_pos
    · contradiction

theorem total_bytes (whole : IsWhole p) (rest : List UInt8) :
    total .written (Record.bytes p ++ rest) = headerSize + p.header.caplen.toNat := by
  have := length_of_parse (parse_bytes whole rest)
  rw [List.length_append, length_bytes whole] at this
  omega

theorem parse_nil (layout : Layout) : parse layout [] = .error .header := by
  have short : ([] : List UInt8).length < layout.recordHeaderSize := layout.recordHeaderSize_pos
  rw [parse_eq, if_pos short]

end Record

namespace Reader

variable {d : Disk} {r r' : Reader}

/-- Every byte of the content that is not parsed yet, and the problem behind them. -/
def flow (d : Disk) (r : Reader) : List UInt8 × Option StreamProblem :=
  if r.exhausted then (r.window, none)
  else (r.window ++ (r.stream.flow d).1, (r.stream.flow d).2)

theorem exists_flow_eq (d : Disk) (r : Reader) :
    ∃ more, r.flow d = (r.window ++ more, (r.flow d).2) ∧
      ∀ window, { r with window }.flow d = (window ++ more, (r.flow d).2) := by
  cases ended : r.exhausted with
  | true => exact ⟨[], by simp [flow, ended], fun window => by simp [flow, ended]⟩
  | false => exact ⟨(r.stream.flow d).1, by simp [flow, ended], fun window => by simp [flow, ended]⟩

/-- What reading on does not change. -/
def origin (r : Reader) : String × Compression × FileHeader := (r.path, r.compression, r.header)

theorem header_eq (origin_eq : r'.origin = r.origin) : r'.header = r.header :=
  (Prod.mk.inj (Prod.mk.inj origin_eq).2).2

theorem problem_eq (origin_eq : r'.origin = r.origin) (p : StreamProblem) :
    r'.problem p = r.problem p := by
  obtain ⟨path, rest⟩ := Prod.mk.inj origin_eq
  obtain ⟨compression, -⟩ := Prod.mk.inj rest
  rw [problem, problem, path, compression]

/-- What a refill leaves of a stream: bytes that come first, and the stream behind them, unless it
has ended or failed. -/
def gathered (d : Disk) :
    Except StreamProblem Bool × Array UInt8 × Stream → List UInt8 × Option StreamProblem
  | (.ok false, more, s) => (more.toList ++ (s.flow d).1, (s.flow d).2)
  | (.ok true, more, _) => (more.toList, none)
  | (.error p, more, _) => (more.toList, some p)

theorem gathered_refill (held : Nat) {needed : Nat} (more : Array UInt8) (s : Stream)
    (bound : needed ≤ capacity) :
    gathered d (refill d held needed more s) = (more.toList ++ (s.flow d).1, (s.flow d).2) := by
  fun_induction refill d held needed more s with
  | case1 => rfl
  | case2 more s short p next failed => simp [gathered, Stream.flow_of_read_error failed]
  | case3 more s short next ended =>
    have nothing := Stream.flow_of_read (by omega) ended
    rw [if_pos rfl] at nothing
    simp [gathered, nothing]
  | case4 more s short b bytes next given ih =>
    have split := Stream.flow_of_read (by omega) given
    rw [if_neg (by simp)] at split
    rw [ih, split]
    simp

/-- A refill keeps to the window, and stops short of what is needed only where nothing more comes. -/
theorem size_refill (needed : Nat) {held : Nat} {more : Array UInt8} (s : Stream)
    (space : held + more.size ≤ capacity) :
    held + (refill d held needed more s).2.1.size ≤ capacity ∧
      ((refill d held needed more s).1 ≠ .ok false →
        held + (refill d held needed more s).2.1.size < needed) := by
  fun_induction refill d held needed more s with
  | case1 => exact ⟨space, fun other => absurd rfl other⟩
  | case2 more s short => exact ⟨space, fun _ => Nat.not_le.1 short⟩
  | case3 more s short => exact ⟨space, fun _ => Nat.not_le.1 short⟩
  | case4 more s short b bytes next given ih =>
    have length := Stream.length_read_le given
    have size : (more ++ (b :: bytes).toArray).size = more.size + (b :: bytes).length := by simp
    exact ih (by omega)

theorem needed_le {layout : Layout} {window : List UInt8} {s : Record.Shortage}
    (short : Record.parse layout window = .error s) (fits : ¬ neverFits s) :
    s.needed layout ≤ capacity := by
  cases s with
  | header => exact Nat.le_trans layout.recordHeaderSize_le (by decide)
  | data n =>
    simp only [neverFits, decide_eq_true_eq] at fits
    exact Nat.le_of_not_le fits

/-- What the next read can come to, by the bytes that are still to be parsed. -/
inductive Outcome (d : Disk) (r : Reader) : Except Error (Option Packet) × Reader → Prop where
  | record {p : Packet} {rest : List UInt8} {r' : Reader} :
    Record.parse r.header.layout (r.flow d).1 = .ok (p, rest) →
    Record.total r.header.layout (r.flow d).1 ≤ capacity →
    r'.flow d = (rest, (r.flow d).2) → r'.origin = r.origin → r'.window.length ≤ capacity →
    Outcome d r (.ok (some p), r')
  | finished {r' : Reader} : r.flow d = ([], none) → Outcome d r (.ok none, r')
  | tooLarge {r' : Reader} : r.header.layout.recordHeaderSize ≤ (r.flow d).1.length →
    capacity ≤ Record.total r.header.layout (r.flow d).1 →
    Outcome d r (.error (r.problem .recordTooLarge), r')
  | cut {s : Record.Shortage} {e : Error} {r' : Reader} :
    Record.parse r.header.layout (r.flow d).1 = .error s → r.flow d ≠ ([], none) →
    ((r.flow d).2 = none → ¬ neverFits s ∧ e = r.problem .truncatedRecord) →
    Outcome d r (.error e, r')

theorem Outcome.of_flow_eq {x : Except Error (Option Packet) × Reader} (outcome : Outcome d r' x)
    (flow : r'.flow d = r.flow d) (origin : r'.origin = r.origin) : Outcome d r x := by
  have header := header_eq origin
  cases outcome with
  | record parsed fits left origin_eq room =>
    rw [flow, header] at parsed fits
    exact .record parsed fits (by rw [left, flow]) (origin_eq.trans origin) room
  | finished empty => exact .finished (flow ▸ empty)
  | tooLarge whole large =>
    rw [problem_eq origin]
    rw [flow, header] at whole large
    exact .tooLarge whole large
  | cut short more last =>
    rw [flow, header] at short
    rw [flow, problem_eq origin] at last
    exact .cut short (flow ▸ more) last

/-- The next read does what the bytes that are still to be parsed say, however they come in. -/
theorem outcome_nextFrame (room : r.window.length ≤ capacity) : Outcome d r (r.nextFrame d) := by
  fun_induction nextFrame d r with
  | case1 r p rest parsed =>
    have size := Record.length_of_parse parsed
    have whole := Record.recordHeaderSize_le_of_parse parsed
    obtain ⟨more, flow, left⟩ := exists_flow_eq d r
    refine .record ?_ ?_ (left rest) rfl (by simp only; omega)
    · rw [flow]
      exact Record.parse_append parsed
    · rw [flow, Record.total_append more whole]
      omega
  | case2 r s short large =>
    cases s with
    | header => contradiction
    | data n =>
      obtain ⟨more, flow, -⟩ := exists_flow_eq d r
      have whole := Record.recordHeaderSize_le_of_shortage short
      apply Outcome.tooLarge
      · rw [flow, List.length_append]
        omega
      · rw [flow, (Record.total_of_shortage short more).1]
        exact of_decide_eq_true large
  | case3 r s short fits ended =>
    have flow : r.flow d = (r.window, none) := by simp [Reader.flow, ended]
    split
    · rename_i empty
      exact .finished (by rw [flow, List.isEmpty_iff.1 empty])
    · rename_i nonempty
      refine .cut (by rw [flow, short]) ?_ fun _ => ⟨fits, rfl⟩
      intro flow_eq
      rw [flow] at flow_eq
      exact nonempty (List.isEmpty_iff.2 (Prod.mk.inj flow_eq).1)
  | case4 r s short fits more p bytes next failed =>
    have held : r.window.length + (#[] : Array UInt8).size ≤ capacity := room
    have kept := gathered_refill (d := d) r.window.length #[] r.stream (needed_le short fits)
    have few := (size_refill (d := d) (s.needed r.header.layout) r.stream held).2
    rw [failed] at kept few
    have flow : r.flow d = (r.window ++ bytes.toList, some p) := by
      simp only [gathered, List.nil_append, Prod.mk.injEq] at kept
      simp [Reader.flow, more, ← kept.1, ← kept.2]
    have cut : Record.parse r.header.layout (r.flow d).1 = .error s := by
      rw [flow]
      apply Record.parse_append_of_lt short
      rw [List.length_append, Array.length_toList]
      exact few (by simp)
    exact .cut cut (by simp [flow]) (by simp [flow])
  | case5 r s short fits more ended bytes next found ih =>
    have held : r.window.length + (#[] : Array UInt8).size ≤ capacity := room
    have kept := gathered_refill (d := d) r.window.length #[] r.stream (needed_le short fits)
    have space := (size_refill (d := d) (s.needed r.header.layout) r.stream held).1
    rw [found] at kept space
    refine (ih ?_).of_flow_eq ?_ rfl
    · simpa using space
    · cases ended
      all_goals
        simp only [gathered, List.nil_append, Prod.mk.injEq] at kept
        simp [Reader.flow, more, ← kept.1, ← kept.2]

theorem nextFrame_of_parse {p : Packet} {rest : List UInt8} (room : r.window.length ≤ capacity)
    (parsed : Record.parse r.header.layout (r.flow d).1 = .ok (p, rest))
    (fits : Record.total r.header.layout (r.flow d).1 < capacity) :
    ∃ r', r.nextFrame d = (.ok (some p), r') ∧ r'.flow d = (rest, (r.flow d).2) ∧
      r'.origin = r.origin ∧ r'.window.length ≤ capacity := by
  have outcome := outcome_nextFrame (d := d) room
  rcases read : r.nextFrame d with ⟨result, r'⟩
  rw [read] at outcome
  cases outcome with
  | record parsed' _ left origin room' =>
    obtain ⟨rfl, rfl⟩ := Prod.mk.inj (Except.ok.inj (parsed'.symm.trans parsed))
    exact ⟨r', rfl, left, origin, room'⟩
  | finished empty =>
    rw [empty, Record.parse_nil] at parsed
    contradiction
  | tooLarge _ large => exact absurd fits (Nat.not_lt.2 large)
  | cut short => exact absurd (short.symm.trans parsed) (by simp)

theorem nextFrame_of_shortage {s : Record.Shortage} (room : r.window.length ≤ capacity)
    (short : Record.parse r.header.layout (r.flow d).1 = .error s) (last : (r.flow d).2 = none) :
    (r.nextFrame d).1 =
      if neverFits s then .error (r.problem .recordTooLarge)
      else if (r.flow d).1.isEmpty then .ok none
      else .error (r.problem .truncatedRecord) := by
  have outcome := outcome_nextFrame (d := d) room
  rcases read : r.nextFrame d with ⟨result, r'⟩
  rw [read] at outcome
  cases outcome with
  | record parsed => exact absurd (short.symm.trans parsed) (by simp)
  | finished empty =>
    rw [empty, Record.parse_nil] at short
    obtain rfl := Except.error.inj short
    rw [empty]
    rfl
  | tooLarge whole large =>
    rw [Record.parse_eq, if_neg (Nat.not_lt.2 whole)] at short
    split at short
    · obtain rfl := Except.error.inj short
      exact (if_pos (decide_eq_true large)).symm
    · contradiction
  | cut short' more ended =>
    obtain rfl := Except.error.inj (short'.symm.trans short)
    obtain ⟨fits, rfl⟩ := ended last
    rw [if_neg fits, if_neg]
    intro empty
    exact more (Prod.ext (List.isEmpty_iff.1 empty) last)

theorem nextFrame_of_end (room : r.window.length ≤ capacity) (empty : r.flow d = ([], none)) :
    (r.nextFrame d).1 = .ok none := by
  have short : Record.parse r.header.layout (r.flow d).1 = .error .header := by
    rw [empty, Record.parse_nil]
  rw [nextFrame_of_shortage room short (by rw [empty]), empty]
  rfl

/-- A record that the window cannot hold is an error, although the file has all of it. -/
theorem nextFrame_of_large {p : Packet} {rest : List UInt8} (room : r.window.length ≤ capacity)
    (parsed : Record.parse r.header.layout (r.flow d).1 = .ok (p, rest))
    (large : capacity < Record.total r.header.layout (r.flow d).1) :
    (r.nextFrame d).1 = .error (r.problem .recordTooLarge) := by
  have outcome := outcome_nextFrame (d := d) room
  rcases read : r.nextFrame d with ⟨result, r'⟩
  rw [read] at outcome
  cases outcome with
  | record _ fits => exact absurd large (Nat.not_lt.2 fits)
  | finished empty =>
    rw [empty, Record.parse_nil] at parsed
    contradiction
  | tooLarge => rfl
  | cut short => exact absurd (short.symm.trans parsed) (by simp)

theorem framesAfter_of_record {p : Packet} (read : r.nextFrame d = (.ok (some p), r'))
    (before : Array Packet) : r.framesAfter d before = r'.framesAfter d (before.push p) := by
  rw [framesAfter]
  split <;> simp_all

theorem framesAfter_of_end (read : (r.nextFrame d).1 = .ok none) (before : Array Packet) :
    r.framesAfter d before = (before, none) := by
  rw [framesAfter]
  split <;> simp_all

theorem framesAfter_of_error {e : Error} (read : (r.nextFrame d).1 = .error e)
    (before : Array Packet) : r.framesAfter d before = (before, some e) := by
  rw [framesAfter]
  split <;> simp_all

theorem framesAfter_bytes {packets : List Packet} {rest : List UInt8}
    (room : r.window.length ≤ capacity) (layout : r.header.layout = .written)
    (flow : (r.flow d).1 = packets.flatMap Record.bytes ++ rest)
    (fits : ∀ p ∈ packets, Record.IsWhole p ∧ Record.headerSize + p.header.caplen.toNat < capacity)
    (before : Array Packet) :
    ∃ r' : Reader, r.framesAfter d before = r'.framesAfter d (before ++ packets.map Record.stored) ∧
      r'.flow d = (rest, (r.flow d).2) ∧ r'.origin = r.origin ∧ r'.window.length ≤ capacity := by
  induction packets generalizing r before with
  | nil => exact ⟨r, by simp, by rw [← List.nil_append rest]; exact Prod.ext flow rfl, rfl, room⟩
  | cons p packets ih =>
    obtain ⟨whole, small⟩ := fits p List.mem_cons_self
    rw [List.flatMap_cons, List.append_assoc] at flow
    have parsed : Record.parse r.header.layout (r.flow d).1 =
        .ok (Record.stored p, packets.flatMap Record.bytes ++ rest) := by
      rw [layout, flow]
      exact Record.parse_bytes whole _
    have total : Record.total r.header.layout (r.flow d).1 < capacity := by
      rw [layout, flow, Record.total_bytes whole]
      exact small
    obtain ⟨r₁, read, left, origin, room₁⟩ := nextFrame_of_parse room parsed total
    have header := header_eq origin
    obtain ⟨r', later, left', origin', room'⟩ := ih room₁ (by rw [header, layout]) (by rw [left])
      (fun q member => fits q (List.mem_cons_of_mem _ member)) (before.push (Record.stored p))
    refine ⟨r', ?_, by rw [left', left], origin'.trans origin, room'⟩
    rw [framesAfter_of_record read, later]
    simp

theorem readAll_bytes {packets : List Packet} (room : r.window.length ≤ capacity)
    (layout : r.header.layout = .written) (flow : r.flow d = (packets.flatMap Record.bytes, none))
    (fits : ∀ p ∈ packets, Record.IsWhole p ∧ Record.headerSize + p.header.caplen.toNat < capacity) :
    r.readAll d = .ok (packets.map Record.stored) := by
  have bytes : (r.flow d).1 = packets.flatMap Record.bytes ++ [] := by rw [flow, List.append_nil]
  obtain ⟨r', read, left, -, room'⟩ := framesAfter_bytes room layout bytes fits #[]
  rw [flow] at left
  rw [readAll, frames, read, framesAfter_of_end (nextFrame_of_end room' left)]
  simp

/-- A written record that the window cannot hold ends the reading, behind those before it. -/
theorem frames_of_large {before after : List Packet} {p : Packet}
    (room : r.window.length ≤ capacity) (layout : r.header.layout = .written)
    (flow : (r.flow d).1 = (before ++ p :: after).flatMap Record.bytes)
    (fits : ∀ q ∈ before, Record.IsWhole q ∧ Record.headerSize + q.header.caplen.toNat < capacity)
    (whole : Record.IsWhole p) (large : capacity < Record.headerSize + p.header.caplen.toNat) :
    r.frames d = (before.map Record.stored, some (r.problem .recordTooLarge)) := by
  rw [List.flatMap_append, List.flatMap_cons] at flow
  obtain ⟨r', read, left, origin, room'⟩ := framesAfter_bytes room layout flow fits #[]
  have header := header_eq origin
  have parsed : Record.parse r'.header.layout (r'.flow d).1 =
      .ok (Record.stored p, after.flatMap Record.bytes) := by
    rw [header, layout, left]
    exact Record.parse_bytes whole _
  have total : capacity < Record.total r'.header.layout (r'.flow d).1 := by
    rw [header, layout, left, Record.total_bytes whole]
    exact large
  have ended := nextFrame_of_large room' parsed total
  rw [frames, read, framesAfter_of_error ended, problem_eq origin]
  simp

end Reader

end RollingCapture.CaptureFile
