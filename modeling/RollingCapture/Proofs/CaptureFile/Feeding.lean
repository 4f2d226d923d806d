import RollingCapture.Proofs.CaptureFile.Opening
import RollingCapture.Proofs.Lz4.Feeding

/-! Reading a written file of which some bytes at the end may be missing. Every read, after an end or
an error too, gives the next record as it was stored, or none. If nothing is missing, the reads come
to the end. -/
namespace RollingCapture.CaptureFile

variable {d : Disk} {e : Entry} {missing content body : List UInt8} {linkType : LinkType}
  {snaplen : UInt32} {mode : Compression}

namespace Stream

/-- The stream is that of the file `e`, and gives `content`, but for what the bytes `missing` at the
end of the file stand for. -/
inductive Feeds (d : Disk) (e : Entry) (missing : List UInt8) : Stream → List UInt8 → Prop
  | plain {source : Source} : source.entry = e →
      Feeds d e missing (.plain source) (source.rest d ++ missing)
  | lz4 {decoder : Lz4.Decoder} {later : List UInt8} : decoder.Behind d e missing later →
      Feeds d e missing (.lz4 decoder) (decoder.unread ++ later)

theorem Feeds.congr {d' : Disk} {s : Stream} (feeds : Feeds d e missing s content)
    (content_eq : d'.content e = d.content e) : Feeds d' e missing s content := by
  cases feeds with
  | @plain source entry =>
    subst entry
    rw [← Source.rest_congr content_eq]
    exact .plain rfl
  | lz4 behind => exact .lz4 (behind.congr content_eq)

inductive Gives (d : Disk) (e : Entry) (missing content : List UInt8) :
    Except StreamProblem (List UInt8) × Stream → Prop
  | bytes {bytes content' missing' : List UInt8} {s' : Stream} : content = bytes ++ content' →
      Feeds d e missing' s' content' → (missing = [] → missing' = []) →
      (bytes = [] → missing' = [] → content' = []) → Gives d e missing content (.ok bytes, s')
  | failed {p : StreamProblem} {missing' : List UInt8} {s' : Stream} :
      Feeds d e missing' s' content → missing ≠ [] → Gives d e missing content (.error p, s')

theorem gives_read {s : Stream} {n : Nat} (positive : n ≠ 0) (feeds : Feeds d e missing s content) :
    Gives d e missing content (s.read d n) := by
  cases feeds with
  | @plain source entry =>
    have split := Source.append_rest_read source d n
    have entry_eq := (Source.entry_read source d n).trans entry
    rcases read : source.read d n with ⟨bytes, source'⟩
    rw [read] at split entry_eq
    simp only [Stream.read, read]
    have feeds : Feeds d e missing (.plain source') (source'.rest d ++ missing) := .plain entry_eq
    refine .bytes ?_ feeds id ?_
    · rw [← List.append_assoc, split]
    · rintro rfl rfl
      have nothing : (source.read d n).1 = [] := by rw [read]
      rw [List.append_nil]
      exact split.trans (Source.rest_of_read_eq_nil positive nothing)
  | @lz4 decoder later behind =>
    simp only [Stream.read, Lz4.Decoder.read]
    split
    · rename_i drained
      have empty : decoder.unread = [] := List.isEmpty_iff.1 drained
      have kept := Lz4.Decoder.unread_nextBlock decoder d
      have next := Lz4.Decoder.next_of_behind behind
      rcases given : decoder.nextBlock d with ⟨p | block, r'⟩
      · rw [given] at next kept
        cases next with
        | failed behind' lost =>
          have feeds := Feeds.lz4 behind'
          rw [kept] at feeds
          exact .failed feeds lost
      · rw [given] at next
        cases next with
        | @block _ later' missing' _ split behind' whole last =>
          refine .bytes ?_ (.lz4 (behind'.setUnread (block.drop n))) whole ?_
          · simp only [empty, split, List.nil_append, ← List.append_assoc, List.take_append_drop]
          · intro nothing complete
            have ended := (List.take_eq_nil_iff.1 nothing).resolve_left positive
            simp only [last ended complete, ended, List.drop_nil, List.append_nil]
    · rename_i held
      refine .bytes ?_ (.lz4 (behind.setUnread (decoder.unread.drop n))) id ?_
      · rw [← List.append_assoc, List.take_append_drop]
      · intro nothing
        exact absurd (List.isEmpty_iff.2 ((List.take_eq_nil_iff.1 nothing).resolve_left positive)) held

/-- The content of a written file, or what there is of it. Short of the first number the file does not
tell how it is stored. -/
theorem feeds_of_ofSource {source : Source} {s : Stream} {bytes : List UInt8}
    (stores : mode.Stores bytes (FileHeader.write linkType snaplen ++ body))
    (found : source.rest d ++ missing = bytes)
    (filled : source.buffer = (source.rest d).take Source.capacity)
    (opens : ofSource d source = .ok s) :
    compression source = mode ∧ s.Feeds d source.entry missing (FileHeader.write linkType snaplen ++ body) ∨
      s = .plain source ∧ (source.rest d).length < 4 := by
  have front : source.rest d <+: bytes := by
    rw [← found]
    exact List.prefix_append _ _
  cases mode with
  | plain =>
    have plain : compression source = .plain := by
      refine compression_of_unframed filled fun framed => ?_
      rw [show bytes = _ from stores] at front
      exact FileHeader.write_unframed _ _ _ (framed.trans front)
    rw [ofSource, plain] at opens
    obtain rfl := Except.ok.inj opens
    have feeds : Feeds d source.entry missing (.plain source) (source.rest d ++ missing) := .plain rfl
    rw [found, show bytes = _ from stores] at feeds
    exact .inl ⟨plain, feeds⟩
  | lz4 =>
    obtain ⟨body', blocks, rfl⟩ := stores
    cases kind : compression source with
    | plain =>
      rw [ofSource, kind] at opens
      refine .inr ⟨(Except.ok.inj opens).symm, Nat.lt_of_not_le fun long => ?_⟩
      have magic : Lz4.Frame.magic <+: source.rest d := by
        refine List.prefix_of_prefix_length_le ?_ front long
        rw [Lz4.Frame.start, List.append_assoc]
        exact List.prefix_append _ _
      rw [(compression_eq_lz4_iff filled).2 magic] at kind
      contradiction
    | lz4 =>
      rw [ofSource, kind] at opens
      dsimp only at opens
      split at opens
      · contradiction
      · contradiction
      · rename_i decoder started
        obtain rfl := Except.ok.inj opens
        obtain ⟨behind, unread⟩ := Lz4.Decoder.behind_of_start blocks (.inl rfl) found started
        have feeds := Feeds.lz4 behind
        rw [unread, List.nil_append] at feeds
        exact .inl ⟨rfl, feeds⟩

end Stream

namespace Reader

variable {r r' : Reader}

/-- The bytes in the window and those of the stream are `content`, but for what the bytes `missing`
stand for. -/
def Feeds (d : Disk) (e : Entry) (missing : List UInt8) (r : Reader) (content : List UInt8) : Prop :=
  ∃ later, content = r.window ++ later ∧ r.stream.Feeds d e missing later ∧
    (r.exhausted = true → missing = [] → later = [])

theorem Feeds.congr {d' : Disk} (feeds : r.Feeds d e missing content)
    (content_eq : d'.content e = d.content e) : r.Feeds d' e missing content := by
  obtain ⟨later, split, stream, ended⟩ := feeds
  exact ⟨later, split, stream.congr content_eq, ended⟩

theorem feeds_refill (held : Nat) {needed : Nat} (more : Array UInt8) {s : Stream}
    {later : List UInt8} (bound : needed ≤ capacity) (feeds : s.Feeds d e missing later) :
    ∃ later' missing', more.toList ++ later = (refill d held needed more s).2.1.toList ++ later' ∧
      (refill d held needed more s).2.2.Feeds d e missing' later' ∧
      (missing = [] → missing' = [] ∧ ∃ ended, (refill d held needed more s).1 = .ok ended) ∧
      ((refill d held needed more s).1 = .ok true → missing' = [] → later' = []) := by
  fun_induction refill d held needed more s generalizing missing later with
  | case1 more s enough =>
    exact ⟨later, missing, rfl, feeds, fun empty => ⟨empty, false, rfl⟩, by simp⟩
  | case2 more s short p next failed =>
    have gives := Stream.gives_read (n := capacity - (held + more.size)) (by omega) feeds
    rw [failed] at gives
    cases gives with
    | failed feeds' lost => exact ⟨later, _, rfl, feeds', fun empty => absurd empty lost, by simp⟩
  | case3 more s short next ended =>
    have gives := Stream.gives_read (n := capacity - (held + more.size)) (by omega) feeds
    rw [ended] at gives
    cases gives with
    | @bytes _ later' missing' _ split feeds' whole last =>
      rw [List.nil_append] at split
      exact ⟨later', missing', by rw [split], feeds', fun empty => ⟨whole empty, true, rfl⟩,
        fun _ => last rfl⟩
  | case4 more s short b bytes next given ih =>
    have gives := Stream.gives_read (n := capacity - (held + more.size)) (by omega) feeds
    rw [given] at gives
    cases gives with
    | @bytes _ later' missing' _ split feeds' whole =>
      obtain ⟨later'', missing'', rest, feeds'', whole', last⟩ := ih feeds'
      refine ⟨later'', missing'', ?_, feeds'', fun empty => whole' (whole empty), last⟩
      rw [← rest, split, Array.toList_append, List.append_assoc]

/-- The error where the content does not go on with a record that fits. -/
def Fails (r : Reader) (content : List UInt8) (err : Error) : Prop :=
  content ≠ [] ∧
    (err = r.problem .truncatedRecord ∧ (∃ s, Record.parse r.header.layout content = .error s) ∨
      err = r.problem .recordTooLarge ∧ r.header.layout.recordHeaderSize ≤ content.length ∧
        capacity ≤ Record.total r.header.layout content)

/-- What the next read comes to. It may go on behind an end or an error. -/
inductive Next (d : Disk) (e : Entry) (missing content : List UInt8) (r : Reader) :
    Except Error (Option Packet) × Reader → Prop
  | frame {p : Packet} {content' missing' : List UInt8} {r' : Reader} :
      Record.parse r.header.layout content = .ok (p, content') → r'.Feeds d e missing' content' →
      r'.origin = r.origin → (missing = [] → missing' = []) →
      Next d e missing content r (.ok (some p), r')
  | finished {missing' : List UInt8} {r' : Reader} : r'.Feeds d e missing' content →
      r'.origin = r.origin → (missing = [] → missing' = [] ∧ content = []) →
      Next d e missing content r (.ok none, r')
  | failed {missing' : List UInt8} {r' : Reader} {err : Error} : r'.Feeds d e missing' content →
      r'.origin = r.origin → (missing = [] → missing' = [] ∧ r.Fails content err) →
      Next d e missing content r (.error err, r')

theorem Next.of_origin_eq {missing' : List UInt8} {x : Except Error (Option Packet) × Reader}
    (next : Next d e missing' content r' x) (origin : r'.origin = r.origin)
    (whole : missing = [] → missing' = []) : Next d e missing content r x := by
  have header := header_eq origin
  cases next with
  | frame parsed feeds origin_eq kept =>
    rw [header] at parsed
    exact .frame parsed feeds (origin_eq.trans origin) fun empty => kept (whole empty)
  | finished feeds origin_eq ended =>
    exact .finished feeds (origin_eq.trans origin) fun empty => ended (whole empty)
  | failed feeds origin_eq fails =>
    rw [Fails, header, problem_eq origin, problem_eq origin] at fails
    exact .failed feeds (origin_eq.trans origin) fun empty => fails (whole empty)

theorem next_nextFrame (feeds : r.Feeds d e missing content) :
    Next d e missing content r (r.nextFrame d) := by
  fun_induction nextFrame d r generalizing missing with
  | case1 r p rest parsed =>
    obtain ⟨later, split, stream, ended⟩ := feeds
    refine .frame ?_ ⟨later, rfl, stream, ended⟩ rfl id
    rw [split]
    exact Record.parse_append parsed
  | case2 r s short large =>
    refine .failed feeds rfl fun complete => ⟨complete, ?_⟩
    obtain ⟨later, rfl, -⟩ := feeds
    cases s with
    | header => contradiction
    | data n =>
      obtain ⟨total, nonempty⟩ := Record.total_of_shortage short later
      have header := Record.recordHeaderSize_le_of_shortage short
      refine ⟨List.append_ne_nil_of_left_ne_nil nonempty later, .inr ⟨rfl, ?_, ?_⟩⟩
      · rw [List.length_append]
        omega
      · rw [total]
        exact of_decide_eq_true large
  | case3 r s short fits ended =>
    have content_eq (complete : missing = []) : content = r.window := by
      obtain ⟨later, rfl, -, last⟩ := feeds
      rw [last ended complete, List.append_nil]
    split
    · rename_i empty
      exact .finished feeds rfl fun complete =>
        ⟨complete, (content_eq complete).trans (List.isEmpty_iff.1 empty)⟩
    · rename_i nonempty
      refine .failed feeds rfl fun complete => ⟨complete, ?_⟩
      rw [content_eq complete]
      exact ⟨fun empty => nonempty (List.isEmpty_iff.2 empty), .inl ⟨rfl, s, short⟩⟩
  | case4 r s short fits more p bytes stream failed =>
    obtain ⟨later, split, feeds, -⟩ := feeds
    obtain ⟨later', missing', rest, feeds', whole, -⟩ :=
      feeds_refill r.window.length #[] (needed_le short fits) feeds
    rw [failed] at rest feeds' whole
    have lost : missing ≠ [] := by
      intro complete
      obtain ⟨-, ended, ok⟩ := whole complete
      contradiction
    refine .failed ⟨later', ?_, feeds', fun ended => absurd ended more⟩ rfl fun complete =>
      absurd complete lost
    rw [split, List.append_assoc, ← rest]
    rfl
  | case5 r s short fits more ended bytes stream found ih =>
    obtain ⟨later, split, feeds, -⟩ := feeds
    obtain ⟨later', missing', rest, feeds', whole, last⟩ :=
      feeds_refill r.window.length #[] (needed_le short fits) feeds
    rw [found] at rest feeds' whole last
    have feeds'' : Feeds d e missing'
        { r with stream, window := r.window ++ bytes.toList, exhausted := ended } content := by
      refine ⟨later', ?_, feeds', fun now => last (congrArg _ now)⟩
      rw [split, List.append_assoc, ← rest]
      rfl
    exact (ih feeds'').of_origin_eq rfl fun complete => (whole complete).1

/-- A written file that opens, whole or not, is read from behind its file header on. -/
theorem feeds_of_ofPath {path : String} {id : Nat} {bytes : List UInt8}
    (opened : d.openToRead path = .ok (.file id))
    (stores : mode.Stores bytes (FileHeader.write linkType snaplen ++ body))
    (found : (d.content (.file id)).toList ++ missing = bytes) (opens : ofPath d path = .ok r) :
    ∃ missing', r.Feeds d (.file id) missing' body ∧
      r.origin = (path, mode, ⟨.written, snaplen, .ofHandle linkType.code⟩) ∧
      (missing = [] → missing' = []) := by
  obtain ⟨source, filled, rest, buffer, entry⟩ := Source.exists_filled d (.file id)
  rw [← rest] at found
  simp only [ofPath, opened, filled] at opens
  split at opens
  · contradiction
  · rename_i s from'
    rcases read : s.read d capacity with ⟨_ | head, s'⟩
    · simp only [read] at opens
      contradiction
    · simp only [read] at opens
      split at opens
      · contradiction
      · rename_i header window parsed
        obtain rfl := Except.ok.inj opens
        have long := FileHeader.length_of_parse parsed
        rcases Stream.feeds_of_ofSource stores found buffer from' with ⟨kind, feeds⟩ | ⟨rfl, few⟩
        · have gives := Stream.gives_read (n := capacity) (by decide) feeds
          rw [read, entry] at gives
          cases gives with
          | @bytes _ content' missing' _ split feeds' whole =>
            have front : FileHeader.write linkType snaplen <+: head := by
              refine List.prefix_of_prefix_length_le ?_ (List.prefix_append head content') ?_
              · rw [← split]
                exact List.prefix_append _ _
              · rw [FileHeader.length_write]
                exact long
            obtain ⟨left, rfl⟩ := front
            rw [FileHeader.parse_write] at parsed
            obtain ⟨rfl, rfl⟩ := Prod.mk.inj (Except.ok.inj parsed)
            rw [List.append_assoc] at split
            refine ⟨missing', ⟨content', List.append_cancel_left split, feeds', by simp⟩, ?_, whole⟩
            rw [origin, kind]
        · -- So short a file has no file header.
          have split := Source.append_rest_read source d capacity
          simp only [Stream.read, Prod.mk.injEq, Except.ok.injEq] at read
          rw [read.1] at split
          have total := congrArg List.length split
          rw [List.length_append] at total
          simp only [fileHeaderSize] at long
          omega

/-- A plain file that opens, whoever wrote it, is read from behind its file header on. -/
theorem feeds_of_plain {path : String} {id : Nat} (opened : d.openToRead path = .ok (.file id))
    (content_eq : (d.content (.file id)).toList = content) (unframed : ¬ Lz4.Frame.magic <+: content)
    (opens : ofPath d path = .ok r) : r.Feeds d (.file id) [] (content.drop fileHeaderSize) := by
  obtain ⟨source, filled, rest, buffer, entry⟩ := Source.exists_filled d (.file id)
  rw [content_eq] at rest
  have kind : Stream.compression source = .plain :=
    Stream.compression_of_unframed buffer (rest ▸ unframed)
  have split := Source.append_rest_read source d capacity
  have entry_eq := (Source.entry_read source d capacity).trans entry
  rcases read : source.read d capacity with ⟨head, source'⟩
  rw [read, rest] at split
  rw [read] at entry_eq
  simp only [ofPath, opened, filled, kind, Stream.ofSource, Stream.read, read] at opens
  split at opens
  · contradiction
  · rename_i header window parsed
    obtain rfl := Except.ok.inj opens
    have long := FileHeader.length_of_parse parsed
    have behind := FileHeader.parse_of_prefix (List.prefix_refl head) long
    rw [parsed] at behind
    obtain ⟨-, rfl⟩ := Prod.mk.inj (Except.ok.inj behind)
    have feeds : Stream.Feeds d (.file id) [] (.plain source') (source'.rest d ++ []) := .plain entry_eq
    rw [List.append_nil] at feeds
    refine ⟨source'.rest d, ?_, feeds, by simp⟩
    rw [← split, List.drop_append_of_le_length long]

/-! Reads of a file of which nothing is missing. -/

variable {packets : List Packet} {p : Packet} {rest : List UInt8}

theorem nextFrame_of_parsed (feeds : r.Feeds d e [] content)
    (parsed : Record.parse r.header.layout content = .ok (p, rest))
    (fits : Record.total r.header.layout content < capacity) :
    ∃ r', r.nextFrame d = (.ok (some p), r') ∧ r'.Feeds d e [] rest ∧ r'.origin = r.origin := by
  have next := next_nextFrame feeds
  rcases read : r.nextFrame d with ⟨answer, r'⟩
  rw [read] at next
  cases next with
  | frame parsed' feeds' origin kept =>
    obtain ⟨rfl, rfl⟩ := Prod.mk.inj (Except.ok.inj (parsed'.symm.trans parsed))
    rw [kept rfl] at feeds'
    exact ⟨r', rfl, feeds', origin⟩
  | finished _ _ ended =>
    rw [(ended rfl).2, Record.parse_nil] at parsed
    contradiction
  | failed _ _ fails =>
    obtain ⟨-, -, ⟨-, s, short⟩ | ⟨-, -, large⟩⟩ := fails rfl
    · rw [parsed] at short
      contradiction
    · omega

theorem nextFrame_of_bytes (layout : r.header.layout = .written)
    (feeds : r.Feeds d e [] (Record.bytes p ++ rest)) (whole : Record.IsWhole p)
    (fits : Record.headerSize + p.header.caplen.toNat < capacity) :
    ∃ r', r.nextFrame d = (.ok (some (Record.stored p)), r') ∧ r'.Feeds d e [] rest ∧
      r'.origin = r.origin := by
  apply nextFrame_of_parsed feeds
  · rw [layout]
    exact Record.parse_bytes whole rest
  · rw [layout, Record.total_bytes whole]
    exact fits

theorem nextFrame_of_nil (feeds : r.Feeds d e [] []) :
    ∃ r', r.nextFrame d = (.ok none, r') ∧ r'.Feeds d e [] [] ∧ r'.origin = r.origin := by
  have next := next_nextFrame feeds
  rcases read : r.nextFrame d with ⟨answer, r'⟩
  rw [read] at next
  cases next with
  | frame parsed =>
    rw [Record.parse_nil] at parsed
    contradiction
  | finished feeds' origin ended =>
    rw [(ended rfl).1] at feeds'
    exact ⟨r', rfl, feeds', origin⟩
  | failed _ _ fails => exact absurd rfl (fails rfl).2.1

theorem nextFrame_of_cut {part more : List UInt8} (layout : r.header.layout = .written)
    (feeds : r.Feeds d e [] part) (nonempty : part ≠ []) (cut : part ++ more = Record.bytes p)
    (lost : more ≠ []) (whole : Record.IsWhole p)
    (fits : Record.headerSize + p.header.caplen.toNat < capacity) :
    (r.nextFrame d).1 = .error (r.problem .truncatedRecord) := by
  have uncut := Record.parse_bytes whole []
  rw [List.append_nil, ← cut] at uncut
  have next := next_nextFrame feeds
  rcases read : r.nextFrame d with ⟨answer, r'⟩
  rw [read] at next
  cases next with
  | frame parsed =>
    rw [layout] at parsed
    have result_eq := (Record.parse_append parsed).symm.trans uncut
    have empty := (Prod.mk.inj (Except.ok.inj result_eq)).2
    exact absurd (List.append_eq_nil_iff.1 empty).2 lost
  | finished _ _ ended => exact absurd (ended rfl).2 nonempty
  | failed _ _ fails =>
    obtain ⟨-, -, ⟨err_eq, -⟩ | ⟨-, header, large⟩⟩ := fails rfl
    · rw [err_eq]
    · have total := Record.total_bytes whole []
      rw [List.append_nil, ← cut, Record.total_append more (layout ▸ header)] at total
      rw [layout] at large
      omega

def answers (d : Disk) : Reader → Nat → List (Except Error (Option Packet))
  | _, 0 => []
  | r, n + 1 => (r.nextFrame d).1 :: answers d (r.nextFrame d).2 n

def packet? : Except Error (Option Packet) → Option Packet
  | .ok answer => answer
  | .error _ => none

/-- The next read brings the next record as it was stored, or nothing, and then stays in front of
it. -/
theorem packet?_nextFrame (layout : r.header.layout = .written)
    (feeds : r.Feeds d e missing (packets.flatMap Record.bytes))
    (whole : ∀ p ∈ packets, Record.IsWhole p) :
    ∃ missing' later, (r.nextFrame d).2.Feeds d e missing' (later.flatMap Record.bytes) ∧
      (r.nextFrame d).2.header.layout = .written ∧
      ((∃ p, packets = p :: later ∧ (r.nextFrame d).1 = .ok (some (Record.stored p))) ∨
        packets = later ∧ packet? (r.nextFrame d).1 = none) := by
  have next := next_nextFrame feeds
  rcases read : r.nextFrame d with ⟨answer, r'⟩
  rw [read] at next
  cases next with
  | frame parsed feeds' origin =>
    cases packets with
    | nil =>
      rw [List.flatMap_nil, Record.parse_nil] at parsed
      contradiction
    | cons p packets =>
      rw [layout, List.flatMap_cons, Record.parse_bytes (whole p List.mem_cons_self)] at parsed
      obtain ⟨rfl, rfl⟩ := Prod.mk.inj (Except.ok.inj parsed)
      exact ⟨_, packets, feeds', by rw [header_eq origin, layout], .inl ⟨p, rfl, rfl⟩⟩
  | finished feeds' origin =>
    exact ⟨_, packets, feeds', by rw [header_eq origin, layout], .inr ⟨rfl, rfl⟩⟩
  | failed feeds' origin =>
    exact ⟨_, packets, feeds', by rw [header_eq origin, layout], .inr ⟨rfl, rfl⟩⟩

/-- However often it is read, no packets come but those written, from the first on. -/
theorem answers_prefix (layout : r.header.layout = .written)
    (feeds : r.Feeds d e missing (packets.flatMap Record.bytes))
    (whole : ∀ p ∈ packets, Record.IsWhole p) (n : Nat) :
    (r.answers d n).filterMap packet? <+: packets.map Record.stored := by
  induction n generalizing r missing packets with
  | zero => exact List.nil_prefix
  | succ n ih =>
    obtain ⟨missing', later, feeds', layout', step⟩ := packet?_nextFrame layout feeds whole
    rcases step with ⟨p, rfl, answer⟩ | ⟨rfl, nothing⟩
    · have rest := ih layout' feeds' fun q member => whole q (List.mem_cons_of_mem p member)
      rw [answers, List.filterMap_cons_some (b := Record.stored p) (by rw [answer]; rfl), List.map_cons]
      exact List.cons_prefix_cons.2 ⟨rfl, rest⟩
    · rw [answers, List.filterMap_cons_none nothing]
      exact ih layout' feeds' whole

/-- The packets come to an end. -/
theorem exists_answers (layout : r.header.layout = .written)
    (feeds : r.Feeds d e missing (packets.flatMap Record.bytes))
    (whole : ∀ p ∈ packets, Record.IsWhole p) :
    ∃ k last, k ≤ packets.length ∧ packet? last = none ∧
      r.answers d (k + 1) = (packets.take k).map (fun p => .ok (some (Record.stored p))) ++ [last] := by
  induction packets generalizing r missing with
  | nil =>
    obtain ⟨-, later, -, -, ⟨p, nil_eq, -⟩ | ⟨-, nothing⟩⟩ := packet?_nextFrame layout feeds whole
    · contradiction
    · exact ⟨0, _, Nat.le_refl 0, nothing, rfl⟩
  | cons p packets ih =>
    obtain ⟨missing', later, feeds', layout', step⟩ := packet?_nextFrame layout feeds whole
    rcases step with ⟨q, cons_eq, answer⟩ | ⟨rfl, nothing⟩
    · obtain ⟨rfl, rfl⟩ := List.cons.inj cons_eq
      obtain ⟨k, last, bound, nothing, rest⟩ :=
        ih layout' feeds' fun q member => whole q (List.mem_cons_of_mem p member)
      refine ⟨k + 1, last, Nat.succ_le_succ bound, nothing, ?_⟩
      rw [answers, rest, answer]
      rfl
    · exact ⟨0, _, Nat.zero_le _, nothing, rfl⟩

/-- Where nothing is missing, all records that fit are read, up to what is behind them. -/
theorem answers_of_bytes (layout : r.header.layout = .written)
    (feeds : r.Feeds d e [] (packets.flatMap Record.bytes ++ rest))
    (fits : ∀ p ∈ packets, Record.IsWhole p ∧ Record.headerSize + p.header.caplen.toNat < capacity)
    (n : Nat) :
    ∃ r' : Reader, r.answers d (packets.length + n) =
        packets.map (fun p => .ok (some (Record.stored p))) ++ r'.answers d n ∧
      r'.Feeds d e [] rest ∧ r'.origin = r.origin := by
  induction packets generalizing r with
  | nil => exact ⟨r, by rw [List.length_nil, Nat.zero_add]; rfl, feeds, rfl⟩
  | cons p packets ih =>
    obtain ⟨whole, small⟩ := fits p List.mem_cons_self
    rw [List.flatMap_cons, List.append_assoc] at feeds
    obtain ⟨r₁, read, feeds₁, origin₁⟩ := nextFrame_of_bytes layout feeds whole small
    obtain ⟨r', rest, feeds', origin'⟩ := ih (by rw [header_eq origin₁, layout]) feeds₁
      fun q member => fits q (List.mem_cons_of_mem p member)
    refine ⟨r', ?_, feeds', origin'.trans origin₁⟩
    rw [List.length_cons, Nat.succ_add, answers, read, rest]
    rfl

end Reader

end RollingCapture.CaptureFile
