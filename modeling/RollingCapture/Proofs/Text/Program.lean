import RollingCapture.Settings
import RollingCapture.Proofs.Text.Blank
import RollingCapture.Proofs.Text.Utf8
import RollingCapture.Proofs.Disk
import Mathlib.Data.List.Forall2

/-! Filter programs in files. A program is made of what the lines of its file say, so it stays the same
whatever is done to the file that leaves that alone: lines that say nothing, comments, and line ends. -/
namespace RollingCapture.Text.Program

open List (Forall₂)

variable {line line' back comment part : List Char} {pieces pieces' parts parts' : List (List Char)} {c : Char}

/-- A line without anything in front of its first number sign but white space. -/
def Vacant (line : List Char) : Prop := Blank (line.takeWhile (· ≠ '#'))

/-- What the lines say that say anything. -/
def said (pieces : List (List Char)) : List (List Char) := (pieces.map bare).filter (· ≠ [])

theorem vacant_iff : Vacant line ↔ bare line = [] := trim_eq_nil_iff.symm

theorem said_append (pieces pieces' : List (List Char)) : said (pieces ++ pieces') = said pieces ++ said pieces' := by
  rw [said, List.map_append, List.filter_append, said, said]

theorem said_cons (line : List Char) (pieces : List (List Char)) :
    said (line :: pieces) = said [line] ++ said pieces := said_append [line] pieces

theorem said_of_vacant (vacant : Vacant line) : said [line] = [] := by
  simp [said, vacant_iff.1 vacant]

theorem said_eq_nil_iff : said pieces = [] ↔ ∀ line ∈ pieces, Vacant line := by
  simp [said, List.filter_eq_nil_iff, vacant_iff]

theorem takeWhile_append_comment :
    (line ++ '#' :: comment).takeWhile (· ≠ '#') = line.takeWhile (· ≠ '#') := by
  induction line with
  | nil => simp
  | cons c line ih => simp only [List.cons_append, List.takeWhile_cons, ih]

theorem bare_append_comment : bare (line ++ '#' :: comment) = bare line := by
  rw [bare, takeWhile_append_comment, bare]

/-- White space at the end of a line belongs to a comment or is trimmed. -/
theorem bare_append (blank : Blank back) : bare (line ++ back) = bare line := by
  rw [bare, List.takeWhile_append]
  split
  · rename_i uncommented
    rw [bare, (List.takeWhile_prefix _).eq_of_length uncommented]
    exact trim_append fun c member => blank c ((List.takeWhile_sublist _).subset member)
  · rfl

theorem blank_return : Blank ['\r'] := by
  intro c member
  rw [List.mem_singleton.1 member]
  decide

theorem bare_chomp (line : List Char) : bare (chomp line) = bare line := by
  unfold chomp
  split
  · rename_i last
    rw [← bare_append blank_return, List.dropLast_append_getLast? _ last]
  · rfl

/-- Line ends do not matter, nor does it whether the last one is there. -/
theorem strip_eq (text : List Char) : strip text = [' '].intercalate (said (text.splitOn '\n')) := by
  have chomped (pieces : List (List Char)) : said (pieces.map chomp) = said pieces := by
    rw [said, List.map_map, said]
    exact congrArg _ (List.map_congr_left fun line _ => bare_chomp line)
  have kept (last : List Char) : said (Option.toList ((some last).filter (· ≠ []))) = said [last] := by
    by_cases empty : last = []
    · rw [empty]
      rfl
    · rw [Option.filter_some, if_pos (by simpa using empty), Option.toList_some]
  obtain ⟨last, final⟩ : ∃ last, (text.splitOn '\n').getLast? = some last :=
    ⟨_, List.getLast?_eq_some_getLast (List.splitOn_ne_nil '\n' text)⟩
  show [' '].intercalate (said (lines text)) = _
  rw [lines, said_append, chomped, final, kept, ← said_append, List.dropLast_append_getLast? _ final]

/-! What the lines say, put together. -/

theorem mem_intercalate (member : c ∈ [' '].intercalate parts) : c = ' ' ∨ ∃ part ∈ parts, c ∈ part := by
  induction parts with
  | nil => simp at member
  | cons part rest ih =>
    by_cases last : rest = []
    · subst last
      exact .inr ⟨part, List.mem_singleton_self part, by simpa using member⟩
    · rw [List.intercalate_cons_of_ne_nil last, List.mem_append, List.mem_append] at member
      rcases member with (member | space) | member
      · exact .inr ⟨part, List.mem_cons_self, member⟩
      · exact .inl (List.mem_singleton.1 space)
      · exact (ih member).imp_right fun ⟨part, inside, member⟩ => ⟨part, List.mem_cons_of_mem _ inside, member⟩

theorem intercalate_append (nonempty : parts ≠ []) (nonempty' : parts' ≠ []) :
    [' '].intercalate (parts ++ parts') = [' '].intercalate parts ++ [' '] ++ [' '].intercalate parts' := by
  induction parts with
  | nil => exact absurd rfl nonempty
  | cons part rest ih =>
    by_cases last : rest = []
    · subst last
      rw [List.singleton_append, List.intercalate_cons_of_ne_nil nonempty', List.intercalate_singleton]
    · rw [List.cons_append, List.intercalate_cons_of_ne_nil (by simp [last]), ih last,
        List.intercalate_cons_of_ne_nil last]
      simp only [List.append_assoc]

theorem intercalate_spec (each : ∀ part ∈ parts, Trimmed part ∧ part ≠ []) :
    Trimmed ([' '].intercalate parts) ∧ ([' '].intercalate parts = [] ↔ parts = []) := by
  induction parts with
  | nil => exact ⟨trimmed_nil, by simp⟩
  | cons part rest ih =>
    obtain ⟨trimmed, nonempty⟩ := each part List.mem_cons_self
    obtain ⟨trimmed', empty⟩ := ih fun part member => each part (List.mem_cons_of_mem _ member)
    by_cases last : rest = []
    · subst last
      simpa [nonempty] using trimmed
    · rw [List.intercalate_cons_of_ne_nil last]
      exact ⟨trimmed.append trimmed' nonempty (mt empty.1 last) [' '], by simp [nonempty]⟩

theorem mem_said (member : part ∈ said pieces) :
    (Trimmed part ∧ part ≠ []) ∧ '#' ∉ part ∧ ∃ line ∈ pieces, ∀ c ∈ part, c ∈ line := by
  obtain ⟨mapped, nonempty⟩ := List.mem_filter.1 member
  obtain ⟨line, inside, rfl⟩ := List.mem_map.1 mapped
  refine ⟨⟨trimmed_trim _, by simpa using nonempty⟩, fun sign => ?_, line, inside, fun c member => ?_⟩
  · simpa using List.mem_takeWhile_imp (mem_of_mem_trim sign)
  · exact (List.takeWhile_sublist _).subset (mem_of_mem_trim member)

theorem feed_not_mem (text : List Char) (member : line ∈ text.splitOn '\n') : '\n' ∉ line := by
  induction text generalizing line with
  | nil => simp_all
  | cons c rest ih =>
    rw [List.splitOn_cons_eq_if_modifyHead] at member
    split at member
    · rcases List.mem_cons.1 member with rfl | member
      · exact List.not_mem_nil
      · exact ih member
    · rename_i other
      cases pieces : rest.splitOn '\n' with
      | nil => exact absurd pieces (List.splitOn_ne_nil _ _)
      | cons first more =>
        rw [pieces, List.modifyHead_cons] at member
        rcases List.mem_cons.1 member with rfl | member
        · have clean : '\n' ∉ first := ih (by simp [pieces])
          have differs : '\n' ≠ c := fun feed_eq => other (beq_iff_eq.2 feed_eq.symm)
          exact List.not_mem_cons_of_ne_of_not_mem differs clean
        · exact ih (by simp [pieces, member])

theorem trimmed_strip (text : List Char) : Trimmed (strip text) := by
  rw [strip_eq]
  exact (intercalate_spec fun _ member => (mem_said member).1).1

theorem strip_eq_nil_iff (text : List Char) : strip text = [] ↔ said (text.splitOn '\n') = [] := by
  rw [strip_eq]
  exact (intercalate_spec fun _ member => (mem_said member).1).2

theorem sign_not_mem_strip (text : List Char) : '#' ∉ strip text := by
  intro member
  rw [strip_eq] at member
  rcases mem_intercalate member with space | ⟨part, inside, member⟩
  · exact absurd space (by decide)
  · exact (mem_said inside).2.1 member

theorem feed_not_mem_strip (text : List Char) : '\n' ∉ strip text := by
  intro member
  rw [strip_eq] at member
  rcases mem_intercalate member with space | ⟨part, inside, member⟩
  · exact absurd space (by decide)
  · obtain ⟨line, piece, within⟩ := (mem_said inside).2.2
    exact feed_not_mem text piece (within _ member)

/-- A program is a line that says itself. -/
theorem strip_strip (text : List Char) : strip (strip text) = strip text := by
  have itself : bare (strip text) = strip text := by
    rw [bare, List.takeWhile_eq_self_iff.2, trim_of_trimmed (trimmed_strip text)]
    rintro c member
    have other : c ≠ '#' := fun c_eq => sign_not_mem_strip text (c_eq ▸ member)
    simpa using other
  rw [strip_eq (strip text), List.splitOn_eq_singleton (feed_not_mem_strip text), said, List.map_singleton,
    itself]
  by_cases empty : strip text = []
  · rw [empty]
    rfl
  · simp [empty]

theorem read?_eq_none_iff {text : String} : read? text = none ↔ strip text.toList = [] := by
  simp [read?]

theorem read?_eq_some_iff {text program : String} :
    read? text = some program ↔ strip text.toList ≠ [] ∧ strip text.toList = program.toList := by
  rw [read?, Option.ite_none_left_eq_some, Option.some.injEq]
  refine and_congr_right fun _ => ⟨fun ofList_eq => ?_, fun strip_eq => ?_⟩
  · rw [← ofList_eq, String.toList_ofList]
  · rw [strip_eq, String.ofList_toList]

theorem read?_congr {text text' : String}
    (said_eq : said (text.toList.splitOn '\n') = said (text'.toList.splitOn '\n')) :
    read? text = read? text' := by
  unfold read?
  rw [strip_eq, strip_eq, said_eq]

/-! What may be done to a file. -/

/-- The second lines are the first ones with lines in between that say nothing. -/
inductive Inserted : List (List Char) → List (List Char) → Prop where
  | nil : Inserted [] []
  | keep (line : List Char) {pieces pieces'} (more : Inserted pieces pieces') :
    Inserted (line :: pieces) (line :: pieces')
  | insert {line : List Char} {pieces pieces'} (vacant : Vacant line) (more : Inserted pieces pieces') :
    Inserted pieces (line :: pieces')

/-- The second line is the first one, perhaps with a comment more. A carriage return at the end stays there
or goes into the comment. -/
def Commented (line line' : List Char) : Prop :=
  line' = line ∨ ∃ text ending comment, (ending = [] ∨ ending = ['\r']) ∧
    line = text ++ ending ∧ line' = text ++ '#' :: comment

def withReturns (text : List Char) : List Char :=
  text.flatMap fun c => if c = '\n' then ['\r', '\n'] else [c]

theorem said_of_inserted (inserted : Inserted pieces pieces') : said pieces' = said pieces := by
  induction inserted with
  | nil => rfl
  | keep line _ ih => rw [said_cons, ih, ← said_cons]
  | insert vacant _ ih => rw [said_cons, said_of_vacant vacant, ih, List.nil_append]

theorem said_of_same (pairs : Forall₂ (fun line line' => bare line' = bare line) pieces pieces') :
    said pieces' = said pieces := by
  suffices pieces'.map bare = pieces.map bare by rw [said, this, said]
  induction pairs with
  | nil => rfl
  | cons first _ ih => rw [List.map_cons, first, ih, List.map_cons]

theorem Commented.bare_eq (commented : Commented line line') : bare line' = bare line := by
  rcases commented with rfl | ⟨text, ending, comment, either, rfl, rfl⟩
  · rfl
  · have blank : Blank ending := by
      rcases either with rfl | rfl
      · exact fun _ mem => absurd mem List.not_mem_nil
      · exact blank_return
    rw [bare_append_comment, bare_append blank]

theorem splitOn_withReturns (text : List Char) :
    Forall₂ (fun line line' => line' = line ∨ line' = line ++ ['\r']) (text.splitOn '\n')
      ((withReturns text).splitOn '\n') := by
  induction text with
  | nil => exact .cons (.inl rfl) .nil
  | cons c rest ih =>
    rw [List.splitOn_cons_eq_if_modifyHead]
    by_cases feed : c = '\n'
    · subst feed
      rw [if_pos (by simp)]
      exact .cons (.inr rfl) ih
    · have kept : withReturns (c :: rest) = c :: withReturns rest := by
        rw [withReturns, List.flatMap_cons, if_neg feed]
        rfl
      have differs : ¬ (c == '\n') = true := by simpa using feed
      rw [kept, List.splitOn_cons_eq_if_modifyHead, if_neg differs, if_neg differs]
      generalize rest.splitOn '\n' = pieces, (withReturns rest).splitOn '\n' = pieces' at ih
      cases ih with
      | nil => exact .nil
      | cons first more =>
        refine .cons ?_ more
        rcases first with rfl | rfl
        · exact .inl rfl
        · exact .inr rfl

/-- Two programs, each of which may be missing, with a space between. -/
def joined : Option String → Option String → Option String
  | some program, some program' => some (program ++ " " ++ program')
  | some program, none => some program
  | none, program' => program'

theorem read?_append_feed (text text' : String) :
    read? (text ++ "\n" ++ text') = joined (read? text) (read? text') := by
  have pieces : (text ++ "\n" ++ text').toList.splitOn '\n' =
      text.toList.splitOn '\n' ++ text'.toList.splitOn '\n' := by
    rw [String.toList_append, String.toList_append, List.append_assoc]
    exact List.splitOn_append_cons_self _ _
  simp only [read?, strip_eq_nil_iff, pieces, said_append, List.append_eq_nil_iff]
  rw [strip_eq, strip_eq, strip_eq, pieces, said_append]
  by_cases empty : said (text.toList.splitOn '\n') = [] <;>
    by_cases empty' : said (text'.toList.splitOn '\n') = []
  · simp [empty, empty', joined]
  · simp [empty, empty', joined]
  · simp [empty, empty', joined]
  · rw [intercalate_append empty empty']
    simp [empty, empty', joined, String.ofList_append, String.append_assoc]

end RollingCapture.Text.Program

namespace RollingCapture.Config

open Text (Blank Trimmed)
open Text.Program

/-- The filter program is in a file that holds the given text. -/
structure FiltersFrom (c : Config) (d : Disk) (text : String) : Prop where
  inline : c.settings.filter = none
  file : ∃ path, c.settings.filterFile = some path ∧ d.read path = .ok (Text.Utf8.encode text).toArray

theorem FiltersFrom.filterProgram {c : Config} {d : Disk} {text : String} (filters : c.FiltersFrom d text) :
    c.filterProgram d = .ok (read? text) := by
  obtain ⟨inline, path, file, holds⟩ := filters
  have reads : d.readText path = .ok text := by
    rw [Disk.readText, holds]
    simp only [bind, Except.bind, Text.Utf8.decode_encode]
    rfl
  rw [Config.filterProgram, inline, file]
  simp only [reads]

/-- A file without any text but comments gives no program. Any other file gives one that is a single line
without comments, that is not white space at either end, and that is its own program. Lines that say
nothing, comments and other line ends do not change it, and the program of two texts one below the other is
that of the first and that of the second. -/
theorem filter_files_normalised :
    (∀ (c : Config) (d : Disk) (text : String), c.FiltersFrom d text →
      c.filterProgram d = .ok (read? text)) ∧
    ∀ text : String, let lines (text : String) := text.toList.splitOn '\n'
      (read? text = none ↔ ∀ line ∈ lines text, Blank (line.takeWhile (· ≠ '#'))) ∧
      (∀ program, read? text = some program →
        '#' ∉ program.toList ∧ '\n' ∉ program.toList ∧ Trimmed program.toList ∧
          read? program = some program) ∧
      (∀ text', Inserted (lines text) (lines text') → read? text' = read? text) ∧
      (∀ text', List.Forall₂ Commented (lines text) (lines text') → read? text' = read? text) ∧
      read? (String.ofList (withReturns text.toList)) = read? text ∧
      ∀ text', read? (text ++ "\n" ++ text') = joined (read? text) (read? text') := by
  refine ⟨fun c d text filters => filters.filterProgram, ?_⟩
  intro text lines
  refine ⟨?_, ?_, ?_, ?_, ?_, read?_append_feed text⟩
  · rw [read?_eq_none_iff, strip_eq_nil_iff, said_eq_nil_iff]
    rfl
  · intro program found
    obtain ⟨nonempty, program⟩ := read?_eq_some_iff.1 found
    refine ⟨?_, ?_, ?_, ?_⟩
    · exact program ▸ sign_not_mem_strip _
    · exact program ▸ feed_not_mem_strip _
    · exact program ▸ trimmed_strip _
    · rw [read?_eq_some_iff, ← program, strip_strip]
      exact ⟨nonempty, rfl⟩
  · exact fun text' inserted => read?_congr (said_of_inserted inserted)
  · exact fun text' commented => read?_congr (said_of_same (commented.imp fun _ _ => Commented.bare_eq))
  · refine read?_congr ?_
    rw [String.toList_ofList]
    refine said_of_same ((splitOn_withReturns text.toList).imp fun line line' ends => ?_)
    rcases ends with rfl | rfl
    · rfl
    · exact bare_append blank_return

/-- A file with white space, comments and other line ends than it should have. -/
theorem commented_file_normalised :
    let text := "# web\r\n\ttcp port 80 # http\n\n \u00A0or udp"
    let d := Disk.fresh.addFileWith "web.bpf" (Text.Utf8.encode text).toArray
    let c : Config := ⟨{ pattern := "web.pcap", filterFile := some "web.bpf" }, .plain⟩
    c.FiltersFrom d text ∧ c.filterProgram d = .ok (some "tcp port 80 or udp") := by
  intro text d c
  have holds : d.read "web.bpf" = .ok (Text.Utf8.encode text).toArray :=
    Disk.eq_ok_of_toOption (by decide +kernel)
  have filters : c.FiltersFrom d text := ⟨rfl, "web.bpf", rfl, holds⟩
  refine ⟨filters, ?_⟩
  rw [filter_files_normalised.1 c d text filters]
  decide +kernel

end RollingCapture.Config
