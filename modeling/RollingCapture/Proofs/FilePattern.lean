import Mathlib.Algebra.Group.Int.Defs
import RollingCapture.FilePattern
import RollingCapture.Proofs.Calendar
import RollingCapture.Proofs.Path

/-! Names of different times differ if the pattern has every field of the time, and lead through
different parts of the tree unless the pattern climbs. -/
namespace RollingCapture

namespace Text

variable {width : Nat} {m n : Int} {c : Char}

theorem mem_zeroPadded (member : c ∈ zeroPadded width n) : c = '-' ∨ c.isDigit = true := by
  simp only [zeroPadded, List.mem_append, List.mem_replicate] at member
  rcases member with (sign | ⟨-, rfl⟩) | digit
  · split at sign
    · exact .inl (List.mem_singleton.1 sign)
    · contradiction
  · exact .inr rfl
  · exact .inr (Nat.isDigit_of_mem_toDigits (by decide) (by decide) digit)

theorem zeroPadded_ne_nil : zeroPadded width n ≠ [] := by
  simp [zeroPadded, digits, Nat.toDigits_ne_nil]

def unpad (text : List Char) : Int :=
  if '-' ∈ text then -(Nat.ofDigitChars 10 text.tail 0) else Nat.ofDigitChars 10 text 0

theorem unpad_zeroPadded (width : Nat) (n : Int) : unpad (zeroPadded width n) = n := by
  have value (k : Nat) : Nat.ofDigitChars 10 (List.replicate k '0' ++ digits n.natAbs) 0 =
      n.natAbs := by
    rw [Nat.ofDigitChars_append, Nat.ofDigitChars_replicate_zero, Nat.mul_zero, digits,
      Nat.ofDigitChars_ten_toDigits]
  by_cases negative : n < 0
  · have text : zeroPadded width n = '-' :: (List.replicate
        (width - 1 - (digits n.natAbs).length) '0' ++ digits n.natAbs) := by
      simp [zeroPadded, negative]
    rw [text, unpad, if_pos List.mem_cons_self, List.tail_cons, value]
    omega
  · have text : zeroPadded width n =
        List.replicate (width - (digits n.natAbs).length) '0' ++ digits n.natAbs := by
      simp [zeroPadded, negative]
    have unsigned : '-' ∉ List.replicate (width - (digits n.natAbs).length) '0' ++
        digits n.natAbs := by
      intro member
      rcases List.mem_append.1 member with zero | digit
      · exact absurd (List.mem_replicate.1 zero).2 (by decide)
      · exact absurd (Nat.isDigit_of_mem_toDigits (by decide) (by decide) digit) (by decide)
    rw [text, unpad, if_neg unsigned, value]
    omega

theorem zeroPadded_injective (zeroPadded_eq : zeroPadded width m = zeroPadded width n) : m = n := by
  rw [← unpad_zeroPadded width m, zeroPadded_eq, unpad_zeroPadded]

theorem length_zeroPadded (nonneg : 0 ≤ n) (small : n < 10 ^ width) (positive : 0 < width) :
    (zeroPadded width n).length = width := by
  have short : (digits n.natAbs).length ≤ width := by
    rw [digits, Nat.length_toDigits_le_iff (by decide) positive]
    have : (n.natAbs : Int) < (10 ^ width : Nat) := by
      rw [Int.natAbs_of_nonneg nonneg]
      exact_mod_cast small
    exact_mod_cast this
  simp only [zeroPadded, if_neg (Int.not_lt.2 nonneg), List.nil_append, List.length_nil,
    List.length_append, List.length_replicate]
  omega

end Text

namespace FilePattern

variable {t t' : CivilTime} {ts : List Token} {tok : Token} {c : Char}

theorem mem_render_field {f : TimeField} (member : c ∈ (Token.field f).render t) :
    c = '-' ∨ c.isDigit = true := by
  cases f <;> exact Text.mem_zeroPadded member

theorem render_field_ne_nil (f : TimeField) : (Token.field f).render t ≠ [] := by
  cases f <;> exact Text.zeroPadded_ne_nil

theorem length_render (short : t.IsShort) (tok : Token) :
    (tok.render t).length = match tok with
      | .literal _ => 1
      | .field .year => (Text.zeroPadded 4 t.year).length
      | .field _ => 2 := by
  have two {n : Int} (nonneg : 0 ≤ n) (small : n < 100) : (Text.zeroPadded 2 n).length = 2 :=
    Text.length_zeroPadded nonneg small (by decide)
  have number {n : Nat} (small : n < 100) : (Text.zeroPadded 2 n).length = 2 :=
    two (Int.natCast_nonneg n) (by omega)
  cases tok with
  | literal c => rfl
  | field f =>
    cases f with
    | shortYear => exact two (Int.emod_nonneg _ (by decide)) (Int.emod_lt_of_pos _ (by decide))
    | year => rfl
    | month => exact number short.month
    | day => exact number short.day
    | hour => exact number short.hour
    | minute => exact number short.minute
    | second => exact number short.second

theorem length_render_eq (short : t.IsShort) (short' : t'.IsShort) (other : tok ≠ .field .year) :
    (tok.render t).length = (tok.render t').length := by
  rw [length_render short, length_render short']
  split
  · rfl
  · exact absurd rfl other
  · rfl

/-- Tokens of equal widths each have the same text if they have it together. -/
theorem render_eq_of_length_eq (lengths : ∀ tok ∈ ts, (tok.render t).length = (tok.render t').length)
    (rendered_eq : ts.flatMap (Token.render t) = ts.flatMap (Token.render t')) :
    ∀ tok ∈ ts, tok.render t = tok.render t' := by
  induction ts with
  | nil => simp
  | cons first ts ih =>
    rw [List.flatMap_cons, List.flatMap_cons] at rendered_eq
    obtain ⟨head, tail⟩ := List.append_inj rendered_eq (lengths first List.mem_cons_self)
    intro tok member
    rcases List.mem_cons.1 member with rfl | later
    · exact head
    · exact ih (fun tok member => lengths tok (List.mem_cons_of_mem _ member)) tail tok later

/-- Texts of one pattern differ in length by what their years do. -/
theorem length_flatMap_render (short : t.IsShort) (short' : t'.IsShort) (ts : List Token) :
    (ts.flatMap (Token.render t)).length +
        ts.count (.field .year) * ((Token.field .year).render t').length =
      (ts.flatMap (Token.render t')).length +
        ts.count (.field .year) * ((Token.field .year).render t).length := by
  induction ts with
  | nil => simp
  | cons tok ts ih =>
    rw [List.flatMap_cons, List.flatMap_cons, List.length_append, List.length_append,
      List.count_cons]
    by_cases year : tok = .field .year
    · subst year
      simp only [beq_self_eq_true, if_true, Nat.add_mul, Nat.one_mul]
      omega
    · have widths := length_render_eq short short' year
      have other : (tok == Token.field .year) = false := by simpa using year
      rw [other, if_neg (by simp), Nat.add_zero, widths]
      omega

/-- A text tells all its tokens, whatever they are. -/
theorem render_eq_of_flatMap_eq (short : t.IsShort) (short' : t'.IsShort)
    (rendered_eq : ts.flatMap (Token.render t) = ts.flatMap (Token.render t')) :
    ∀ tok ∈ ts, tok.render t = tok.render t' := by
  apply render_eq_of_length_eq _ rendered_eq
  intro tok member
  by_cases year : tok = .field .year
  · -- All years of the text are of one length, which makes up what the text is longer by.
    subst year
    have lengths := length_flatMap_render short short' ts
    rw [rendered_eq, Nat.add_left_cancel_iff] at lengths
    exact (Nat.eq_of_mul_eq_mul_left (List.count_pos_iff.2 member) lengths).symm
  · exact length_render_eq short short' year

def HasAllFields (pattern : String) : Prop :=
  ∀ f ∈ [TimeField.year, .month, .day, .hour, .minute, .second],
    Token.field f ∈ tokens pattern.toList

instance (pattern : String) : Decidable (HasAllFields pattern) :=
  inferInstanceAs (Decidable (∀ _ ∈ _, _))

theorem eq_of_flatMap_eq {pattern : String} (complete : HasAllFields pattern) (short : t.IsShort)
    (short' : t'.IsShort)
    (rendered_eq : (tokens pattern.toList).flatMap (Token.render t) =
      (tokens pattern.toList).flatMap (Token.render t')) : t = t' := by
  have fields := render_eq_of_flatMap_eq short short' rendered_eq
  have years := Text.zeroPadded_injective (fields _ (complete .year (by decide)))
  have months := Text.zeroPadded_injective (fields _ (complete .month (by decide)))
  have days := Text.zeroPadded_injective (fields _ (complete .day (by decide)))
  have hours := Text.zeroPadded_injective (fields _ (complete .hour (by decide)))
  have minutes := Text.zeroPadded_injective (fields _ (complete .minute (by decide)))
  have seconds := Text.zeroPadded_injective (fields _ (complete .second (by decide)))
  rcases t with ⟨_, _, _, _, _, _⟩
  rcases t' with ⟨_, _, _, _, _, _⟩
  simp only [CivilTime.mk.injEq]
  simp only [Int.natCast_inj] at months days hours minutes seconds
  exact ⟨years, months, days, hours, minutes, seconds⟩

/-- Names with all fields differ for different instants. -/
theorem expand_injective {pattern : String} {offset a b : Int} (complete : HasAllFields pattern)
    (early : CivilTime.earliest ≤ a ∧ CivilTime.earliest ≤ b)
    (late : a ≤ CivilTime.latest ∧ b ≤ CivilTime.latest)
    (expand_eq : expand pattern offset a = expand pattern offset b) : a = b := by
  apply CivilTime.ofSeconds_injective early late
  apply eq_of_flatMap_eq complete (CivilTime.isShort_ofSeconds _ _) (CivilTime.isShort_ofSeconds _ _)
  exact String.ofList_injective expand_eq

/-! The way through the tree that a name stands for, part by part. -/

theorem splitOn_append {text rest : List Char} (clean : '/' ∉ text) :
    (text ++ rest).splitOn '/' = (rest.splitOn '/').modifyHead (text ++ ·) := by
  induction text with
  | nil =>
    rw [List.nil_append]
    cases rest.splitOn '/' <;> rfl
  | cons c text ih =>
    have other : c ≠ '/' := by
      rintro rfl
      exact clean List.mem_cons_self
    have differs : (c == '/') = false := by simpa using other
    rw [List.cons_append, List.splitOn_cons_eq_if_modifyHead, differs, if_neg (by simp),
      ih (fun later => clean (List.mem_cons_of_mem c later))]
    cases rest.splitOn '/' <;> rfl

theorem slash_not_mem_render (other : tok ≠ .literal '/') : '/' ∉ tok.render t := by
  intro member
  cases tok with
  | literal c => exact other (by rw [List.mem_singleton.1 member])
  | field f => exact absurd (mem_render_field member) (by decide)

/-- The names of a path come from the parts of its pattern. -/
theorem splitOn_flatMap_render (t : CivilTime) (ts : List Token) :
    (ts.flatMap (Token.render t)).splitOn '/' =
      (ts.splitOn (.literal '/')).map (·.flatMap (Token.render t)) := by
  induction ts with
  | nil => rfl
  | cons tok ts ih =>
    rw [List.flatMap_cons, List.splitOn_cons_eq_if_modifyHead]
    by_cases slash : tok = .literal '/'
    · subst slash
      rw [beq_self_eq_true, if_pos rfl, List.map_cons, ← ih]
      exact List.splitOn_append_cons_self [] _
    · have differs : (tok == Token.literal '/') = false := by simpa using slash
      rw [differs, if_neg (by simp), splitOn_append (slash_not_mem_render slash), ih]
      cases ts.splitOn (.literal '/') <;> rfl

/-- Whether a part of the pattern leads up in the tree. -/
def Climbs (pattern : String) : Prop :=
  [.literal '.', .literal '.'] ∈ (tokens pattern.toList).splitOn (.literal '/')

instance (pattern : String) : Decidable (Climbs pattern) := inferInstanceAs (Decidable (_ ∈ _))

/-- What a part of a pattern means at a time. -/
def step? (t : CivilTime) (part : List Token) : Option Path.Part :=
  Path.step? (String.ofList (part.flatMap (Token.render t)))

theorem step?_of_field {f : TimeField} {part : List Token} (member : .field f ∈ part)
    (t : CivilTime) :
    step? t part = some (.named (String.ofList (part.flatMap (Token.render t)))) := by
  obtain ⟨c, inField⟩ := List.exists_mem_of_ne_nil _ (render_field_ne_nil (t := t) f)
  apply Path.step?_of_mem (c := c)
  · rw [String.toList_ofList]
    exact List.mem_flatMap.2 ⟨_, member, inField⟩
  · rintro rfl
    exact absurd (mem_render_field inField) (by decide)

theorem flatMap_render_of_no_field {part : List Token} (fieldless : ∀ f, .field f ∉ part)
    (t t' : CivilTime) : part.flatMap (Token.render t) = part.flatMap (Token.render t') := by
  induction part with
  | nil => rfl
  | cons tok part ih =>
    have here : tok.render t = tok.render t' := by
      cases tok with
      | literal c => rfl
      | field f => exact absurd List.mem_cons_self (fieldless f)
    rw [List.flatMap_cons, List.flatMap_cons, here,
      ih fun f member => fieldless f (List.mem_cons_of_mem _ member)]

theorem map_literal_flatMap_render {part : List Token} (fieldless : ∀ f, .field f ∉ part)
    (t : CivilTime) : (part.flatMap (Token.render t)).map .literal = part := by
  induction part with
  | nil => rfl
  | cons tok part ih =>
    cases tok with
    | literal c =>
      rw [List.flatMap_cons, List.map_append, ih fun f member => fieldless f (List.mem_cons_of_mem _ member)]
      rfl
    | field f => exact absurd List.mem_cons_self (fieldless f)

/-- The names on the way tell the text of every part. -/
theorem flatMap_render_eq_of_names_eq {parts : List (List Token)}
    (names_eq : (parts.filterMap (step? t)).filterMap Path.Part.name? =
      (parts.filterMap (step? t')).filterMap Path.Part.name?) :
    ∀ part ∈ parts, part.flatMap (Token.render t) = part.flatMap (Token.render t') := by
  induction parts with
  | nil => simp
  | cons part parts ih =>
    suffices head : part.flatMap (Token.render t) = part.flatMap (Token.render t') ∧
        (parts.filterMap (step? t)).filterMap Path.Part.name? =
          (parts.filterMap (step? t')).filterMap Path.Part.name? by
      intro q member
      rcases List.mem_cons.1 member with rfl | later
      · exact head.1
      · exact ih head.2 q later
    by_cases field : ∃ f, .field f ∈ part
    · obtain ⟨f, member⟩ := field
      rw [List.filterMap_cons_some (step?_of_field member t),
        List.filterMap_cons_some (step?_of_field member t')] at names_eq
      obtain ⟨name, rest⟩ := List.cons.inj names_eq
      exact ⟨String.ofList_injective name, rest⟩
    · -- A part without fields may mean no name at all, so its text comes from the pattern.
      have text := flatMap_render_of_no_field (fun f member => field ⟨f, member⟩) t t'
      refine ⟨text, ?_⟩
      have step : step? t part = step? t' part := by rw [step?, step?, text]
      cases meaning : step? t' part with
      | none =>
        rwa [List.filterMap_cons_none (step.trans meaning), List.filterMap_cons_none meaning] at names_eq
      | some p =>
        rw [List.filterMap_cons_some (step.trans meaning), List.filterMap_cons_some meaning] at names_eq
        cases named : p.name? with
        | none => rwa [List.filterMap_cons_none named, List.filterMap_cons_none named] at names_eq
        | some name =>
          rw [List.filterMap_cons_some named, List.filterMap_cons_some named] at names_eq
          exact (List.cons.inj names_eq).2

variable {pattern : String} {offset offset' sec sec' : Int}

theorem steps_expand (pattern : String) (offset sec : Int) :
    Path.steps (expand pattern offset sec) =
      ((tokens pattern.toList).splitOn (.literal '/')).filterMap
        (step? (.ofSeconds offset sec)) := by
  rw [Path.steps_eq, Path.segments, expand, String.toList_ofList, splitOn_flatMap_render,
    List.map_map, List.filterMap_map]
  rfl

theorem expand_eq_of_names_eq
    (names_eq : (Path.steps (expand pattern offset sec)).filterMap Path.Part.name? =
      (Path.steps (expand pattern offset' sec')).filterMap Path.Part.name?) :
    expand pattern offset sec = expand pattern offset' sec' := by
  rw [steps_expand, steps_expand] at names_eq
  have parts := flatMap_render_eq_of_names_eq names_eq
  have split : (((tokens pattern.toList).flatMap (Token.render (.ofSeconds offset sec))).splitOn '/') =
      (((tokens pattern.toList).flatMap (Token.render (.ofSeconds offset' sec'))).splitOn '/') := by
    rw [splitOn_flatMap_render, splitOn_flatMap_render]
    exact List.map_congr_left parts
  have joined := congrArg (List.intercalate ['/']) split
  rw [List.intercalate_splitOn, List.intercalate_splitOn] at joined
  rw [expand, expand, joined]

/-- A pattern that does not climb gives names that do not. -/
theorem parent_not_mem_steps (level : ¬ Climbs pattern) (offset sec : Int) :
    .parent ∉ Path.steps (expand pattern offset sec) := by
  intro member
  rw [steps_expand] at member
  obtain ⟨part, inside, meaning⟩ := List.mem_filterMap.1 member
  have plain : ∀ f, .field f ∉ part := by
    intro f named
    rw [step?_of_field named] at meaning
    simp at meaning
  have dots : part.flatMap (Token.render (.ofSeconds offset sec)) = ['.', '.'] := by
    have text := congrArg String.toList (Path.eq_of_step?_parent meaning)
    rw [String.toList_ofList] at text
    exact text
  have part_eq := map_literal_flatMap_render plain (.ofSeconds offset sec)
  rw [dots] at part_eq
  rw [← part_eq] at inside
  exact level inside

theorem startsWith_expand_iff (pattern : String) (offset sec : Int) :
    (expand pattern offset sec).startsWith "/" = true ↔
      (tokens pattern.toList).head? = some (.literal '/') := by
  rw [String.startsWith_string_iff, Path.toList_slash, expand, String.toList_ofList]
  cases tokens pattern.toList with
  | nil => simp
  | cons tok ts =>
    by_cases here : tok = .literal '/'
    · subst here
      exact ⟨fun _ => rfl, fun _ => List.prefix_append _ _⟩
    · constructor
      · intro front
        have nonempty : tok.render (.ofSeconds offset sec) ≠ [] := by
          cases tok with
          | literal c => exact List.cons_ne_nil c []
          | field f => exact render_field_ne_nil f
        obtain ⟨c, text, first⟩ := List.exists_cons_of_ne_nil nonempty
        rw [List.flatMap_cons, first, List.cons_append, List.cons_prefix_cons] at front
        have inside : '/' ∈ tok.render (.ofSeconds offset sec) := by
          rw [first, front.1]
          exact List.mem_cons_self
        exact absurd inside (slash_not_mem_render here)
      · intro front
        exact absurd (Option.some.inj front) here

/-! A pattern in a directory. -/

theorem tokens_cons {c : Char} (other : c ≠ '%') (cs : List Char) :
    tokens (c :: cs) = .literal c :: tokens cs := by
  rw [tokens]
  · rintro rfl
    exact absurd rfl other
  · rintro _ _ rfl
    exact absurd rfl other

theorem ne_sign {c : Char} {rest : List Char} (notLast : c = '%' → rest = [] → False)
    (notSign : ∀ d more, c = '%' → rest = d :: more → False) : c ≠ '%' := by
  rintro rfl
  cases rest with
  | nil => exact notLast rfl rfl
  | cons d more => exact notSign d more rfl rfl

/-- No token goes on behind a slash. -/
theorem tokens_append (above name : List Char) :
    tokens (above ++ '/' :: name) = tokens (above ++ ['/']) ++ tokens name := by
  induction above using tokens.induct with
  | case1 => simp [tokens]
  | case2 => simp [tokens]
  | case3 c rest ih => simp [tokens, ih]
  | case4 c rest notLast notSign ih =>
    have other := ne_sign notLast notSign
    rw [List.cons_append, List.cons_append, tokens_cons other, tokens_cons other, ih, List.cons_append]

theorem mem_of_literal_mem_tokens {c : Char} {cs : List Char} (member : .literal c ∈ tokens cs) :
    c ∈ cs := by
  induction cs using tokens.induct with
  | case1 => simp [tokens] at member
  | case2 => simpa [tokens] using member
  | case3 d rest ih =>
    rw [tokens] at member
    rcases List.mem_cons.1 member with here | later
    · cases letter : TimeField.ofLetter? d with
      | some f => simp [letter] at here
      | none =>
        simp only [letter, Token.literal.injEq] at here
        simp [here]
    · simp [ih later]
  | case4 d rest notLast notSign ih =>
    rw [tokens] at member
    · rcases List.mem_cons.1 member with here | later
      · simp [Token.literal.inj here]
      · simp [ih later]
    · exact notLast
    · exact notSign

theorem expand_append {front : String} (isFront : Path.IsFront front) (name : String) (offset sec : Int) :
    expand (front ++ name) offset sec = expand front offset sec ++ expand name offset sec := by
  apply String.toList_inj.1
  rcases isFront with rfl | ⟨above, rfl⟩
  · rw [String.empty_append, String.toList_append]
    rfl
  · simp only [expand, String.toList_append, String.toList_ofList, Path.toList_slash]
    rw [List.append_assoc, List.singleton_append, tokens_append, List.flatMap_append]

theorem exists_tokens_concat_slash (above : List Char) :
    ∃ ts, tokens (above ++ ['/']) = ts ++ [.literal '/'] := by
  induction above using tokens.induct with
  | case1 => exact ⟨[], rfl⟩
  | case2 => exact ⟨[], rfl⟩
  | case3 c rest ih =>
    obtain ⟨ts, tokens_eq⟩ := ih
    exact ⟨_ :: ts, congrArg (_ :: ·) tokens_eq⟩
  | case4 c rest notLast notSign ih =>
    have other := ne_sign notLast notSign
    obtain ⟨ts, tokens_eq⟩ := ih
    exact ⟨.literal c :: ts, by rw [List.cons_append, tokens_cons other, tokens_eq, List.cons_append]⟩

theorem isFront_expand {front : String} (isFront : Path.IsFront front) (offset sec : Int) :
    Path.IsFront (expand front offset sec) := by
  rcases isFront with rfl | ⟨above, rfl⟩
  · exact .inl rfl
  · obtain ⟨ts, tokens_eq⟩ := exists_tokens_concat_slash above.toList
    refine .inr ⟨String.ofList (ts.flatMap (Token.render (.ofSeconds offset sec))), ?_⟩
    apply String.toList_inj.1
    rw [expand, String.toList_append, Path.toList_slash, tokens_eq, List.flatMap_append, String.toList_append,
      String.toList_ofList, String.toList_ofList, Path.toList_slash]
    rfl

theorem expand_of_plain {directory : String} (plain : '%' ∉ directory.toList) (offset sec : Int) :
    expand directory offset sec = directory := by
  have literals (cs : List Char) (plain : '%' ∉ cs) (t : CivilTime) :
      (tokens cs).flatMap (Token.render t) = cs := by
    induction cs with
    | nil => rfl
    | cons c cs ih =>
      have other : c ≠ '%' := by
        rintro rfl
        exact plain List.mem_cons_self
      rw [tokens_cons other, List.flatMap_cons, ih fun later => plain (List.mem_cons_of_mem c later)]
      rfl
  rw [expand, literals _ plain, String.ofList_toList]

/-- In a directory without fields of the time, only the name depends on the time. -/
theorem expand_in_directory {directory : String} (plain : '%' ∉ directory.toList) (name : String)
    (offset sec : Int) :
    expand (directory ++ "/" ++ name) offset sec = directory ++ "/" ++ expand name offset sec := by
  have plain' : '%' ∉ (directory ++ "/").toList := by simp [String.toList_append, Path.toList_slash, plain]
  rw [expand_append (.inr ⟨directory, rfl⟩), expand_of_plain plain']

theorem slash_not_mem_expand {name : String} (plain : '/' ∉ name.toList) (offset sec : Int) :
    '/' ∉ (expand name offset sec).toList := by
  rw [expand, String.toList_ofList]
  intro member
  obtain ⟨tok, inside, here⟩ := List.mem_flatMap.1 member
  refine slash_not_mem_render ?_ here
  rintro rfl
  exact plain (mem_of_literal_mem_tokens inside)

end FilePattern

end RollingCapture
