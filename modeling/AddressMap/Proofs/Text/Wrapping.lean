import AddressMap.Proofs.Text.Words
import Mathlib.Data.List.Chain

/-!
# Wrapping as a rule

The lines of a paragraph hold its words in order, and a line is broken only where the next word
would not fit any more. This determines the lines, once it is said how long a text is. Wrapping
follows the rule for lengths in bytes. The main statement says when it also follows the rule for
lengths in characters: at every width it does so exactly if all words are ASCII or there is no more
than one.
-/

namespace AddressMap

set_option autoImplicit false

def joined (line : List String) : String :=
  String.intercalate " " line

def breakWords (measure : String → Nat) (width : Nat) (line : List String) :
    List String → List (List String)
  | [] => [line]
  | word :: rest =>
      if width < measure (joined line) + 1 + measure word then
        line :: breakWords measure width [word] rest
      else breakWords measure width (line ++ [word]) rest

def lineWords (measure : String → Nat) (width : Nat) (text : String) : List (List String) :=
  match words text with
  | [] => []
  | word :: rest => breakWords measure width [word] rest

/-- The lines of a paragraph when lengths are taken by the measure. -/
def wrapBy (measure : String → Nat) (width : Nat) (text : String) : List String :=
  (lineWords measure width text).map joined

/-- The words of the text stand in the lines in order. A line of more than one word keeps to the
width, and the first word of the next line would not fit behind it. -/
structure SetGreedily (measure : String → Nat) (width : Nat) (text : String)
    (lines : List String) : Prop where
  lossless : String.intercalate " " lines = String.intercalate " " (words text)
  nonempty : ∀ line ∈ lines, line ≠ ""
  within : ∀ line ∈ lines, 1 < (words line).length → measure line ≤ width
  needed : lines.IsChain fun line next =>
    ∃ first, (words next).head? = some first ∧ width < measure (line ++ " " ++ first)

structure Breaks (measure : String → Nat) (width : Nat) (all : List String)
    (lines : List (List String)) : Prop where
  flatten : lines.flatten = all
  nonempty : ∀ line ∈ lines, line ≠ []
  within : ∀ line ∈ lines, 1 < line.length → measure (joined line) ≤ width
  needed : lines.IsChain fun line next =>
    ∃ first, next.head? = some first ∧ width < measure (joined line ++ " " ++ first)

structure IsLength (measure : String → Nat) : Prop where
  append : ∀ first second, measure (first ++ second) = measure first + measure second
  space : measure " " = 1

theorem is_length_bytes : IsLength String.utf8ByteSize :=
  ⟨fun _ _ => String.utf8ByteSize_append, by decide⟩

theorem is_length_chars : IsLength String.length :=
  ⟨String.length_append, by decide⟩

section Joined

variable {line first second : List String} {lines : List (List String)}

theorem joined_append (some : first ≠ []) (others : second ≠ []) :
    joined (first ++ second) = joined first ++ " " ++ joined second :=
  String.intercalate_append_of_ne_nil some others

theorem joined_singleton (word : String) : joined [word] = word :=
  String.intercalate_singleton

theorem joined_cons_cons (word second : String) (rest : List String) :
    joined (word :: second :: rest) = word ++ " " ++ joined (second :: rest) :=
  String.intercalate_cons_cons

theorem joined_map_joined (nonempty : ∀ line ∈ lines, line ≠ []) :
    joined (lines.map joined) = joined lines.flatten := by
  induction lines with
  | nil => rfl
  | cons line rest ih =>
      obtain ⟨some, others⟩ := List.forall_mem_cons.1 nonempty
      cases rest with
      | nil => rw [List.map_singleton, joined_singleton, List.flatten_singleton]
      | cons second rest =>
          have later : (second :: rest).flatten ≠ [] :=
            List.append_ne_nil_of_left_ne_nil (List.forall_mem_cons.1 others).1 _
          have split := joined_cons_cons (joined line) (joined second) (rest.map joined)
          rw [← List.map_cons, ih others] at split
          rw [List.map_cons, split, List.flatten_cons (l := line), joined_append some later]

end Joined

section Words

structure IsWord (word : String) : Prop where
  nonempty : word ≠ ""
  visible : ∀ c ∈ word.toList, isBlank c = false

theorem is_word_of_mem_words {text word : String} (member : word ∈ words text) : IsWord word := by
  refine ⟨?_, not_blank_of_mem_words member⟩
  obtain ⟨piece, kept, rfl⟩ := List.mem_map.1 member
  have some := (List.mem_filter.1 kept).2
  intro empty
  rw [String.ofList_eq_empty_iff] at empty
  rw [empty] at some
  contradiction

theorem words_of_is_word {word : String} (proper : IsWord word) : words word = [word] := by
  have some : word.toList.isEmpty = false := by
    rw [List.isEmpty_eq_false_iff]
    exact fun none => proper.nonempty (String.toList_eq_nil_iff.1 none)
  rw [words, List.splitOnP_eq_singleton proper.visible, List.filter_singleton, some]
  exact congrArg ([·]) String.ofList_toList

theorem words_append_space (first second : String) :
    words (first ++ " " ++ second) = words first ++ words second := by
  have blank : isBlank ' ' = true := by decide
  have split : (first ++ " " ++ second).toList = first.toList ++ ' ' :: second.toList := by
    rw [String.toList_append, String.toList_append, List.append_assoc]
    rfl
  rw [words, split, List.splitOnP_append_cons _ _ blank, List.filter_append, List.map_append]
  rfl

theorem words_joined {line : List String} (proper : ∀ word ∈ line, IsWord word) :
    words (joined line) = line := by
  induction line with
  | nil => rfl
  | cons word rest ih =>
      obtain ⟨first, others⟩ := List.forall_mem_cons.1 proper
      cases rest with
      | nil => rw [joined_singleton, words_of_is_word first]
      | cons second rest =>
          rw [joined_cons_cons, words_append_space, words_of_is_word first, ih others]
          rfl

theorem joined_ne_empty {line : List String} (some : line ≠ [])
    (proper : ∀ word ∈ line, IsWord word) : joined line ≠ "" := by
  intro empty
  have same := words_joined proper
  rw [empty] at same
  exact some same.symm

end Words

/-- Lines of words are broken greedily exactly if the texts that they are joined to are set so. -/
theorem set_greedily_map_joined_iff {measure : String → Nat} {width : Nat} {text : String}
    {lines : List (List String)} (flatten : lines.flatten = words text)
    (nonempty : ∀ line ∈ lines, line ≠ []) :
    SetGreedily measure width text (lines.map joined) ↔
      Breaks measure width (words text) lines := by
  have proper : ∀ line ∈ lines, ∀ word ∈ line, IsWord word := by
    intro line member word inside
    exact is_word_of_mem_words (flatten ▸ List.mem_flatten_of_mem member inside)
  have back : ∀ line ∈ lines, words (joined line) = line :=
    fun line member => words_joined (proper line member)
  have breaks : ((lines.map joined).IsChain fun line next =>
      ∃ first, (words next).head? = some first ∧ width < measure (line ++ " " ++ first)) ↔
        lines.IsChain fun line next =>
          ∃ first, next.head? = some first ∧ width < measure (joined line ++ " " ++ first) := by
    rw [List.isChain_map]
    refine List.IsChain.iff_of_mem_imp fun line next _ member => ?_
    rw [back next member]
  constructor
  · rintro ⟨-, -, within, needed⟩
    refine ⟨flatten, nonempty, fun line member several => ?_, breaks.1 needed⟩
    refine within _ (List.mem_map_of_mem member) ?_
    rwa [back line member]
  · rintro ⟨-, -, within, needed⟩
    refine ⟨(joined_map_joined nonempty).trans (congrArg joined flatten), ?_, ?_, breaks.2 needed⟩
    · intro text member
      obtain ⟨line, present, rfl⟩ := List.mem_map.1 member
      exact joined_ne_empty (nonempty line present) (proper line present)
    · intro text member several
      obtain ⟨line, present, rfl⟩ := List.mem_map.1 member
      rw [back line present] at several
      exact within line present several

section Breaking

variable {measure : String → Nat} {width : Nat} {line rest taken all : List String}
  {others lines : List (List String)}

theorem IsLength.joined_append (length : IsLength measure) (some : line ≠ []) (more : taken ≠ []) :
    measure (joined (line ++ taken)) = measure (joined line) + 1 + measure (joined taken) := by
  rw [AddressMap.joined_append some more, length.append, length.append, length.space]

theorem IsLength.joined_le (length : IsLength measure) (some : line ≠ []) :
    measure (joined line) ≤ measure (joined (line ++ taken)) := by
  cases taken with
  | nil => rw [List.append_nil]
  | cons word taken =>
      rw [length.joined_append some (List.cons_ne_nil _ _)]
      omega

theorem Breaks.eq_nil (breaks : Breaks measure width [] lines) : lines = [] := by
  cases lines with
  | nil => rfl
  | cons line others =>
      have empty := (List.append_eq_nil_iff.1 breaks.flatten).1
      exact absurd empty (breaks.nonempty line List.mem_cons_self)

theorem Breaks.tail (breaks : Breaks measure width all (line :: others)) :
    Breaks measure width others.flatten others :=
  ⟨rfl, (List.forall_mem_cons.1 breaks.nonempty).2, (List.forall_mem_cons.1 breaks.within).2,
    breaks.needed.tail⟩

theorem exists_break_words_eq (measure : String → Nat) (width : Nat) (line rest : List String) :
    ∃ taken others, breakWords measure width line rest = (line ++ taken) :: others := by
  induction rest generalizing line with
  | nil => exact ⟨[], [], by rw [breakWords, List.append_nil]⟩
  | cons word rest ih =>
      rw [breakWords]
      split
      · exact ⟨[], _, by rw [List.append_nil]⟩
      · obtain ⟨taken, others, grown⟩ := ih (line ++ [word])
        exact ⟨word :: taken, others, by rw [grown, List.append_assoc, List.singleton_append]⟩

/-- Breaking greedily follows the rule, if the line that is begun keeps to it. -/
theorem breaks_break_words (length : IsLength measure) (some : line ≠ [])
    (within : 1 < line.length → measure (joined line) ≤ width) :
    Breaks measure width (line ++ rest) (breakWords measure width line rest) := by
  induction rest generalizing line with
  | nil =>
      rw [breakWords, List.append_nil]
      exact ⟨List.flatten_singleton, List.forall_mem_singleton.2 some,
        List.forall_mem_singleton.2 within, .singleton _⟩
  | cons word rest ih =>
      have grown := length.joined_append some (List.cons_ne_nil word [])
      rw [joined_singleton] at grown
      rw [breakWords]
      split
      next long =>
        have later := @ih [word] (List.cons_ne_nil _ _) fun several => absurd several (by simp)
        obtain ⟨taken, others, first⟩ := exists_break_words_eq measure width [word] rest
        refine ⟨?_, ?_, ?_, ?_⟩
        · rw [List.flatten_cons, later.flatten, List.singleton_append]
        · exact List.forall_mem_cons.2 ⟨some, later.nonempty⟩
        · exact List.forall_mem_cons.2 ⟨within, later.within⟩
        · have needed := later.needed
          rw [first] at needed ⊢
          refine .cons_cons ⟨word, rfl, ?_⟩ needed
          rwa [length.append, length.append, length.space]
      next short =>
        have next := @ih (line ++ [word]) (List.append_ne_nil_of_left_ne_nil some _) fun _ => by
          omega
        rwa [List.append_assoc, List.singleton_append] at next

/-- The rule leaves no choice: lines that follow it are those that breaking greedily gives. -/
theorem break_words_eq_of_breaks (length : IsLength measure) (some : line ≠ [])
    (breaks : Breaks measure width (line ++ rest) ((line ++ taken) :: others)) :
    breakWords measure width line rest = (line ++ taken) :: others := by
  have split : rest = taken ++ others.flatten := by
    have whole := breaks.flatten
    rw [List.flatten_cons, List.append_assoc] at whole
    exact (List.append_cancel_left whole).symm
  induction rest generalizing line taken others with
  | nil =>
      obtain ⟨rfl, none⟩ := List.append_eq_nil_iff.1 split.symm
      obtain rfl := (none ▸ breaks.tail).eq_nil
      rw [breakWords, List.append_nil]
  | cons word rest ih =>
      rw [breakWords]
      cases taken with
      | nil =>
          -- The line ends before the word, which begins the next one and so does not fit here.
          cases others with
          | nil => contradiction
          | cons next more =>
              obtain ⟨⟨first, head, long⟩, -⟩ := List.isChain_cons_cons.1 breaks.needed
              obtain ⟨later, rfl⟩ := List.head?_eq_some_iff.1 head
              obtain ⟨rfl, behind⟩ := List.cons.inj split
              rw [List.append_nil, length.append, length.append, length.space] at long
              rw [if_pos long, List.append_nil]
              have ahead : List.flatten ((word :: later) :: more) = [word] ++ rest :=
                congrArg (word :: ·) behind.symm
              exact congrArg _ (ih (List.cons_ne_nil _ _) (ahead ▸ breaks.tail) behind)
      | cons next taken =>
          -- The word stands on the line, all of which fits.
          obtain ⟨rfl, behind⟩ := List.cons.inj split
          have several : 1 < (line ++ word :: taken).length := by
            have := List.length_pos_of_ne_nil some
            rw [List.length_append, List.length_cons]
            omega
          have begun : line ++ [word] ≠ [] := List.append_ne_nil_of_left_ne_nil some _
          have short : measure (joined (line ++ [word])) ≤ width := by
            have whole := breaks.within _ List.mem_cons_self several
            rw [List.append_cons line word taken] at whole
            exact Nat.le_trans (length.joined_le begun) whole
          rw [length.joined_append some (List.cons_ne_nil _ _), joined_singleton] at short
          rw [if_neg (Nat.not_lt.2 short)]
          rw [List.append_cons line word rest, List.append_cons line word taken] at breaks
          rw [List.append_cons line word taken]
          exact ih begun breaks behind

end Breaking

section Paragraphs

variable {measure other : String → Nat} {width : Nat} {text : String}

theorem breaks_line_words (length : IsLength measure) :
    Breaks measure width (words text) (lineWords measure width text) := by
  unfold lineWords
  split
  next none =>
    rw [none]
    exact ⟨rfl, nofun, nofun, .nil⟩
  next word rest found =>
    rw [found]
    exact breaks_break_words length (List.cons_ne_nil word []) fun several =>
      absurd several (by simp)

theorem eq_line_words_of_breaks (length : IsLength measure) {lines : List (List String)}
    (breaks : Breaks measure width (words text) lines) : lines = lineWords measure width text := by
  unfold lineWords
  split
  next none =>
    rw [none] at breaks
    exact breaks.eq_nil
  next word rest found =>
    rw [found] at breaks
    cases lines with
    | nil => exact absurd breaks.flatten.symm (List.cons_ne_nil _ _)
    | cons line others =>
        cases line with
        | nil => exact absurd rfl (breaks.nonempty [] List.mem_cons_self)
        | cons first taken =>
            obtain ⟨rfl, -⟩ := List.cons.inj breaks.flatten
            exact (break_words_eq_of_breaks length (List.cons_ne_nil first []) breaks).symm

/-- The lines that one measure gives follow the rule for another exactly if both give the same. -/
theorem set_greedily_wrap_by_iff (length : IsLength measure) (otherLength : IsLength other) :
    SetGreedily measure width text (wrapBy other width text) ↔
      wrapBy other width text = wrapBy measure width text := by
  have breaks := @breaks_line_words other width text otherLength
  constructor
  · intro greedily
    have same := (set_greedily_map_joined_iff breaks.flatten breaks.nonempty).1 greedily
    exact congrArg (List.map joined) (eq_line_words_of_breaks length same)
  · intro same
    rw [same]
    have own := @breaks_line_words measure width text length
    exact (set_greedily_map_joined_iff own.flatten own.nonempty).2 own

theorem fill_lines_eq {line rest : List String} (some : line ≠ []) :
    fillLines width (joined line) rest =
      (breakWords String.utf8ByteSize width line rest).map joined := by
  induction rest generalizing line with
  | nil => rfl
  | cons word rest ih =>
      have next := @ih [word] (List.cons_ne_nil _ _)
      have same := @ih (line ++ [word]) (List.append_ne_nil_of_left_ne_nil some _)
      rw [joined_singleton] at next
      rw [joined_append some (List.cons_ne_nil _ _), joined_singleton] at same
      rw [fillLines, breakWords, next, same]
      split <;> rfl

theorem wrap_eq_wrap_by (width : Nat) (text : String) :
    wrap width text = wrapBy String.utf8ByteSize width text := by
  unfold wrap wrapBy lineWords
  cases words text with
  | nil => rfl
  | cons word rest =>
      have filled := @fill_lines_eq width [word] rest (List.cons_ne_nil _ _)
      rwa [joined_singleton] at filled

theorem set_greedily_wrap (width : Nat) (text : String) :
    SetGreedily String.utf8ByteSize width text (wrap width text) := by
  rw [wrap_eq_wrap_by, set_greedily_wrap_by_iff is_length_bytes is_length_bytes]

end Paragraphs

section Characters

theorem utf8_byte_size_cons (c : Char) (rest : List Char) :
    (String.ofList (c :: rest)).utf8ByteSize = c.utf8Size + (String.ofList rest).utf8ByteSize := by
  rw [String.ofList_cons, String.utf8ByteSize_append, String.utf8ByteSize_singleton]

theorem length_le_utf8_byte_size (text : String) : text.length ≤ text.utf8ByteSize := by
  obtain ⟨chars, rfl⟩ : ∃ chars, text = String.ofList chars := ⟨_, String.ofList_toList.symm⟩
  induction chars with
  | nil => decide
  | cons c rest ih =>
      have positive := c.utf8Size_pos
      rw [String.length_ofList] at ih ⊢
      rw [utf8_byte_size_cons, List.length_cons]
      omega

theorem length_eq_utf8_byte_size_iff {text : String} :
    text.length = text.utf8ByteSize ↔ ∀ c ∈ text.toList, c.toNat < 128 := by
  obtain ⟨chars, rfl⟩ : ∃ chars, text = String.ofList chars := ⟨_, String.ofList_toList.symm⟩
  rw [String.toList_ofList]
  induction chars with
  | nil => exact iff_of_true (by decide) nofun
  | cons c rest ih =>
      have positive := c.utf8Size_pos
      have shorter := length_le_utf8_byte_size (String.ofList rest)
      have single : c.utf8Size = 1 ↔ c.toNat < 128 := by
        rw [Char.utf8Size_eq_one_iff, UInt32.le_iff_toNat_le]
        exact Nat.lt_succ_iff.symm
      rw [String.length_ofList] at ih shorter ⊢
      rw [List.forall_mem_cons, ← ih, ← single, utf8_byte_size_cons, List.length_cons]
      omega

end Characters

section Agreement

variable {measure other : String → Nat} {width : Nat} {text : String} {line rest : List String}

theorem IsLength.joined_eq_iff (length : IsLength measure) (otherLength : IsLength other)
    (le : ∀ text, measure text ≤ other text) :
    measure (joined line) = other (joined line) ↔ ∀ word ∈ line, measure word = other word := by
  induction line with
  | nil =>
      have empty := length.append "" ""
      have otherEmpty := otherLength.append "" ""
      rw [String.append_empty] at empty otherEmpty
      refine iff_of_true ?_ nofun
      show measure "" = other ""
      omega
  | cons word rest ih =>
      cases rest with
      | nil => rw [joined_singleton, List.forall_mem_singleton]
      | cons second rest =>
          have first := le word
          have others := le (joined (second :: rest))
          rw [List.forall_mem_cons, ← ih, joined_cons_cons, length.append, length.append,
            otherLength.append, otherLength.append, length.space, otherLength.space]
          omega

variable (length : IsLength measure) (otherLength : IsLength other)
  (le : ∀ text, measure text ≤ other text)

include length otherLength le in
theorem break_words_congr (same : ∀ word ∈ line ++ rest, measure word = other word) :
    breakWords measure width line rest = breakWords other width line rest := by
  induction rest generalizing line with
  | nil => rfl
  | cons word rest ih =>
      obtain ⟨begun, ahead⟩ := List.forall_mem_append.1 same
      have next := @ih [word] ahead
      have grown := @ih (line ++ [word]) (by rwa [List.append_assoc])
      rw [breakWords, breakWords, next, grown, (length.joined_eq_iff otherLength le).2 begun,
        ahead word List.mem_cons_self]

theorem line_words_of_fits (length : IsLength measure) (some : words text ≠ [])
    (fits : measure (joined (words text)) ≤ width) : lineWords measure width text = [words text] := by
  refine (eq_line_words_of_breaks length ⟨List.flatten_singleton, ?_, ?_, .singleton _⟩).symm
  · exact List.forall_mem_singleton.2 some
  · exact List.forall_mem_singleton.2 fun _ => fits

include length otherLength le in
/-- Lines that the larger measure gives follow the rule for the other at every width exactly if the
measures agree on all words, or there are no two words. -/
theorem set_greedily_at_every_width_iff :
    (∀ width, SetGreedily measure width text (wrapBy other width text)) ↔
      (words text).length ≤ 1 ∨ ∀ word ∈ words text, measure word = other word := by
  constructor
  · intro greedily
    by_cases single : (words text).length ≤ 1
    · exact .inl single
    · refine .inr ((length.joined_eq_iff otherLength le).1 ?_)
      -- At the width that holds all words just so, both measures have to give a single line.
      have several : words text ≠ [] := by
        rintro none
        rw [none] at single
        contradiction
      have same := (set_greedily_wrap_by_iff length otherLength).1
        (greedily (measure (joined (words text))))
      have own := (set_greedily_wrap_by_iff otherLength otherLength).2
        (rfl : wrapBy other (measure (joined (words text))) text = _)
      have back := words_joined fun word => @is_word_of_mem_words text word
      rw [same, wrapBy, line_words_of_fits length several (Nat.le_refl _)] at own
      have within := own.within _ List.mem_cons_self
      rw [back] at within
      exact Nat.le_antisymm (le _) (within (Nat.not_le.1 single))
  · intro agree width
    refine (set_greedily_wrap_by_iff length otherLength).2 (congrArg (List.map joined) ?_)
    unfold lineWords
    cases found : words text with
    | nil => rfl
    | cons word rest =>
        rw [found] at agree
        rcases agree with single | same
        · have none : rest = [] := by
            rw [List.length_cons] at single
            exact List.eq_nil_of_length_eq_zero (by omega)
          rw [none]
          rfl
        · have each : ∀ entry ∈ [word] ++ rest, measure entry = other entry := same
          exact (break_words_congr length otherLength le each).symm

end Agreement

/-- Wrapping keeps the words, makes no empty line, keeps lines of several words to the width, and
breaks them only where the next word would not fit, all in bytes. In characters the same holds
exactly if counting characters gives the same lines. At every width it does so exactly if all words
are ASCII, or there is no more than one. -/
theorem wrap_set_greedily_iff (text : String) :
    (∀ width, SetGreedily String.utf8ByteSize width text (wrap width text) ∧
      (∀ line ∈ wrap width text, 1 < (words line).length → line.length ≤ width) ∧
      (SetGreedily String.length width text (wrap width text) ↔
        wrap width text = wrapBy String.length width text)) ∧
    ((∀ width, SetGreedily String.length width text (wrap width text)) ↔
      (words text).length ≤ 1 ∨ ∀ word ∈ words text, ∀ c ∈ word.toList, c.toNat < 128) := by
  constructor
  · intro width
    have bytes := set_greedily_wrap width text
    refine ⟨bytes, ?_, ?_⟩
    · intro line member several
      exact Nat.le_trans (length_le_utf8_byte_size line) (bytes.within line member several)
    · rw [wrap_eq_wrap_by]
      exact set_greedily_wrap_by_iff is_length_chars is_length_bytes
  · simp only [wrap_eq_wrap_by]
    rw [set_greedily_at_every_width_iff is_length_chars is_length_bytes length_le_utf8_byte_size]
    simp only [length_eq_utf8_byte_size_iff]

/-- Forty-eight accented letters are ninety-six bytes. So a word behind them is set on the next line
of a description, though both words have only fifty characters with the space between them. -/
theorem accented_letters_break_early :
    let letters := String.ofList (List.replicate 48 'é')
    wrap 96 (letters ++ " x") = [letters, "x"] ∧ (letters ++ " x").length = 50 ∧
      ¬ SetGreedily String.length 96 (letters ++ " x") (wrap 96 (letters ++ " x")) := by
  intro letters
  have lines : wrap 96 (letters ++ " x") = [letters, "x"] := by decide +kernel
  refine ⟨lines, by decide +kernel, fun greedily => ?_⟩
  have needed := greedily.needed
  rw [lines] at needed
  obtain ⟨⟨first, head, long⟩, -⟩ := List.isChain_cons_cons.1 needed
  have single : (words "x").head? = some "x" := by decide +kernel
  obtain rfl := Option.some.inj (single.symm.trans head)
  exact absurd long (by decide +kernel)

end AddressMap
