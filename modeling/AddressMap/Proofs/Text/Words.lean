import AddressMap.Text.Wrap

/-!
# Words and wrapped lines

What is cut out between separators holds none. So no blank is in a word, and a wrapped line holds
nothing but words and single spaces: a description is shown without the line breaks that it may
have, in the lines that the wrapping makes of it.
-/

namespace AddressMap

set_option autoImplicit false

section Pieces

variable {α : Type} {items piece : List α}

theorem not_of_mem_split_on_p {separates : α → Bool} (member : piece ∈ items.splitOnP separates) :
    ∀ item ∈ piece, separates item = false := by
  induction items generalizing piece with
  | nil =>
      rw [List.splitOnP_nil, List.mem_singleton] at member
      rw [member]
      exact nofun
  | cons head rest ih =>
      rw [List.splitOnP_cons_eq_if_modifyHead] at member
      split at member
      · rcases List.mem_cons.1 member with rfl | later
        · exact nofun
        · exact ih later
      next kept =>
        obtain ⟨first, others, split⟩ :=
          List.exists_cons_of_ne_nil (List.splitOnP_ne_nil separates rest)
        rw [split, List.modifyHead_cons] at member
        rcases List.mem_cons.1 member with rfl | later
        · rw [List.forall_mem_cons]
          exact ⟨by simpa using kept, ih (by rw [split]; exact List.mem_cons_self)⟩
        · exact ih (by rw [split]; exact List.mem_cons_of_mem first later)

variable [BEq α] [LawfulBEq α] {separator : α}

theorem not_mem_of_mem_split_on (member : piece ∈ List.splitOn separator items) :
    separator ∉ piece := by
  intro inside
  have kept := not_of_mem_split_on_p member separator inside
  rw [beq_self_eq_true] at kept
  contradiction

theorem split_on_of_not_mem (free : separator ∉ items) :
    List.splitOn separator items = [items] := by
  apply List.splitOnP_eq_singleton
  intro item member
  exact beq_eq_false_iff_ne.2 fun same => free (same ▸ member)

/-- Pieces behind each of which a separator stands, and nothing behind the last one. -/
theorem split_on_of_terminated {pieces : List (List α)}
    (free : ∀ piece ∈ pieces, separator ∉ piece) :
    List.splitOn separator (pieces.flatMap (· ++ [separator])) = pieces ++ [[]] := by
  induction pieces with
  | nil => rfl
  | cons piece rest ih =>
      obtain ⟨here, others⟩ := List.forall_mem_cons.1 free
      have separates : (separator == separator) = true := beq_self_eq_true separator
      have whole : piece.splitOnP (· == separator) = [piece] := split_on_of_not_mem here
      rw [List.flatMap_cons, List.append_assoc, List.singleton_append, List.splitOn,
        @List.splitOnP_append_cons _ (· == separator) piece _ _ separates, whole]
      exact congrArg (piece :: ·) (ih others)

end Pieces

theorem not_blank_of_mem_words {text word : String} (member : word ∈ words text) :
    ∀ c ∈ word.toList, isBlank c = false := by
  obtain ⟨piece, kept, rfl⟩ := List.mem_map.1 member
  rw [String.toList_ofList]
  exact not_of_mem_split_on_p (List.mem_filter.1 kept).1

/-- Lines are made of the text that they continue, of words, and of spaces. -/
theorem of_mem_fill_lines {width : Nat} {begun line : String} {rest : List String} {c : Char}
    (member : line ∈ fillLines width begun rest) (inside : c ∈ line.toList) :
    c = ' ' ∨ c ∈ begun.toList ∨ ∃ word ∈ rest, c ∈ word.toList := by
  induction rest generalizing begun with
  | nil =>
      rw [fillLines, List.mem_singleton] at member
      exact .inr (.inl (member ▸ inside))
  | cons word others ih =>
      rw [fillLines] at member
      split at member
      · rcases List.mem_cons.1 member with rfl | later
        · exact .inr (.inl inside)
        · rcases ih later with space | first | ⟨other, present, found⟩
          · exact .inl space
          · exact .inr (.inr ⟨word, List.mem_cons_self, first⟩)
          · exact .inr (.inr ⟨other, List.mem_cons_of_mem word present, found⟩)
      · rcases ih member with space | first | ⟨other, present, found⟩
        · exact .inl space
        · rw [String.toList_append, String.toList_append, List.mem_append, List.mem_append] at first
          rcases first with (before | space) | last
          · exact .inr (.inl before)
          · exact .inl (List.mem_singleton.1 space)
          · exact .inr (.inr ⟨word, List.mem_cons_self, last⟩)
        · exact .inr (.inr ⟨other, List.mem_cons_of_mem word present, found⟩)

theorem of_mem_wrap {width : Nat} {text line : String} {c : Char}
    (member : line ∈ wrap width text) (inside : c ∈ line.toList) : c = ' ' ∨ isBlank c = false := by
  have words := @not_blank_of_mem_words text
  unfold wrap at member
  split at member
  next => contradiction
  next first rest found =>
    rw [found] at words
    rcases of_mem_fill_lines member inside with space | first | ⟨word, present, last⟩
    · exact .inl space
    · exact .inr (words List.mem_cons_self c first)
    · exact .inr (words (List.mem_cons_of_mem _ present) c last)

end AddressMap
