import AddressMap.Command.FileTree
import AddressMap.Proofs.Text.Words

/-!
# Steps of joined path names

A name without a slash that is joined to a directory becomes one more step behind those into the
directory. In a file tree the joined path name speaks of the entry of that name in the directory,
and of nothing else.
-/

namespace AddressMap

set_option autoImplicit false

namespace PathName

variable {dir name path : String}

/-- A text that stands between slashes if it is written into a path name. -/
def IsStep (text : String) : Prop :=
  '/' ∉ text.toList

instance (text : String) : Decidable (IsStep text) :=
  inferInstanceAs (Decidable ('/' ∉ text.toList))

theorem is_step_of_mem_steps {step : String} (member : step ∈ steps path) : IsStep step := by
  obtain ⟨piece, inside, rfl⟩ := List.mem_map.1 member
  rw [IsStep, String.toList_ofList]
  exact not_mem_of_mem_split_on inside

theorem steps_of_is_step (plain : IsStep name) : steps name = [name] := by
  have whole : name.toList.splitOnP (· == '/') = [name.toList] := split_on_of_not_mem plain
  rw [steps, whole, List.map_singleton, String.ofList_toList]

theorem steps_append_slash (before behind : String) :
    steps (before ++ "/" ++ behind) = steps before ++ steps behind := by
  have chars : (before ++ "/" ++ behind).toList = before.toList ++ '/' :: behind.toList := by
    simp
  rw [steps, chars, List.splitOnP_append_cons _ _ rfl, List.map_append]
  rfl

theorem is_absolute_of_is_step (plain : IsStep name) : isAbsolute name = false := by
  unfold isAbsolute
  cases chars : name.toList with
  | nil => rfl
  | cons c rest =>
      rw [IsStep, chars, List.mem_cons, not_or] at plain
      simpa using Ne.symm plain.1

/-- The steps into a directory. The empty text behind a slash at the end is none. -/
def stepsInto (dir : String) : List String :=
  if dir = "" ∨ dir.toList.getLast? = some '/' then (steps dir).dropLast else steps dir

theorem steps_empty : steps "" = [""] :=
  rfl

theorem exists_append_slash (ends : dir.toList.getLast? = some '/') :
    ∃ before, dir = before ++ "/" := by
  obtain ⟨before, chars⟩ := List.getLast?_eq_some_iff.1 ends
  refine ⟨String.ofList before, ?_⟩
  rw [← String.toList_inj, chars]
  simp

theorem steps_eq_into (dir : String) :
    steps dir = stepsInto dir ∨ steps dir = stepsInto dir ++ [""] := by
  unfold stepsInto
  split
  next closed =>
    rcases closed with rfl | ends
    · exact .inr rfl
    · obtain ⟨before, rfl⟩ := exists_append_slash ends
      have cut := steps_append_slash before ""
      rw [String.append_empty, steps_empty] at cut
      rw [cut, List.dropLast_concat]
      exact .inr rfl
  · exact .inl rfl

theorem steps_join (plain : IsStep name) : steps (join dir name) = stepsInto dir ++ [name] := by
  have relative := is_absolute_of_is_step plain
  have alone := steps_of_is_step plain
  rw [join, relative, if_neg Bool.false_ne_true, stepsInto]
  split
  next closed =>
    rcases closed with rfl | ends
    · rw [String.empty_append, alone]
      rfl
    · obtain ⟨before, rfl⟩ := exists_append_slash ends
      have cut := steps_append_slash before ""
      rw [String.append_empty, steps_empty] at cut
      rw [cut, List.dropLast_concat, steps_append_slash, alone]
  · rw [steps_append_slash, alone]

structure IsEntry (dir name path : String) : Prop where
  moves : stays name = false
  descends : name ≠ ".."
  steps : steps path = stepsInto dir ++ [name]

/-- What is joined to a directory is an entry of that name exactly if the name holds no slash. -/
theorem is_entry_join_iff (moves : stays name = false) (descends : name ≠ "..") :
    IsEntry dir name (join dir name) ↔ IsStep name := by
  constructor
  · intro entry
    apply is_step_of_mem_steps
    rw [entry.steps]
    exact List.mem_append_right _ (List.mem_singleton_self name)
  · exact fun plain => ⟨moves, descends, steps_join plain⟩

theorem join_injective {other : String} (plain : IsStep name) (otherPlain : IsStep other)
    (same : join dir name = join dir other) : name = other := by
  have steps := @steps_join dir name plain
  rw [same, steps_join otherPlain] at steps
  simpa using steps.symm

theorem is_absolute_join (plain : IsStep name) (nonempty : dir ≠ "") :
    isAbsolute (join dir name) = isAbsolute dir := by
  obtain ⟨c, rest, chars⟩ := List.exists_cons_of_ne_nil
    (mt String.toList_eq_nil_iff.1 nonempty)
  rw [join, is_absolute_of_is_step plain, if_neg Bool.false_ne_true, isAbsolute, isAbsolute]
  split <;> simp [chars]

theorem is_legal_of_join (plain : IsStep name) (legal : isLegal (join dir name) = true) :
    isLegal dir = true := by
  rw [join, is_absolute_of_is_step plain, if_neg Bool.false_ne_true] at legal
  simp only [isLegal, holdsZero, Bool.and_eq_true, decide_eq_true_eq, Bool.not_eq_true',
    List.contains_eq_mem, decide_eq_false_iff_not] at legal ⊢
  obtain ⟨short, noZero⟩ := legal
  split at short
  next closed =>
    rw [if_pos closed, String.toList_append, List.mem_append, not_or] at noZero
    rw [String.utf8ByteSize_append] at short
    exact ⟨by omega, noZero.1⟩
  next separate =>
    rw [if_neg separate, String.append_assoc, String.toList_append, List.mem_append,
      not_or] at noZero
    rw [String.append_assoc, String.utf8ByteSize_append] at short
    exact ⟨by omega, noZero.1⟩

end PathName

namespace FileTree

variable (tree : FileTree) (workingDirectory : Location) {dir name : String}

/-- Where the entries of a directory stand. Without a path name it is the working directory. -/
def inside? (dir : String) : Option Location :=
  if dir = "" then some workingDirectory else tree.directory? workingDirectory dir

theorem enter?_empty (location : Location) : tree.enter? location "" = some location :=
  rfl

/-- A joined path name speaks of the entry of that name in the directory. -/
theorem entry?_join (plain : PathName.IsStep name) (named : PathName.isName name = true)
    (legal : PathName.isLegal (PathName.join dir name) = true) :
    tree.entry? workingDirectory (PathName.join dir name) =
      (tree.inside? workingDirectory dir).map (· ++ [name]) := by
  have walked : tree.walk? workingDirectory (PathName.join dir name) (PathName.stepsInto dir) =
      tree.inside? workingDirectory dir := by
    have present : PathName.join dir name ≠ "" := by
      intro empty
      have steps := @PathName.steps_join dir name plain
      rw [empty, PathName.steps_empty] at steps
      have last : name = "" := by simpa using congrArg List.getLast? steps.symm
      subst last
      contradiction
    rw [walk?, if_pos ⟨present, legal⟩, inside?]
    by_cases here : dir = ""
    · subst here
      have relative : PathName.isAbsolute (PathName.join "" name) = false := by
        rw [PathName.join, PathName.is_absolute_of_is_step plain, if_neg Bool.false_ne_true,
          if_pos (.inl rfl), String.empty_append, PathName.is_absolute_of_is_step plain]
      rw [if_pos rfl, relative]
      rfl
    · have whole : tree.directory? workingDirectory dir =
          (PathName.steps dir).foldlM tree.enter?
            (if PathName.isAbsolute dir then [] else workingDirectory) := by
        rw [directory?, walk?, if_pos ⟨here, PathName.is_legal_of_join plain legal⟩]
      rw [if_neg here, PathName.is_absolute_join plain here, whole]
      rcases PathName.steps_eq_into dir with same | longer
      · rw [same]
      · rw [longer, List.foldlM_append]
        simp [enter?_empty]
  unfold entry? entryOf?
  rw [PathName.steps_join plain, List.dropLast_concat, walked, List.getLast?_concat]
  cases tree.inside? workingDirectory dir with
  | none => rfl
  | some location => simp [named]

/-- If a joined path name speaks of any entry, then of the one of that name in the directory. -/
theorem eq_of_entry?_join {location found : Location} (plain : PathName.IsStep name)
    (known : tree.inside? workingDirectory dir = some location)
    (speaks : tree.entry? workingDirectory (PathName.join dir name) = some found) :
    found = location ++ [name] := by
  have whole := speaks
  unfold entry? entryOf? at speaks
  simp only [Option.bind_eq_bind, Option.bind_eq_some_iff, Option.ite_none_right_eq_some] at speaks
  obtain ⟨parent, walked, last, same, named, -⟩ := speaks
  rw [PathName.steps_join plain, List.getLast?_concat, Option.some.injEq] at same
  subst same
  unfold walk? at walked
  have legal := (Option.ite_none_right_eq_some.1 walked).1.2
  rw [tree.entry?_join workingDirectory plain named legal, known] at whole
  exact (Option.some.inj whole).symm

end FileTree

end AddressMap
