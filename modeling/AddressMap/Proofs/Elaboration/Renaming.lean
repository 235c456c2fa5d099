import AddressMap.Proofs.Elaboration.Offering

/-!
# Renaming candidates

An arrangement asks for the offsets, sizes and placers of its candidates and not for what they are.
So candidates that are renamed are arranged in the same places, under their new names.
-/

namespace AddressMap

set_option autoImplicit false

variable {α β : Type}

def Placed.rename (f : α → β) (placed : Placed α) : Placed β :=
  placed.map fun placed => f placed.item

def Pending.rename (f : α → β) (child : Pending α) : Pending β :=
  ⟨f child.item, child.size, child.placer⟩

namespace Layout

variable {f : α → β} {layout : Layout α} {children : List (Placed α)}

def rename (f : α → β) (layout : Layout α) : Layout β :=
  layout.map fun placed => f placed.item

theorem top_map (f : Placed α → β) (layout : Layout α) : (layout.map f).top = layout.top := by
  unfold top map
  induction layout.items with
  | nil => rfl
  | cons head rest ih =>
      simp only [List.map_cons, List.foldr_cons, ih]
      rfl

theorem size_map (f : Placed α → β) (layout : Layout α) : (layout.map f).size = layout.size := by
  have top := top_map f layout
  unfold size
  rw [top]
  rfl

theorem free_gaps_map (f : Placed α → β) (layout : Layout α) :
    (layout.map f).freeGaps = layout.freeGaps := by
  have from' (cursor : Nat) (items : List (Placed α)) :
      freeGapsFrom cursor (items.map (·.map f)) = freeGapsFrom cursor items := by
    induction items generalizing cursor with
    | nil => rfl
    | cons head rest ih =>
        simp only [List.map_cons, freeGapsFrom, ih]
        rfl
  exact from' 0 layout.items

theorem rename_insert (f : α → β) (layout : Layout α) (placed : Placed α) :
    (layout.insert placed).rename f = (layout.rename f).insert (placed.rename f) :=
  map_insert _ layout placed

theorem fit_rename (f : α → β) (layout : Layout α) (child : Pending α) :
    (layout.rename f).fit (f child.item) child.size child.placer =
      (layout.fit child.item child.size child.placer).map (rename f) := by
  have inserted (start : Nat) : (layout.rename f).insert ⟨f child.item, start, child.size⟩ =
      (layout.insert ⟨child.item, start, child.size⟩).rename f :=
    (rename_insert f layout ⟨child.item, start, child.size⟩).symm
  have top : (layout.rename f).top = layout.top := top_map _ layout
  have gaps : (layout.rename f).freeGaps = layout.freeGaps := free_gaps_map _ layout
  unfold fit
  rw [gaps, top]
  cases firstFit child.placer child.size layout.freeGaps with
  | error error => rfl
  | ok start? =>
      cases start? with
      | none => rfl
      | some start => exact congrArg Except.ok (inserted start)

theorem fit_all_rename (f : α → β) (layout : Layout α) (pending : List (Pending α)) :
    ((layout.rename f).fitAll (pending.map (Pending.rename f))).1 =
        (layout.fitAll pending).1.rename f ∧
      ((layout.rename f).fitAll (pending.map (Pending.rename f))).2.isNone =
        (layout.fitAll pending).2.isNone := by
  induction pending generalizing layout with
  | nil => exact ⟨rfl, rfl⟩
  | cons child rest ih =>
      have step := fit_rename f layout child
      simp only [List.map_cons, fitAll, Pending.rename]
      rw [step]
      cases layout.fit child.item child.size child.placer with
      | error error => exact ⟨rfl, rfl⟩
      | ok next => exact ih next

theorem takes_rename :
    (layout.rename f).Takes (children.map (Placed.rename f)) ↔ layout.Takes children := by
  have accepts (placed : Placed α) :
      (layout.rename f).Accepts (placed.rename f) ↔ layout.Accepts placed := by
    simp only [Accepts, rename, map, List.forall_mem_map]
    rfl
  constructor
  · intro takes
    have apart := takes.apart
    rw [List.pairwise_map] at apart
    refine ⟨fun placed member => ?_, apart⟩
    exact (accepts placed).1 (takes.accepts _ (List.mem_map_of_mem member))
  · intro takes
    refine ⟨List.forall_mem_map.2 fun placed member => ?_, List.pairwise_map.2 takes.apart⟩
    exact (accepts placed).2 (takes.accepts placed member)

theorem insert_each_rename (f : α → β) (layout : Layout α) (children : List (Placed α)) :
    (layout.rename f).insertEach (children.map (Placed.rename f)) =
      (layout.insertEach children).rename f := by
  induction children generalizing layout with
  | nil => rfl
  | cons placed rest ih =>
      have step := (rename_insert f layout placed).symm
      simp only [insertEach, List.map_cons, List.foldl_cons, step]
      exact ih (layout.insert placed)

end Layout

namespace Candidate

theorem flat_map_fixed_map (f : α → β) (candidates : List (Candidate α)) :
    (candidates.map (map f)).flatMap fixed =
      (candidates.flatMap fixed).map (Placed.rename f) := by
  induction candidates with
  | nil => rfl
  | cons candidate rest ih =>
      rw [List.map_cons, List.flatMap_cons, ih, List.flatMap_cons, List.map_append]
      congr 1
      simp only [fixed, List.map_map]
      rfl

theorem flat_map_waiting_map (f : α → β) (placer : Placer) (candidates : List (Candidate α)) :
    (candidates.map (map f)).flatMap (waiting placer) =
      (candidates.flatMap (waiting placer)).map (Pending.rename f) := by
  induction candidates with
  | nil => rfl
  | cons candidate rest ih =>
      rw [List.map_cons, List.flatMap_cons, ih, List.flatMap_cons, List.map_append]
      congr 1
      simp only [waiting]
      split <;> split <;> first | rfl | contradiction

end Candidate

section Arrange

variable {space : Space α} {candidates : List (Candidate α)} {placer : Placer}
  {resizer : Resizer} {f : α → β}

def Space.rename (f : α → β) (space : Space α) : Space β where
  placer := space.placer
  resizer := space.resizer
  layout := space.layout.rename f
  pending := space.pending.map (Pending.rename f)

/-- Renaming commutes with arranging, if it leaves alone where an element has been placed. -/
theorem arrange_rename [Placeable α] [Placeable β]
    (moved : ∀ element start,
      f (Placeable.moveTo element start) = Placeable.moveTo (f element) start)
    (arranged : arrange { placer, resizer } candidates = .ok space) :
    arrange { placer, resizer } (candidates.map (Candidate.map f)) = .ok (space.rename f) := by
  obtain ⟨takes, layout, placed, rfl⟩ := arrange_eq_ok.1 arranged
  have fresh : ({} : Layout β) = ({} : Layout α).rename f := rfl
  obtain ⟨passed, complete⟩ := Layout.fit_all_rename f
    (({} : Layout α).insertEach (candidates.flatMap Candidate.fixed))
    (candidates.flatMap (Candidate.waiting placer))
  rw [placed] at passed complete
  apply arrange_eq_ok.2
  rw [Candidate.flat_map_fixed_map, Candidate.flat_map_waiting_map, fresh, Layout.takes_rename,
    Layout.insert_each_rename]
  refine ⟨takes, layout.rename f, ?_, ?_⟩
  · exact Prod.ext passed (Option.isNone_iff_eq_none.1 complete)
  · have recorded : (recordOffsets layout).rename f = recordOffsets (layout.rename f) := by
      simp only [recordOffsets, Layout.rename, Layout.map, Placed.map, List.map_map,
        Function.comp_def, moved]
    simp only [Space.rename, recorded, List.map_nil]

theorem settled_layout_rename {path : Path} {declared? : Option Nat} {layout : Layout α}
    (settled : settledLayout path space declared? = .ok layout) :
    settledLayout path (space.rename f) declared? = .ok (layout.rename f) := by
  obtain ⟨extent, settles, rfl⟩ := settled_layout_eq_ok.1 settled
  have top : (space.rename f).layout.top = space.layout.top := Layout.top_map _ space.layout
  apply settled_layout_eq_ok.2
  refine ⟨extent, ?_, rfl⟩
  unfold Space.Settles at settles ⊢
  rw [top]
  exact settles

end Arrange

end AddressMap
