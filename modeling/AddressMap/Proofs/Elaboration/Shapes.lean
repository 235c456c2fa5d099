import AddressMap.Proofs.Decl.Validity
import AddressMap.Proofs.Elaboration.Renaming

/-!
# Shapes

Whether candidates can be arranged, and how far they reach, follows from their shape: the offsets,
sizes and placers that they ask for. What they are does not matter. An arrangement of candidates
that occupy something is the one that first fit gives.
-/

namespace AddressMap

set_option autoImplicit false

variable {α : Type}

def Placed.shape (placed : Placed α) : Placed Unit :=
  placed.map fun _ => ()

def Pending.shape (child : Pending α) : Pending Unit :=
  ⟨(), child.size, child.placer⟩

def Candidate.shape (candidate : Candidate α) : Candidate Unit :=
  candidate.map fun _ => ()

namespace Layout

variable {layout last : Layout α} {children : List (Placed α)} {pending : List (Pending α)}

def shape (layout : Layout α) : Layout Unit :=
  layout.map fun _ => ()

theorem fit_all_eq_iff (valid : layout.Valid) (occupied : ∀ placed ∈ layout.items, 0 < placed.size)
    (waiting : ∀ child ∈ pending, 0 < child.size) :
    layout.fitAll pending = (last, none) ↔ Allocates layout pending last none := by
  have pass := fit_all_allocates valid occupied waiting
  constructor
  · intro fitted
    rw [fitted] at pass
    exact pass
  · intro allocates
    obtain ⟨same, complete⟩ := allocates_unique pass allocates
    exact Prod.ext same (Option.map_eq_none_iff.1 complete)

end Layout

section Arrange

variable {candidates : List (Candidate α)} {placer : Placer} {layout : Layout α}

/-- For candidates that occupy something first fit is the pass over those that wait. -/
theorem first_fits_iff (occupied : ∀ candidate ∈ candidates, 0 < candidate.size) :
    FirstFits placer candidates layout ↔
      ({} : Layout α).Takes (candidates.flatMap Candidate.fixed) ∧
        (({} : Layout α).insertEach (candidates.flatMap Candidate.fixed)).fitAll
          (candidates.flatMap (Candidate.waiting placer)) = (layout, none) := by
  have fixed : ∀ placed ∈ candidates.flatMap Candidate.fixed, 0 < placed.size := by
    intro placed member
    obtain ⟨candidate, present, found⟩ := List.mem_flatMap.1 member
    obtain ⟨start, -, rfl⟩ := List.mem_map.1 found
    exact occupied candidate present
  have waiting : ∀ child ∈ candidates.flatMap (Candidate.waiting placer), 0 < child.size := by
    intro child member
    obtain ⟨candidate, present, found⟩ := List.mem_flatMap.1 member
    unfold Candidate.waiting at found
    split at found
    · contradiction
    · rw [List.mem_singleton.1 found]
      exact occupied candidate present
  have pass (takes : ({} : Layout α).Takes (candidates.flatMap Candidate.fixed)) :
      (({} : Layout α).insertEach (candidates.flatMap Candidate.fixed)).fitAll
          (candidates.flatMap (Candidate.waiting placer)) = (layout, none) ↔
        Layout.Allocates (({} : Layout α).insertEach (candidates.flatMap Candidate.fixed))
          (candidates.flatMap (Candidate.waiting placer)) layout none := by
    apply Layout.fit_all_eq_iff (Layout.valid_insert_each (Layout.valid_of_no_items rfl) takes) _
      waiting
    intro placed member
    exact fixed placed ((Layout.perm_insert_each _ _).mem_iff.1 member)
  constructor
  · intro fits
    exact ⟨fits.stated, (pass fits.stated).2 fits.others⟩
  · intro placed
    exact ⟨placed.1, (pass placed.1).1 placed.2⟩

/-- Candidates that occupy something can be arranged just when first fit has a place for the shape
of each, and they reach as far. -/
theorem exists_arranged_iff [Placeable α] (resizer : Resizer) (good : Nat → Prop)
    (occupied : ∀ candidate ∈ candidates, 0 < candidate.size) :
    (∃ space, arrange { placer, resizer } candidates = .ok space ∧ good space.layout.top) ↔
      ∃ shape, FirstFits placer (candidates.map Candidate.shape) shape ∧ good shape.top := by
  have shapes : ∀ candidate ∈ candidates.map Candidate.shape, 0 < candidate.size :=
    List.forall_mem_map.2 occupied
  have fresh : ({} : Layout Unit) = ({} : Layout α).shape := rfl
  let fixed := ({} : Layout α).insertEach (candidates.flatMap Candidate.fixed)
  let waiting := candidates.flatMap (Candidate.waiting placer)
  have stated : (candidates.map Candidate.shape).flatMap Candidate.fixed =
      (candidates.flatMap Candidate.fixed).map Placed.shape :=
    Candidate.flat_map_fixed_map (fun _ => ()) candidates
  have others : (candidates.map Candidate.shape).flatMap (Candidate.waiting placer) =
      waiting.map Pending.shape :=
    Candidate.flat_map_waiting_map (fun _ => ()) placer candidates
  have inserted : ({} : Layout α).shape.insertEach
      ((candidates.flatMap Candidate.fixed).map Placed.shape) = fixed.shape :=
    Layout.insert_each_rename (fun _ => ()) {} (candidates.flatMap Candidate.fixed)
  have taken : ({} : Layout α).shape.Takes
        ((candidates.flatMap Candidate.fixed).map Placed.shape) ↔
      ({} : Layout α).Takes (candidates.flatMap Candidate.fixed) :=
    Layout.takes_rename (f := fun _ => ())
  obtain ⟨passed, complete⟩ : (fixed.shape.fitAll (waiting.map Pending.shape)).1 =
        (fixed.fitAll waiting).1.shape ∧
      (fixed.shape.fitAll (waiting.map Pending.shape)).2.isNone =
        (fixed.fitAll waiting).2.isNone :=
    Layout.fit_all_rename (fun _ => ()) fixed waiting
  simp only [first_fits_iff shapes, stated, others, fresh, taken, inserted]
  constructor
  · intro arranged
    obtain ⟨space, arranged, fits⟩ := arranged
    obtain ⟨takes, layout, placed, rfl⟩ := arrange_eq_ok.1 arranged
    have placed : fixed.fitAll waiting = (layout, none) := placed
    rw [placed] at passed complete
    rw [recordOffsets, Layout.top_map] at fits
    refine ⟨layout.shape, ⟨takes, ?_⟩, ?_⟩
    · exact Prod.ext passed (Option.isNone_iff_eq_none.1 complete)
    · rwa [Layout.shape, Layout.top_map]
  · intro shaped
    obtain ⟨shape, ⟨takes, placed⟩, fits⟩ := shaped
    have placed : fixed.shape.fitAll (waiting.map Pending.shape) = (shape, none) := placed
    rw [placed] at passed complete
    refine ⟨_, arrange_eq_ok.2 ⟨takes, (fixed.fitAll waiting).1, ?_, rfl⟩, ?_⟩
    · exact Prod.ext rfl (Option.isNone_iff_eq_none.1 complete.symm)
    · have passed : shape = (fixed.fitAll waiting).1.shape := passed
      rw [passed, Layout.shape, Layout.top_map] at fits
      rw [recordOffsets, Layout.top_map]
      exact fits

end Arrange

end AddressMap
