import AddressMap.Proofs.Elaboration.Arranging
import AddressMap.Proofs.Space.EmptyChildren

/-!
# What decides an arrangement

An arrangement succeeds when the stated places are within the addresses and apart, and each of the
waiting candidates in turn finds a gap. So the order of the candidates that occupy something matters
only among those that wait, and one more that waits behind all others moves none of them.
-/

namespace AddressMap

set_option autoImplicit false

namespace Layout

variable {α : Type} {layout : Layout α} {placed : Placed α} {children : List (Placed α)}

def insertEach (layout : Layout α) (children : List (Placed α)) : Layout α :=
  children.foldl insert layout

structure Takes (layout : Layout α) (children : List (Placed α)) : Prop where
  accepts : ∀ placed ∈ children, layout.Accepts placed
  apart : children.Pairwise Placed.Apart

theorem takes_nil (layout : Layout α) : layout.Takes [] :=
  ⟨nofun, .nil⟩

theorem accepts_insert {entry : Placed α} :
    (layout.insert placed).Accepts entry ↔ layout.Accepts entry ∧ entry.Apart placed := by
  simp only [Accepts, insert, mem_insert_by_start, forall_eq_or_imp]
  constructor
  · intro room
    exact ⟨⟨room.1, room.2.2⟩, room.2.1⟩
  · intro room
    exact ⟨room.1.1, room.2, room.1.2⟩

theorem takes_cons :
    layout.Takes (placed :: children) ↔
      layout.Accepts placed ∧ (layout.insert placed).Takes children := by
  constructor
  · intro takes
    obtain ⟨first, others⟩ := List.forall_mem_cons.1 takes.accepts
    obtain ⟨behind, apart⟩ := List.pairwise_cons.1 takes.apart
    refine ⟨first, fun entry member => ?_, apart⟩
    exact accepts_insert.2 ⟨others entry member, Placed.apart_comm.1 (behind entry member)⟩
  · intro takes
    obtain ⟨first, others⟩ := takes
    refine ⟨List.forall_mem_cons.2 ⟨first, fun entry member => ?_⟩,
      List.pairwise_cons.2 ⟨fun entry member => ?_, others.apart⟩⟩
    · exact (accepts_insert.1 (others.accepts entry member)).1
    · exact Placed.apart_comm.1 (accepts_insert.1 (others.accepts entry member)).2

theorem perm_insert_each (layout : Layout α) (children : List (Placed α)) :
    (layout.insertEach children).items.Perm (layout.items ++ children) := by
  induction children generalizing layout with
  | nil => rw [List.append_nil]; exact .refl _
  | cons placed rest ih =>
      have first : (layout.insert placed).items.Perm (placed :: layout.items) :=
        perm_insert_by_start placed layout.items
      have moved := (first.append_right rest).trans List.perm_middle.symm
      exact (ih (layout.insert placed)).trans moved

theorem valid_insert_each (valid : layout.Valid) (takes : layout.Takes children) :
    (layout.insertEach children).Valid := by
  induction children generalizing layout with
  | nil => exact valid
  | cons placed rest ih =>
      obtain ⟨first, others⟩ := takes_cons.1 takes
      exact ih (valid_insert valid first.1 first.2) others

theorem extent_insert_each (layout : Layout α) (children : List (Placed α)) :
    (layout.insertEach children).extent = layout.extent := by
  induction children generalizing layout with
  | nil => rfl
  | cons placed rest ih => exact ih (layout.insert placed)

/-- Children that occupy something stand in one order only. -/
theorem items_eq_of_perm {first second : Layout α} (firstValid : first.Valid)
    (secondValid : second.Valid) (perm : first.items.Perm second.items)
    (occupied : ∀ placed ∈ first.items, 0 < placed.size) : first.items = second.items := by
  have ascending {layout : Layout α} (valid : layout.Valid)
      (some : ∀ placed ∈ layout.items, 0 < placed.size) :
      layout.items.Pairwise fun left right => left.start < right.start := by
    refine (valid.ordered.and valid.apart).imp_of_mem ?_
    intro left right leftMember rightMember both
    have leftSize := some left leftMember
    have rightSize := some right rightMember
    obtain ⟨ordered, apart⟩ := both
    simp only [Placed.Apart, Placed.stop] at apart
    omega
  have occupiedBoth : ∀ placed ∈ second.items, 0 < placed.size := fun placed member =>
    occupied placed (perm.mem_iff.2 member)
  apply List.Perm.eq_of_pairwise _ (ascending firstValid occupied)
    (ascending secondValid occupiedBoth) perm
  intro left right _ _ before after
  omega

theorem takes_of_perm {others : List (Placed α)} (perm : children.Perm others)
    (takes : layout.Takes children) : layout.Takes others := by
  constructor
  · intro placed member
    exact takes.accepts placed (perm.mem_iff.2 member)
  · exact (perm.pairwise_iff fun apart => Placed.apart_comm.1 apart).1 takes.apart

theorem insert_each_of_perm {others : List (Placed α)} (perm : children.Perm others)
    (takes : ({} : Layout α).Takes children) (occupied : ∀ placed ∈ children, 0 < placed.size) :
    ({} : Layout α).insertEach children = ({} : Layout α).insertEach others := by
  have fresh : ({} : Layout α).Valid := valid_of_no_items rfl
  have added (list : List (Placed α)) : (({} : Layout α).insertEach list).items.Perm list :=
    perm_insert_each _ _
  have items : (({} : Layout α).insertEach children).items =
      (({} : Layout α).insertEach others).items := by
    apply items_eq_of_perm (valid_insert_each fresh takes)
      (valid_insert_each fresh (takes_of_perm perm takes))
    · exact (added children).trans (perm.trans (added others).symm)
    · intro placed member
      exact occupied placed ((added children).mem_iff.1 member)
  have extent : (({} : Layout α).insertEach children).extent =
      (({} : Layout α).insertEach others).extent := by
    rw [extent_insert_each, extent_insert_each]
  exact congrArg₂ Layout.mk items extent

theorem map_insert {β : Type} (f : Placed α → β) (layout : Layout α) (placed : Placed α) :
    (layout.insert placed).map f = (layout.map f).insert (placed.map f) := by
  have items (entries : List (Placed α)) : (insertByStart placed entries).map (·.map f) =
      insertByStart (placed.map f) (entries.map (·.map f)) := by
    induction entries with
    | nil => rfl
    | cons head rest ih =>
        simp only [insertByStart, List.map_cons]
        show _ = if head.start ≤ placed.start then _ else _
        split
        · rw [List.map_cons, ih]
        · rfl
  simp only [map, insert, items]

end Layout

section Arrange

variable {α : Type} [Placeable α] {space next : Space α} {candidates : List (Candidate α)}
  {placer : Placer} {resizer : Resizer}

theorem offer_all_eq_ok :
    offerAll space candidates = .ok next ↔
      space.layout.Takes (candidates.flatMap Candidate.fixed) ∧
        next = { space with
          layout := space.layout.insertEach (candidates.flatMap Candidate.fixed)
          pending := space.pending ++ candidates.flatMap (Candidate.waiting space.placer) } := by
  induction candidates generalizing space with
  | nil => simp [offerAll, Layout.takes_nil, Layout.insertEach, eq_comm]
  | cons candidate rest ih =>
      simp only [offerAll, bind_eq_ok, offer_to_eq_ok, ih, List.flatMap_cons]
      cases offset : candidate.offset? with
      | none =>
          simp [Space.offerWith, Candidate.fixed_of_none offset, Candidate.waiting_of_none _ offset]
      | some start =>
          simp only [Space.offerWith, bind_eq_ok, Layout.place_at_eq_ok,
            Candidate.fixed_of_some offset, Candidate.waiting_of_some _ offset,
            List.singleton_append, List.nil_append, Layout.takes_cons]
          constructor
          · rintro ⟨middle, ⟨layout, ⟨bound, free, rfl⟩, given⟩, takes, rfl⟩
            cases given
            exact ⟨⟨⟨bound, free⟩, takes⟩, rfl⟩
          · rintro ⟨⟨accepts, takes⟩, rfl⟩
            exact ⟨_, ⟨_, ⟨accepts.1, accepts.2, rfl⟩, rfl⟩, takes, rfl⟩

theorem arrange_eq_ok :
    arrange { placer, resizer } candidates = .ok space ↔
      ({} : Layout α).Takes (candidates.flatMap Candidate.fixed) ∧
        ∃ layout, (({} : Layout α).insertEach (candidates.flatMap Candidate.fixed)).fitAll
            (candidates.flatMap (Candidate.waiting placer)) = (layout, none) ∧
          space = ⟨placer, resizer, recordOffsets layout, []⟩ := by
  simp only [arrange, bind_eq_ok, offer_all_eq_ok, List.nil_append]
  constructor
  · rintro ⟨offered, ⟨takes, rfl⟩, placing⟩
    simp only [Space.placePending] at placing
    split at placing
    next placed complete =>
      cases placing
      obtain ⟨same, unplaced⟩ := Prod.mk.inj complete
      subst same
      exact ⟨takes, _, Prod.ext rfl unplaced, rfl⟩
    next => contradiction
  · rintro ⟨takes, layout, placed, rfl⟩
    refine ⟨_, ⟨takes, rfl⟩, ?_⟩
    simp only [Space.placePending, placed]

omit [Placeable α] in
theorem flat_map_waiting_eq (placer : Placer) (candidates : List (Candidate α)) :
    candidates.flatMap (Candidate.waiting placer) =
      (candidates.filter (·.offset?.isNone)).flatMap (Candidate.waiting placer) := by
  induction candidates with
  | nil => rfl
  | cons candidate rest ih =>
      rw [List.flatMap_cons, ih]
      cases offset : candidate.offset? with
      | none => rw [List.filter_cons_of_pos (by simp [offset]), List.flatMap_cons]
      | some start =>
          rw [List.filter_cons_of_neg (by simp [offset]), Candidate.waiting_of_some _ offset,
            List.nil_append]

/-- The order of candidates that occupy something matters only among those that wait. -/
theorem arrange_of_perm {others : List (Candidate α)} (perm : candidates.Perm others)
    (waiting : candidates.filter (·.offset?.isNone) = others.filter (·.offset?.isNone))
    (occupied : ∀ candidate ∈ candidates, 0 < candidate.size)
    (arranged : arrange { placer, resizer } candidates = .ok space) :
    arrange { placer, resizer } others = .ok space := by
  obtain ⟨takes, layout, placed, rfl⟩ := arrange_eq_ok.1 arranged
  have fixed : (candidates.flatMap Candidate.fixed).Perm (others.flatMap Candidate.fixed) :=
    perm.flatMap_right _
  have fixedOccupied : ∀ placed ∈ candidates.flatMap Candidate.fixed, 0 < placed.size := by
    intro placed member
    obtain ⟨candidate, present, found⟩ := List.mem_flatMap.1 member
    obtain ⟨start, -, rfl⟩ := List.mem_map.1 found
    exact occupied candidate present
  apply arrange_eq_ok.2
  refine ⟨Layout.takes_of_perm fixed takes, layout, ?_, rfl⟩
  rw [← Layout.insert_each_of_perm fixed takes fixedOccupied, flat_map_waiting_eq, ← waiting,
    ← flat_map_waiting_eq]
  exact placed

/-- One more candidate that waits behind all others takes a place beside them. -/
theorem arrange_behind {candidate : Candidate α} (unstated : candidate.offset? = none)
    (arranged : arrange { placer, resizer } candidates = .ok space)
    (extended : arrange { placer, resizer } (candidates ++ [candidate]) = .ok next) :
    ∃ start, next.layout = space.layout.insert
      ⟨Placeable.moveTo candidate.item start, start, candidate.size⟩ := by
  obtain ⟨takes, layout, placed, rfl⟩ := arrange_eq_ok.1 arranged
  obtain ⟨-, last, placedAll, rfl⟩ := arrange_eq_ok.1 extended
  rw [List.flatMap_append, List.flatMap_append, List.flatMap_singleton, List.flatMap_singleton,
    Candidate.fixed_of_none unstated, List.append_nil, Candidate.waiting_of_none _ unstated,
    Layout.fit_all_append placed] at placedAll
  have valid : layout.Valid := by
    have fresh : ({} : Layout α).Valid := Layout.valid_of_no_items rfl
    obtain ⟨added, filled⟩ := Layout.fit_all_filled (Layout.valid_insert_each fresh takes)
      (candidates.flatMap (Candidate.waiting placer))
    rw [placed] at filled
    exact filled.valid
  simp only [Layout.fitAll] at placedAll
  split at placedAll
  next fitted =>
    cases placedAll
    obtain ⟨start, -, -, rfl⟩ := Layout.fit_eq_ok valid fitted
    refine ⟨start, ?_⟩
    show recordOffsets _ = (recordOffsets layout).insert _
    rw [recordOffsets, Layout.map_insert]
    rfl
  next => cases placedAll

end Arrange

end AddressMap
