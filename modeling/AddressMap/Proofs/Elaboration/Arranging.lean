import AddressMap.Proofs.Elaboration.Reading

/-!
# What an arrangement holds

An arrangement that succeeds holds each candidate once, with its own size, at its stated offset if
it has one, and records in each element where it stands. Candidates that state the starts of a valid
layout are arranged as that layout, whatever the policies of the space are.
-/

namespace AddressMap

set_option autoImplicit false

namespace Candidate

variable {α : Type}

def fixed (candidate : Candidate α) : List (Placed α) :=
  candidate.offset?.toList.map fun offset => ⟨candidate.item, offset, candidate.size⟩

def waiting (placer : Placer) (candidate : Candidate α) : List (Pending α) :=
  if candidate.offset?.isSome then []
  else [⟨candidate.item, candidate.size, candidate.placer?.getD placer⟩]

structure TakenAs (candidate : Candidate α) (placed : Placed α) : Prop where
  item : placed.item = candidate.item
  size : placed.size = candidate.size
  stated : ∀ offset, candidate.offset? = some offset → placed.start = offset

structure StandsAs [Placeable α] (candidate : Candidate α) (placed : Placed α) : Prop where
  item : placed.item = Placeable.moveTo candidate.item placed.start
  size : placed.size = candidate.size
  stated : ∀ offset, candidate.offset? = some offset → placed.start = offset

theorem fixed_of_none {candidate : Candidate α} (unstated : candidate.offset? = none) :
    candidate.fixed = [] := by
  simp [fixed, unstated]

theorem fixed_of_some {candidate : Candidate α} {offset : Nat}
    (stated : candidate.offset? = some offset) :
    candidate.fixed = [⟨candidate.item, offset, candidate.size⟩] := by
  simp [fixed, stated]

theorem waiting_of_none {candidate : Candidate α} (placer : Placer)
    (unstated : candidate.offset? = none) :
    candidate.waiting placer =
      [⟨candidate.item, candidate.size, candidate.placer?.getD placer⟩] := by
  simp [waiting, unstated]

theorem waiting_of_some {candidate : Candidate α} {offset : Nat} (placer : Placer)
    (stated : candidate.offset? = some offset) : candidate.waiting placer = [] := by
  simp [waiting, stated]

/-- The fixed places and those found for the others are one place for each candidate. -/
theorem paired_of_found {placer : Placer} {candidates : List (Candidate α)}
    {added : List (Placed α)} {found : Pending α → Placed α → Prop}
    (filled : List.Forall₂ found (candidates.flatMap (waiting placer)) added) :
    ∃ placed, placed.Perm (candidates.flatMap fixed ++ added) ∧
      List.Forall₂ (fun candidate entry => entry ∈ candidate.fixed ∨
        ∃ child ∈ candidate.waiting placer, found child entry) candidates placed := by
  induction candidates generalizing added with
  | nil =>
      cases filled
      exact ⟨[], List.Perm.refl _, .nil⟩
  | cons candidate rest ih =>
      rw [List.flatMap_cons] at filled
      cases offset : candidate.offset? with
      | none =>
          have waits := waiting_of_none placer offset
          rw [waits] at filled
          cases filled with
          | @cons _ first _ others here there =>
              obtain ⟨placed, perm, paired⟩ := ih there
              refine ⟨first :: placed, ?_, .cons (.inr ⟨_, ?_, here⟩) paired⟩
              · rw [List.flatMap_cons, fixed_of_none offset, List.nil_append]
                exact (perm.cons first).trans List.perm_middle.symm
              · rw [waits]
                exact List.mem_singleton_self _
      | some start =>
          have stands := fixed_of_some offset
          rw [waiting_of_some placer offset] at filled
          obtain ⟨placed, perm, paired⟩ := ih filled
          refine ⟨⟨candidate.item, start, candidate.size⟩ :: placed, ?_, .cons (.inl ?_) paired⟩
          · rw [List.flatMap_cons, stands]
            exact perm.cons _
          · rw [stands]
            exact List.mem_singleton_self _

theorem taken_of_mem_fixed {candidate : Candidate α} {entry : Placed α}
    (stands : entry ∈ candidate.fixed) : candidate.TakenAs entry := by
  obtain ⟨start, stated, rfl⟩ := List.mem_map.1 stands
  refine ⟨rfl, rfl, fun offset given => ?_⟩
  rw [Option.mem_toList, given] at stated
  exact (Option.some.inj stated).symm

theorem mem_waiting {placer : Placer} {candidate : Candidate α} {child : Pending α} :
    child ∈ candidate.waiting placer ↔ candidate.offset? = none ∧
      child = ⟨candidate.item, candidate.size, candidate.placer?.getD placer⟩ := by
  cases offset : candidate.offset? with
  | none => simp [waiting_of_none placer offset]
  | some start => simp [waiting_of_some placer offset]

theorem taken_of_filled {placer : Placer} {candidates : List (Candidate α)}
    {added : List (Placed α)}
    (filled : List.Forall₂ Pending.FilledBy (candidates.flatMap (waiting placer)) added) :
    ∃ placed, placed.Perm (candidates.flatMap fixed ++ added) ∧
      List.Forall₂ TakenAs candidates placed := by
  obtain ⟨placed, perm, paired⟩ := paired_of_found filled
  refine ⟨placed, perm, paired.imp fun candidate entry pair => ?_⟩
  rcases pair with stands | ⟨child, waits, item, size⟩
  · exact taken_of_mem_fixed stands
  · obtain ⟨unstated, rfl⟩ := mem_waiting.1 waits
    refine ⟨item, size, fun offset stated => ?_⟩
    rw [unstated] at stated
    contradiction

end Candidate

section Arrange

variable {α : Type} [Placeable α] {space next : Space α} {candidates : List (Candidate α)}

theorem offer_to_eq_ok {candidate : Candidate α} :
    candidate.offerTo space = .ok next ↔
      space.offerWith (candidate.placer?.getD space.placer) candidate.item candidate.offset?
        candidate.size = .ok next := by
  unfold Candidate.offerTo
  split
  next offered => simp [offered]
  next refused => simp [refused]

/-- Offering puts every stated candidate in place and leaves the others waiting in order. -/
structure Offered (space : Space α) (candidates : List (Candidate α)) (next : Space α) : Prop where
  policies : next.placer = space.placer ∧ next.resizer = space.resizer
  extent : next.layout.extent = space.layout.extent
  valid : next.layout.Valid
  perm : next.layout.items.Perm (space.layout.items ++ candidates.flatMap Candidate.fixed)
  pending : next.pending = space.pending ++ candidates.flatMap (Candidate.waiting space.placer)

theorem offered_of_offer_all (valid : space.layout.Valid)
    (offered : offerAll space candidates = .ok next) : Offered space candidates next := by
  induction candidates generalizing space with
  | nil =>
      cases offered
      exact ⟨⟨rfl, rfl⟩, rfl, valid, by simp, by simp⟩
  | cons candidate rest ih =>
      obtain ⟨middle, first, others⟩ := bind_eq_ok.1 offered
      rw [offer_to_eq_ok] at first
      cases offset : candidate.offset? with
      | none =>
          rw [offset] at first
          cases first
          have later := ih (by exact valid) others
          refine ⟨later.policies, later.extent, later.valid, ?_, ?_⟩
          · rw [List.flatMap_cons, Candidate.fixed_of_none offset]
            exact later.perm
          · rw [List.flatMap_cons, Candidate.waiting_of_none _ offset, ← List.append_assoc]
            exact later.pending
      | some start =>
          rw [offset] at first
          obtain ⟨layout, placed, given⟩ := bind_eq_ok.1 first
          cases given
          have later := ih (by exact Layout.valid_of_place_at valid placed) others
          obtain ⟨-, -, rfl⟩ := Layout.place_at_eq_ok.1 placed
          refine ⟨later.policies, later.extent, later.valid, ?_, ?_⟩
          · rw [List.flatMap_cons, Candidate.fixed_of_some offset]
            refine later.perm.trans ?_
            refine ((Layout.perm_insert_by_start _ _).append_right _).trans ?_
            exact List.perm_middle.symm
          · rw [List.flatMap_cons, Candidate.waiting_of_some _ offset, List.nil_append]
            exact later.pending

structure Arranged (candidates : List (Candidate α)) (layout : Layout α) : Prop where
  valid : layout.Valid
  stands : ∃ placed, placed.Perm layout.items ∧
    List.Forall₂ Candidate.StandsAs candidates placed

theorem stands_of_taken {placed : List (Placed α)}
    (taken : List.Forall₂ Candidate.TakenAs candidates placed) :
    List.Forall₂ Candidate.StandsAs candidates
      (placed.map fun entry => entry.map fun entry => Placeable.moveTo entry.item entry.start) := by
  refine List.forall₂_map_right_iff.2 (taken.imp fun candidate entry found => ?_)
  exact ⟨by rw [← found.item]; rfl, found.size, found.stated⟩

/-- All that a successful arrangement says about the space behind it. -/
theorem arranged_of_arrange {placer : Placer} {resizer : Resizer}
    (arranged : arrange { placer, resizer } candidates = .ok space) :
    space.resizer = resizer ∧ space.layout.extent = none ∧
      Arranged candidates space.layout := by
  obtain ⟨offered, offering, placing⟩ := bind_eq_ok.1 arranged
  have fresh : (⟨placer, resizer, {}, []⟩ : Space α).layout.Valid := Layout.valid_of_no_items rfl
  have stated := offered_of_offer_all fresh offering
  obtain ⟨added, filled⟩ := Layout.fit_all_filled stated.valid offered.pending
  simp only [Space.placePending] at placing
  split at placing
  next placed complete =>
    cases placing
    obtain ⟨same, unplaced⟩ := Prod.mk.inj complete
    subst same
    have complete : (offered.pending.take added.length) = offered.pending := by
      have unblocked := filled.blocked
      rw [unplaced, Option.map_none, List.getElem?_eq_none_iff] at unblocked
      exact List.take_of_length_le unblocked
    have filledAll := filled.placed
    rw [complete, stated.pending, List.nil_append] at filledAll
    obtain ⟨placed, perm, taken⟩ := Candidate.taken_of_filled filledAll
    refine ⟨stated.policies.2, filled.extent.trans stated.extent, ?_, ?_⟩
    · exact (Layout.valid_map _).2 filled.valid
    · refine ⟨_, ?_, stands_of_taken taken⟩
      refine List.Perm.map _ (perm.trans ?_)
      exact ((stated.perm.append_right added).symm.trans filled.perm.symm)
  next placed unplaced failed => contradiction

omit [Placeable α] in
theorem settled_layout_eq_ok {path : Path} {declared? : Option Nat} {layout : Layout α} :
    settledLayout path space declared? = .ok layout ↔
      ∃ extent, space.Settles declared? extent ∧
        layout = { space.layout with extent := some extent } := by
  unfold settledLayout
  split
  next settled answered =>
    obtain ⟨extent, settles, rfl⟩ := Space.settle_eq_ok.1 answered
    constructor
    · intro given
      cases given
      exact ⟨extent, settles, rfl⟩
    · rintro ⟨other, otherSettles, rfl⟩
      have same := answered.symm.trans (Space.settle_eq_ok.2 ⟨other, otherSettles, rfl⟩)
      cases same
      rfl
  next error refused =>
    constructor
    · exact fun accepted => by contradiction
    · rintro ⟨extent, settles, rfl⟩
      have accepted := Space.settle_eq_ok.2 ⟨extent, settles, rfl⟩
      rw [refused] at accepted
      contradiction

theorem offer_all_of_stated {placer : Placer} {resizer : Resizer} {items : List (Placed α)}
    (stated : ∀ candidate ∈ candidates, candidate.offset?.isSome)
    (valid : (⟨items ++ candidates.flatMap Candidate.fixed, none⟩ : Layout α).Valid) :
    offerAll { placer, resizer, layout := { items } } candidates =
      .ok { placer, resizer
            layout := { items := items ++ candidates.flatMap Candidate.fixed } } := by
  induction candidates generalizing items with
  | nil => simp [offerAll]
  | cons candidate rest ih =>
      obtain ⟨start, offset⟩ := Option.isSome_iff_exists.1 (stated candidate List.mem_cons_self)
      let placed : Placed α := ⟨candidate.item, start, candidate.size⟩
      rw [List.flatMap_cons, Candidate.fixed_of_some offset] at valid ⊢
      have leading : placed ∈ [placed] ++ rest.flatMap Candidate.fixed := List.mem_cons_self
      have early : ∀ entry ∈ items, entry.start ≤ placed.start := fun entry member =>
        (List.pairwise_append.1 valid.ordered).2.2 entry member placed leading
      have free : ∀ entry ∈ items, placed.Apart entry := fun entry member =>
        Placed.apart_comm.1 ((List.pairwise_append.1 valid.apart).2.2 entry member placed leading)
      have taken : (⟨items, none⟩ : Layout α).placeAt candidate.item start candidate.size =
          .ok ⟨items ++ [placed], none⟩ := by
        have bound := valid.bounded placed (List.mem_append_right items leading)
        refine Layout.place_at_eq_ok.2 ⟨bound, free, ?_⟩
        rw [Layout.insert, Layout.insert_by_start_of_le early]
      have first : candidate.offerTo ⟨placer, resizer, ⟨items, none⟩, []⟩ =
          .ok ⟨placer, resizer, ⟨items ++ [placed], none⟩, []⟩ := by
        rw [offer_to_eq_ok, offset]
        exact bind_eq_ok.2 ⟨_, taken, rfl⟩
      refine bind_eq_ok.2 ⟨_, first, ?_⟩
      rw [← List.append_assoc] at valid ⊢
      exact ih (fun other member => stated other (List.mem_cons_of_mem candidate member)) valid

/-- Candidates that state the places of a valid layout are arranged as that layout. -/
theorem arrange_of_stated {placer : Placer} {resizer : Resizer} {layout : Layout α}
    (valid : layout.Valid)
    (stated : ∀ candidate ∈ candidates, candidate.offset?.isSome)
    (fixed : recordOffsets ⟨candidates.flatMap Candidate.fixed, none⟩ = ⟨layout.items, none⟩) :
    arrange { placer, resizer } candidates = .ok ⟨placer, resizer, ⟨layout.items, none⟩, []⟩ := by
  have recorded : (⟨layout.items, none⟩ : Layout α).Valid :=
    ⟨valid.ordered, valid.bounded, valid.apart⟩
  rw [← fixed] at recorded
  have raw : (⟨[] ++ candidates.flatMap Candidate.fixed, none⟩ : Layout α).Valid :=
    (Layout.valid_map _).1 recorded
  refine bind_eq_ok.2 ⟨_, offer_all_of_stated stated raw, ?_⟩
  simp only [Space.placePending, Layout.fitAll, List.nil_append, fixed]

end Arrange

end AddressMap
