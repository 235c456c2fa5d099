import AddressMap.Proofs.Elaboration.Offering

/-!
# Where candidates are seated

An arrangement seats each candidate at the offset it states or, without one, at a start that its
placer may choose. Alone in a space a candidate without an offset goes to the bottom.
-/

namespace AddressMap

set_option autoImplicit false

theorem Placer.admits_of_choose {placer : Placer} {size start : Nat} {gap : Gap}
    (chosen : placer.choose size gap = .ok (some start)) : placer.Admits size start := by
  cases placer with
  | manual => contradiction
  | linear => trivial
  | aligned =>
      simp only [choose, alignment?, least_power_of_two_max_one] at chosen
      split at chosen
      · contradiction
      next unit known =>
        have unit := (Option.ite_none_right_eq_some.1 known).2
        have start := (Option.ite_none_right_eq_some.1 (Except.ok.inj chosen)).2
        cases unit
        cases start
        exact dvd_round_up _ _

/-- The child stands where its placer may put it. -/
structure Pending.SeatedBy {α : Type} (child : Pending α) (placed : Placed α) : Prop where
  item : placed.item = child.item
  size : placed.size = child.size
  admitted : child.placer.Admits child.size placed.start

namespace Layout

variable {α : Type} {layout next : Layout α}

theorem seated_of_fit {child : Pending α}
    (fitted : layout.fit child.item child.size child.placer = .ok next) :
    ∃ placed, child.SeatedBy placed ∧ next = layout.insert placed := by
  simp only [fit, bind, Except.bind] at fitted
  split at fitted
  · contradiction
  next start? found =>
    cases start? with
    | none => contradiction
    | some start =>
        obtain ⟨gap, -, chosen⟩ := first_fit_eq_some found
        exact ⟨⟨child.item, start, child.size⟩, ⟨rfl, rfl, Placer.admits_of_choose chosen⟩,
          (Except.ok.inj fitted).symm⟩

/-- A pass that comes to its end seats all children that waited. -/
theorem seated_of_fit_all {pending : List (Pending α)}
    (complete : layout.fitAll pending = (next, none)) :
    ∃ added, next.items.Perm (layout.items ++ added) ∧
      List.Forall₂ Pending.SeatedBy pending added := by
  induction pending generalizing layout with
  | nil =>
      cases complete
      exact ⟨[], by simp, .nil⟩
  | cons child rest ih =>
      rw [fitAll] at complete
      split at complete
      next after fitted =>
        obtain ⟨placed, seated, rfl⟩ := seated_of_fit fitted
        obtain ⟨added, perm, others⟩ := ih complete
        refine ⟨placed :: added, ?_, .cons seated others⟩
        refine perm.trans ?_
        exact ((perm_insert_by_start _ _).append_right added).trans List.perm_middle.symm
      next => cases complete

end Layout

/-- A place that a candidate can be given in a space with this placer: the stated one or, without
one, a place that the placer may choose. -/
structure Candidate.Suits {α : Type} (placer : Placer) (candidate : Candidate α) (start : Nat) :
    Prop where
  stated : ∀ offset, candidate.offset? = some offset → start = offset
  chosen : candidate.offset? = none →
    (candidate.placer?.getD placer).Admits candidate.size start

section Arrange

variable {α : Type} [Placeable α] {placer : Placer} {resizer : Resizer} {space : Space α}
  {candidate : Candidate α} {candidates : List (Candidate α)}

omit [Placeable α] in
theorem suits_of_paired {entry : Placed α}
    (pair : entry ∈ candidate.fixed ∨ ∃ child ∈ candidate.waiting placer, child.SeatedBy entry) :
    entry.item = candidate.item ∧ candidate.Suits placer entry.start := by
  rcases pair with stands | ⟨child, waits, seated⟩
  · have taken := Candidate.taken_of_mem_fixed stands
    refine ⟨taken.item, taken.stated, fun unstated => ?_⟩
    rw [Candidate.fixed_of_none unstated] at stands
    contradiction
  · obtain ⟨unstated, rfl⟩ := Candidate.mem_waiting.1 waits
    refine ⟨seated.item, fun offset stated => ?_, fun _ => seated.admitted⟩
    rw [unstated] at stated
    contradiction

/-- Each candidate stands in one place of the arrangement, which suits it. -/
theorem suited_of_arrange (arranged : arrange { placer, resizer } candidates = .ok space) :
    ∃ placed, placed.Perm space.layout.items ∧
      List.Forall₂ (fun candidate entry => candidate.Suits placer entry.start ∧
        entry.item = Placeable.moveTo candidate.item entry.start) candidates placed := by
  obtain ⟨-, layout, complete, rfl⟩ := arrange_eq_ok.1 arranged
  obtain ⟨added, perm, seated⟩ := Layout.seated_of_fit_all complete
  obtain ⟨placed, pairing, paired⟩ := Candidate.paired_of_found seated
  have fixed := Layout.perm_insert_each ({} : Layout α) (candidates.flatMap Candidate.fixed)
  refine ⟨placed.map fun entry => entry.map fun entry => Placeable.moveTo entry.item entry.start,
    ?_, ?_⟩
  · exact (pairing.trans ((fixed.append_right added).symm.trans perm.symm)).map _
  · refine List.forall₂_map_right_iff.2 (paired.imp fun candidate entry pair => ?_)
    obtain ⟨item, suits⟩ := suits_of_paired pair
    refine ⟨suits, ?_⟩
    rw [← item]
    rfl

end Arrange

end AddressMap
