import AddressMap.Proofs.Space.Partition

/-!
# The last slot

The last slot is the gap behind all children if there is one, else the child that is last in the
order of starts. A child that occupies something ends there behind all others, but an empty one may
be last in the order and lie inside the child that ends the layout. The main statement says exactly
when the last slot is the one at the end.
-/

namespace AddressMap

set_option autoImplicit false

namespace Layout

variable {α : Type} {layout : Layout α}

/-- The last slot lies at the end of the layout. There is none exactly if the layout has no length;
else it is the gap behind all children if none of them ends the layout, and one that does if some
do. -/
structure LastAtEnd (layout : Layout α) : Prop where
  absent : layout.last? = none ↔ layout.size = 0
  gap : 0 < layout.size → (∀ placed ∈ layout.items, placed.stop ≠ layout.size) →
    layout.last? = some (.gap ⟨layout.top, layout.size⟩)
  item : 0 < layout.size → (∃ placed ∈ layout.items, placed.stop = layout.size) →
    ∃ placed ∈ layout.items, placed.stop = layout.size ∧ layout.last? = some (.item placed)

/-- If an empty child is last in the order, there is a gap at the end, or the child stands at the
end of a layout that has a length. -/
def EmptyLastOutside (layout : Layout α) : Prop :=
  ∀ placed ∈ layout.items.getLast?, placed.size = 0 →
    layout.top < layout.size ∨ 0 < layout.size ∧ placed.start = layout.size

theorem get_last?_slots_from (last cursor : Nat) (items : List (Placed α)) :
    (slotsFrom last cursor items).getLast? =
      if max cursor (top { items }) < last then some (.gap ⟨max cursor (top { items }), last⟩)
      else items.getLast?.map .item := by
  induction items generalizing cursor with
  | nil =>
      have still : max cursor (top ({} : Layout α)) = cursor := Nat.max_zero cursor
      unfold slotsFrom
      rw [still]
      split <;> rfl
  | cons head rest ih =>
      have top : max cursor (top { items := head :: rest }) =
          max (max cursor head.stop) (top { items := rest }) := (Nat.max_assoc ..).symm
      have item : (Slot.item head :: slotsFrom last (max cursor head.stop) rest).getLast? =
          if max cursor (Layout.top { items := head :: rest }) < last then
            some (.gap ⟨max cursor (Layout.top { items := head :: rest }), last⟩)
          else (head :: rest).getLast?.map .item := by
        rw [List.getLast?_cons, List.getLast?_cons, ih, top]
        split
        · rfl
        · cases rest.getLast? <;> rfl
      simp only [slotsFrom]
      split
      · rw [List.getLast?_cons_cons, item]
      · exact item

/-- Whatever the children are, the last slot is the gap behind all of them, or the last of them. -/
theorem last?_eq (layout : Layout α) :
    layout.last? =
      if layout.top < layout.size then some (.gap ⟨layout.top, layout.size⟩)
      else layout.items.getLast?.map .item := by
  have slots := get_last?_slots_from layout.size 0 layout.items
  rw [Nat.zero_max] at slots
  exact slots

theorem exists_stop_eq_top (occupied : 0 < layout.top) :
    ∃ placed ∈ layout.items, placed.stop = layout.top := by
  obtain ⟨items, extent⟩ := layout
  unfold top at occupied ⊢
  dsimp only at occupied ⊢
  induction items with
  | nil => contradiction
  | cons head rest ih =>
      rw [List.foldr_cons] at occupied ⊢
      by_cases higher : rest.foldr (fun placed highest => max placed.stop highest) 0 ≤ head.stop
      · exact ⟨head, List.mem_cons_self, by omega⟩
      · obtain ⟨placed, member, stop⟩ := ih (by omega)
        exact ⟨placed, List.mem_cons_of_mem head member, by omega⟩

theorem stop_of_get_last? (valid : layout.Valid) {placed : Placed α}
    (last : layout.items.getLast? = some placed) (occupied : 0 < placed.size) :
    placed.stop = layout.top := by
  obtain ⟨before, split⟩ := List.getLast?_eq_some_iff.1 last
  have member : placed ∈ layout.items := List.mem_of_getLast? last
  have below : ∀ other ∈ layout.items, other.stop ≤ placed.stop := by
    intro other present
    have ordered := valid.ordered
    have apart := valid.apart
    unfold InOrder at ordered
    rw [split, List.pairwise_append] at ordered apart
    rw [split] at present
    rcases List.mem_append.1 present with earlier | same
    · have start := ordered.2.2 other earlier placed List.mem_cons_self
      have disjoint := apart.2.2 other earlier placed List.mem_cons_self
      unfold Placed.Apart Placed.stop at disjoint
      unfold Placed.stop
      omega
    · rw [List.mem_singleton.1 same]
  have reached := stop_le_top member
  obtain ⟨highest, present, stop⟩ := @exists_stop_eq_top _ layout (by
    unfold Placed.stop at reached
    omega)
  have bound := below highest present
  omega

theorem top_le_size (covered : layout.Covered) : layout.top ≤ layout.size := by
  by_contra beyond
  obtain ⟨highest, member, stop⟩ := @exists_stop_eq_top _ layout (by omega)
  have bound := covered highest member
  omega

theorem last_at_end_of_gap (behind : layout.top < layout.size) : layout.LastAtEnd := by
  have last := layout.last?_eq
  rw [if_pos behind] at last
  constructor
  case absent =>
    rw [last]
    exact iff_of_false nofun (by omega)
  case gap => exact fun _ _ => last
  case item =>
    rintro - ⟨placed, member, stop⟩
    have below := stop_le_top member
    omega

theorem last_at_end_of_full (full : layout.top = layout.size) :
    layout.LastAtEnd ↔
      ∀ placed ∈ layout.items.getLast?, 0 < layout.size ∧ placed.stop = layout.size := by
  have last := layout.last?_eq
  rw [if_neg (by omega)] at last
  constructor
  · intro atEnd placed final
    rw [Option.mem_def.1 final, Option.map_some] at last
    have long : 0 < layout.size := by
      refine Nat.pos_of_ne_zero fun zero => ?_
      have none := atEnd.absent.2 zero
      rw [last] at none
      contradiction
    obtain ⟨highest, present, stop⟩ := @exists_stop_eq_top _ layout (by omega)
    obtain ⟨other, -, ends, found⟩ := atEnd.item long ⟨highest, present, stop.trans full⟩
    rw [last] at found
    obtain rfl := Slot.item.inj (Option.some.inj found)
    exact ⟨long, ends⟩
  · intro ends
    constructor
    case absent =>
      rw [last, Option.map_eq_none_iff, List.getLast?_eq_none_iff]
      constructor
      · intro none
        rw [← full, top, none]
        rfl
      · intro zero
        by_contra some
        have long := (ends _ (List.getLast?_eq_getLast_of_ne_nil some)).1
        omega
    case gap =>
      intro long apart
      obtain ⟨highest, present, stop⟩ := @exists_stop_eq_top _ layout (by omega)
      exact absurd (stop.trans full) (apart highest present)
    case item =>
      rintro - ⟨placed, member, -⟩
      have some := List.ne_nil_of_mem member
      have final := List.getLast?_eq_getLast_of_ne_nil some
      exact ⟨_, List.getLast_mem some, (ends _ final).2, by rw [last, final, Option.map_some]⟩

theorem last_at_end_of_valid (valid : layout.Valid) (covered : layout.Covered) :
    layout.LastAtEnd ↔ layout.EmptyLastOutside := by
  have within := top_le_size covered
  by_cases behind : layout.top < layout.size
  · exact iff_of_true (last_at_end_of_gap behind) fun _ _ _ => .inl behind
  · rw [last_at_end_of_full (by omega)]
    refine forall₂_congr fun placed final => ?_
    have below := stop_le_top (List.mem_of_getLast? final)
    unfold Placed.stop at below ⊢
    by_cases occupied : 0 < placed.size
    · have stop := stop_of_get_last? valid final occupied
      unfold Placed.stop at stop
      exact iff_of_true ⟨by omega, by omega⟩ fun empty => by omega
    · omega

end Layout

namespace Space

variable {α : Type}

/-- Behind every run from a fresh space in which no child was placed after the extent was settled,
the last slot is the one at the end exactly if no empty child is last in the order and lies inside
the layout: neither below the end of another child that ends the layout, nor in a layout that has no
length. In any case it is the gap behind all children, or the last of them if there is none. -/
theorem last_slot_at_end_iff (placer : Placer) (resizer : Resizer)
    {operations : List (Operation α)}
    (settledLast : SettledLast { placer, resizer } operations) :
    let layout := (Space.run { placer, resizer } operations).layout
    (layout.LastAtEnd ↔ layout.EmptyLastOutside) ∧
      layout.last? =
        if layout.top < layout.size then some (.gap ⟨layout.top, layout.size⟩)
        else layout.items.getLast?.map .item := by
  intro layout
  have fresh : (⟨placer, resizer, {}, []⟩ : Space α).layout.Valid := Layout.valid_of_no_items rfl
  have covered : layout.Covered := covered_of_settled_last fresh settledLast
  exact ⟨Layout.last_at_end_of_valid (run_valid fresh operations) covered, layout.last?_eq⟩

/-- An empty child that is last in the order is the last slot where it stands at the end. -/
theorem last_slot_of_sample_at_end :
    let operations := sampleOffers ++ [.placePending, .settle none, .rewrite (·.item ++ "0"),
      .offer "d" (some 8) 0, .settle (some 8)]
    SettledLast { placer := .aligned, resizer := .linear } operations ∧
      (Space.run { placer := .aligned, resizer := .linear } operations).layout.LastAtEnd := by
  intro operations
  have settledLast : SettledLast { placer := .aligned, resizer := .linear } operations :=
    .inr ⟨sampleOffers ++ [.placePending, .settle none, .rewrite (·.item ++ "0"),
      .offer "d" (some 8) 0], some 8, [], rfl, by decide, by decide⟩
  have last : (Space.run { placer := .aligned, resizer := .linear }
      operations).layout.items.getLast? = some ⟨"d", 8, 0⟩ := by decide
  refine ⟨settledLast, (last_slot_at_end_iff .aligned .linear settledLast).1.2 ?_⟩
  intro placed final _
  rw [last, Option.mem_some] at final
  subst final
  exact .inr (by decide)

/-- An empty child inside the one at the end is the last slot and stops short of the end, and one
that stands alone is a slot of a layout without length. -/
theorem last_slot_short_of_end :
    let fresh : Space String := { placer := .linear, resizer := .linear }
    let offers := [.offer "block" (some 0) 8, .offer "empty" (some 4) 0]
    let alone := [.offer "empty" (some 0) 0]
    (fresh.SettledLast (offers ++ [.settle none]) ∧
        (fresh.run (offers ++ [.settle none])).layout.size = 8 ∧
        (fresh.run (offers ++ [.settle none])).layout.last? = some (.item ⟨"empty", 4, 0⟩) ∧
        ¬ (fresh.run (offers ++ [.settle none])).layout.LastAtEnd) ∧
      fresh.SettledLast (alone ++ [.settle none]) ∧
        (fresh.run (alone ++ [.settle none])).layout.size = 0 ∧
        (fresh.run (alone ++ [.settle none])).layout.last? = some (.item ⟨"empty", 0, 0⟩) ∧
        ¬ (fresh.run (alone ++ [.settle none])).layout.LastAtEnd := by
  intro fresh offers alone
  have inside : (fresh.run (offers ++ [.settle none])).layout.last? =
      some (.item ⟨"empty", 4, 0⟩) := by decide
  have single : (fresh.run (alone ++ [.settle none])).layout.last? =
      some (.item ⟨"empty", 0, 0⟩) := by decide
  refine ⟨⟨.inr ⟨offers, none, [], rfl, by decide, by decide⟩, by decide, inside, ?_⟩,
    .inr ⟨alone, none, [], rfl, by decide, by decide⟩, by decide, single, ?_⟩
  · intro atEnd
    obtain ⟨placed, -, stop, last⟩ := atEnd.item (by decide) (by decide)
    rw [inside] at last
    obtain rfl := Slot.item.inj (Option.some.inj last)
    exact absurd stop (by decide)
  · intro atEnd
    have none := atEnd.absent.2 (by decide)
    rw [single] at none
    contradiction

end Space

end AddressMap
