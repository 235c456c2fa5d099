import AddressMap.Space.Basic
import Mathlib.Data.List.Forall2

/-!
# Valid layouts

A layout is valid when its children stand in address order, each ends at an address, and no two
share one. Both ways of adding a child keep a layout valid: a stated start is checked against the
children in place, and a start found by `firstFit` lies in a gap, which no child reaches into.
-/

namespace AddressMap

set_option autoImplicit false

theorem exists_related_of_mem {α β : Type} {related : α → β → Prop} {lefts : List α}
    {rights : List β} (pairs : List.Forall₂ related lefts rights) {right : β}
    (member : right ∈ rights) : ∃ left ∈ lefts, related left right := by
  induction pairs with
  | nil => exact absurd member List.not_mem_nil
  | @cons first _ _ _ here _ ih =>
      rcases List.mem_cons.1 member with rfl | later
      · exact ⟨first, List.mem_cons_self, here⟩
      · obtain ⟨left, present, there⟩ := ih later
        exact ⟨left, List.mem_cons_of_mem first present, there⟩

namespace Placed

variable {α : Type}

/-- Two children that share no address. An empty child has none to share. -/
def Apart (left right : Placed α) : Prop :=
  left.size = 0 ∨ right.size = 0 ∨ left.stop ≤ right.start ∨ right.stop ≤ left.start

theorem apart_comm {left right : Placed α} : left.Apart right ↔ right.Apart left := by
  unfold Apart
  omega

theorem meets_eq_false (item : α) {start size : Nat} {placed : Placed α} :
    placed.meets start (start + size) = false ↔ Apart ⟨item, start, size⟩ placed := by
  simp only [meets, Apart, Bool.and_eq_false_iff, decide_eq_false_iff_not, Nat.not_lt]
  simp only [stop]
  omega

end Placed

namespace Pending

variable {α : Type}

def FilledBy (child : Pending α) (placed : Placed α) : Prop :=
  placed.item = child.item ∧ placed.size = child.size

end Pending

namespace Layout

variable {α : Type} {layout next : Layout α}

/-- Children in address order that end at an address and share none. -/
structure Valid (layout : Layout α) : Prop where
  ordered : InOrder layout.items
  bounded : ∀ placed ∈ layout.items, placed.stop ≤ maxAddress
  apart : layout.items.Pairwise Placed.Apart

theorem valid_of_no_items (empty : layout.items = []) : layout.Valid := by
  constructor
  · rw [empty]
    exact List.Pairwise.nil
  · rw [empty]
    exact fun placed member => absurd member List.not_mem_nil
  · rw [empty]
    exact List.Pairwise.nil

theorem valid_map {β : Type} (f : Placed α → β) : (layout.map f).Valid ↔ layout.Valid := by
  constructor
  · intro valid
    have ordered := valid.ordered
    have apart := valid.apart
    simp only [map, InOrder, List.pairwise_map] at ordered apart
    refine ⟨ordered, fun placed member => ?_, apart⟩
    exact valid.bounded (placed.map f) (List.mem_map_of_mem member)
  · intro valid
    refine ⟨List.pairwise_map.2 valid.ordered, fun placed member => ?_,
      List.pairwise_map.2 valid.apart⟩
    obtain ⟨old, present, rfl⟩ := List.mem_map.1 member
    exact valid.bounded old present

theorem sublist_insert_by_start (placed : Placed α) (items : List (Placed α)) :
    items.Sublist (insertByStart placed items) := by
  induction items with
  | nil => exact List.nil_sublist _
  | cons head rest ih =>
      unfold insertByStart
      split
      · exact ih.cons_cons head
      · exact List.sublist_cons_self placed (head :: rest)

theorem insert_by_start_of_le {placed : Placed α} {items : List (Placed α)}
    (last : ∀ entry ∈ items, entry.start ≤ placed.start) :
    insertByStart placed items = items ++ [placed] := by
  induction items with
  | nil => rfl
  | cons head rest ih =>
      have early := last head List.mem_cons_self
      have restEarly := ih fun entry member => last entry (List.mem_cons_of_mem head member)
      simp only [insertByStart, if_pos early, restEarly, List.cons_append]

theorem valid_insert {placed : Placed α} (valid : layout.Valid) (bound : placed.stop ≤ maxAddress)
    (free : ∀ entry ∈ layout.items, placed.Apart entry) : (layout.insert placed).Valid := by
  constructor
  · exact in_order_insert_by_start placed valid.ordered
  · intro entry member
    rcases mem_insert_by_start.1 member with rfl | old
    · exact bound
    · exact valid.bounded entry old
  · have perm := perm_insert_by_start placed layout.items
    refine (perm.pairwise_iff fun apart => Placed.apart_comm.1 apart).2 ?_
    exact List.pairwise_cons.2 ⟨free, valid.apart⟩

theorem blocker?_eq_none (item : α) {start size : Nat} :
    layout.blocker? start (start + size) = none ↔
      ∀ placed ∈ layout.items, Placed.Apart ⟨item, start, size⟩ placed := by
  simp only [blocker?, List.find?_eq_none, Bool.not_eq_true, Placed.meets_eq_false item]

/-- A stated start is taken exactly when the range ends at an address and meets no child. -/
theorem place_at_eq_ok {item : α} {start size : Nat} :
    layout.placeAt item start size = .ok next ↔
      start + size ≤ maxAddress ∧
        (∀ placed ∈ layout.items, Placed.Apart ⟨item, start, size⟩ placed) ∧
        next = layout.insert ⟨item, start, size⟩ := by
  unfold placeAt boundedSum?
  by_cases bound : start + size ≤ maxAddress
  · rw [if_pos bound, ← blocker?_eq_none item]
    dsimp only
    cases layout.blocker? start (start + size) with
    | none => simp only [bound, true_and, Except.ok.injEq, eq_comm]
    | some blocker => simp
  · simp [bound]

theorem valid_of_place_at {item : α} {start size : Nat} (valid : layout.Valid)
    (placed : layout.placeAt item start size = .ok next) : next.Valid := by
  obtain ⟨bound, free, rfl⟩ := place_at_eq_ok.1 placed
  exact valid_insert valid bound free

section Gaps

variable {gap : Gap} {items : List (Placed α)}

/-- A gap lies behind the cursor, and no child reaches into it. -/
theorem free_gaps_from_apart {cursor : Nat} (ordered : InOrder items)
    (member : gap ∈ freeGapsFrom cursor items) :
    cursor ≤ gap.start ∧
      ∀ placed ∈ items, placed.stop ≤ gap.start ∨ gap.stop ≤ placed.start := by
  induction items generalizing cursor with
  | nil =>
      obtain rfl := List.mem_singleton.1 member
      exact ⟨Nat.le_refl _, fun placed absent => absurd absent List.not_mem_nil⟩
  | cons head rest ih =>
      obtain ⟨below, restOrdered⟩ := List.pairwise_cons.1 ordered
      have behind (later : gap ∈ freeGapsFrom (max cursor head.stop) rest) :
          cursor ≤ gap.start ∧
            ∀ placed ∈ head :: rest, placed.stop ≤ gap.start ∨ gap.stop ≤ placed.start := by
        obtain ⟨start, apart⟩ := ih restOrdered later
        refine ⟨by omega, fun placed present => ?_⟩
        rcases List.mem_cons.1 present with rfl | inRest
        · exact .inl (by omega)
        · exact apart placed inRest
      simp only [freeGapsFrom] at member
      split at member
      · rcases List.mem_cons.1 member with rfl | later
        · refine ⟨Nat.le_refl _, fun placed present => ?_⟩
          rcases List.mem_cons.1 present with rfl | inRest
          · exact .inr (Nat.le_refl _)
          · exact .inr (below placed inRest)
        · exact behind later
      · exact behind member

theorem free_gaps_from_bounded {cursor : Nat} (start : cursor ≤ maxAddress)
    (bounded : ∀ placed ∈ items, placed.stop ≤ maxAddress)
    (member : gap ∈ freeGapsFrom cursor items) :
    gap.start ≤ gap.stop ∧ gap.stop ≤ maxAddress := by
  induction items generalizing cursor with
  | nil =>
      obtain rfl := List.mem_singleton.1 member
      exact ⟨start, Nat.le_refl _⟩
  | cons head rest ih =>
      have headBound := bounded head List.mem_cons_self
      have cursorBound : max cursor head.stop ≤ maxAddress := by omega
      have behind := ih cursorBound fun placed later =>
        bounded placed (List.mem_cons_of_mem head later)
      simp only [freeGapsFrom] at member
      split at member
      next room =>
        rcases List.mem_cons.1 member with rfl | later
        · simp only [Placed.stop] at headBound
          exact ⟨by dsimp only; omega, by dsimp only; omega⟩
        · exact behind later
      next => exact behind member

end Gaps

theorem choose_in_gap {placer : Placer} {size start : Nat} {gap : Gap}
    (proper : gap.start ≤ gap.stop) (chosen : placer.choose size gap = .ok (some start)) :
    gap.start ≤ start ∧ start + size ≤ gap.stop := by
  cases placer with
  | manual => simp [Placer.choose] at chosen
  | linear =>
      simp only [Placer.choose, Except.ok.injEq, Option.ite_none_right_eq_some,
        Option.some.injEq] at chosen
      simp only [Gap.length] at chosen
      omega
  | aligned =>
      simp only [Placer.choose, alignment?] at chosen
      split at chosen
      · contradiction
      next unit known =>
        simp only [Option.ite_none_right_eq_some, Option.some.injEq] at known
        have positive : 0 < unit := known.2 ▸ least_power_of_two_pos _
        have above := le_round_up gap.start positive
        simp only [Except.ok.injEq, Option.ite_none_right_eq_some, Option.some.injEq] at chosen
        omega

theorem first_fit_eq_some {placer : Placer} {size start : Nat} {gaps : List Gap}
    (found : firstFit placer size gaps = .ok (some start)) :
    ∃ gap ∈ gaps, placer.choose size gap = .ok (some start) := by
  induction gaps with
  | nil => simp [firstFit] at found
  | cons gap rest ih =>
      simp only [firstFit, bind, Except.bind] at found
      split at found
      · contradiction
      next answer? chosen =>
        cases answer? with
        | none =>
            obtain ⟨later, member, answer⟩ := ih found
            exact ⟨later, List.mem_cons_of_mem gap member, answer⟩
        | some answer =>
            exact ⟨gap, List.mem_cons_self, chosen.trans found⟩

/-- A place that is found for a child ends at an address and meets no child. -/
theorem fit_eq_ok {item : α} {size : Nat} {placer : Placer} (valid : layout.Valid)
    (fitted : layout.fit item size placer = .ok next) :
    ∃ start, start + size ≤ maxAddress ∧
      (∀ placed ∈ layout.items, Placed.Apart ⟨item, start, size⟩ placed) ∧
      next = layout.insert ⟨item, start, size⟩ := by
  simp only [fit, bind, Except.bind] at fitted
  split at fitted
  · contradiction
  next start? found =>
    cases start? with
    | none => simp at fitted
    | some start =>
        obtain ⟨gap, member, chosen⟩ := first_fit_eq_some found
        obtain ⟨proper, bound⟩ := free_gaps_from_bounded (Nat.zero_le _) valid.bounded member
        obtain ⟨-, apart⟩ := free_gaps_from_apart valid.ordered member
        obtain ⟨above, below⟩ := choose_in_gap proper chosen
        refine ⟨start, by omega, fun placed present => ?_, (Except.ok.inj fitted).symm⟩
        have outside := apart placed present
        simp only [Placed.Apart, Placed.stop] at outside ⊢
        omega

/-- What a pass over waiting children leaves: the old children in their order, and among them those
that found a place. These are the first ones, up to the one that found none. -/
structure Filled (layout : Layout α) (pending : List (Pending α)) (next : Layout α)
    (unplaced? : Option (Unplaced α)) (added : List (Placed α)) : Prop where
  valid : next.Valid
  extent : next.extent = layout.extent
  kept : layout.items.Sublist next.items
  perm : next.items.Perm (layout.items ++ added)
  placed : List.Forall₂ Pending.FilledBy (pending.take added.length) added
  blocked : pending[added.length]? = unplaced?.map Unplaced.child

theorem fit_all_filled (valid : layout.Valid) (pending : List (Pending α)) :
    ∃ added, layout.Filled pending (layout.fitAll pending).1 (layout.fitAll pending).2 added := by
  induction pending generalizing layout with
  | nil => exact ⟨[], valid, rfl, List.Sublist.refl _, by simp [fitAll], .nil, rfl⟩
  | cons child rest ih =>
      unfold fitAll
      split
      next next fitted =>
        obtain ⟨start, bound, free, rfl⟩ := fit_eq_ok valid fitted
        let placed : Placed α := ⟨child.item, start, child.size⟩
        have inserted : (layout.insert placed).Valid := valid_insert valid bound free
        obtain ⟨added, later⟩ := ih inserted
        refine ⟨placed :: added, later.valid, later.extent, ?_, ?_, ?_, later.blocked⟩
        · exact (sublist_insert_by_start _ _).trans later.kept
        · refine later.perm.trans ?_
          exact ((perm_insert_by_start _ _).append_right added).trans List.perm_middle.symm
        · exact later.placed.cons ⟨rfl, rfl⟩
      next error failed =>
        exact ⟨[], valid, rfl, List.Sublist.refl _, by simp, .nil, rfl⟩

end Layout

theorem Resizer.le_extent {resizer : Resizer} {occupied extent : Nat}
    (answered : resizer.extent occupied = .ok extent) : occupied ≤ extent := by
  cases resizer with
  | manual => exact Nat.le_of_eq (Except.ok.inj answered)
  | linear => exact Nat.le_of_eq (Except.ok.inj answered)
  | aligned =>
      simp only [Resizer.extent] at answered
      split at answered
      · omega
      · split at answered
        · rw [← Except.ok.inj answered]
          exact le_least_power_of_two occupied
        · contradiction

namespace Space

variable {α : Type} {space next : Space α}

def Settles (space : Space α) (declared? : Option Nat) (extent : Nat) : Prop :=
  match declared? with
  | some declared => space.layout.top ≤ declared ∧ declared = extent
  | none => space.resizer.extent space.layout.top = .ok extent

theorem settle_eq_ok {declared? : Option Nat} :
    space.settle declared? = .ok next ↔
      ∃ extent, space.Settles declared? extent ∧
        next = { space with layout := { space.layout with extent := some extent } } := by
  cases declared? with
  | some declared =>
      by_cases covers : declared < space.layout.top
      · simp [settle, Settles, bind, Except.bind, covers, Nat.not_le.2 covers]
      · simp [settle, Settles, bind, Except.bind, covers, Nat.not_lt.1 covers, eq_comm]
  | none =>
      cases answered : space.resizer.extent space.layout.top with
      | error error => simp [settle, Settles, bind, Except.bind, answered]
      | ok extent => simp [settle, Settles, bind, Except.bind, answered, eq_comm]

theorem top_le_of_settles {declared? : Option Nat} {extent : Nat}
    (settles : space.Settles declared? extent) : space.layout.top ≤ extent := by
  cases declared? with
  | some declared =>
      obtain ⟨covers, rfl⟩ := settles
      exact covers
  | none => exact Resizer.le_extent settles

end Space

end AddressMap
