import AddressMap.Proofs.Space.Run
import AddressMap.Space.Slot
import Mathlib.Algebra.Ring.Nat

/-!
# Slots and gaps

The slots of a layout tile the addresses from zero to its size: a gap or a child that occupies
something starts where the one before it stops, and the empty children lie in between. So each
address is in a gap or belongs to one child. The main statement is that this holds of the layout
behind every run in which no child was placed after the extent was settled.
-/

namespace AddressMap

set_option autoImplicit false

namespace Placed

variable {α : Type} {placed : Placed α} {address : Nat}

theorem occupies_iff :
    placed.occupies address ↔ placed.start ≤ address ∧ address < placed.stop := by
  simp [occupies]

theorem apart_iff_no_common_address {other : Placed α} :
    placed.Apart other ↔ ∀ address, ¬ (placed.occupies address ∧ other.occupies address) := by
  simp only [occupies_iff, Apart]
  constructor
  · intro apart address common
    unfold stop at apart common
    omega
  · intro none
    have first := none placed.start
    have second := none other.start
    unfold stop at *
    omega

end Placed

namespace Gap

def Contains (gap : Gap) (address : Nat) : Prop :=
  gap.start ≤ address ∧ address < gap.stop

end Gap

namespace Slot

variable {α : Type}

def item? : Slot α → Option (Placed α)
  | item placed => some placed
  | gap _ => none

end Slot

namespace Layout

variable {α : Type} {layout : Layout α}

/-- Slots that tile the addresses from the cursor to the last one: each that is not empty starts
where the one before it stops. Empty children do not move the cursor. -/
inductive Tiles (last : Nat) : Nat → List (Slot α) → Prop where
  | done : Tiles last last []
  | gap {cursor stop : Nat} {rest : List (Slot α)} (proper : cursor < stop)
      (above : Tiles last stop rest) : Tiles last cursor (.gap ⟨cursor, stop⟩ :: rest)
  | item {placed : Placed α} {rest : List (Slot α)} (occupied : 0 < placed.size)
      (above : Tiles last placed.stop rest) : Tiles last placed.start (.item placed :: rest)
  | empty {placed : Placed α} {cursor : Nat} {rest : List (Slot α)} (empty : placed.size = 0)
      (above : Tiles last cursor rest) : Tiles last cursor (.item placed :: rest)

namespace Tiles

variable {last cursor : Nat} {slots : List (Slot α)}

theorem le (tiles : Tiles last cursor slots) : cursor ≤ last := by
  induction tiles with
  | done => exact Nat.le_refl _
  | gap proper _ ih => omega
  | item occupied _ ih =>
      unfold Placed.stop at ih
      omega
  | empty _ _ ih => exact ih

theorem gap_within (tiles : Tiles last cursor slots) {gap : Gap}
    (member : gap ∈ slots.filterMap Slot.gap?) :
    cursor ≤ gap.start ∧ gap.start < gap.stop ∧ gap.stop ≤ last := by
  induction tiles with
  | done => contradiction
  | gap proper above ih =>
      rcases List.mem_cons.1 member with rfl | later
      · exact ⟨Nat.le_refl _, proper, above.le⟩
      · obtain ⟨behind, inside⟩ := ih later
        exact ⟨by omega, inside⟩
  | item _ _ ih =>
      obtain ⟨behind, inside⟩ := ih member
      unfold Placed.stop at behind
      exact ⟨by omega, inside⟩
  | empty _ _ ih => exact ih member

theorem item_within (tiles : Tiles last cursor slots) {placed : Placed α}
    (member : placed ∈ slots.filterMap Slot.item?) (occupied : 0 < placed.size) :
    cursor ≤ placed.start ∧ placed.stop ≤ last := by
  induction tiles with
  | done => contradiction
  | gap proper _ ih =>
      obtain ⟨behind, inside⟩ := ih member
      exact ⟨by omega, inside⟩
  | item _ above ih =>
      rcases List.mem_cons.1 member with rfl | later
      · exact ⟨Nat.le_refl _, above.le⟩
      · obtain ⟨behind, inside⟩ := ih later
        unfold Placed.stop at behind
        exact ⟨by omega, inside⟩
  | empty nothing _ ih =>
      rcases List.mem_cons.1 member with rfl | later
      · omega
      · exact ih later

theorem gaps_ascend (tiles : Tiles last cursor slots) :
    (slots.filterMap Slot.gap?).Pairwise fun lower upper => lower.stop ≤ upper.start := by
  induction tiles with
  | done => exact .nil
  | gap _ above ih => exact List.pairwise_cons.2 ⟨fun _ later => (above.gap_within later).1, ih⟩
  | item _ _ ih => exact ih
  | empty _ _ ih => exact ih

/-- No child occupies an address of a gap. -/
theorem gap_vacant (tiles : Tiles last cursor slots) {gap : Gap}
    (member : gap ∈ slots.filterMap Slot.gap?) {address : Nat} (contains : gap.Contains address)
    {placed : Placed α} (present : placed ∈ slots.filterMap Slot.item?) :
    ¬ placed.occupies address := by
  intro occupies
  rw [Placed.occupies_iff] at occupies
  obtain ⟨lower, upper⟩ := contains
  have occupied : 0 < placed.size := by
    unfold Placed.stop at occupies
    omega
  induction tiles with
  | done => contradiction
  | gap _ above ih =>
      rcases List.mem_cons.1 member with rfl | later
      · have behind := (above.item_within present occupied).1
        dsimp only at upper
        omega
      · exact ih later present
  | item _ above ih =>
      rcases List.mem_cons.1 present with rfl | later
      · have behind := (above.gap_within member).1
        omega
      · exact ih member later
  | empty nothing _ ih =>
      rcases List.mem_cons.1 present with rfl | later
      · omega
      · exact ih member later

/-- Every address is in a gap, or a child occupies it. -/
theorem covers (tiles : Tiles last cursor slots) {address : Nat} (above : cursor ≤ address)
    (below : address < last) :
    (∃ gap ∈ slots.filterMap Slot.gap?, gap.Contains address) ∨
      ∃ placed ∈ slots.filterMap Slot.item?, placed.occupies address := by
  induction tiles with
  | done => omega
  | @gap cursor stop rest proper _ ih =>
      by_cases within : address < stop
      · exact .inl ⟨⟨cursor, stop⟩, List.mem_cons_self, above, within⟩
      · rcases ih (by omega) with ⟨gap, member, contains⟩ | occupied
        · exact .inl ⟨gap, List.mem_cons_of_mem _ member, contains⟩
        · exact .inr occupied
  | @item placed rest occupied _ ih =>
      by_cases within : address < placed.stop
      · exact .inr ⟨placed, List.mem_cons_self, Placed.occupies_iff.2 ⟨above, within⟩⟩
      · rcases ih (by omega) with gap | ⟨other, member, occupies⟩
        · exact .inl gap
        · exact .inr ⟨other, List.mem_cons_of_mem _ member, occupies⟩
  | empty _ _ ih =>
      rcases ih above with gap | ⟨other, member, occupies⟩
      · exact .inl gap
      · exact .inr ⟨other, List.mem_cons_of_mem _ member, occupies⟩

/-- What the children take and what the gaps leave are together the whole range. -/
theorem total (tiles : Tiles last cursor slots) :
    cursor + (((slots.filterMap Slot.item?).map Placed.size).sum +
      ((slots.filterMap Slot.gap?).map Gap.length).sum) = last := by
  induction tiles with
  | done => rfl
  | gap proper _ ih =>
      simp only [List.filterMap_cons, Slot.item?, Slot.gap?, List.map_cons, List.sum_cons,
        Gap.length]
      omega
  | item occupied _ ih =>
      simp only [List.filterMap_cons, Slot.item?, Slot.gap?, List.map_cons, List.sum_cons]
      unfold Placed.stop at ih
      omega
  | empty nothing _ ih =>
      simp only [List.filterMap_cons, Slot.item?, Slot.gap?, List.map_cons, List.sum_cons, nothing]
      omega

theorem cons_item {placed : Placed α} (reached : placed.start ≤ cursor)
    (joins : 0 < placed.size → cursor = placed.start)
    (above : Tiles last (max cursor placed.stop) slots) :
    Tiles last cursor (.item placed :: slots) := by
  by_cases occupied : 0 < placed.size
  · have start := joins occupied
    have stop : max cursor placed.stop = placed.stop := by
      unfold Placed.stop
      omega
    rw [stop] at above
    rw [start]
    exact .item occupied above
  · have nothing : placed.size = 0 := by omega
    have unmoved : max cursor placed.stop = cursor := by
      unfold Placed.stop
      omega
    rw [unmoved] at above
    exact .empty nothing above

end Tiles

structure Ahead (last cursor : Nat) (items : List (Placed α)) : Prop where
  ordered : InOrder items
  apart : items.Pairwise Placed.Apart
  clear : ∀ placed ∈ items, 0 < placed.size → cursor ≤ placed.start
  within : ∀ placed ∈ items, placed.stop ≤ last

namespace Ahead

variable {last cursor : Nat} {head : Placed α} {rest : List (Placed α)}

theorem tail (ahead : Ahead last cursor (head :: rest)) :
    Ahead last (max cursor head.stop) rest := by
  obtain ⟨below, ordered⟩ := List.pairwise_cons.1 ahead.ordered
  obtain ⟨free, apart⟩ := List.pairwise_cons.1 ahead.apart
  constructor
  · exact ordered
  · exact apart
  · intro placed member occupied
    have start := ahead.clear placed (List.mem_cons_of_mem head member) occupied
    have behind := below placed member
    have disjoint := free placed member
    unfold Placed.Apart Placed.stop at disjoint
    unfold Placed.stop
    omega
  · intro placed member
    exact ahead.within placed (List.mem_cons_of_mem head member)

theorem tiles {items : List (Placed α)} (ahead : Ahead last cursor items)
    (reached : cursor ≤ last) : Tiles last cursor (slotsFrom last cursor items) := by
  induction items generalizing cursor with
  | nil =>
      unfold slotsFrom
      split
      next room => exact .gap room .done
      next none =>
        obtain rfl : cursor = last := by omega
        exact .done
  | cons head rest ih =>
      have within := ahead.within head List.mem_cons_self
      have above := ih ahead.tail (by omega)
      simp only [slotsFrom]
      split
      next room =>
        have same : max cursor head.stop = max head.start head.stop := by
          unfold Placed.stop
          omega
        rw [same] at above ⊢
        exact .gap room (.cons_item (Nat.le_refl _) (fun _ => rfl) above)
      next closed =>
        refine .cons_item (Nat.not_lt.1 closed) (fun occupied => ?_) above
        have start := ahead.clear head List.mem_cons_self occupied
        omega

end Ahead

theorem items_of_slots_from (last cursor : Nat) (items : List (Placed α)) :
    (slotsFrom last cursor items).filterMap Slot.item? = items := by
  induction items generalizing cursor with
  | nil =>
      unfold slotsFrom
      split <;> rfl
  | cons head rest ih =>
      simp only [slotsFrom]
      split
      next => simp only [List.filterMap_cons, Slot.item?, ih]
      next => simp only [List.filterMap_cons, Slot.item?, ih]

theorem start_of_mem_slots_from {last cursor : Nat} {items : List (Placed α)} {slot : Slot α}
    (member : slot ∈ slotsFrom last cursor items) :
    (∃ placed ∈ items, slot.start = placed.start) ∨ cursor ≤ slot.start := by
  induction items generalizing cursor with
  | nil =>
      unfold slotsFrom at member
      split at member
      · rw [List.mem_singleton.1 member]
        exact .inr (Nat.le_refl _)
      · contradiction
  | cons head rest ih =>
      have item (member : slot ∈ .item head :: slotsFrom last (max cursor head.stop) rest) :
          (∃ placed ∈ head :: rest, slot.start = placed.start) ∨ cursor ≤ slot.start := by
        rcases List.mem_cons.1 member with rfl | later
        · exact .inl ⟨head, List.mem_cons_self, rfl⟩
        · rcases ih later with ⟨placed, present, same⟩ | behind
          · exact .inl ⟨placed, List.mem_cons_of_mem head present, same⟩
          · exact .inr (by omega)
      simp only [slotsFrom] at member
      split at member
      next room =>
        rcases List.mem_cons.1 member with rfl | later
        · exact .inr (Nat.le_refl _)
        · exact item later
      next => exact item member

/-- No slot starts before an earlier one. -/
theorem slots_from_ascend {last cursor : Nat} {items : List (Placed α)} (ordered : InOrder items) :
    (slotsFrom last cursor items).Pairwise fun lower upper => lower.start ≤ upper.start := by
  induction items generalizing cursor with
  | nil =>
      unfold slotsFrom
      split
      · exact List.pairwise_singleton _ _
      · exact .nil
  | cons head rest ih =>
      obtain ⟨below, restOrdered⟩ := List.pairwise_cons.1 ordered
      have behind (slot : Slot α) (member : slot ∈ slotsFrom last (max cursor head.stop) rest) :
          head.start ≤ slot.start := by
        rcases start_of_mem_slots_from member with ⟨placed, present, same⟩ | behind
        · rw [same]
          exact below placed present
        · unfold Placed.stop at behind
          omega
      have item : (.item head :: slotsFrom last (max cursor head.stop) rest).Pairwise
          fun lower upper => lower.start ≤ upper.start :=
        List.pairwise_cons.2 ⟨behind, ih restOrdered⟩
      simp only [slotsFrom]
      split
      next room =>
        refine List.pairwise_cons.2 ⟨fun slot member => ?_, item⟩
        rcases List.mem_cons.1 member with rfl | later
        · exact Nat.le_of_lt room
        · exact Nat.le_trans (Nat.le_of_lt room) (behind slot later)
      next => exact item

theorem occupant?_eq_some (valid : layout.Valid) {address : Nat} {placed : Placed α} :
    layout.occupant? address = some placed ↔
      layout.items.filter (·.occupies address) = [placed] := by
  have single : (layout.items.filter (·.occupies address)).Pairwise fun _ _ => False := by
    apply (valid.apart.filter _).imp_of_mem
    intro one other first second apart
    have occupies := (List.mem_filter.1 first).2
    exact Placed.apart_iff_no_common_address.1 apart address
      ⟨occupies, (List.mem_filter.1 second).2⟩
  rw [occupant?, ← List.head?_filter]
  generalize layout.items.filter (·.occupies address) = occupants at single
  cases occupants with
  | nil => simp
  | cons first others =>
      have alone : others = [] := by
        apply List.eq_nil_iff_forall_not_mem.2
        intro other member
        exact (List.pairwise_cons.1 single).1 other member
      rw [alone]
      simp

theorem occupant?_eq_none {address : Nat} :
    layout.occupant? address = none ↔ ∀ placed ∈ layout.items, ¬ placed.occupies address := by
  rw [occupant?, List.find?_eq_none]

def Covered (layout : Layout α) : Prop :=
  ∀ placed ∈ layout.items, placed.stop ≤ layout.size

theorem covered_of_open (unsettled : layout.extent = none) : layout.Covered := by
  intro placed member
  rw [size, unsettled]
  exact stop_le_top member

/-- The slots of a layout, the gaps among them, and who occupies which address, all describe one
partition of the addresses below the size. -/
structure Partitioned (layout : Layout α) : Prop where
  /-- The children are all among the slots, each once and in their order. -/
  items : layout.slots.filterMap Slot.item? = layout.items
  ordered : layout.slots.Pairwise fun lower upper => lower.start ≤ upper.start
  gaps : ∀ gap ∈ layout.gaps, gap.start < gap.stop ∧ gap.stop ≤ layout.size
  ascending : layout.gaps.Pairwise fun lower upper => lower.stop ≤ upper.start
  vacant : ∀ address, address < layout.size →
    (layout.occupant? address = none ↔ ∃ gap ∈ layout.gaps, gap.Contains address)
  occupied : ∀ address placed, layout.occupant? address = some placed →
    0 < placed.size ∧ layout.items.filter (·.occupies address) = [placed]
  outside : ∀ address, layout.size ≤ address → layout.occupant? address = none
  total : (layout.items.map Placed.size).sum + (layout.gaps.map Gap.length).sum = layout.size
  full : layout.hasGaps = false ↔
    ∀ address, address < layout.size → (layout.occupant? address).isSome

theorem tiles_slots (valid : layout.Valid) (covered : layout.Covered) :
    Tiles layout.size 0 layout.slots := by
  have ahead : Ahead layout.size 0 layout.items :=
    ⟨valid.ordered, valid.apart, fun _ _ _ => Nat.zero_le _, covered⟩
  exact ahead.tiles (Nat.zero_le _)

theorem has_gaps_eq_false : layout.hasGaps = false ↔ layout.gaps = [] := by
  simp [hasGaps]

theorem partitioned_of_valid (valid : layout.Valid) (covered : layout.Covered) :
    layout.Partitioned := by
  have tiles := tiles_slots valid covered
  have items : layout.slots.filterMap Slot.item? = layout.items := items_of_slots_from _ _ _
  have vacant (address : Nat) (below : address < layout.size) :
      layout.occupant? address = none ↔ ∃ gap ∈ layout.gaps, gap.Contains address := by
    rw [occupant?_eq_none]
    constructor
    · intro free
      rcases tiles.covers (Nat.zero_le address) below with gap | ⟨placed, member, occupies⟩
      · exact gap
      · rw [items] at member
        exact absurd occupies (free placed member)
    · intro found placed member
      obtain ⟨gap, present, contains⟩ := found
      rw [← items] at member
      exact tiles.gap_vacant present contains member
  constructor
  case items => exact items
  case ordered => exact slots_from_ascend valid.ordered
  case gaps => exact fun gap member => (tiles.gap_within member).2
  case ascending => exact tiles.gaps_ascend
  case vacant => exact vacant
  case occupied =>
    intro address placed found
    have only := (occupant?_eq_some valid).1 found
    have occupies := List.find?_some found
    rw [Placed.occupies_iff] at occupies
    unfold Placed.stop at occupies
    exact ⟨by omega, only⟩
  case outside =>
    intro address above
    rw [occupant?_eq_none]
    intro placed member occupies
    have stop := covered placed member
    have below := (Placed.occupies_iff.1 occupies).2
    omega
  case total =>
    have total := tiles.total
    rw [items] at total
    unfold gaps
    omega
  case full =>
    rw [has_gaps_eq_false]
    constructor
    · intro gapless address below
      rw [Option.isSome_iff_ne_none]
      intro free
      obtain ⟨gap, member, -⟩ := (vacant address below).1 free
      rw [gapless] at member
      contradiction
    · intro full
      apply List.eq_nil_iff_forall_not_mem.2
      intro gap member
      obtain ⟨-, proper, inside⟩ := tiles.gap_within member
      have below : gap.start < layout.size := by omega
      have free := (vacant gap.start below).2 ⟨gap, member, Nat.le_refl _, proper⟩
      have taken := full gap.start below
      rw [free] at taken
      contradiction

end Layout

namespace Space

variable {α : Type} {space : Space α}

theorem run_append (space : Space α) (earlier later : List (Operation α)) :
    space.run (earlier ++ later) = (space.run earlier).run later := by
  induction earlier generalizing space with
  | nil => rfl
  | cons operation rest ih => exact ih _

theorem extent_of_perform (valid : space.layout.Valid) {operation : Operation α}
    (keeps : ∀ declared?, operation ≠ .settle declared?) :
    (space.perform operation).1.layout.extent = space.layout.extent := by
  have offered (placer : Placer) (item : α) (start? : Option Nat) (size : Nat) :
      (space.answer (space.offerWith placer item start? size)).1.layout.extent =
        space.layout.extent := by
    cases start? with
    | none => rfl
    | some start =>
        cases placed : space.layout.placeAt item start size with
        | error error => simp only [offerWith, placed, bind, Except.bind, answer]
        | ok next =>
            obtain ⟨-, -, rfl⟩ := Layout.place_at_eq_ok.1 placed
            simp only [offerWith, placed, bind, Except.bind, answer]
            rfl
  cases operation with
  | offer item start? size => exact offered space.placer item start? size
  | offerWith placer item start? size => exact offered placer item start? size
  | placePending =>
      obtain ⟨added, filled⟩ := Layout.fit_all_filled valid space.pending
      exact filled.extent
  | settle declared? => exact absurd rfl (keeps declared?)
  | rewrite f => rfl

theorem length_le_run (valid : space.layout.Valid) (operations : List (Operation α)) :
    space.layout.items.length ≤ (space.run operations).layout.items.length := by
  have kept := (run_kept valid operations).length_le
  rwa [List.length_map] at kept

theorem covered_of_settled (valid : space.layout.Valid) {declared? : Option Nat}
    (succeeds : (space.perform (.settle declared?)).2 = none) :
    (space.perform (.settle declared?)).1.layout.Covered := by
  obtain ⟨added, step⟩ := perform_step valid (.settle declared?)
  obtain ⟨extent, settled, within⟩ := step.settled declared? rfl succeeds
  intro placed member
  rw [Layout.size, settled]
  exact within placed member

theorem covered_of_perform (valid : space.layout.Valid) (covered : space.layout.Covered)
    {operation : Operation α}
    (same : (space.perform operation).1.layout.items.length = space.layout.items.length) :
    (space.perform operation).1.layout.Covered := by
  obtain ⟨added, step⟩ := perform_step valid operation
  by_cases settles : ∃ declared?, operation = .settle declared?
  · obtain ⟨declared?, rfl⟩ := settles
    by_cases succeeds : (space.perform (.settle declared?)).2 = none
    · exact covered_of_settled valid succeeds
    · rw [step.refused succeeds nofun]
      exact covered
  · have extent := extent_of_perform valid fun declared? settle => settles ⟨declared?, settle⟩
    have items := step.kept.eq_of_length (by rw [List.length_map, same])
    cases settled : space.layout.extent with
    | none => exact Layout.covered_of_open (extent.trans settled)
    | some last =>
        intro placed member
        rw [← items] at member
        obtain ⟨old, present, rfl⟩ := List.mem_map.1 member
        have within := covered old present
        unfold Layout.size at within ⊢
        rw [settled] at within
        rw [extent, settled, Placed.stop, Operation.start_rewriting, Operation.size_rewriting]
        exact within

theorem covered_of_run (valid : space.layout.Valid) (covered : space.layout.Covered)
    {operations : List (Operation α)}
    (same : (space.run operations).layout.items.length = space.layout.items.length) :
    (space.run operations).layout.Covered := by
  induction operations generalizing space with
  | nil => exact covered
  | cons operation rest ih =>
      obtain ⟨added, step⟩ := perform_step valid operation
      have first := length_le_run valid [operation]
      have later := length_le_run step.valid rest
      simp only [run] at first same
      exact ih step.valid (covered_of_perform valid covered (by omega)) (by omega)

/-- The extent is open behind the operations, or one of them settled it and none after that one has
placed a child. -/
def SettledLast (space : Space α) (operations : List (Operation α)) : Prop :=
  (space.run operations).layout.extent = none ∨
    ∃ earlier declared? later, operations = earlier ++ .settle declared? :: later ∧
      ((space.run earlier).perform (.settle declared?)).2 = none ∧
      (space.run operations).layout.items.length = (space.run earlier).layout.items.length

theorem covered_of_settled_last (valid : space.layout.Valid) {operations : List (Operation α)}
    (settledLast : space.SettledLast operations) : (space.run operations).layout.Covered := by
  rcases settledLast with unsettled | ⟨earlier, declared?, later, rfl, succeeds, same⟩
  · exact Layout.covered_of_open unsettled
  · have before := run_valid valid earlier
    obtain ⟨added, step⟩ := perform_step before (.settle declared?)
    have covered := covered_of_settled before succeeds
    have first := length_le_run before [.settle declared?]
    have second := length_le_run step.valid later
    rw [run_append] at same ⊢
    simp only [run] at first same ⊢
    exact covered_of_run step.valid covered (by omega)

/-- Behind every run from a fresh space in which no child was placed after the extent was settled,
the slots, the gaps and the occupants describe one partition. -/
theorem slots_partition_addresses (placer : Placer) (resizer : Resizer)
    {operations : List (Operation α)}
    (settledLast : SettledLast { placer, resizer } operations) :
    (Space.run { placer, resizer } operations).layout.Partitioned := by
  have fresh : (⟨placer, resizer, {}, []⟩ : Space α).layout.Valid := Layout.valid_of_no_items rfl
  exact Layout.partitioned_of_valid (run_valid fresh operations)
    (covered_of_settled_last fresh settledLast)

def sampleOffers : List (Operation String) :=
  [.offer "a" (some 4) 4, .offer "b" (some 6) 0, .offer "c" none 2]

theorem slots_of_sample_partition_addresses :
    let operations := sampleOffers ++ [.placePending, .settle (some 12), .rewrite (·.item ++ "0"),
      .offer "d" (some 0) 1, .settle (some 3)]
    SettledLast { placer := .aligned, resizer := .linear } operations ∧
      (Space.run { placer := .aligned, resizer := .linear } operations).layout.Partitioned := by
  intro operations
  have settledLast : SettledLast { placer := .aligned, resizer := .linear } operations :=
    .inr ⟨sampleOffers ++ [.placePending], some 12, _, rfl, by decide, by decide⟩
  exact ⟨settledLast, slots_partition_addresses .aligned .linear settledLast⟩

example :
    (Space.run { placer := .linear, resizer := .linear }
        (sampleOffers ++ [.placePending, .settle (some 12)])).layout.slots =
      [.item ⟨"c", 0, 2⟩, .gap ⟨2, 4⟩, .item ⟨"a", 4, 4⟩, .item ⟨"b", 6, 0⟩, .gap ⟨8, 12⟩] := by
  decide

end Space

end AddressMap
