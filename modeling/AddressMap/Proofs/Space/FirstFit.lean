import AddressMap.Proofs.Space.Run
import Mathlib.Algebra.Group.Nat.Defs
import Mathlib.Order.Bounds.Basic

/-!
# First fit

The gaps of a layout contain every free range, in address order, and of each gap a placer takes the
least start it may. So the start that is found for a child is the least at which the child fits at
all. The main statement is that in every run that offers no empty child, the pass over the waiting
children is the allocator that gives each child in turn the least start at which it fits, and stops
at the first child that has none.
-/

namespace AddressMap

set_option autoImplicit false

theorem least_power_of_two_max_one (n : Nat) : leastPowerOfTwo (max n 1) = leastPowerOfTwo n := by
  by_cases positive : 1 ≤ n
  · rw [Nat.max_eq_left positive]
  · obtain rfl : n = 0 := by omega
    rfl

theorem least_power_of_two_le_max_power {n : Nat} :
    leastPowerOfTwo n ≤ maxPowerOfTwo ↔ n ≤ maxPowerOfTwo := by
  constructor
  · exact Nat.le_trans (le_least_power_of_two n)
  · exact least_power_of_two_le ⟨63, by decide⟩

theorem dvd_round_up (n unit : Nat) : unit ∣ roundUp n unit :=
  Nat.dvd_mul_left _ _

/-- The answer is the least good number, and without an answer no number is good. -/
def IsLeastAnswer (good : Nat → Prop) : Option Nat → Prop
  | some least => IsLeast {number | good number} least
  | none => ∀ number, ¬ good number

theorem is_least_answer_congr {good other : Nat → Prop} {answer? : Option Nat}
    (same : ∀ number, good number ↔ other number) :
    IsLeastAnswer good answer? ↔ IsLeastAnswer other answer? := by
  rw [funext fun number => propext (same number)]

namespace Placer

variable {placer : Placer} {size : Nat} {gap : Gap}

/-- The starts that a placer may give a child of this size. -/
def Admits (placer : Placer) (size start : Nat) : Prop :=
  match placer with
  | manual => False
  | linear => True
  | aligned => leastPowerOfTwo size ∣ start

/-- The placer has no start for a child of this size. The manual one has none for any child, and the
aligned one none where the alignment would be no address. -/
def Refuses (placer : Placer) (size : Nat) : Prop :=
  match placer with
  | manual => True
  | linear => False
  | aligned => maxPowerOfTwo < size

theorem choose_of_refuses (refuses : placer.Refuses size) (gap : Gap) :
    ∃ error, placer.choose size gap = .error error := by
  cases placer with
  | manual => exact ⟨_, rfl⟩
  | linear => exact refuses.elim
  | aligned =>
      have unaligned : alignment? size = none := by
        have large : ¬ leastPowerOfTwo size ≤ maxPowerOfTwo :=
          fun small => Nat.not_le.2 refuses (least_power_of_two_le_max_power.1 small)
        simp only [alignment?, least_power_of_two_max_one, if_neg large]
      exact ⟨_, by simp only [choose, unaligned]; rfl⟩

/-- In a gap a placer takes the least start it may. -/
theorem choose_is_least (proper : gap.start ≤ gap.stop) (accepts : ¬ placer.Refuses size) :
    ∃ answer?, placer.choose size gap = .ok answer? ∧
      IsLeastAnswer (fun start =>
        placer.Admits size start ∧ gap.start ≤ start ∧ start + size ≤ gap.stop) answer? := by
  cases placer with
  | manual => exact absurd trivial accepts
  | linear =>
      refine ⟨_, rfl, ?_⟩
      unfold Gap.length
      split
      next room =>
        refine ⟨⟨trivial, Nat.le_refl _, by omega⟩, ?_⟩
        rintro other ⟨-, above, -⟩
        exact above
      next full =>
        rintro start ⟨-, above, below⟩
        omega
  | aligned =>
      have aligned : alignment? size = some (leastPowerOfTwo size) := by
        have small := least_power_of_two_le_max_power.2 (Nat.not_lt.1 accepts)
        simp only [alignment?, least_power_of_two_max_one, if_pos small]
      have positive := least_power_of_two_pos size
      -- No multiple of the alignment lies between the gap's start and the rounded start.
      have least : ∀ other, leastPowerOfTwo size ∣ other → gap.start ≤ other →
          roundUp gap.start (leastPowerOfTwo size) ≤ other := by
        rintro _ ⟨multiple, rfl⟩ above
        rw [Nat.mul_comm] at above ⊢
        exact round_up_le above
      simp only [choose, aligned]
      refine ⟨_, rfl, ?_⟩
      split
      next room =>
        refine ⟨⟨dvd_round_up _ _, le_round_up _ positive, room⟩, ?_⟩
        rintro other ⟨divides, above, -⟩
        exact least other divides above
      next full =>
        rintro start ⟨divides, above, below⟩
        have rounded := least start divides above
        omega

end Placer

namespace Layout

variable {α : Type} {layout : Layout α} {items : List (Placed α)} {cursor : Nat}

/-- Every child lies on one side of the range. A child that occupies nothing also has to: none
stands strictly inside. -/
def Clear (layout : Layout α) (start stop : Nat) : Prop :=
  ∀ placed ∈ layout.items, placed.stop ≤ start ∨ stop ≤ placed.start

theorem exists_gap_of_clear {start stop : Nat} (behind : cursor ≤ start) (range : start < stop)
    (bounded : stop ≤ maxAddress)
    (clear : ∀ placed ∈ items, placed.stop ≤ start ∨ stop ≤ placed.start) :
    ∃ gap ∈ freeGapsFrom cursor items, gap.start ≤ start ∧ stop ≤ gap.stop := by
  induction items generalizing cursor with
  | nil => exact ⟨_, List.mem_singleton_self _, behind, bounded⟩
  | cons head rest ih =>
      simp only [freeGapsFrom]
      rcases clear head List.mem_cons_self with below | above
      · have cursorBehind : max cursor head.stop ≤ start := by omega
        obtain ⟨gap, member, inside⟩ :=
          ih cursorBehind fun placed later => clear placed (List.mem_cons_of_mem head later)
        refine ⟨gap, ?_, inside⟩
        split
        · exact List.mem_cons_of_mem _ member
        · exact member
      · have room : cursor < head.start := by omega
        rw [if_pos room]
        exact ⟨_, List.mem_cons_self, behind, above⟩

theorem free_gaps_from_ascending (ordered : InOrder items) (cursor : Nat) :
    (freeGapsFrom cursor items).Pairwise fun left right => left.stop ≤ right.start := by
  induction items generalizing cursor with
  | nil => exact List.pairwise_singleton _ _
  | cons head rest ih =>
      obtain ⟨-, restOrdered⟩ := List.pairwise_cons.1 ordered
      have later := ih restOrdered (max cursor head.stop)
      simp only [freeGapsFrom]
      split
      · refine List.pairwise_cons.2 ⟨fun gap member => ?_, later⟩
        obtain ⟨behind, -⟩ := free_gaps_from_apart restOrdered member
        simp only [Placed.stop] at behind ⊢
        omega
      · exact later

theorem free_gaps_proper (valid : layout.Valid) {gap : Gap} (member : gap ∈ layout.freeGaps) :
    gap.start ≤ gap.stop :=
  (free_gaps_from_bounded (Nat.zero_le _) valid.bounded member).1

/-- A range of at least one address is clear just when it lies in a gap. -/
theorem clear_iff_in_gap (valid : layout.Valid) {start stop : Nat} (range : start < stop) :
    stop ≤ maxAddress ∧ layout.Clear start stop ↔
      ∃ gap ∈ layout.freeGaps, gap.start ≤ start ∧ stop ≤ gap.stop := by
  constructor
  · rintro ⟨bounded, clear⟩
    exact exists_gap_of_clear (Nat.zero_le _) range bounded clear
  · rintro ⟨gap, member, below, above⟩
    have bounded := (free_gaps_from_bounded (Nat.zero_le _) valid.bounded member).2
    obtain ⟨-, apart⟩ := free_gaps_from_apart valid.ordered member
    refine ⟨Nat.le_trans above bounded, fun placed present => ?_⟩
    have side := apart placed present
    omega

section FirstFit

variable {placer : Placer} {size : Nat}

theorem first_fit_of_refuses (refuses : placer.Refuses size) {gaps : List Gap}
    (some : gaps ≠ []) : ∃ error, firstFit placer size gaps = .error error := by
  cases gaps with
  | nil => exact absurd rfl some
  | cons gap rest =>
      obtain ⟨error, chosen⟩ := Placer.choose_of_refuses refuses gap
      exact ⟨error, by simp only [firstFit, chosen, bind, Except.bind]⟩

/-- Of gaps in address order the first with an answer has the least. -/
theorem first_fit_is_least (positive : 0 < size) (accepts : ¬ placer.Refuses size)
    {gaps : List Gap} (proper : ∀ gap ∈ gaps, gap.start ≤ gap.stop)
    (ascending : gaps.Pairwise fun left right => left.stop ≤ right.start) :
    ∃ answer?, firstFit placer size gaps = .ok answer? ∧
      IsLeastAnswer (fun start => placer.Admits size start ∧
        ∃ gap ∈ gaps, gap.start ≤ start ∧ start + size ≤ gap.stop) answer? := by
  induction gaps with
  | nil =>
      refine ⟨none, rfl, ?_⟩
      rintro start ⟨-, gap, absent, -⟩
      exact absurd absent List.not_mem_nil
  | cons gap rest ih =>
      obtain ⟨above, restAscending⟩ := List.pairwise_cons.1 ascending
      obtain ⟨first?, chosen, first⟩ :=
        Placer.choose_is_least (proper gap List.mem_cons_self) accepts
      cases first? with
      | some least =>
          refine ⟨some least, by simp only [firstFit, chosen, bind, Except.bind], ?_⟩
          obtain ⟨⟨admits, inside⟩, least⟩ := first
          refine ⟨⟨admits, gap, List.mem_cons_self, inside⟩, ?_⟩
          rintro other ⟨otherAdmits, place, member, otherInside⟩
          rcases List.mem_cons.1 member with rfl | later
          · exact least ⟨otherAdmits, otherInside⟩
          · have behind := above place later
            omega
      | none =>
          obtain ⟨answer?, found, least⟩ :=
            ih (fun other later => proper other (List.mem_cons_of_mem gap later)) restAscending
          refine ⟨answer?, by simp only [firstFit, chosen, bind, Except.bind, found], ?_⟩
          refine (is_least_answer_congr fun start => ?_).1 least
          constructor
          · rintro ⟨admits, place, member, inside⟩
            exact ⟨admits, place, List.mem_cons_of_mem gap member, inside⟩
          · rintro ⟨admits, place, member, inside⟩
            rcases List.mem_cons.1 member with rfl | later
            · exact absurd ⟨admits, inside⟩ (first start)
            · exact ⟨admits, place, later, inside⟩

end FirstFit

theorem free_gaps_from_ne_nil (cursor : Nat) (items : List (Placed α)) :
    freeGapsFrom cursor items ≠ [] := by
  induction items generalizing cursor with
  | nil => exact List.cons_ne_nil _ _
  | cons head rest ih =>
      simp only [freeGapsFrom]
      split
      · exact List.cons_ne_nil _ _
      · exact ih _

/-- The child fits at this start: its placer may give it, the child ends at an address, and it
shares none with a child in place. -/
structure FitsAt (layout : Layout α) (child : Pending α) (start : Nat) : Prop where
  admits : child.placer.Admits child.size start
  bounded : start + child.size ≤ maxAddress
  free : ∀ placed ∈ layout.items, Placed.Apart ⟨child.item, start, child.size⟩ placed

section Fit

variable {child : Pending α} {start : Nat}

theorem fits_at_of_clear (admits : child.placer.Admits child.size start)
    (bounded : start + child.size ≤ maxAddress)
    (clear : layout.Clear start (start + child.size)) : layout.FitsAt child start := by
  refine ⟨admits, bounded, fun placed member => ?_⟩
  have side := clear placed member
  simp only [Placed.Apart, Placed.stop] at side ⊢
  omega

theorem fit_is_least_clear (valid : layout.Valid) (positive : 0 < child.size)
    (accepts : ¬ child.placer.Refuses child.size) :
    (∃ start, IsLeast {start | layout.FitsAt child start ∧
          layout.Clear start (start + child.size)} start ∧
        layout.fit child.item child.size child.placer =
          .ok (layout.insert ⟨child.item, start, child.size⟩)) ∨
      (∀ start, layout.FitsAt child start → ¬ layout.Clear start (start + child.size)) ∧
        ∃ error, layout.fit child.item child.size child.placer = .error error := by
  have ascending : layout.freeGaps.Pairwise fun left right => left.stop ≤ right.start :=
    free_gaps_from_ascending valid.ordered 0
  obtain ⟨start?, found, answer⟩ :=
    first_fit_is_least positive accepts (fun _ member => free_gaps_proper valid member) ascending
  have inGap (start : Nat) : layout.FitsAt child start ∧ layout.Clear start (start + child.size) ↔
      child.placer.Admits child.size start ∧
        ∃ gap ∈ layout.freeGaps, gap.start ≤ start ∧ start + child.size ≤ gap.stop := by
    rw [← clear_iff_in_gap valid (Nat.lt_add_of_pos_right positive)]
    constructor
    · rintro ⟨fits, clear⟩
      exact ⟨fits.admits, fits.bounded, clear⟩
    · rintro ⟨admits, bounded, clear⟩
      exact ⟨fits_at_of_clear admits bounded clear, clear⟩
  have least := (is_least_answer_congr inGap).2 answer
  cases start? with
  | some start => exact .inl ⟨start, least, by simp only [fit, found, bind, Except.bind]⟩
  | none =>
      exact .inr ⟨fun start fits clear => least start ⟨fits, clear⟩, _,
        by simp only [fit, found, bind, Except.bind]; rfl⟩

/-- Where no empty child stands inside a range that would fit, a child that occupies something goes
to the least start at which it fits. -/
theorem fit_is_least (valid : layout.Valid) (positive : 0 < child.size)
    (accepts : ¬ child.placer.Refuses child.size)
    (clear : ∀ start, layout.FitsAt child start → layout.Clear start (start + child.size)) :
    (∃ start, IsLeast {start | layout.FitsAt child start} start ∧
        layout.fit child.item child.size child.placer =
          .ok (layout.insert ⟨child.item, start, child.size⟩)) ∨
      (∀ start, ¬ layout.FitsAt child start) ∧
        ∃ error, layout.fit child.item child.size child.placer = .error error := by
  rcases fit_is_least_clear valid positive accepts with ⟨start, least, fitted⟩ | ⟨nowhere, failed⟩
  · refine .inl ⟨start, ⟨least.1.1, fun other fits => ?_⟩, fitted⟩
    exact least.2 ⟨fits, clear other fits⟩
  · exact .inr ⟨fun other fits => nowhere other fits (clear other fits), failed⟩

theorem fit_eq_of_is_least (valid : layout.Valid) (positive : 0 < child.size)
    (accepts : ¬ child.placer.Refuses child.size)
    (clear : ∀ start, layout.FitsAt child start → layout.Clear start (start + child.size))
    (least : IsLeast {start | layout.FitsAt child start} start) :
    layout.fit child.item child.size child.placer =
      .ok (layout.insert ⟨child.item, start, child.size⟩) := by
  rcases fit_is_least valid positive accepts clear with ⟨other, otherLeast, fitted⟩ | ⟨nowhere, -⟩
  · obtain rfl := least.unique otherLeast
    exact fitted
  · exact absurd least.1 (nowhere start)

theorem clear_of_none_empty (occupied : ∀ placed ∈ layout.items, 0 < placed.size)
    (positive : 0 < child.size) (fits : layout.FitsAt child start) :
    layout.Clear start (start + child.size) := by
  intro placed member
  have some := occupied placed member
  have apart := fits.free placed member
  simp only [Placed.Apart, Placed.stop] at apart ⊢
  omega

theorem fit_of_refuses (refuses : child.placer.Refuses child.size) :
    ∃ error, layout.fit child.item child.size child.placer = .error error := by
  obtain ⟨error, failed⟩ := first_fit_of_refuses refuses (free_gaps_from_ne_nil 0 layout.items)
  exact ⟨error, by simp only [fit, freeGaps, failed, bind, Except.bind]⟩

end Fit

/-- First fit, as it is meant: children in turn take the least start at which they fit among those
in place, up to one that its placer refuses or that fits nowhere. -/
inductive Allocates : Layout α → List (Pending α) → Layout α → Option (Pending α) → Prop where
  | all (layout : Layout α) : Allocates layout [] layout none
  | next {layout last : Layout α} {child : Pending α} {rest : List (Pending α)}
      {failed? : Option (Pending α)} {start : Nat}
      (accepts : ¬ child.placer.Refuses child.size)
      (least : IsLeast {start | layout.FitsAt child start} start)
      (others : Allocates (layout.insert ⟨child.item, start, child.size⟩) rest last failed?) :
      Allocates layout (child :: rest) last failed?
  | stuck {layout : Layout α} {child : Pending α} (rest : List (Pending α))
      (nowhere : child.placer.Refuses child.size ∨ ∀ start, ¬ layout.FitsAt child start) :
      Allocates layout (child :: rest) layout (some child)

/-- There is no choice in first fit. -/
theorem allocates_unique {pending : List (Pending α)} {first second : Layout α}
    {firstFailed? secondFailed? : Option (Pending α)}
    (left : Allocates layout pending first firstFailed?)
    (right : Allocates layout pending second secondFailed?) :
    first = second ∧ firstFailed? = secondFailed? := by
  induction left with
  | all layout =>
      cases right
      exact ⟨rfl, rfl⟩
  | next accepts least others ih =>
      cases right with
      | next otherAccepts otherLeast otherOthers =>
          obtain rfl := least.unique otherLeast
          exact ih otherOthers
      | stuck rest nowhere =>
          rcases nowhere with refuses | nowhere
          · exact absurd refuses accepts
          · exact absurd least.1 (nowhere _)
  | stuck rest nowhere =>
      cases right with
      | next otherAccepts otherLeast otherOthers =>
          rcases nowhere with refuses | nowhere
          · exact absurd refuses otherAccepts
          · exact absurd otherLeast.1 (nowhere _)
      | stuck => exact ⟨rfl, rfl⟩

theorem fit_all_allocates (valid : layout.Valid)
    (occupied : ∀ placed ∈ layout.items, 0 < placed.size) {pending : List (Pending α)}
    (waiting : ∀ child ∈ pending, 0 < child.size) :
    Allocates layout pending (layout.fitAll pending).1
      ((layout.fitAll pending).2.map Unplaced.child) := by
  induction pending generalizing layout with
  | nil => exact .all layout
  | cons child rest ih =>
      obtain ⟨positive, restPositive⟩ := List.forall_mem_cons.1 waiting
      unfold fitAll
      by_cases refuses : child.placer.Refuses child.size
      · obtain ⟨error, failed⟩ : ∃ error, layout.fit _ _ _ = .error error :=
          fit_of_refuses refuses
        rw [failed]
        exact .stuck rest (.inl refuses)
      · have clear (start : Nat) (fits : layout.FitsAt child start) :=
          clear_of_none_empty occupied positive fits
        rcases fit_is_least valid positive refuses clear with
          ⟨start, least, fitted⟩ | ⟨nowhere, error, failed⟩
        · rw [fitted]
          have inserted : (layout.insert ⟨child.item, start, child.size⟩).Valid :=
            valid_insert valid least.1.bounded least.1.free
          refine .next refuses least (ih inserted ?_ restPositive)
          intro placed member
          rcases mem_insert_by_start.1 member with rfl | old
          · exact positive
          · exact occupied placed old
        · rw [failed]
          exact .stuck rest (.inr nowhere)

end Layout

namespace Operation

variable {α : Type}

def OffersNoEmpty : Operation α → Prop
  | .offer _ _ size | .offerWith _ _ _ size => 0 < size
  | _ => True

instance : DecidablePred (@OffersNoEmpty α)
  | .offer _ _ size | .offerWith _ _ _ size => inferInstanceAs (Decidable (0 < size))
  | .placePending | .settle _ | .rewrite _ => inferInstanceAs (Decidable True)

theorem positive_of_adds {operation : Operation α} {pending : List (Pending α)}
    {failure? : Option SpaceError} {added : List (Placed α)} (offers : operation.OffersNoEmpty)
    (waiting : ∀ child ∈ pending, 0 < child.size) (adds : operation.Adds pending failure? added) :
    ∀ placed ∈ added, 0 < placed.size := by
  have stated (item : α) (start? : Option Nat) {size : Nat} (positive : 0 < size)
      (given : added = if failure?.isSome then [] else stated item start? size) :
      ∀ placed ∈ added, 0 < placed.size := by
    intro placed member
    rw [given] at member
    split at member
    · exact absurd member List.not_mem_nil
    · obtain ⟨start, -, rfl⟩ := List.mem_map.1 member
      exact positive
  cases operation with
  | offer item start? size => exact stated item start? offers adds
  | offerWith placer item start? size => exact stated item start? offers adds
  | placePending =>
      intro placed member
      obtain ⟨child, taken, -, size⟩ := exists_related_of_mem adds.1 member
      rw [size]
      exact waiting child (List.mem_of_mem_take taken)
  | settle declared? =>
      rw [show added = [] from adds]
      exact nofun
  | rewrite f =>
      rw [show added = [] from adds]
      exact nofun

end Operation

namespace Space

variable {α : Type} {space : Space α}

/-- Every child in place or waiting occupies something. -/
structure NoneEmpty (space : Space α) : Prop where
  placed : ∀ placed ∈ space.layout.items, 0 < placed.size
  waiting : ∀ child ∈ space.pending, 0 < child.size

theorem waiting_positive_of_step {operation : Operation α} {after : Space α}
    {failure? : Option SpaceError} {added : List (Placed α)}
    (step : Step space operation after failure? added) (pass : operation ≠ .placePending)
    (full : space.NoneEmpty) (offers : operation.OffersNoEmpty) :
    ∀ child ∈ after.pending, 0 < child.size := by
  have behind (item : α) {size : Nat} (placer : Placer) (positive : 0 < size) :
      ∀ child ∈ space.pending ++ [⟨item, size, placer⟩], 0 < child.size :=
    List.forall_mem_append.2 ⟨full.waiting, List.forall_mem_singleton.2 positive⟩
  cases failure? with
  | some error =>
      rw [step.refused (Option.some_ne_none error) pass]
      exact full.waiting
  | none =>
      rw [step.waiting rfl]
      cases operation with
      | offer item start? size =>
          cases start? with
          | none => exact behind item space.placer offers
          | some start => exact full.waiting
      | offerWith placer item start? size =>
          cases start? with
          | none => exact behind item placer offers
          | some start => exact full.waiting
      | placePending => exact absurd rfl pass
      | settle declared? => exact full.waiting
      | rewrite f => exact full.waiting

theorem none_empty_of_perform (valid : space.layout.Valid) (full : space.NoneEmpty)
    {operation : Operation α} (offers : operation.OffersNoEmpty) :
    (space.perform operation).1.NoneEmpty := by
  obtain ⟨added, step⟩ := perform_step valid operation
  constructor
  · intro placed member
    rcases List.mem_append.1 (step.perm.mem_iff.1 member) with old | new
    · obtain ⟨before, present, rfl⟩ := List.mem_map.1 old
      rw [Operation.size_rewriting]
      exact full.placed before present
    · exact Operation.positive_of_adds offers full.waiting step.adds placed new
  · cases operation with
    | placePending => exact nofun
    | offer => exact waiting_positive_of_step step nofun full offers
    | offerWith => exact waiting_positive_of_step step nofun full offers
    | settle => exact waiting_positive_of_step step nofun full offers
    | rewrite => exact waiting_positive_of_step step nofun full offers

theorem none_empty_of_run (valid : space.layout.Valid) (full : space.NoneEmpty)
    {operations : List (Operation α)}
    (offers : ∀ operation ∈ operations, operation.OffersNoEmpty) :
    (space.run operations).NoneEmpty := by
  induction operations generalizing space with
  | nil => exact full
  | cons operation rest ih =>
      obtain ⟨first, others⟩ := List.forall_mem_cons.1 offers
      obtain ⟨added, step⟩ := perform_step valid operation
      exact ih step.valid (none_empty_of_perform valid full first) others

/-- Behind every run that offers no empty child, the pass over the waiting children is first fit:
each takes the least start at which it fits among those in place, in the order in which they were
offered. The pass fails just where first fit is stuck, with the children before that one placed. -/
theorem pass_is_first_fit (placer : Placer) (resizer : Resizer) (operations : List (Operation α))
    (offers : ∀ operation ∈ operations, operation.OffersNoEmpty) (last : Layout α)
    (failed? : Option (Pending α)) :
    let space := Space.run { placer, resizer } operations
    Layout.Allocates space.layout space.pending last failed? ↔
      space.placePending.1.layout = last ∧ space.placePending.2.map Unplaced.child = failed? := by
  intro space
  have fresh : (⟨placer, resizer, {}, []⟩ : Space α).layout.Valid := Layout.valid_of_no_items rfl
  have full : space.NoneEmpty := none_empty_of_run fresh ⟨nofun, nofun⟩ offers
  have pass : Layout.Allocates space.layout space.pending space.placePending.1.layout
      (space.placePending.2.map Unplaced.child) :=
    Layout.fit_all_allocates (run_valid fresh operations) full.placed full.waiting
  constructor
  · intro allocates
    exact Layout.allocates_unique pass allocates
  · rintro ⟨rfl, rfl⟩
    exact pass

/-- Of the children that wait, the first goes below the fixed one, the second to the next multiple
of four above it, and the third finds no multiple of its length free. -/
theorem pass_of_sample_is_first_fit :
    let space := Space.run { placer := .linear, resizer := .linear }
      [.offer "a" (some 3) 4, .offer "b" none 2, .offerWith .aligned "c" none 3,
        .offerWith .aligned "d" none (2 ^ 63), .offerWith .aligned "e" none (2 ^ 63)]
    Layout.Allocates space.layout space.pending
      { items := [⟨"b", 0, 2⟩, ⟨"a", 3, 4⟩, ⟨"c", 8, 3⟩] } (some ⟨"d", 2 ^ 63, .aligned⟩) := by
  refine (pass_is_first_fit .linear .linear _ ?_ _ _).2 ?_
  · decide
  · decide

end Space

end AddressMap
