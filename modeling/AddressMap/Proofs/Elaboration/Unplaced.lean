import AddressMap.Proofs.Blameless
import AddressMap.Proofs.Elaboration.Blame

/-!
# Candidates without a place

An arrangement first gives every candidate with an offset its place, and then every other one, both
in the order of the candidates. So it fails at the first whose stated place is no range of addresses
or meets one stated before or, if there is none, at the first without an offset that finds no room.
The main statement is that the error names this candidate, and that without one all candidates are
placed.
-/

namespace AddressMap

set_option autoImplicit false

namespace Layout

variable {α : Type} {layout : Layout α} {child : Pending α}

/-- There is a start that the placer may give to the child, with no child in place inside the range.
Even an empty one is in the way. -/
def HasRoom (layout : Layout α) (child : Pending α) : Prop :=
  ¬ child.placer.Refuses child.size ∧
    ∃ start, layout.FitsAt child start ∧ layout.Clear start (start + child.size)

theorem has_room_of_empty (zero : child.size = 0) (chooses : child.placer ≠ .manual) :
    layout.HasRoom child := by
  refine ⟨?_, 0, ⟨?_, ?_, ?_⟩, ?_⟩
  · rw [zero]
    cases placer : child.placer with
    | manual => exact absurd placer chooses
    | linear => exact id
    | aligned => exact Nat.not_lt_zero _
  · cases placer : child.placer with
    | manual => exact absurd placer chooses
    | linear => trivial
    | aligned => exact Nat.dvd_zero _
  · omega
  · exact fun placed member => .inl zero
  · intro placed member
    omega

/-- A child is placed just when there is room for it. -/
theorem exists_fit_iff (valid : layout.Valid) :
    (∃ next, layout.fit child.item child.size child.placer = .ok next) ↔ layout.HasRoom child := by
  by_cases refuses : child.placer.Refuses child.size
  · obtain ⟨error, failed⟩ := @fit_of_refuses _ layout _ refuses
    simp [failed, HasRoom, refuses]
  · rcases Nat.eq_zero_or_pos child.size with zero | positive
    · have chooses : child.placer ≠ .manual := by
        intro manual
        rw [manual] at refuses
        exact refuses trivial
      obtain ⟨start, -, -, fitted⟩ := fit_of_empty valid zero chooses
      exact iff_of_true ⟨_, fitted⟩ (has_room_of_empty zero chooses)
    · rcases fit_is_least_clear valid positive refuses with
        ⟨start, least, fitted⟩ | ⟨nowhere, error, failed⟩
      · exact iff_of_true ⟨_, fitted⟩ ⟨refuses, start, least.1⟩
      · constructor
        · intro fitted
          obtain ⟨next, fitted⟩ := fitted
          rw [failed] at fitted
          contradiction
        · intro room
          obtain ⟨-, start, fits, clear⟩ := room
          exact absurd clear (nowhere start fits)

theorem first_fit_eq_error {placer : Placer} {size : Nat} {gaps : List Gap} {error : SpaceError}
    (failed : firstFit placer size gaps = .error error) :
    ∃ gap, placer.choose size gap = .error error := by
  induction gaps with
  | nil => contradiction
  | cons gap rest ih =>
      simp only [firstFit, bind, Except.bind] at failed
      split at failed
      next refusal refused => exact ⟨gap, refused.trans failed⟩
      next answer? chosen =>
        cases answer? with
        | none => exact ih failed
        | some answer => contradiction

theorem fault_of_fit {item : α} {size : Nat} {placer : Placer} {error : SpaceError}
    (failed : layout.fit item size placer = .error error) :
    ∃ cause, Fault.ofSpaceError error = .unresolvableOffset cause := by
  simp only [fit, bind, Except.bind] at failed
  split at failed
  next refusal refused =>
    cases failed
    obtain ⟨gap, chosen⟩ := first_fit_eq_error refused
    cases placer with
    | manual =>
        cases chosen
        exact ⟨_, rfl⟩
    | linear => contradiction
    | aligned =>
        simp only [Placer.choose] at chosen
        split at chosen
        · cases chosen
          exact ⟨_, rfl⟩
        · contradiction
  next start? _ =>
    cases start? with
    | some start => contradiction
    | none =>
        cases failed
        exact ⟨_, rfl⟩

section Takes

variable {placed : Placed α} {children others : List (Placed α)}

theorem takes_append :
    layout.Takes (children ++ others) ↔
      layout.Takes children ∧ (layout.insertEach children).Takes others := by
  induction children generalizing layout with
  | nil => simp [takes_nil, insertEach]
  | cons placed rest ih =>
      simp only [List.cons_append, takes_cons, ih, and_assoc]
      rfl

theorem takes_singleton : layout.Takes [placed] ↔ layout.Accepts placed := by
  simp [takes_cons, takes_nil]

theorem accepts_insert_each :
    (({} : Layout α).insertEach children).Accepts placed ↔
      placed.stop ≤ maxAddress ∧ ∀ entry ∈ children, placed.Apart entry := by
  have added : (({} : Layout α).insertEach children).items.Perm children := perm_insert_each _ _
  simp only [Accepts, added.mem_iff]

end Takes

theorem length_fit_all {pending : List (Pending α)} {next : Layout α} (valid : layout.Valid)
    (complete : layout.fitAll pending = (next, none)) :
    next.items.length = layout.items.length + pending.length := by
  obtain ⟨added, filled⟩ := fit_all_filled valid pending
  rw [complete] at filled
  have all : pending.length ≤ added.length := List.getElem?_eq_none_iff.1 filled.blocked
  have count := filled.placed.length_eq
  rw [List.take_of_length_le all] at count
  rw [filled.perm.length_eq, List.length_append, count]

end Layout

namespace Candidate

variable {α : Type} {candidate failed : Candidate α} {candidates before : List (Candidate α)}
  {placer : Placer} {resizer : Resizer}

def Overflows (candidate : Candidate α) : Prop :=
  ∃ placed ∈ candidate.fixed, maxAddress < placed.stop

/-- The candidate states a place that shares an address with one stated before. -/
def Collides (before : List (Candidate α)) (candidate : Candidate α) : Prop :=
  ∃ placed ∈ candidate.fixed, ∃ entry ∈ before.flatMap fixed, ¬ placed.Apart entry

/-- The candidate states a place that it cannot be given. -/
def Trespasses (before : List (Candidate α)) (candidate : Candidate α) : Prop :=
  candidate.Overflows ∨ candidate.Collides before

/-- What is in place when the candidates with an offset, and those before without one, are. -/
def reached (placer : Placer) (candidates before : List (Candidate α)) : Layout α :=
  ((({} : Layout α).insertEach (candidates.flatMap fixed)).fitAll
    (before.flatMap (waiting placer))).1

/-- The candidate has no offset, and its placer finds no room for it. -/
def Stranded (placer : Placer) (candidates before : List (Candidate α))
    (candidate : Candidate α) : Prop :=
  ∃ child ∈ candidate.waiting placer, ¬ (reached placer candidates before).HasRoom child

theorem Stranded.unstated (stranded : candidate.Stranded placer candidates before) :
    candidate.offset? = none := by
  obtain ⟨child, waits, -⟩ := stranded
  exact (mem_waiting.1 waits).1

theorem length_flat_map_waiting (placer : Placer) (candidates : List (Candidate α)) :
    (candidates.flatMap (waiting placer)).length =
      (candidates.filter (·.offset?.isNone)).length := by
  induction candidates with
  | nil => rfl
  | cons candidate rest ih =>
      cases offset : candidate.offset? with
      | none => simp [waiting_of_none placer offset, offset, ih, Nat.add_comm]
      | some start => simp [waiting_of_some placer offset, offset, ih]

theorem not_trespasses_iff :
    ¬ candidate.Trespasses before ↔
      (({} : Layout α).insertEach (before.flatMap fixed)).Takes candidate.fixed := by
  cases offset : candidate.offset? with
  | none => simp [Trespasses, Overflows, Collides, fixed_of_none offset, Layout.takes_nil]
  | some start =>
      simp [Trespasses, Overflows, Collides, fixed_of_some offset, Layout.takes_singleton,
        Layout.accepts_insert_each]

/-- No candidate is to blame for its stated place just when there is room for all stated places. -/
theorem blameless_iff_takes :
    Blameless Trespasses candidates ↔ ({} : Layout α).Takes (candidates.flatMap fixed) := by
  induction candidates using List.reverseRecOn with
  | nil => exact iff_of_true (blameless_nil _) (Layout.takes_nil _)
  | append_singleton candidates last ih =>
      rw [blameless_concat, ih, not_trespasses_iff, List.flatMap_append, List.flatMap_singleton,
        Layout.takes_append]

section Waiting

variable (takes : ({} : Layout α).Takes (candidates.flatMap fixed))

include takes

theorem valid_offered : (({} : Layout α).insertEach (candidates.flatMap fixed)).Valid :=
  Layout.valid_insert_each (Layout.valid_of_no_items rfl) takes

theorem valid_reached (before : List (Candidate α)) : (reached placer candidates before).Valid := by
  obtain ⟨added, filled⟩ :=
    Layout.fit_all_filled (valid_offered takes) (before.flatMap (waiting placer))
  exact filled.valid

theorem exists_fit_all_of_not_stranded (placed : ¬ candidate.Stranded placer candidates before) :
    ∃ next, (reached placer candidates before).fitAll (candidate.waiting placer) =
      (next, none) := by
  cases offset : candidate.offset? with
  | some start => exact ⟨_, by rw [waiting_of_some placer offset]; rfl⟩
  | none =>
      simp only [Stranded, waiting_of_none placer offset, List.mem_singleton, exists_eq_left,
        not_not, ← Layout.exists_fit_iff (valid_reached takes before)] at placed
      obtain ⟨next, fitted⟩ := placed
      exact ⟨next, by simp only [waiting_of_none placer offset, Layout.fitAll, fitted]⟩

theorem fit_all_of_blameless (whole : Blameless (Stranded placer candidates) before) :
    (({} : Layout α).insertEach (candidates.flatMap fixed)).fitAll
      (before.flatMap (waiting placer)) = (reached placer candidates before, none) := by
  refine Prod.ext rfl ?_
  induction before using List.reverseRecOn with
  | nil => rfl
  | append_singleton before last ih =>
      obtain ⟨earlier, placed⟩ := blameless_concat.1 whole
      obtain ⟨next, complete⟩ := exists_fit_all_of_not_stranded takes placed
      rw [List.flatMap_append, List.flatMap_singleton,
        Layout.fit_all_append (Prod.ext rfl (ih earlier))]
      show ((reached placer candidates before).fitAll _).2 = none
      rw [complete]

/-- At the first candidate without room the pass stops. -/
theorem fit_all_of_first_stranded
    (first : FirstBlamed (Stranded placer candidates) candidates before failed) :
    ∃ error cause, Fault.ofSpaceError error = .unresolvableOffset cause ∧
      (({} : Layout α).insertEach (candidates.flatMap fixed)).fitAll
          (candidates.flatMap (waiting placer)) =
        (reached placer candidates before,
          some ⟨⟨failed.item, failed.size, failed.placer?.getD placer⟩, error⟩) := by
  obtain ⟨child, member, full⟩ := first.blamed
  obtain ⟨unstated, rfl⟩ := mem_waiting.1 member
  obtain ⟨rest, split⟩ := first.within
  have order : candidates.flatMap (waiting placer) = before.flatMap (waiting placer) ++
      ⟨failed.item, failed.size, failed.placer?.getD placer⟩ :: rest.flatMap (waiting placer) := by
    rw [← split]
    simp [waiting_of_none placer unstated]
  cases answer : (reached placer candidates before).fit failed.item failed.size
      (failed.placer?.getD placer) with
  | ok next =>
      exact absurd ((Layout.exists_fit_iff (valid_reached takes before)).1 ⟨next, answer⟩) full
  | error error =>
      obtain ⟨cause, fault⟩ := Layout.fault_of_fit answer
      refine ⟨error, cause, fault, ?_⟩
      rw [order, Layout.fit_all_append (fit_all_of_blameless takes first.blameless)]
      simp only [Layout.fitAll, answer]

end Waiting

end Candidate

section Arrange

open Candidate

variable {α : Type} [Placeable α] {failed : Candidate α} {candidates before : List (Candidate α)}
  {placer : Placer} {resizer : Resizer}

theorem offer_all_append (space : Space α) (first rest : List (Candidate α)) :
    offerAll space (first ++ rest) = offerAll space first >>= fun next => offerAll next rest := by
  induction first generalizing space with
  | nil => rfl
  | cons candidate others ih =>
      simp only [List.cons_append, offerAll, ih, bind_assoc]

theorem offer_to_of_trespasses {space : Space α} (trespasses : failed.Trespasses before)
    (items : space.layout.items.Perm (before.flatMap fixed)) :
    ∃ fault, failed.offerTo space = .error ⟨failed.path, fault⟩ ∧
      (failed.Overflows → ∃ cause, fault = .unresolvableOffset cause) ∧
      (¬ failed.Overflows → ∃ start size blockerStart blockerSize,
        fault = .overlap start size blockerStart blockerSize) := by
  cases offset : failed.offset? with
  | none => simp [Trespasses, Overflows, Collides, fixed_of_none offset] at trespasses
  | some start =>
      have overflows : failed.Overflows ↔ maxAddress < start + failed.size := by
        simp [Overflows, fixed_of_some offset, Placed.stop]
      simp only [Candidate.offerTo, offset, Space.offerWith, Layout.placeAt, boundedSum?]
      by_cases bounded : start + failed.size ≤ maxAddress
      · have within : ¬ failed.Overflows := fun past => Nat.not_lt.2 bounded (overflows.1 past)
        obtain ⟨placed, stated, entry, member, meets⟩ := trespasses.resolve_left within
        rw [fixed_of_some offset, List.mem_singleton] at stated
        subst stated
        cases blocked : space.layout.blocker? start (start + failed.size) with
        | none =>
            have free := (Layout.blocker?_eq_none failed.item).1 blocked
            exact absurd (free entry (items.mem_iff.2 member)) meets
        | some blocker =>
            simp only [if_pos bounded, blocked, bind, Except.bind, Fault.ofSpaceError]
            exact ⟨_, rfl, fun past => absurd past within, fun _ => ⟨_, _, _, _, rfl⟩⟩
      · simp only [if_neg bounded, bind, Except.bind, Fault.ofSpaceError]
        exact ⟨_, rfl, fun _ => ⟨_, rfl⟩, fun within => absurd (overflows.2 (by omega)) within⟩

/-- An arrangement fails at the first candidate that cannot be given the place it states. -/
theorem arrange_of_first_trespasser (first : FirstBlamed Trespasses candidates before failed) :
    ∃ fault, arrange { placer, resizer } candidates = .error ⟨failed.path, fault⟩ ∧
      (failed.Overflows → ∃ cause, fault = .unresolvableOffset cause) ∧
      (¬ failed.Overflows → ∃ start size blockerStart blockerSize,
        fault = .overlap start size blockerStart blockerSize) := by
  obtain ⟨rest, split⟩ := first.within
  let offered : Space α :=
    { placer, resizer
      layout := ({} : Layout α).insertEach (before.flatMap fixed)
      pending := before.flatMap (waiting placer) }
  have items : offered.layout.items.Perm (before.flatMap fixed) := Layout.perm_insert_each _ _
  obtain ⟨fault, refused, causes⟩ := offer_to_of_trespasses first.blamed items
  have offering : offerAll { placer, resizer } before = .ok offered :=
    offer_all_eq_ok.2 ⟨blameless_iff_takes.1 first.blameless, rfl⟩
  have stopped : offerAll { placer, resizer } candidates = .error ⟨failed.path, fault⟩ := by
    rw [← split, List.append_assoc, offer_all_append]
    exact bind_eq_error.2 (.inr ⟨offered, offering, bind_eq_error.2 (.inl refused)⟩)
  exact ⟨fault, bind_eq_error.2 (.inl stopped), causes⟩

theorem offer_all_of_takes (takes : ({} : Layout α).Takes (candidates.flatMap fixed)) :
    offerAll { placer, resizer } candidates =
      .ok { placer, resizer
            layout := ({} : Layout α).insertEach (candidates.flatMap fixed)
            pending := candidates.flatMap (waiting placer) } :=
  offer_all_eq_ok.2 ⟨takes, rfl⟩

/-- Where all stated places are given, an arrangement fails at the first candidate without an offset
that finds no room. -/
theorem arrange_of_first_stranded (takes : ({} : Layout α).Takes (candidates.flatMap fixed))
    (first : FirstBlamed (Stranded placer candidates) candidates before failed) :
    ∃ cause, arrange { placer, resizer } candidates =
      .error ⟨failed.path, .unresolvableOffset cause⟩ := by
  obtain ⟨error, cause, fault, stopped⟩ := fit_all_of_first_stranded takes first
  refine ⟨cause, bind_eq_error.2 (.inr ⟨_, offer_all_of_takes takes, ?_⟩)⟩
  simp only [Space.placePending, stopped, fault]
  rfl

theorem arrange_of_blameless (takes : ({} : Layout α).Takes (candidates.flatMap fixed))
    (whole : Blameless (Stranded placer candidates) candidates) :
    ∃ space, arrange { placer, resizer } candidates = .ok space :=
  ⟨_, arrange_eq_ok.2 ⟨takes, _, fit_all_of_blameless takes whole, rfl⟩⟩

/-- The children that a pass adds to those in place are as many as the waiting candidates before
the one at which it stops, so their number finds this candidate among those that waited. -/
theorem waiting_at_stop (takes : ({} : Layout α).Takes (candidates.flatMap fixed))
    (first : FirstBlamed (Stranded placer candidates) candidates before failed) :
    ∃ offered, offerAll { placer, resizer } candidates = .ok offered ∧
      (candidates.filter (·.offset?.isNone))[
        offered.placePending.1.layout.items.length - offered.layout.items.length]? =
          some failed := by
  obtain ⟨error, -, -, stopped⟩ := fit_all_of_first_stranded takes first
  refine ⟨_, offer_all_of_takes takes, ?_⟩
  have length := Layout.length_fit_all (valid_offered takes)
    (fit_all_of_blameless takes first.blameless)
  obtain ⟨rest, split⟩ := first.within
  simp only [Space.placePending, stopped, length, Nat.add_sub_cancel_left, length_flat_map_waiting]
  rw [← split, List.append_assoc, List.filter_append, List.singleton_append,
    List.filter_cons_of_pos (by simp [first.blamed.unstated]),
    List.getElem?_append_right (Nat.le_refl _), Nat.sub_self]
  rfl

/-- The candidate to blame is the first that cannot be given the place it states or, if there is
none, the first without an offset that finds no room beside all stated places and those found
before. The error names it and never the container. Otherwise every candidate stands in one place
and knows its start. -/
theorem arrange_blames_unplaced [Sited α] (placer : Placer) (resizer : Resizer)
    (candidates : List (Candidate α)) :
    (¬ Blameless Trespasses candidates → ∃ before failed fault,
      FirstBlamed Trespasses candidates before failed ∧
        arrange { placer, resizer } candidates = .error ⟨failed.path, fault⟩) ∧
    (Blameless Trespasses candidates → ¬ Blameless (Stranded placer candidates) candidates →
      ∃ before failed cause, FirstBlamed (Stranded placer candidates) candidates before failed ∧
        arrange { placer, resizer } candidates =
          .error ⟨failed.path, .unresolvableOffset cause⟩ ∧
        (∃ offered, offerAll { placer, resizer } candidates = .ok offered ∧
          (candidates.filter (·.offset?.isNone))[
            offered.placePending.1.layout.items.length - offered.layout.items.length]? =
              some failed) ∧
        ∀ container : Path, (∀ candidate ∈ candidates, ∃ name,
          candidate.path = container.child name) → failed.path ≠ container) ∧
    (Blameless Trespasses candidates → Blameless (Stranded placer candidates) candidates →
      ∃ space, arrange { placer, resizer } candidates = .ok space ∧
        Arranged candidates space.layout ∧
        ∀ placed ∈ space.layout.items, Sited.offset placed.item = placed.start) := by
  refine ⟨fun guilty => ?_, fun innocent guilty => ?_, fun innocent whole => ?_⟩
  · obtain ⟨before, failed, first⟩ := (blameless_or_first_blamed _ _).resolve_left guilty
    obtain ⟨fault, stopped, -⟩ := arrange_of_first_trespasser first
    exact ⟨before, failed, fault, first, stopped⟩
  · have takes := blameless_iff_takes.1 innocent
    obtain ⟨before, failed, first⟩ := (blameless_or_first_blamed _ _).resolve_left guilty
    obtain ⟨cause, stopped⟩ := arrange_of_first_stranded takes first
    refine ⟨before, failed, cause, first, stopped, waiting_at_stop takes first, ?_⟩
    intro container below same
    obtain ⟨name, path⟩ := below failed first.mem
    have depth := congrArg Path.depth (path.symm.trans same)
    rw [Path.depth_child] at depth
    omega
  · obtain ⟨space, arranged⟩ := arrange_of_blameless (blameless_iff_takes.1 innocent) whole
    obtain ⟨-, -, stands⟩ := arranged_of_arrange arranged
    refine ⟨space, arranged, stands, fun placed member => ?_⟩
    obtain ⟨entries, perm, standing⟩ := stands.stands
    obtain ⟨candidate, -, stood⟩ := exists_related_of_mem standing (perm.mem_iff.2 member)
    rw [stood.item, Sited.offset_move_to]

end Arrange

end AddressMap
