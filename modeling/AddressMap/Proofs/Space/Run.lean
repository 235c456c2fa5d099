import AddressMap.Proofs.Space.Validity

/-!
# Runs of a space

Whoever owns a space offers children, has the waiting ones placed, settles the extent and rewrites
the children in place, in any order and also after a failure. `Step` says all that one operation
does. The main statement is that every operation of every run is such a step, and that what stands
after it stands there, at the same start and with the same size, after all that follows.
-/

namespace AddressMap

set_option autoImplicit false

inductive Operation (α : Type) where
  | offer (item : α) (start? : Option Nat) (size : Nat)
  | offerWith (placer : Placer) (item : α) (start? : Option Nat) (size : Nat)
  | placePending
  | settle (declared? : Option Nat)
  /-- Rewrites each child, given where it stands. -/
  | rewrite (f : Placed α → α)

namespace Operation

variable {α : Type}

/-- What the operation makes of a child that is in place. -/
def rewriting : Operation α → Placed α → Placed α
  | .rewrite f => Placed.map f
  | _ => id

/-- What a run makes of a child that is in place before it. -/
def rewritings (operations : List (Operation α)) (placed : Placed α) : Placed α :=
  operations.foldl (fun child operation => operation.rewriting child) placed

def stated (item : α) (start? : Option Nat) (size : Nat) : List (Placed α) :=
  start?.toList.map fun start => ⟨item, start, size⟩

/-- The children that the operation adds. The pass over the waiting children places those before the
one that fails, or all. -/
def Adds (pending : List (Pending α)) (failure? : Option SpaceError) (added : List (Placed α)) :
    Operation α → Prop
  | .offer item start? size | .offerWith _ item start? size =>
      added = if failure?.isSome then [] else stated item start? size
  | .placePending =>
      List.Forall₂ Pending.FilledBy (pending.take added.length) added ∧
        (failure? = none → added.length = pending.length)
  | .settle _ | .rewrite _ => added = []

def waiting (space : Space α) : Operation α → List (Pending α)
  | .offer item none size => space.pending ++ [⟨item, size, space.placer⟩]
  | .offerWith placer item none size => space.pending ++ [⟨item, size, placer⟩]
  | .placePending => []
  | _ => space.pending

theorem rewriting_eq_id {operation : Operation α} (keeps : ∀ f, operation ≠ .rewrite f) :
    operation.rewriting = id := by
  cases operation with
  | rewrite f => exact absurd rfl (keeps f)
  | _ => rfl

theorem adds_nil_of_refusal {operation : Operation α} {pending : List (Pending α)}
    {error : SpaceError} (pass : operation ≠ .placePending) :
    operation.Adds pending (some error) [] := by
  cases operation with
  | placePending => exact absurd rfl pass
  | _ => rfl

@[simp]
theorem start_rewriting (operation : Operation α) (placed : Placed α) :
    (operation.rewriting placed).start = placed.start := by
  cases operation <;> rfl

@[simp]
theorem size_rewriting (operation : Operation α) (placed : Placed α) :
    (operation.rewriting placed).size = placed.size := by
  cases operation <;> rfl

/-- A run may change what a child says, never where it stands. -/
theorem range_rewritings (operations : List (Operation α)) (placed : Placed α) :
    (rewritings operations placed).start = placed.start ∧
      (rewritings operations placed).size = placed.size := by
  induction operations generalizing placed with
  | nil => exact ⟨rfl, rfl⟩
  | cons operation rest ih =>
      obtain ⟨start, size⟩ := ih (operation.rewriting placed)
      exact ⟨start.trans (start_rewriting operation placed),
        size.trans (size_rewriting operation placed)⟩

end Operation

namespace Space

variable {α : Type}

/-- The space behind an operation that can be refused. A refusal leaves the space as it is. -/
def answer (space : Space α) : Except SpaceError (Space α) → Space α × Option SpaceError
  | .ok next => (next, none)
  | .error error => (space, some error)

def perform (space : Space α) : Operation α → Space α × Option SpaceError
  | .offer item start? size => space.answer (space.offer item start? size)
  | .offerWith placer item start? size => space.answer (space.offerWith placer item start? size)
  | .placePending => (space.placePending.1, space.placePending.2.map Unplaced.error)
  | .settle declared? => space.answer (space.settle declared?)
  | .rewrite f => ({ space with layout := space.layout.map f }, none)

/-- The space behind operations, whether or not they fail. -/
def run (space : Space α) : List (Operation α) → Space α
  | [] => space
  | operation :: rest => (space.perform operation).1.run rest

/-- All that an operation does to a space with a valid layout: old children stay, in their order
and each once, beside those that the operation adds. -/
structure Step (before : Space α) (operation : Operation α) (after : Space α)
    (failure? : Option SpaceError) (added : List (Placed α)) : Prop where
  valid : after.layout.Valid
  kept : (before.layout.items.map operation.rewriting).Sublist after.layout.items
  perm : after.layout.items.Perm (before.layout.items.map operation.rewriting ++ added)
  adds : operation.Adds before.pending failure? added
  waiting : failure? = none → after.pending = operation.waiting before
  refused : failure? ≠ none → operation ≠ .placePending → after = before
  settled : ∀ declared?, operation = .settle declared? → failure? = none →
    ∃ extent, after.layout.extent = some extent ∧
      ∀ placed ∈ after.layout.items, placed.stop ≤ extent

theorem step_of_refusal {space : Space α} (valid : space.layout.Valid) {operation : Operation α}
    (pass : operation ≠ .placePending) (keeps : ∀ f, operation ≠ .rewrite f) (error : SpaceError) :
    Step space operation space (some error) [] := by
  have same := Operation.rewriting_eq_id keeps
  constructor
  · exact valid
  · rw [same, List.map_id]
  · rw [same, List.map_id, List.append_nil]
  · exact Operation.adds_nil_of_refusal pass
  · exact fun none => absurd none (Option.some_ne_none error)
  · exact fun _ _ => rfl
  · exact fun _ _ none => absurd none (Option.some_ne_none error)

theorem step_of_offer {space : Space α} (valid : space.layout.Valid) (placer : Placer) (item : α)
    (start? : Option Nat) (size : Nat) :
    ∃ added, Step space (.offerWith placer item start? size)
      (space.answer (space.offerWith placer item start? size)).1
      (space.answer (space.offerWith placer item start? size)).2 added := by
  have keeps : ∀ f, Operation.offerWith placer item start? size ≠ .rewrite f := nofun
  cases start? with
  | none =>
      refine ⟨[], valid, ?_, ?_, rfl, fun _ => rfl, fun failed => absurd rfl failed, nofun⟩
      · rw [Operation.rewriting_eq_id keeps, List.map_id]
        exact List.Sublist.refl _
      · rw [Operation.rewriting_eq_id keeps, List.map_id, List.append_nil]
        exact List.Perm.refl _
  | some start =>
      cases placed : space.layout.placeAt item start size with
      | error error =>
          refine ⟨[], ?_⟩
          simp only [offerWith, placed, bind, Except.bind, answer]
          have pass : Operation.offerWith placer item (some start) size ≠ .placePending := nofun
          exact step_of_refusal valid pass keeps error
      | ok layout =>
          obtain ⟨bound, free, rfl⟩ := Layout.place_at_eq_ok.1 placed
          simp only [offerWith, placed, bind, Except.bind, answer]
          refine ⟨[⟨item, start, size⟩], Layout.valid_insert valid bound free, ?_, ?_, rfl,
            fun _ => rfl, fun failed => absurd rfl failed, nofun⟩
          · rw [Operation.rewriting_eq_id keeps, List.map_id]
            exact Layout.sublist_insert_by_start _ _
          · rw [Operation.rewriting_eq_id keeps, List.map_id]
            exact (Layout.perm_insert_by_start _ _).trans (List.perm_append_singleton _ _).symm

theorem step_of_pass {space : Space α} (valid : space.layout.Valid) :
    ∃ added, Step space .placePending space.placePending.1
      (space.placePending.2.map Unplaced.error) added := by
  obtain ⟨added, filled⟩ := Layout.fit_all_filled valid space.pending
  have keeps : ∀ f : Placed α → α, Operation.placePending ≠ .rewrite f := nofun
  refine ⟨added, filled.valid, ?_, ?_, ⟨filled.placed, ?_⟩, fun _ => rfl,
    fun _ pass => absurd rfl pass, nofun⟩
  · rw [Operation.rewriting_eq_id keeps, List.map_id]
    exact filled.kept
  · rw [Operation.rewriting_eq_id keeps, List.map_id]
    exact filled.perm
  · intro complete
    have unblocked : space.pending[added.length]? = none := by
      rw [filled.blocked, Option.map_eq_none_iff]
      exact Option.map_eq_none_iff.1 complete
    have past := List.getElem?_eq_none_iff.1 unblocked
    have counted := filled.placed.length_eq
    rw [List.length_take] at counted
    omega

theorem step_of_settle {space : Space α} (valid : space.layout.Valid) (declared? : Option Nat) :
    Step space (.settle declared?) (space.answer (space.settle declared?)).1
      (space.answer (space.settle declared?)).2 [] := by
  have keeps : ∀ f : Placed α → α, Operation.settle declared? ≠ .rewrite f := nofun
  cases settled : space.settle declared? with
  | error error =>
      have pass : (Operation.settle declared? : Operation α) ≠ .placePending := nofun
      exact step_of_refusal valid pass keeps error
  | ok next =>
      obtain ⟨extent, settles, rfl⟩ := settle_eq_ok.1 settled
      refine ⟨⟨valid.ordered, valid.bounded, valid.apart⟩, ?_, ?_, rfl, fun _ => rfl,
        fun failed => absurd rfl failed, fun _ _ _ => ⟨extent, rfl, ?_⟩⟩
      · rw [Operation.rewriting_eq_id keeps, List.map_id]
        exact List.Sublist.refl _
      · rw [Operation.rewriting_eq_id keeps, List.map_id, List.append_nil]
        exact List.Perm.refl _
      · intro placed member
        exact Nat.le_trans (Layout.stop_le_top member) (top_le_of_settles settles)

theorem perform_step {space : Space α} (valid : space.layout.Valid) (operation : Operation α) :
    ∃ added,
      Step space operation (space.perform operation).1 (space.perform operation).2 added := by
  cases operation with
  | offer item start? size =>
      obtain ⟨added, step⟩ := step_of_offer valid space.placer item start? size
      refine ⟨added, step.valid, step.kept, step.perm, step.adds, ?_, ?_, nofun⟩
      · cases start? <;> exact step.waiting
      · exact fun failed _ => step.refused failed nofun
  | offerWith placer item start? size => exact step_of_offer valid placer item start? size
  | placePending => exact step_of_pass valid
  | settle declared? => exact ⟨[], step_of_settle valid declared?⟩
  | rewrite f =>
      refine ⟨[], (Layout.valid_map f).2 valid, List.Sublist.refl _, ?_, rfl, fun _ => rfl,
        fun failed => absurd rfl failed, nofun⟩
      rw [List.append_nil]
      exact List.Perm.refl _

theorem run_valid {space : Space α} (valid : space.layout.Valid)
    (operations : List (Operation α)) : (space.run operations).layout.Valid := by
  induction operations generalizing space with
  | nil => exact valid
  | cons operation rest ih =>
      obtain ⟨added, step⟩ := perform_step valid operation
      exact ih step.valid

/-- No operation of a run moves, resizes, removes or doubles a child that is in place before it. -/
theorem run_kept {space : Space α} (valid : space.layout.Valid)
    (operations : List (Operation α)) :
    (space.layout.items.map (Operation.rewritings operations)).Sublist
      (space.run operations).layout.items := by
  induction operations generalizing space with
  | nil =>
      have same : Operation.rewritings ([] : List (Operation α)) = id := rfl
      rw [same, List.map_id]
      exact List.Sublist.refl _
  | cons operation rest ih =>
      obtain ⟨added, step⟩ := perform_step valid operation
      have first := step.kept.map (Operation.rewritings rest)
      rw [List.map_map] at first
      exact first.trans (ih step.valid)

/-- In every run from a fresh space the layout is valid before every operation, the operation is a
step, and what it leaves in place, the added children among it, stands there after all that
follows, at the same start and with the same size. -/
theorem every_operation_of_a_run_is_a_step (placer : Placer) (resizer : Resizer)
    (earlier : List (Operation α)) (operation : Operation α) (later : List (Operation α)) :
    let before := Space.run { placer, resizer } earlier
    let after := (before.perform operation).1
    let failure? := (before.perform operation).2
    before.layout.Valid ∧ ∃ added, Step before operation after failure? added ∧
      (after.layout.items.map (Operation.rewritings later)).Sublist
        (after.run later).layout.items ∧
      ∀ child ∈ added, ∃ final ∈ (after.run later).layout.items,
        final = Operation.rewritings later child ∧ final.start = child.start ∧
          final.size = child.size := by
  intro before after failure?
  have fresh : (⟨placer, resizer, {}, []⟩ : Space α).layout.Valid := Layout.valid_of_no_items rfl
  have beforeValid : before.layout.Valid := run_valid fresh earlier
  obtain ⟨added, step⟩ := perform_step beforeValid operation
  have kept := run_kept step.valid later
  refine ⟨beforeValid, added, step, kept, fun child member => ?_⟩
  have present : child ∈ after.layout.items :=
    step.perm.mem_iff.2 (List.mem_append.2 (.inr member))
  exact ⟨_, kept.subset (List.mem_map_of_mem present), rfl,
    Operation.range_rewritings later child⟩

example :
    (run { placer := .linear, resizer := .linear }
        [.offer "a" (some 4) 4, .offer "b" (some 6) 1, .offer "c" none 2, .offer "d" (some 6) 0,
          .placePending, .settle none]).layout =
      { items := [⟨"c", 0, 2⟩, ⟨"a", 4, 4⟩, ⟨"d", 6, 0⟩], extent := some 8 } := by
  decide

end Space

end AddressMap
