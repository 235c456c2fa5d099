import AddressMap.Space.Layout

/-!
# Spaces

A space is a layout in the making. Children with a start take their place at once; the others wait
in the order in which they were offered until `placePending` gives each the first fitting gap.
A failing `offer` or `settle` answers no space at all, so the space it was applied to stands.
-/

namespace AddressMap

set_option autoImplicit false

/-- A child that waits for a start, with the placer that will choose it. -/
structure Pending (α : Type) where
  item : α
  size : Nat
  placer : Placer
deriving DecidableEq, Repr

/-- A layout with the children that wait for a place in it, and the policies that finish it. -/
structure Space (α : Type) where
  placer : Placer
  resizer : Resizer
  layout : Layout α := {}
  pending : List (Pending α) := []
deriving DecidableEq, Repr

structure Unplaced (α : Type) where
  child : Pending α
  error : SpaceError
deriving DecidableEq, Repr

namespace Layout

variable {α : Type}

/-- Places the children in order. At the first one without a place the pass stops, and the layout
keeps the children before it. -/
def fitAll (layout : Layout α) : List (Pending α) → Layout α × Option (Unplaced α)
  | [] => (layout, none)
  | child :: rest =>
      match layout.fit child.item child.size child.placer with
      | .ok next => next.fitAll rest
      | .error error => (layout, some ⟨child, error⟩)

end Layout

namespace Space

variable {α : Type}

/-- Offers a child: at the start if there is one, else to wait for the placer. -/
def offerWith (space : Space α) (placer : Placer) (item : α) (start? : Option Nat) (size : Nat) :
    Except SpaceError (Space α) :=
  match start? with
  | none => .ok { space with pending := space.pending ++ [⟨item, size, placer⟩] }
  | some start => do
      let layout ← space.layout.placeAt item start size
      .ok { space with layout }

def offer (space : Space α) (item : α) (start? : Option Nat) (size : Nat) :
    Except SpaceError (Space α) :=
  space.offerWith space.placer item start? size

/-- Places the waiting children. None waits afterwards: the one that fails and those behind it are
given up. -/
def placePending (space : Space α) : Space α × Option (Unplaced α) :=
  let (layout, unplaced?) := space.layout.fitAll space.pending
  ({ space with layout, pending := [] }, unplaced?)

/-- Settles the extent: the stated one if it covers the children, else what the resizer answers. -/
def settle (space : Space α) (declared? : Option Nat) : Except SpaceError (Space α) := do
  let required := space.layout.top
  let extent ← match declared? with
    | none => space.resizer.extent required
    | some declared =>
        if declared < required then .error (.undersized declared required) else .ok declared
  .ok { space with layout := { space.layout with extent := some extent } }

end Space

end AddressMap
