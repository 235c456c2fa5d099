import AddressMap.Space.Policy

/-!
# Layouts

A layout holds the children that have a start, in address order, and the extent once it is settled.
A child with a stated start is checked against the children in place; a start found by `firstFit`
lies in a gap and needs no check. Empty children occupy nothing: they neither block nor are blocked.
-/

namespace AddressMap

set_option autoImplicit false

structure Placed (α : Type) where
  item : α
  start : Nat
  size : Nat
deriving DecidableEq, Repr

namespace Placed

variable {α β : Type}

/-- The first address after the child. -/
def stop (placed : Placed α) : Nat :=
  placed.start + placed.size

def meets (placed : Placed α) (start stop : Nat) : Bool :=
  decide (0 < placed.size) && decide (start < stop) && decide (placed.start < stop) &&
    decide (start < placed.stop)

def occupies (placed : Placed α) (address : Nat) : Bool :=
  decide (placed.start ≤ address) && decide (address < placed.stop)

def map (f : Placed α → β) (placed : Placed α) : Placed β :=
  { item := f placed, start := placed.start, size := placed.size }

end Placed

/-- Children in address order, with the extent if it is settled. -/
structure Layout (α : Type) where
  items : List (Placed α) := []
  extent : Option Nat := none
deriving DecidableEq, Repr

namespace Layout

variable {α β : Type}

/-- Adds a child after all children that start no later. -/
def insertByStart (placed : Placed α) : List (Placed α) → List (Placed α)
  | [] => [placed]
  | head :: rest =>
      if head.start ≤ placed.start then head :: insertByStart placed rest
      else placed :: head :: rest

def insert (layout : Layout α) (placed : Placed α) : Layout α :=
  { layout with items := insertByStart placed layout.items }

def InOrder (items : List (Placed α)) : Prop :=
  items.Pairwise fun left right => left.start ≤ right.start

theorem perm_insert_by_start (placed : Placed α) (items : List (Placed α)) :
    (insertByStart placed items).Perm (placed :: items) := by
  induction items with
  | nil => exact List.Perm.refl _
  | cons head rest ih =>
      unfold insertByStart
      split
      · exact (ih.cons head).trans (List.Perm.swap placed head rest)
      · exact List.Perm.refl _

@[simp]
theorem mem_insert_by_start {placed entry : Placed α} {items : List (Placed α)} :
    entry ∈ insertByStart placed items ↔ entry = placed ∨ entry ∈ items := by
  rw [(perm_insert_by_start placed items).mem_iff, List.mem_cons]

theorem in_order_insert_by_start (placed : Placed α) {items : List (Placed α)}
    (ordered : InOrder items) : InOrder (insertByStart placed items) := by
  induction items with
  | nil => exact List.pairwise_singleton _ _
  | cons head rest ih =>
      obtain ⟨below, restOrdered⟩ := List.pairwise_cons.1 ordered
      unfold insertByStart
      split
      next early =>
        refine List.pairwise_cons.2 ⟨fun entry member => ?_, ih restOrdered⟩
        rcases mem_insert_by_start.1 member with rfl | later
        · exact early
        · exact below entry later
      next late =>
        refine List.pairwise_cons.2 ⟨fun entry member => ?_, ordered⟩
        rcases List.mem_cons.1 member with rfl | later
        · omega
        · have := below entry later
          omega

/-- The lowest child that shares an address with the range. -/
def blocker? (layout : Layout α) (start stop : Nat) : Option (Placed α) :=
  layout.items.find? (·.meets start stop)

def placeAt (layout : Layout α) (item : α) (start size : Nat) : Except SpaceError (Layout α) :=
  match boundedSum? start size with
  | none => .error (.addressOverflow start size)
  | some stop =>
      match layout.blocker? start stop with
      | some blocker => .error (.overlap start size blocker.start blocker.size)
      | none => .ok (layout.insert ⟨item, start, size⟩)

/-- One past the highest occupied address, zero for an empty layout. -/
def top (layout : Layout α) : Nat :=
  layout.items.foldr (fun placed highest => max placed.stop highest) 0

theorem stop_le_top {layout : Layout α} {placed : Placed α} (member : placed ∈ layout.items) :
    placed.stop ≤ layout.top := by
  unfold top
  revert member
  induction layout.items with
  | nil => exact fun member => absurd member List.not_mem_nil
  | cons head rest ih =>
      intro member
      rw [List.foldr_cons]
      rcases List.mem_cons.1 member with rfl | later
      · omega
      · have := ih later
        omega

@[simp]
theorem top_insert (layout : Layout α) (placed : Placed α) :
    (layout.insert placed).top = max placed.stop layout.top := by
  unfold top insert
  induction layout.items with
  | nil => rfl
  | cons head rest ih =>
      unfold insertByStart
      split
      · simp only [List.foldr_cons] at ih ⊢
        omega
      · rfl

def size (layout : Layout α) : Nat :=
  layout.extent.getD layout.top

/-- The gaps from a cursor on, below and between children, ending with the tail of the address
space. -/
def freeGapsFrom (cursor : Nat) : List (Placed α) → List Gap
  | [] => [⟨cursor, maxAddress⟩]
  | head :: rest =>
      let above := freeGapsFrom (max cursor head.stop) rest
      if cursor < head.start then ⟨cursor, head.start⟩ :: above else above

/-- The free ranges of the whole address space, in address order. -/
def freeGaps (layout : Layout α) : List Gap :=
  freeGapsFrom 0 layout.items

/-- The start that the placer answers for the first gap with room. -/
def firstFit (placer : Placer) (size : Nat) : List Gap → Except SpaceError (Option Nat)
  | [] => .ok none
  | gap :: rest => do
      match ← placer.choose size gap with
      | some start => .ok (some start)
      | none => firstFit placer size rest

def fit (layout : Layout α) (item : α) (size : Nat) (placer : Placer) :
    Except SpaceError (Layout α) := do
  match ← firstFit placer size layout.freeGaps with
  | some start => .ok (layout.insert ⟨item, start, size⟩)
  | none => .error (.addressOverflow layout.top size)

def map (f : Placed α → β) (layout : Layout α) : Layout β :=
  { items := layout.items.map (·.map f), extent := layout.extent }

end Layout

end AddressMap
