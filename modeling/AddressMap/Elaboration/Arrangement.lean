import AddressMap.Elaboration.Site
import AddressMap.Space.Basic

/-!
# Arrangement

Built elements are candidates for places in their container. `arrange` gives each one that states an
offset that offset, and then the others, in the order of their declarations, the first place that
fits. A failure is the fault of the candidate that could not be placed.
-/

namespace AddressMap

set_option autoImplicit false

class Placeable (α : Type) where
  header : α → Header
  /-- Records the offset at which the element was placed. -/
  moveTo : α → Nat → α

instance : Placeable Field where
  header := Field.header
  moveTo element offset := { element with offset }

instance : Placeable Register where
  header := Register.header
  moveTo element offset := { element with offset }

instance : Placeable Instance where
  header := Instance.header
  moveTo element offset := { element with offset }

namespace Entry

variable {α : Type} [Placeable α]

def header : Entry α → Header
  | single element => Placeable.header element
  | array elements => elements.header

def moveTo (entry : Entry α) (offset : Nat) : Entry α :=
  match entry with
  | single element => single (Placeable.moveTo element offset)
  | array elements => array { elements with offset }

end Entry

instance {α : Type} [Placeable α] : Placeable (Entry α) where
  header := Entry.header
  moveTo := Entry.moveTo

/-- An element without a place yet. -/
structure Candidate (α : Type) where
  item : α
  offset? : Option Nat
  size : Nat
  /-- The placer to choose an offset, if it is not the container's. -/
  placer? : Option Placer := none

namespace Candidate

variable {α β : Type}

def map (f : α → β) (candidate : Candidate α) : Candidate β :=
  { candidate with item := f candidate.item }

variable [Placeable α]

def path (candidate : Candidate α) : Path :=
  (Placeable.header candidate.item).path

def offerTo (space : Space α) (candidate : Candidate α) : Build (Space α) :=
  match space.offerWith (candidate.placer?.getD space.placer) candidate.item candidate.offset?
      candidate.size with
  | .ok next => .ok next
  | .error error => .error ⟨candidate.path, Fault.ofSpaceError error⟩

end Candidate

section Arrange

variable {α : Type} [Placeable α]

def offerAll (space : Space α) : List (Candidate α) → Build (Space α)
  | [] => .ok space
  | candidate :: rest => do
      let next ← candidate.offerTo space
      offerAll next rest

def recordOffsets (layout : Layout α) : Layout α :=
  layout.map fun placed => Placeable.moveTo placed.item placed.start

def arrange (space : Space α) (candidates : List (Candidate α)) : Build (Space α) := do
  let offered ← offerAll space candidates
  match offered.placePending with
  | (placed, none) => .ok { placed with layout := recordOffsets placed.layout }
  | (_, some unplaced) =>
      .error ⟨(Placeable.header unplaced.child.item).path, Fault.ofSpaceError unplaced.error⟩

/-- The layout of an arranged space, with its extent settled. The path is that of the element that
owns the space. -/
def settledLayout (path : Path) (space : Space α) (declared? : Option Nat) : Build (Layout α) :=
  match space.settle declared? with
  | .ok settled => .ok settled.layout
  | .error error => .error ⟨path, Fault.ofSpaceError error⟩

end Arrange

/-- Refuses an element that has the name of an earlier one of its container. -/
def claimName (names : List String) (path : Path) : Build Unit :=
  if names.contains path.leaf then .error ⟨path, .duplicateName path.leaf⟩ else .ok ()

end AddressMap
