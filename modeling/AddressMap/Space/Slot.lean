import AddressMap.Space.Layout

/-!
# Slots

The slots of a layout are its children and the gaps around them, in address order, from zero to
the size of the layout.
-/

namespace AddressMap

set_option autoImplicit false

inductive Slot (α : Type) where
  | item (placed : Placed α)
  | gap (gap : Gap)
deriving DecidableEq, Repr

namespace Slot

variable {α : Type}

def start : Slot α → Nat
  | item placed => placed.start
  | gap range => range.start

def stop : Slot α → Nat
  | item placed => placed.stop
  | gap range => range.stop

def gap? : Slot α → Option Gap
  | item _ => none
  | gap range => some range

/-- One entry of a map: a child by its name and size, a gap by its length. -/
def text (name : α → String) : Slot α → String
  | item placed => s!"{name placed.item}({placed.size})"
  | gap range => s!"-({range.length})"

end Slot

namespace Layout

variable {α : Type}

def slotsFrom (last : Nat) (cursor : Nat) : List (Placed α) → List (Slot α)
  | [] => if cursor < last then [.gap ⟨cursor, last⟩] else []
  | head :: rest =>
      let above := .item head :: slotsFrom last (max cursor head.stop) rest
      if cursor < head.start then .gap ⟨cursor, head.start⟩ :: above else above

def slots (layout : Layout α) : List (Slot α) :=
  slotsFrom layout.size 0 layout.items

def gaps (layout : Layout α) : List Gap :=
  layout.slots.filterMap Slot.gap?

def hasGaps (layout : Layout α) : Bool :=
  !layout.gaps.isEmpty

/-- The slot at the end: the trailing gap if there is one, else the last child. -/
def last? (layout : Layout α) : Option (Slot α) :=
  layout.slots.getLast?

def occupant? (layout : Layout α) (address : Nat) : Option (Placed α) :=
  layout.items.find? (·.occupies address)

/-- The slots in one line, such as `A(4),-(11),C(2)`. -/
def text (name : α → String) (layout : Layout α) : String :=
  String.intercalate "," (layout.slots.map (Slot.text name))

end Layout

end AddressMap
