import AddressMap.Address
import AddressMap.Space.Error

/-!
# Policies

A placer looks at one gap at a time and answers where in it a child starts. The linear placer takes
the gap's start, the aligned one the first multiple of the child's alignment, and the manual one
refuses every child that comes without a start of its own. A resizer chooses the extent of a space
that states none, from the end of its occupied range.
-/

namespace AddressMap

set_option autoImplicit false

/-- The free addresses from `start` up to, and without, `stop`. -/
structure Gap where
  start : Nat
  stop : Nat
deriving DecidableEq, Repr

namespace Gap

def length (gap : Gap) : Nat :=
  gap.stop - gap.start

def isEmpty (gap : Gap) : Bool :=
  gap.stop ≤ gap.start

end Gap

/-- How a child without a start of its own is positioned. -/
inductive Placer where
  /-- Every start has to be stated. -/
  | manual
  /-- Any start will do. -/
  | linear
  /-- The start is a multiple of the least power of two that covers the child. -/
  | aligned
deriving DecidableEq, Repr

/-- The least power of two that covers a child of this size, unless it is no address. An empty
child may start anywhere. -/
def alignment? (size : Nat) : Option Nat :=
  let unit := leastPowerOfTwo (max size 1)
  if unit ≤ maxPowerOfTwo then some unit else none

namespace Placer

def choose (placer : Placer) (size : Nat) (gap : Gap) : Except SpaceError (Option Nat) :=
  match placer with
  | manual => .error (.unresolvableOffset size)
  | linear => .ok (if size ≤ gap.length then some gap.start else none)
  | aligned =>
      match alignment? size with
      | none => .error (.addressOverflow gap.start size)
      | some unit =>
          let start := roundUp gap.start unit
          .ok (if start + size ≤ gap.stop then some start else none)

end Placer

/-- How the size of a space follows from its occupied end. -/
inductive Resizer where
  /-- The occupied end itself, for a space that is not meant to grow. -/
  | manual
  /-- The occupied end itself. -/
  | linear
  /-- The least power of two that covers the occupied range; an empty space stays empty. -/
  | aligned
deriving DecidableEq, Repr

namespace Resizer

def extent (resizer : Resizer) (occupied : Nat) : Except SpaceError Nat :=
  match resizer with
  | manual => .ok occupied
  | linear => .ok occupied
  | aligned =>
      if occupied = 0 then .ok 0
      else if leastPowerOfTwo occupied ≤ maxPowerOfTwo then .ok (leastPowerOfTwo occupied)
      else .error (.addressOverflow 0 occupied)

end Resizer

end AddressMap
