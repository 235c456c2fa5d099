/-!
# Failures of a space

A space knows only addresses and sizes, so its failures carry nothing else. Whoever owns the space
knows what the children are and adds their names.
-/

namespace AddressMap

set_option autoImplicit false

inductive SpaceError where
  /-- A child with a fixed start meets a child that is already placed. -/
  | overlap (start size blockerStart blockerSize : Nat)
  /-- A stated size does not cover the occupied range. -/
  | undersized (declared required : Nat)
  /-- A child has no start and its placer chooses none. -/
  | unresolvableOffset (size : Nat)
  /-- A range passes the largest address. -/
  | addressOverflow (start size : Nat)
deriving DecidableEq, Repr

namespace SpaceError

/-- The failure in words. Ranges are written with their exclusive end. -/
def message : SpaceError → String
  | overlap start size blockerStart blockerSize =>
      s!"range {start}..{start + size} overlaps the child at " ++
        s!"{blockerStart}..{blockerStart + blockerSize}"
  | undersized declared required =>
      s!"declared size {declared} is smaller than the {required} units occupied"
  | unresolvableOffset size =>
      s!"no offset given for a child of size {size} and automatic placement is not allowed"
  | addressOverflow start size =>
      s!"range of size {size} at {start} overflows the address space"

end SpaceError

end AddressMap
