/-!
# Paths

The path of an element lists the names from its root down to itself.
-/

namespace AddressMap

set_option autoImplicit false

structure Path where
  segments : List String
deriving DecidableEq, Repr

namespace Path

/-- The path of nothing, above all roots. -/
def empty : Path := ⟨[]⟩

def root (name : String) : Path := ⟨[name]⟩

def child (path : Path) (name : String) : Path := ⟨path.segments ++ [name]⟩

def leaf (path : Path) : String :=
  path.segments.getLastD ""

def parent? (path : Path) : Option Path :=
  if path.segments.length ≤ 1 then none else some ⟨path.segments.dropLast⟩

def depth (path : Path) : Nat :=
  path.segments.length

def isEmpty (path : Path) : Bool :=
  path.segments.isEmpty

def text (path : Path) : String :=
  if path.segments.isEmpty then "<root>" else String.intercalate "." path.segments

/-- Paths are ordered by their names from the root on, names by code points. -/
def order (left right : Path) : Ordering :=
  compare left.segments right.segments

@[simp]
theorem segments_child (path : Path) (name : String) :
    (path.child name).segments = path.segments ++ [name] :=
  rfl

@[simp]
theorem leaf_child (path : Path) (name : String) : (path.child name).leaf = name := by
  simp [leaf, child]

@[simp]
theorem depth_child (path : Path) (name : String) : (path.child name).depth = path.depth + 1 := by
  simp [depth, child]

end Path

end AddressMap
