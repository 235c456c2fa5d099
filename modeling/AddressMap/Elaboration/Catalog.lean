import AddressMap.Elaboration.Site

/-!
# Catalogs

A catalog holds components by their names. Every instance that asks for a name is bound to the same
component.
-/

namespace AddressMap

set_option autoImplicit false

/-- Components with different names, in the order in which they were added. -/
structure Catalog where
  components : List Component := []
deriving DecidableEq, Repr

namespace Catalog

def size (catalog : Catalog) : Nat :=
  catalog.components.length

def isEmpty (catalog : Catalog) : Bool :=
  catalog.components.isEmpty

def get? (catalog : Catalog) (name : String) : Option Component :=
  catalog.components.find? (·.header.name == name)

def add (catalog : Catalog) (component : Component) : Build Catalog :=
  match catalog.get? component.header.name with
  | some _ => .error ⟨component.header.path, .duplicateName component.header.name⟩
  | none => .ok { components := catalog.components ++ [component] }

def require (catalog : Catalog) (path : Path) (name : String) : Build Component :=
  match catalog.get? name with
  | some component => .ok component
  | none => .error ⟨path, .unknownComponent name⟩

end Catalog

end AddressMap
