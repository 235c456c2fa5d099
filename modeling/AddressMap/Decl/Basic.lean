import AddressMap.Decl.Attrs
import AddressMap.Kind

/-!
# Declarations

A declaration is what an author writes for one element: its kind, its attributes as raw texts,
paragraphs of description, and the declarations of the elements inside. An attribute that is absent
is to be worked out.
-/

namespace AddressMap

set_option autoImplicit false

structure Decl where
  kind : Kind
  attrs : AttrMap := .empty
  description : List String := []
  children : List Decl := []
deriving BEq

namespace Decl

def get? (decl : Decl) (attr : Attribute) : Option String :=
  decl.attrs.get? attr.key

def name? (decl : Decl) : Option String :=
  decl.get? .name

/-- What a declaration is called in a path: its name, or its kind as long as it has none. -/
def label (decl : Decl) : String :=
  decl.name?.getD decl.kind.keyword

end Decl

end AddressMap
