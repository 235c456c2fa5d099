import AddressMap.Decl.Json
import AddressMap.Output.Writer
import AddressMap.Output.Stated

/-!
# Frozen declarations

An element is frozen as a declaration that states every attribute, also those that were inferred,
inherited or left to a default. What is built from it has the same layout, so it fixes addresses
that must no longer move.
-/

namespace AddressMap

set_option autoImplicit false

def truthText (value : Bool) : String :=
  if value then "true" else "false"

namespace Header

def stated (header : Header) : List (Attribute × String) :=
  [(.name, header.name), (.readOnly, truthText header.access.isReadOnly),
    (.writeOnly, truthText header.access.isWriteOnly), (.format, header.format.keyword)]

end Header

namespace Element

def frozenAttrs (element : Element) : AttrMap :=
  AttrMap.ofList ((element.header.stated ++ element.stated).map fun entry => (entry.1.key, entry.2))

/-- The declaration of an element and of all inside it, with nothing left open. -/
def freeze : Element → Decl :=
  fold fun element children =>
    { kind := element.kind
      attrs := element.frozenAttrs
      description := element.header.description
      children }

end Element

namespace Frozen

def pieces (root : Element) : List String :=
  Json.indentedFrom 0 root.freeze.tokens ++ ["\n"]

def write {ω : Type} [Writer ω] (writer : ω) (root : Element) : ω :=
  (pieces root).foldl Writer.text writer

end Frozen

end AddressMap
