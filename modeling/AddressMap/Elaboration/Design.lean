import AddressMap.Element.Tree
import AddressMap.Elaboration.MemoryMap

/-!
# Designs

A design is what a list of root declarations describes: components first, which memory maps then
bind wherever they are declared. Components and memory maps share one name space.
-/

namespace AddressMap

set_option autoImplicit false

/-- Built roots, each kind in the order of declaration. -/
structure Design where
  components : List Component := []
  memoryMaps : List MemoryMap := []
  /-- The components by their names. -/
  catalog : Catalog := {}
deriving DecidableEq, Repr

/-- An error in the root declaration with this number. -/
structure DesignError where
  index : Nat
  error : BuildError
deriving DecidableEq, Repr

namespace Design

def roots (design : Design) : List Element :=
  design.components.map .component ++ design.memoryMaps.map .memoryMap

def rootNames (design : Design) : List String :=
  design.roots.map (·.path.leaf)

def isEmpty (design : Design) : Bool :=
  design.components.isEmpty && design.memoryMaps.isEmpty

def component? (design : Design) (name : String) : Option Component :=
  design.catalog.get? name

def memoryMap? (design : Design) (name : String) : Option MemoryMap :=
  design.memoryMaps.find? (·.header.name == name)

/-- Adds the component that a root declares. Memory maps are left for later. -/
def addComponent (design : Design) (decl : Decl) : Build Design :=
  match decl.kind with
  | .component => do
      let component ← Component.ofDecl decl
      claimName design.rootNames component.header.path
      let catalog ← design.catalog.add component
      .ok { design with components := design.components ++ [component], catalog }
  | .memoryMap => .ok design
  | kind => .error ⟨Path.root decl.label, .invalidStructure (.notRoot kind)⟩

def addMemoryMap (defaults : MapDefaults) (design : Design) (decl : Decl) : Build Design :=
  match decl.kind with
  | .memoryMap => do
      let map ← MemoryMap.ofDecl design.catalog defaults decl
      claimName design.rootNames map.header.path
      .ok { design with memoryMaps := design.memoryMaps ++ [map] }
  | _ => .ok design

def addAll (add : Design → Decl → Build Design) (design : Design) (index : Nat) :
    List Decl → Except DesignError Design
  | [] => .ok design
  | decl :: rest => do
      let next ← (add design decl).mapError (DesignError.mk index)
      addAll add next (index + 1) rest

def ofDecls (defaults : MapDefaults) (decls : List Decl) : Except DesignError Design := do
  let withComponents ← addAll addComponent {} 0 decls
  addAll (addMemoryMap defaults) withComponents 0 decls

end Design

end AddressMap
