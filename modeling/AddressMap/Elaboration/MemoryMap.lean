import AddressMap.Elaboration.Catalog
import AddressMap.Elaboration.Component

/-!
# Memory maps

A memory map holds instances of components, each as long as its component in bytes. Without an
offset an instance is aligned to a power of two, so that its address can be decoded by a mask.
-/

namespace AddressMap

set_option autoImplicit false

/-- What holds for memory maps that do not state it. -/
structure MapDefaults where
  base : Nat := 0x80000000
  busWidth : Nat := 32
deriving DecidableEq, Repr

namespace Instance

def ofDecl (catalog : Catalog) (container : Path) (above : Context) (decl : Decl) :
    Build (Candidate Instance) := do
  let site := decl.siteIn container
  site.checkKeys
  let name ← site.name
  let offset? ← site.number? .offset
  let componentName := (decl.get? .componentName).getD name
  let header ← site.header name above
  let component ← catalog.require site.path componentName
  match component.byteSize? with
  | none => site.failAttribute .componentName (.componentTooLarge componentName)
  | some size => .ok { item := { header, offset := 0, componentName, component }, offset?, size }

def family (catalog : Catalog) : Family Instance where
  kind := .componentInstance
  arrayKind := .instanceArray
  ofDecl := ofDecl catalog

end Instance

namespace MemoryMap

def ofDecl (catalog : Catalog) (defaults : MapDefaults) (decl : Decl) : Build MemoryMap := do
  let site ← decl.rootSite .memoryMap
  site.checkKeys
  let name ← site.name
  let base? ← site.number? .base
  let width? ← site.number? .width
  let width ← site.checkWordWidth (width?.getD defaults.busWidth)
  let header ← site.header name {}
  let candidates ← (Instance.family catalog).children site header.context
  let arranged ← arrange { placer := .aligned, resizer := .linear } candidates
  let declared? ← site.number? .size
  let layout ← settledLayout site.path arranged declared?
  .ok { header, base := base?.getD defaults.base, width, size := layout.size, layout }

end MemoryMap

end AddressMap
