import AddressMap.Elaboration.Register

/-!
# Components

A component states the width of its words. Registers take a word each and arrays of registers are
aligned to a power of two. Without a size of its own the component ends behind its last word.
-/

namespace AddressMap

set_option autoImplicit false

namespace Decl

def rootSite (decl : Decl) (kind : Kind) : Build Site :=
  let site : Site := ⟨decl, Path.root decl.label⟩
  if decl.kind = kind then .ok site
  else site.fail (.invalidStructure (.otherKind kind decl.kind))

end Decl

namespace Component

def statedWidth (site : Site) : Build Nat := do
  match ← site.number? .width with
  | none => site.fail (.invalidStructure (.missing site.decl.kind .width))
  | some width => site.checkWordWidth width

def ofDecl (decl : Decl) : Build Component := do
  let site ← decl.rootSite .component
  site.checkKeys
  let name ← site.name
  let width ← statedWidth site
  let header ← site.header name {}
  let candidates ← (Register.family width).children site header.context
  let arranged ← arrange { placer := .linear, resizer := .linear } candidates
  let declared? ← site.number? .size
  let layout ← settledLayout site.path arranged declared?
  .ok { header, width, size := layout.size, layout }

end Component

end AddressMap
