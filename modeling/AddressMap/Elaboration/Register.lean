import AddressMap.Elaboration.Field

/-!
# Registers

A register is one word, of which it uses as many bits as it states or all. Whatever goes wrong with
the places of its fields is a fault of range: fields that overlap, and fields beyond the width.
-/

namespace AddressMap

set_option autoImplicit false

namespace Register

/-- The fault of a field that meets another is that its bits are taken. -/
def overlapAsRange (error : BuildError) : BuildError :=
  match error.fault with
  | .overlap start size blockerStart blockerSize =>
      { error with
        fault := .fieldRange
          (.overlap start (start + size) blockerStart (blockerStart + blockerSize)) }
  | _ => error

def arrangeFields (path : Path) (width : Nat) (candidates : List (Candidate (Entry Field))) :
    Build (Layout (Entry Field)) := do
  let space ← (arrange { placer := .linear, resizer := .linear } candidates).mapError
    overlapAsRange
  match space.layout.items.find? fun placed => width < placed.stop with
  | some outside =>
      .error ⟨outside.item.header.path,
        .fieldRange (.outside outside.start outside.stop width)⟩
  | none => settledLayout path space (some width)

/-- Refuses a register of another size than one word. -/
def checkSize (site : Site) : Build Unit := do
  match ← site.number? .size with
  | some size => if size = 1 then .ok () else site.failAttribute .size (.registerSize size)
  | none => .ok ()

def statedWidth (site : Site) (wordWidth : Nat) : Build Nat := do
  match ← site.number? .width with
  | none => .ok wordWidth
  | some width =>
      if 1 ≤ width ∧ width ≤ wordWidth then .ok width
      else site.fail (.invalidWidth width (.notInWord wordWidth))

def statedReset (site : Site) (width : Nat) : Build Nat := do
  let reset? ← site.number? .reset
  let reset := reset?.getD 0
  if hasWidth reset width then .ok reset else site.fail (.fieldRange (.reset reset width))

def ofDecl (wordWidth : Nat) (container : Path) (above : Context) (decl : Decl) :
    Build (Candidate Register) := do
  let site := decl.siteIn container
  site.checkKeys
  let name ← site.name
  let offset? ← site.number? .offset
  checkSize site
  let width ← statedWidth site wordWidth
  let reset ← statedReset site width
  let header ← site.header name above
  let candidates ← Field.family.children site header.context
  let layout ← arrangeFields site.path width candidates
  .ok { item := { header, offset := 0, width, reset, layout }, offset?, size := 1 }

def family (wordWidth : Nat) : Family Register where
  kind := .register
  arrayKind := .registerArray
  ofDecl := ofDecl wordWidth

end Register

end AddressMap
