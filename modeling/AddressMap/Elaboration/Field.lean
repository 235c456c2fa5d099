import AddressMap.Elaboration.Family

/-!
# Fields

A field is one bit wide unless it states a size. Its children name values. A named value without a
number gets the one after the largest before it, and the first gets zero.
-/

namespace AddressMap

set_option autoImplicit false

namespace EnumValue

def next? : (largest? : Option Nat) → Option Nat
  | none => some 0
  | some largest => boundedSum? largest 1

def largestWith (largest? : Option Nat) (value : Nat) : Nat :=
  largest?.elim value (max value)

/-- The number of a named value: the stated one, or the next. -/
def number (site : Site) (largest? : Option Nat) : Build Nat := do
  match ← site.number? .value with
  | some value => .ok value
  | none =>
      match next? largest? with
      | some value => .ok value
      | none => site.fail (.fieldRange .noValueLeft)

/-- Builds one named value of a field of this size, behind values with these names and this largest
number. -/
def ofDecl (field : Site) (size : Nat) (above : Context) (names : List String)
    (largest? : Option Nat) (decl : Decl) : Build EnumValue := do
  if decl.kind ≠ .enumValue then field.refuseChild decl
  else
    let site := decl.siteIn field.path
    site.checkKeys
    let name ← site.name
    claimName names site.path
    let value ← number site largest?
    if hasWidth value size then
      let header ← site.header name above
      .ok { header, value }
    else site.fail (.fieldRange (.value value size))

def ofDecls (field : Site) (size : Nat) (above : Context) :
    List String → Option Nat → List Decl → Build (List EnumValue)
  | _, _, [] => .ok []
  | names, largest?, decl :: rest => do
      let value ← ofDecl field size above names largest? decl
      let others ← ofDecls field size above (value.header.path.leaf :: names)
        (some (largestWith largest? value.value)) rest
      .ok (value :: others)

end EnumValue

namespace Field

def ofDecl (container : Path) (above : Context) (decl : Decl) : Build (Candidate Field) := do
  let site := decl.siteIn container
  site.checkKeys
  let name ← site.name
  let offset? ← site.number? .offset
  let size? ← site.positive? .size
  let size := size?.getD 1
  let header ← site.header name above
  let values ← EnumValue.ofDecls site size header.context [] none decl.children
  .ok { item := { header, offset := 0, size, values }, offset?, size }

def family : Family Field where
  kind := .field
  arrayKind := .fieldArray
  ofDecl := ofDecl

end Field

end AddressMap
