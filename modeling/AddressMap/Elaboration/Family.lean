import AddressMap.Elaboration.Arrangement

/-!
# Families

The children of a container belong to one family: elements of one kind, and arrays of them. An
array repeats one template. The template is arranged in a frame, aligned to a power of two unless a
frame size is stated, and the array is as long as all its frames together.
-/

namespace AddressMap

set_option autoImplicit false

/-- What a container can hold, and how one of it is built from its declaration. -/
structure Family (α : Type) where
  kind : Kind
  arrayKind : Kind
  ofDecl : Path → Context → Decl → Build (Candidate α)

structure ArrayShape where
  count : Nat
  offset? : Option Nat
  framesize? : Option Nat
  size? : Option Nat
deriving DecidableEq, Repr

namespace Site

/-- The attributes of an array, read in the order in which their faults are reported. -/
def arrayShape (site : Site) : Build ArrayShape := do
  let count ← match ← site.positive? .count with
    | some count => .ok count
    | none => site.fail (.invalidStructure .missingCount)
  let offset? ← site.number? .offset
  let framesize? ← site.number? .framesize
  let size? ← site.number? .size
  .ok { count, offset?, framesize?, size? }

/-- The array at its path. An array without a name goes by the name of its template. -/
def namedAfter (array : Site) (container : Path) (template : Decl) : Build Site :=
  match array.decl.name? <|> template.name? with
  | some name => .ok ⟨array.decl, container.child name⟩
  | none => array.fail (.invalidStructure .namelessArray)

/-- The size of all frames. A size that is stated must be that size. -/
def arraySize (site : Site) (shape : ArrayShape) (framesize : Nat) : Build Nat := do
  match boundedProduct? framesize shape.count with
  | none => site.failAttribute .count (.framesOverflow shape.count framesize)
  | some size =>
      match shape.size? with
      | none => .ok size
      | some declared =>
          if declared = size then .ok size
          else site.fail (.arraySize declared framesize shape.count)

end Site

namespace Family

variable {α : Type} [Placeable α]

def template (family : Family α) (array : Site) : Build Decl :=
  match array.decl.children with
  | [template] =>
      if template.kind = family.kind then .ok template else array.refuseChild template
  | children => array.fail (.invalidStructure (.templateCount family.kind children.length))

def arrayOfDecl (family : Family α) (container : Path) (above : Context) (decl : Decl) :
    Build (Candidate (ElementArray α)) := do
  let unnamed := decl.siteIn container
  let template ← family.template unnamed
  let site ← unnamed.namedAfter container template
  site.checkKeys
  let shape ← site.arrayShape
  let header ← site.header site.path.leaf above
  let candidate ← family.ofDecl site.path header.context template
  let arranged ← arrange { placer := .aligned, resizer := .aligned } [candidate]
  let frame ← settledLayout site.path arranged shape.framesize?
  let size ← site.arraySize shape frame.size
  .ok
    { item :=
        { header
          offset := 0
          count := shape.count
          framesize := frame.size
          size
          frame }
      offset? := shape.offset?
      size
      placer? := some .aligned }

def entryOfDecl (family : Family α) (container : Site) (above : Context) (decl : Decl) :
    Build (Candidate (Entry α)) := do
  if decl.kind = family.kind then
    let candidate ← family.ofDecl container.path above decl
    .ok (candidate.map .single)
  else if decl.kind = family.arrayKind then
    let candidate ← family.arrayOfDecl container.path above decl
    .ok (candidate.map .array)
  else container.refuseChild decl

/-- Builds declarations in turn. Each must have a name that none before it has. -/
def entriesOfDecls (family : Family α) (container : Site) (above : Context) :
    List String → List Decl → Build (List (Candidate (Entry α)))
  | _, [] => .ok []
  | names, decl :: rest => do
      let candidate ← family.entryOfDecl container above decl
      claimName names candidate.path
      let others ← family.entriesOfDecls container above (candidate.path.leaf :: names) rest
      .ok (candidate :: others)

def children (family : Family α) (container : Site) (above : Context) :
    Build (List (Candidate (Entry α))) :=
  family.entriesOfDecls container above [] container.decl.children

end Family

end AddressMap
