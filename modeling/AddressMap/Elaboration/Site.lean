import AddressMap.Decl.Basic
import AddressMap.Elaboration.Error
import AddressMap.Element.Basic

/-!
# Sites

A site is a declaration together with the path of the element that it becomes. Here its attributes
are read as values, and what it does not state is taken from the context.
-/

namespace AddressMap

set_option autoImplicit false

structure Site where
  decl : Decl
  path : Path

/-- What an element hands down to those inside it. -/
structure Context where
  access : Access := .readWrite
  format : Format := .bits
deriving DecidableEq, Repr

namespace Header

def context (header : Header) : Context :=
  { access := header.access, format := header.format }

end Header

namespace Decl

def siteIn (decl : Decl) (container : Path) : Site :=
  ⟨decl, container.child decl.label⟩

end Decl

namespace Site

variable {α : Type}

def fail (site : Site) (fault : Fault) : Build α :=
  .error ⟨site.path, fault⟩

def failAttribute (site : Site) (attr : Attribute) (cause : AttributeFault) : Build α :=
  site.fail (.invalidAttribute attr.key cause)

def checkKeys (site : Site) : Build Unit :=
  let known := site.decl.kind.attributes.map Attribute.key
  match site.decl.attrs.entries.find? fun entry => !known.contains entry.1 with
  | some entry => site.fail (.invalidAttribute entry.1 (.unknown site.decl.kind))
  | none => .ok ()

def readAttribute? (site : Site) (attr : Attribute) (read? : String → Option α)
    (cause : String → AttributeFault) : Build (Option α) :=
  match site.decl.get? attr with
  | none => .ok none
  | some text =>
      match read? text with
      | some value => .ok (some value)
      | none => site.failAttribute attr (cause text)

def number? (site : Site) (attr : Attribute) : Build (Option Nat) :=
  site.readAttribute? attr readNumeral? .notNumber

def positive? (site : Site) (attr : Attribute) : Build (Option Nat) := do
  match ← site.number? attr with
  | some 0 => site.failAttribute attr .zero
  | number? => .ok number?

def truth? (site : Site) (attr : Attribute) : Build (Option Bool) :=
  site.readAttribute? attr readTruth? .notTruth

def format? (site : Site) : Build (Option Format) :=
  site.readAttribute? .format Format.ofKeyword? .notFormat

/-- The name, which every element but an array must state. -/
def name (site : Site) : Build String :=
  match site.decl.name? with
  | some name => .ok name
  | none => site.fail (.invalidStructure (.missing site.decl.kind .name))

def header (site : Site) (name : String) (above : Context) : Build Header := do
  let readOnly? ← site.truth? .readOnly
  let writeOnly? ← site.truth? .writeOnly
  match above.access.inherit? readOnly? writeOnly? with
  | none => site.failAttribute .writeOnly .bothRestrictions
  | some access => do
      let format? ← site.format?
      .ok
        { name
          path := site.path
          description := site.decl.description
          access
          format := format?.getD above.format }

/-- The number of bits of a word or of a bus, if it may be that: a power of two, at least eight and
below `wordWidthBound`. -/
def checkWordWidth (site : Site) (width : Nat) : Build Nat :=
  if 8 ≤ width ∧ isPowerOfTwo width ∧ width < wordWidthBound then .ok width
  else site.fail (.invalidWidth width .notWord)

/-- Refuses a child whose kind has no place in the container. A child that counts its offset in
another unit than the container could not be given one there. -/
def refuseChild (container : Site) (child : Decl) : Build α :=
  let site := child.siteIn container.path
  match container.decl.kind.spaceUnit?, child.kind.unit? with
  | some outer, some inner =>
      if outer = inner then
        site.fail (.invalidStructure (.misplaced child.kind container.decl.kind))
      else
        site.fail (.unresolvableOffset (.otherUnit child.kind inner container.decl.kind outer))
  | _, _ => site.fail (.invalidStructure (.misplaced child.kind container.decl.kind))

end Site

/-- Whether an address, which has no more than sixty-four bits, can be written with so many. -/
def hasWidth (value bits : Nat) : Bool :=
  decide (64 ≤ bits) || value >>> bits == 0

end AddressMap
