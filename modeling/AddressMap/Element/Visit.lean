import AddressMap.Element.Tree

/-!
# Visiting elements

A visitor handles the kinds of elements it knows. A handler decides itself whether to go on to the
children, in which direction, and whether to follow an instance to its component; the ways to go on
are handed to it. An element of a kind without a handler ends the visit with an error.
-/

namespace AddressMap

set_option autoImplicit false

inductive VisitError where
  | unhandled (kind : Kind) (path : Path)
  | emit (path : Path) (reason : String)
deriving DecidableEq, Repr

namespace VisitError

def path : VisitError → Path
  | unhandled _ path => path
  | emit path _ => path

def message : VisitError → String
  | unhandled kind path => s!"no handler for {kind.title} `{path.text}`"
  | emit path reason => s!"failed to emit output for `{path.text}`: {reason}"

end VisitError

/-- A part of a visit, which reads and writes a state of the visitor. -/
abbrev Visit (σ α : Type) := ExceptT VisitError (StateM σ) α

/-- The ways on from an element. -/
structure Ways (σ ο : Type) where
  children : Visit σ (List ο)
  /-- Visits the children from the last to the first. -/
  reversed : Visit σ (List ο)
  /-- Visits the component of an instance. -/
  binding? : Option (Visit σ ο)

/-- The handlers of a visitor, by kind. -/
structure Visitor (σ ο : Type) where
  handler? : Kind → Option (Element → Ways σ ο → Visit σ ο)

def visitEach {σ ο : Type} : List (Visit σ ο) → Visit σ (List ο)
  | [] => pure []
  | first :: rest => do
      let answer ← first
      let answers ← visitEach rest
      pure (answer :: answers)

namespace Visitor

variable {σ ο : Type}

def step (visitor : Visitor σ ο) (binding? : Element → Option (Visit σ ο)) (element : Element)
    (children : List (Visit σ ο)) : Visit σ ο :=
  match visitor.handler? element.kind with
  | none => throw (.unhandled element.kind element.path)
  | some handle =>
      handle element
        { children := visitEach children
          reversed := visitEach children.reverse
          binding? := binding? element }

/-- Visits the component of an instance, in which there are no further instances. -/
def visitBinding? (visitor : Visitor σ ο) : Element → Option (Visit σ ο)
  | .componentInstance placed =>
      some (Element.foldComponent (visitor.step fun _ => none) placed.component)
  | _ => none

def visit (visitor : Visitor σ ο) (element : Element) : Visit σ ο :=
  element.fold (visitor.step visitor.visitBinding?)

theorem visit_eq (visitor : Visitor σ ο) (element : Element) :
    visitor.visit element =
      visitor.step visitor.visitBinding? element (element.children.map visitor.visit) := by
  unfold visit
  exact Element.fold_eq _ element

end Visitor

structure Traversal (σ ο ρ : Type) where
  visitor : Visitor σ ο
  start : Element → Visit σ Unit := fun _ => pure ()
  finish : ο → Visit σ ρ

namespace Traversal

def run {σ ο ρ : Type} (traversal : Traversal σ ο ρ) (root : Element) : Visit σ ρ := do
  traversal.start root
  let answer ← traversal.visitor.visit root
  traversal.finish answer

end Traversal

end AddressMap
