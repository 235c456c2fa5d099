import AddressMap.Element.Visit
import AddressMap.Output.Writer
import AddressMap.Output.Stated
import AddressMap.Text.Wrap

/-!
# Outlines

An outline has a line for each element, behind it the description of the element and its
children, both one level deeper. Registers and instances lead with their offset, and other kinds
list their attributes. Descriptions are wrapped so that lines with their indent keep to
`lineWidth`.
-/

namespace AddressMap

set_option autoImplicit false

def lineWidth : Nat := 100

def indentStep : Nat := 4

namespace Access

def mark : Access → String
  | readWrite => ""
  | readOnly => " RO"
  | writeOnly => " WO"

end Access

namespace Element

/-- The kind, the name and the attributes of an element, for the kinds without a shorter form. -/
def listedLine (element : Element) : String :=
  let attrs := element.stated.map fun entry => s!"{entry.1.key}={entry.2}"
  let format := element.header.format
  let formats := if format = .bits then [] else [s!"format={format.keyword}"]
  let listed := String.intercalate "," (attrs ++ formats)
  s!"{element.kind.title} {element.name} ({listed}{element.header.access.mark})"

def outlineLine (element : Element) : String :=
  let access := element.header.access.mark
  match element with
  | component item => s!"component {element.name} (size={item.size}{access})"
  | register item => s!"({item.offset}) {element.name} (reset={hex item.reset}{access})"
  | enumValue item => s!"{element.name} = {item.value}"
  | componentInstance item => s!"({item.offset}) {item.componentName} {element.name}"
  | _ => element.listedLine

def descriptionLines (element : Element) (level : Nat) : List String :=
  element.header.description.flatMap (wrap (lineWidth - level * indentStep))

end Element

namespace Outline

structure State (ω : Type) where
  writer : ω
  level : Nat := 0

variable {ω : Type} [Writer ω]

def put (text : String) : Visit (State ω) Unit :=
  modify fun state => { state with writer := Writer.line state.writer state.level text }

def putAll : List String → Visit (State ω) Unit
  | [] => pure ()
  | text :: rest => do
      put text
      putAll rest

def deeper : Visit (State ω) Unit :=
  modify fun state => { state with level := state.level + 1 }

def higher : Visit (State ω) Unit :=
  modify fun state => { state with level := state.level - 1 }

def handle (element : Element) (ways : Ways (State ω) Unit) : Visit (State ω) Unit := do
  put element.outlineLine
  deeper
  putAll (element.descriptionLines (← get).level)
  let _ ← ways.children
  higher

def visitor : Visitor (State ω) Unit where
  handler? _ := some handle

def traversal : Traversal (State ω) Unit ω where
  visitor := visitor
  finish _ := do return (← get).writer

def write (writer : ω) (root : Element) : Except VisitError ω :=
  ((traversal.run root).run { writer }).run.1

end Outline

end AddressMap
