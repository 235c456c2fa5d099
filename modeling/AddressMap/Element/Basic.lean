import AddressMap.Access
import AddressMap.Path
import AddressMap.Space.Layout

/-!
# Elements

An element is a declaration with everything worked out. Components hold registers, registers hold
fields, fields name some of their values, and memory maps hold instances of components. Registers,
fields and instances may also come in arrays, which repeat one template in equal frames. Every
element records the offset at which its container's layout holds it.
-/

namespace AddressMap

set_option autoImplicit false

structure Header where
  name : String
  path : Path
  description : List String
  access : Access
  format : Format
deriving DecidableEq, Repr

/-- A value of a field that has a name. -/
structure EnumValue where
  header : Header
  value : Nat
deriving DecidableEq, Repr

/-- Some bits of a register. -/
structure Field where
  header : Header
  offset : Nat
  size : Nat
  /-- The named values, as declared. -/
  values : List EnumValue
deriving DecidableEq, Repr

/-- One template repeated `count` times, each time in a frame of its own. -/
structure ElementArray (α : Type) where
  header : Header
  offset : Nat
  count : Nat
  framesize : Nat
  size : Nat
  /-- The layout of each frame, which holds the template. -/
  frame : Layout α
deriving DecidableEq, Repr

/-- What a container holds: elements of one kind, and arrays of them. -/
inductive Entry (α : Type) where
  | single (element : α)
  | array (elements : ElementArray α)
deriving DecidableEq, Repr

/-- One word of a component. -/
structure Register where
  header : Header
  /-- The word of the component. -/
  offset : Nat
  /-- The number of bits in use. -/
  width : Nat
  /-- The value after a reset. -/
  reset : Nat
  layout : Layout (Entry Field)
deriving DecidableEq, Repr

/-- A block of registers that is mapped as one. -/
structure Component where
  header : Header
  /-- The number of bits in a word. -/
  width : Nat
  /-- The number of words. -/
  size : Nat
  layout : Layout (Entry Register)
deriving DecidableEq, Repr

/-- A component at a place of a memory map. -/
structure Instance where
  header : Header
  /-- The first byte, counted from the base of the map. -/
  offset : Nat
  /-- The name that the component was asked for by. -/
  componentName : String
  component : Component
deriving DecidableEq, Repr

/-- A bus with components on it. -/
structure MemoryMap where
  header : Header
  /-- The address of the first byte. -/
  base : Nat
  /-- The number of bits that the bus moves at once. -/
  width : Nat
  /-- The number of bytes. -/
  size : Nat
  layout : Layout (Entry Instance)
deriving DecidableEq, Repr

namespace Header

/-- The paragraphs with an empty line between them. -/
def descriptionText (header : Header) : String :=
  String.intercalate "\n\n" header.description

end Header

namespace ElementArray

def template? {α : Type} (array : ElementArray α) : Option α :=
  array.frame.items.head?.map (·.item)

end ElementArray

namespace Register

def hasFields (register : Register) : Bool :=
  !register.layout.items.isEmpty

end Register

namespace Component

def wordBytes (component : Component) : Nat :=
  component.width / 8

def byteSize? (component : Component) : Option Nat :=
  boundedProduct? component.size component.wordBytes

end Component

namespace Instance

def byteSize? (placed : Instance) : Option Nat :=
  placed.component.byteSize?

end Instance

end AddressMap
