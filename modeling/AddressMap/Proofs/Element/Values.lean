import AddressMap.Element.Tree

/-!
# What elements hold

An element holds a value under each attribute of its kind, and its declaration may spell that value.
Registers, fields, instances and arrays take some room in their container. Containers have a
capacity, and most of them can work it out from what is inside.
-/

namespace AddressMap

set_option autoImplicit false

inductive AttributeValue where
  | text (value : String)
  | truth (value : Bool)
  | format (value : Format)
  | number (value : Nat)
deriving DecidableEq, Repr

/-- The value that a text spells. Names are taken as they are. -/
def Attribute.read? (attr : Attribute) (text : String) : Option AttributeValue :=
  match attr with
  | name | componentName => some (.text text)
  | readOnly | writeOnly => (readTruth? text).map .truth
  | format => (Format.ofKeyword? text).map .format
  | offset | size | width | reset | count | framesize | base | value =>
      (readNumeral? text).map .number

def Attribute.isNumber : Attribute → Bool
  | name | readOnly | writeOnly | format | componentName => false
  | offset | size | width | reset | count | framesize | base | value => true

theorem Attribute.read?_of_number {attr : Attribute} (numeric : attr.isNumber = true)
    (text : String) : attr.read? text = (readNumeral? text).map .number := by
  cases attr <;> first | contradiction | rfl

def leastFrame (stop : Nat) : Nat :=
  if stop = 0 then 0 else leastPowerOfTwo stop

namespace ElementArray

variable {α : Type}

def number? (array : ElementArray α) : Attribute → Option Nat
  | .offset => some array.offset
  | .count => some array.count
  | .framesize => some array.framesize
  | .size => some array.size
  | _ => none

/-- The attribute that may state how long a frame is, and what it is otherwise. -/
def fitting (array : ElementArray α) : Attribute × Nat :=
  (.framesize, leastFrame array.frame.top)

end ElementArray

namespace Element

/-- The number that the element holds under an attribute. A register is always one word long. -/
def number? : Element → Attribute → Option Nat
  | component element, .width => some element.width
  | component element, .size => some element.size
  | registerArray element, attr => element.number? attr
  | register element, .offset => some element.offset
  | register _, .size => some 1
  | register element, .width => some element.width
  | register element, .reset => some element.reset
  | fieldArray element, attr => element.number? attr
  | field element, .offset => some element.offset
  | field element, .size => some element.size
  | enumValue element, .value => some element.value
  | memoryMap element, .base => some element.base
  | memoryMap element, .width => some element.width
  | memoryMap element, .size => some element.size
  | instanceArray element, attr => element.number? attr
  | componentInstance element, .offset => some element.offset
  | _, _ => none

def componentName? : Element → Option String
  | componentInstance element => some element.componentName
  | _ => none

def value? (element : Element) (attr : Attribute) : Option AttributeValue :=
  match attr with
  | .name => some (.text element.name)
  | .readOnly => some (.truth element.header.access.isReadOnly)
  | .writeOnly => some (.truth element.header.access.isWriteOnly)
  | .format => some (.format element.header.format)
  | .componentName => element.componentName?.map .text
  | .offset | .size | .width | .reset | .count | .framesize | .base | .value =>
      (element.number? attr).map .number

theorem value?_of_number {attr : Attribute} (numeric : attr.isNumber = true)
    (element : Element) : element.value? attr = (element.number? attr).map .number := by
  cases attr <;> first | contradiction | rfl

def length? : Element → Option Nat
  | component _ | enumValue _ | memoryMap _ => none
  | registerArray element => some element.size
  | register _ => some 1
  | fieldArray element => some element.size
  | field element => some element.size
  | instanceArray element => some element.size
  | componentInstance element => some (element.component.size * element.component.width / 8)

def layout? : Element → Option (Layout Element)
  | component element => some (element.layout.map (·.item.toElement register registerArray))
  | registerArray element => some (element.frame.map (register ·.item))
  | register element => some (element.layout.map (·.item.toElement field fieldArray))
  | fieldArray element => some (element.frame.map (field ·.item))
  | memoryMap element =>
      some (element.layout.map (·.item.toElement componentInstance instanceArray))
  | instanceArray element => some (element.frame.map (componentInstance ·.item))
  | field _ | enumValue _ | componentInstance _ => none

theorem children_of_layout? {element : Element} {layout : Layout Element}
    (holds : element.layout? = some layout) :
    element.children = layout.items.map (·.item) := by
  cases element <;> cases holds <;> simp [children, Layout.elements, Layout.map, Placed.map]

def capacity? : Element → Option Nat
  | component element => some element.size
  | registerArray element => some element.framesize
  | register element => some element.width
  | fieldArray element => some element.framesize
  | memoryMap element => some element.size
  | instanceArray element => some element.framesize
  | field _ | enumValue _ | componentInstance _ => none

def fitting? : Element → Option (Attribute × Nat)
  | component element => some (.size, element.layout.top)
  | registerArray element => some element.fitting
  | fieldArray element => some element.fitting
  | memoryMap element => some (.size, element.layout.top)
  | instanceArray element => some element.fitting
  | register _ | field _ | enumValue _ | componentInstance _ => none

end Element

end AddressMap
