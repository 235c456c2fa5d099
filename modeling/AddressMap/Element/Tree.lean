import AddressMap.Element.Basic
import AddressMap.Kind

/-!
# The tree of elements

An `Element` is an element of any kind. The main statement, `fold_eq`, says that `fold` answers for
an element what the step makes of it and of the answers for its children. The component that an
instance is bound to is shared and not a child of the instance.
-/

namespace AddressMap

set_option autoImplicit false

inductive Element where
  | component (component : Component)
  | registerArray (array : ElementArray Register)
  | register (register : Register)
  | fieldArray (array : ElementArray Field)
  | field (field : Field)
  | enumValue (value : EnumValue)
  | memoryMap (map : MemoryMap)
  | instanceArray (array : ElementArray Instance)
  | componentInstance (placed : Instance)
deriving DecidableEq, Repr

namespace Entry

variable {α : Type}

def toElement (single : α → Element) (array : ElementArray α → Element) : Entry α → Element
  | .single element => single element
  | .array elements => array elements

end Entry

namespace Layout

variable {α : Type}

def elements (toElement : α → Element) (layout : Layout α) : List Element :=
  layout.items.map fun placed => toElement placed.item

end Layout

namespace Element

def kind : Element → Kind
  | component _ => .component
  | registerArray _ => .registerArray
  | register _ => .register
  | fieldArray _ => .fieldArray
  | field _ => .field
  | enumValue _ => .enumValue
  | memoryMap _ => .memoryMap
  | instanceArray _ => .instanceArray
  | componentInstance _ => .componentInstance

def header : Element → Header
  | component element => element.header
  | registerArray element => element.header
  | register element => element.header
  | fieldArray element => element.header
  | field element => element.header
  | enumValue element => element.header
  | memoryMap element => element.header
  | instanceArray element => element.header
  | componentInstance element => element.header

def name (element : Element) : String :=
  element.header.name

def path (element : Element) : Path :=
  element.header.path

/-- Where the element stands in its container; a named value reports the value. Roots stand
nowhere. -/
def offset? : Element → Option Nat
  | component _ | memoryMap _ => none
  | registerArray element => some element.offset
  | register element => some element.offset
  | fieldArray element => some element.offset
  | field element => some element.offset
  | enumValue element => some element.value
  | instanceArray element => some element.offset
  | componentInstance element => some element.offset

/-- The elements directly inside: in address order where they are laid out, as declared where they
are named values. -/
def children : Element → List Element
  | component element => element.layout.elements (·.toElement register registerArray)
  | registerArray element => element.frame.elements register
  | register element => element.layout.elements (·.toElement field fieldArray)
  | fieldArray element => element.frame.elements field
  | field element => element.values.map enumValue
  | enumValue _ => []
  | memoryMap element => element.layout.elements (·.toElement componentInstance instanceArray)
  | instanceArray element => element.frame.elements componentInstance
  | componentInstance _ => []

section Fold

variable {β : Type} (step : Element → List β → β)

def foldLayout {α : Type} (inner : α → β) (layout : Layout α) : List β :=
  layout.items.map fun placed => inner placed.item

def foldEntry {α : Type} (array : ElementArray α → Element) (inner : α → β) : Entry α → β
  | .single element => inner element
  | .array elements => step (array elements) (foldLayout inner elements.frame)

def foldValue (value : EnumValue) : β :=
  step (.enumValue value) []

def foldField (element : Field) : β :=
  step (.field element) (element.values.map (foldValue step))

def foldRegister (element : Register) : β :=
  step (.register element) (foldLayout (foldEntry step fieldArray (foldField step)) element.layout)

def foldComponent (element : Component) : β :=
  step (.component element)
    (foldLayout (foldEntry step registerArray (foldRegister step)) element.layout)

def foldInstance (element : Instance) : β :=
  step (.componentInstance element) []

def foldMemoryMap (element : MemoryMap) : β :=
  step (.memoryMap element)
    (foldLayout (foldEntry step instanceArray (foldInstance step)) element.layout)

/-- The answer of the step for an element, given the answers for its children. -/
def fold : Element → β
  | component element => foldComponent step element
  | registerArray element => step (.registerArray element)
      (foldLayout (foldRegister step) element.frame)
  | register element => foldRegister step element
  | fieldArray element => step (.fieldArray element) (foldLayout (foldField step) element.frame)
  | field element => foldField step element
  | enumValue element => foldValue step element
  | memoryMap element => foldMemoryMap step element
  | instanceArray element => step (.instanceArray element)
      (foldLayout (foldInstance step) element.frame)
  | componentInstance element => foldInstance step element

theorem fold_to_element {α : Type} (single : α → Element) (array : ElementArray α → Element)
    (inner : α → β) (singleFold : ∀ element, fold step (single element) = inner element)
    (arrayFold : ∀ elements,
      fold step (array elements) = step (array elements) (foldLayout inner elements.frame))
    (entry : Entry α) :
    fold step (entry.toElement single array) = foldEntry step array inner entry := by
  cases entry with
  | single element => exact singleFold element
  | array elements => exact arrayFold elements

theorem map_fold_elements {α : Type} (toElement : α → Element) (inner : α → β)
    (same : ∀ item, fold step (toElement item) = inner item) (layout : Layout α) :
    (layout.elements toElement).map (fold step) = foldLayout inner layout := by
  simp [Layout.elements, foldLayout, same]

theorem fold_eq (element : Element) :
    fold step element = step element (element.children.map (fold step)) := by
  cases element with
  | component element =>
      simp only [children]
      rw [map_fold_elements step _ _
        (fold_to_element step register registerArray _ (fun _ => rfl) (fun _ => rfl))]
      rfl
  | registerArray element =>
      simp only [children]
      rw [map_fold_elements step register (foldRegister step) (fun _ => rfl)]
      rfl
  | register element =>
      simp only [children]
      rw [map_fold_elements step _ _
        (fold_to_element step field fieldArray _ (fun _ => rfl) (fun _ => rfl))]
      rfl
  | fieldArray element =>
      simp only [children]
      rw [map_fold_elements step field (foldField step) (fun _ => rfl)]
      rfl
  | field element =>
      simp only [children, List.map_map]
      rfl
  | enumValue element => rfl
  | memoryMap element =>
      simp only [children]
      rw [map_fold_elements step _ _
        (fold_to_element step componentInstance instanceArray _ (fun _ => rfl) (fun _ => rfl))]
      rfl
  | instanceArray element =>
      simp only [children]
      rw [map_fold_elements step componentInstance (foldInstance step) (fun _ => rfl)]
      rfl
  | componentInstance element => rfl

end Fold

/-- The element and all elements inside, each before those inside it. -/
def preorder : Element → List Element :=
  fold fun element below => element :: below.flatten

theorem preorder_eq (element : Element) :
    element.preorder = element :: element.children.flatMap preorder := by
  unfold preorder
  rw [fold_eq, List.flatMap_def]

end Element

end AddressMap
