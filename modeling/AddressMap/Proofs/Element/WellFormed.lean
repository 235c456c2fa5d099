import AddressMap.Elaboration.Design
import AddressMap.Proofs.Element.Descent
import AddressMap.Proofs.Space.Validity

/-!
# Well-formed elements

An element is well-formed when its path leads through its container, its layout is valid and records
for each child the child's own offset and size, no two children share a name, and every number is an
address and within what bounds it. An array holds one template, in a frame no shorter than it. The
offset of an element is not part of this: the layout of the container answers for it. Everything
inside a well-formed element is well-formed.
-/

namespace AddressMap

set_option autoImplicit false

class Sited (α : Type) [Placeable α] where
  offset : α → Nat
  /-- How much of the container the element takes. -/
  size : α → Nat
  offset_move_to (element : α) (start : Nat) : offset (Placeable.moveTo element start) = start
  size_move_to (element : α) (start : Nat) : size (Placeable.moveTo element start) = size element
  header_move_to (element : α) (start : Nat) :
    Placeable.header (Placeable.moveTo element start) = Placeable.header element
  move_to_move_to (element : α) (first second : Nat) :
    Placeable.moveTo (Placeable.moveTo element first) second = Placeable.moveTo element second
  move_to_offset (element : α) : Placeable.moveTo element (offset element) = element

attribute [simp] Sited.offset_move_to Sited.size_move_to Sited.header_move_to
  Sited.move_to_move_to Sited.move_to_offset

instance : Sited Field where
  offset := Field.offset
  size := Field.size
  offset_move_to _ _ := rfl
  size_move_to _ _ := rfl
  header_move_to _ _ := rfl
  move_to_move_to _ _ _ := rfl
  move_to_offset _ := rfl

instance : Sited Register where
  offset := Register.offset
  size _ := 1
  offset_move_to _ _ := rfl
  size_move_to _ _ := rfl
  header_move_to _ _ := rfl
  move_to_move_to _ _ _ := rfl
  move_to_offset _ := rfl

instance : Sited Instance where
  offset := Instance.offset
  size placed := placed.byteSize?.getD 0
  offset_move_to _ _ := rfl
  size_move_to _ _ := rfl
  header_move_to _ _ := rfl
  move_to_move_to _ _ _ := rfl
  move_to_offset _ := rfl

namespace Entry

variable {α : Type} [Placeable α] [Sited α]

def offset : Entry α → Nat
  | single element => Sited.offset element
  | array elements => elements.offset

def size : Entry α → Nat
  | single element => Sited.size element
  | array elements => elements.size

end Entry

instance {α : Type} [Placeable α] [Sited α] : Sited (Entry α) where
  offset := Entry.offset
  size := Entry.size
  offset_move_to entry start := by
    cases entry with
    | single element => exact Sited.offset_move_to element start
    | array elements => rfl
  size_move_to entry start := by
    cases entry with
    | single element => exact Sited.size_move_to element start
    | array elements => rfl
  header_move_to entry start := by
    cases entry with
    | single element => exact Sited.header_move_to element start
    | array elements => rfl
  move_to_move_to entry first second := by
    cases entry with
    | single element => exact congrArg Entry.single (Sited.move_to_move_to element first second)
    | array elements => rfl
  move_to_offset entry := by
    cases entry with
    | single element => exact congrArg Entry.single (Sited.move_to_offset element)
    | array elements => rfl

namespace Layout

variable {α : Type} [Placeable α] [Sited α]

/-- A valid layout that agrees with its children on where they stand and how long they are. -/
structure Seats (layout : Layout α) (good : α → Prop) : Prop where
  valid : layout.Valid
  sited : ∀ placed ∈ layout.items,
    placed.start = Sited.offset placed.item ∧ placed.size = Sited.size placed.item
  distinct : (layout.items.map fun placed => (Placeable.header placed.item).path.leaf).Nodup
  good : ∀ placed ∈ layout.items, good placed.item

structure Holds (layout : Layout α) (good : α → Prop) : Prop extends Seats layout good where
  settled : layout.extent = some layout.size
  covered : layout.top ≤ layout.size
  bounded : layout.size ≤ maxAddress

end Layout

structure EnumValue.WellFormed (size : Nat) (container : Path) (value : EnumValue) : Prop where
  path : value.header.path = container.child value.header.name
  fits : hasWidth value.value size
  bounded : value.value ≤ maxAddress

structure Field.WellFormed (container : Path) (field : Field) : Prop where
  path : field.header.path = container.child field.header.name
  positive : 0 < field.size
  bounded : field.size ≤ maxAddress
  values : ∀ value ∈ field.values, value.WellFormed field.size field.header.path
  distinct : (field.values.map (·.header.name)).Nodup

structure ElementArray.WellFormed {α : Type} [Placeable α] [Sited α] (good : Path → α → Prop)
    (container : Path) (array : ElementArray α) : Prop where
  path : array.header.path = container.child array.header.name
  repeated : 0 < array.count
  countBounded : array.count ≤ maxAddress
  template : ∃ placed, array.frame.items = [placed]
  frame : array.frame.Holds (good array.header.path)
  framesize : array.framesize = array.frame.size
  size : array.size = array.framesize * array.count
  bounded : array.size ≤ maxAddress

def Entry.WellFormed {α : Type} [Placeable α] [Sited α] (good : Path → α → Prop)
    (container : Path) : Entry α → Prop
  | .single element => good container element
  | .array elements => elements.WellFormed good container

structure Register.WellFormed (wordWidth : Nat) (container : Path) (register : Register) :
    Prop where
  path : register.header.path = container.child register.header.name
  positive : 1 ≤ register.width
  inWord : register.width ≤ wordWidth
  fits : hasWidth register.reset register.width
  resetBounded : register.reset ≤ maxAddress
  layout : register.layout.Holds (Entry.WellFormed Field.WellFormed register.header.path)
  width : register.width = register.layout.size

def IsWordWidth (width : Nat) : Prop :=
  8 ≤ width ∧ isPowerOfTwo width ∧ width < wordWidthBound

structure Component.WellFormed (component : Component) : Prop where
  path : component.header.path = Path.root component.header.name
  width : IsWordWidth component.width
  layout : component.layout.Holds
    (Entry.WellFormed (Register.WellFormed component.width) component.header.path)
  size : component.size = component.layout.size

structure Instance.WellFormed (catalog : Catalog) (container : Path) (placed : Instance) :
    Prop where
  path : placed.header.path = container.child placed.header.name
  bound : catalog.get? placed.componentName = some placed.component
  sized : placed.byteSize? = some (Sited.size placed)

structure MemoryMap.WellFormed (catalog : Catalog) (map : MemoryMap) : Prop where
  path : map.header.path = Path.root map.header.name
  width : IsWordWidth map.width
  layout : map.layout.Holds
    (Entry.WellFormed (Instance.WellFormed catalog) map.header.path)
  size : map.size = map.layout.size

def Element.WellFormed : Element → Prop
  | .component element => element.WellFormed
  | .registerArray element =>
      ∃ wordWidth container, element.WellFormed (Register.WellFormed wordWidth) container
  | .register element => ∃ wordWidth container, element.WellFormed wordWidth container
  | .fieldArray element => ∃ container, element.WellFormed Field.WellFormed container
  | .field element => ∃ container, element.WellFormed container
  | .enumValue element => ∃ size container, element.WellFormed size container
  | .memoryMap element => ∃ catalog, element.WellFormed catalog
  | .instanceArray element =>
      ∃ catalog container, element.WellFormed (Instance.WellFormed catalog) container
  | .componentInstance element => ∃ catalog container, element.WellFormed catalog container

namespace Element

/-- The same, given the number of bits in a word of the component around the element and the
components that instances may be bound to. -/
def WellFormedIn (wordWidth : Nat) (catalog : Catalog) : Element → Prop
  | component element => element.WellFormed ∧ element.width = wordWidth
  | registerArray element =>
      ∃ container, element.WellFormed (Register.WellFormed wordWidth) container
  | register element => ∃ container, element.WellFormed wordWidth container
  | fieldArray element => ∃ container, element.WellFormed Field.WellFormed container
  | field element => ∃ container, element.WellFormed container
  | enumValue element => ∃ size container, element.WellFormed size container
  | memoryMap element => element.WellFormed catalog
  | instanceArray element =>
      ∃ container, element.WellFormed (Instance.WellFormed catalog) container
  | componentInstance element => ∃ container, element.WellFormed catalog container

theorem WellFormedIn.well_formed {wordWidth : Nat} {catalog : Catalog} {element : Element}
    (well : element.WellFormedIn wordWidth catalog) : element.WellFormed := by
  cases element with
  | component element => exact well.1
  | registerArray element | register element => exact ⟨wordWidth, well⟩
  | fieldArray element | field element | enumValue element => exact well
  | memoryMap element | instanceArray element | componentInstance element => exact ⟨catalog, well⟩

theorem well_formed_in_of_mem_children {wordWidth : Nat} {catalog : Catalog}
    {element child : Element} (well : element.WellFormedIn wordWidth catalog)
    (member : child ∈ element.children) : child.WellFormedIn wordWidth catalog := by
  cases element with
  | component element =>
      obtain ⟨well, rfl⟩ := well
      obtain ⟨placed, present, rfl⟩ := mem_elements member
      have good := well.layout.good placed present
      cases entry : placed.item <;> rw [entry] at good <;> exact ⟨_, good⟩
  | registerArray element =>
      obtain ⟨container, well⟩ := well
      obtain ⟨placed, present, rfl⟩ := mem_elements member
      exact ⟨_, well.frame.good placed present⟩
  | register element =>
      obtain ⟨container, well⟩ := well
      obtain ⟨placed, present, rfl⟩ := mem_elements member
      have good := well.layout.good placed present
      cases entry : placed.item <;> rw [entry] at good <;> exact ⟨_, good⟩
  | fieldArray element =>
      obtain ⟨container, well⟩ := well
      obtain ⟨placed, present, rfl⟩ := mem_elements member
      exact ⟨_, well.frame.good placed present⟩
  | field element =>
      obtain ⟨container, well⟩ := well
      obtain ⟨value, present, rfl⟩ := List.mem_map.1 member
      exact ⟨_, _, well.values value present⟩
  | enumValue element => exact absurd member List.not_mem_nil
  | memoryMap element =>
      obtain ⟨placed, present, rfl⟩ := mem_elements member
      have good := well.layout.good placed present
      cases entry : placed.item <;> rw [entry] at good <;> exact ⟨_, good⟩
  | instanceArray element =>
      obtain ⟨container, well⟩ := well
      obtain ⟨placed, present, rfl⟩ := mem_elements member
      exact ⟨_, well.frame.good placed present⟩
  | componentInstance element => exact absurd member List.not_mem_nil

theorem well_formed_in_of_mem_preorder {wordWidth : Nat} {catalog : Catalog}
    {element inner : Element} (well : element.WellFormedIn wordWidth catalog)
    (member : inner ∈ element.preorder) : inner.WellFormedIn wordWidth catalog :=
  forall_mem_preorder (fun _ holds _ => well_formed_in_of_mem_children holds) well inner member

end Element

structure Design.WellFormed (design : Design) : Prop where
  components : ∀ component ∈ design.components, component.WellFormed
  memoryMaps : ∀ map ∈ design.memoryMaps, map.WellFormed ⟨design.components⟩
  distinct : design.rootNames.Nodup
  catalog : design.catalog = ⟨design.components⟩

namespace Design

def elements (design : Design) : List Element :=
  design.roots.flatMap Element.preorder

/-- Each element stands among words of one width, and is bound in the catalog of the design. -/
theorem well_formed_in_of_mem_elements {design : Design} {element : Element}
    (well : design.WellFormed) (member : element ∈ design.elements) :
    ∃ wordWidth, element.WellFormedIn wordWidth ⟨design.components⟩ := by
  obtain ⟨root, present, inside⟩ := List.mem_flatMap.1 member
  rcases List.mem_append.1 present with first | later
  · obtain ⟨component, known, rfl⟩ := List.mem_map.1 first
    have root : (Element.component component).WellFormedIn component.width ⟨design.components⟩ :=
      ⟨well.components component known, rfl⟩
    exact ⟨component.width, Element.well_formed_in_of_mem_preorder root inside⟩
  · obtain ⟨map, known, rfl⟩ := List.mem_map.1 later
    -- No words stand in a map, so any width will do.
    have root : (Element.memoryMap map).WellFormedIn 0 ⟨design.components⟩ :=
      well.memoryMaps map known
    exact ⟨0, Element.well_formed_in_of_mem_preorder root inside⟩

theorem well_formed_of_mem_elements {design : Design} {element : Element}
    (well : design.WellFormed) (member : element ∈ design.elements) : element.WellFormed := by
  obtain ⟨wordWidth, wellIn⟩ := well_formed_in_of_mem_elements well member
  exact wellIn.well_formed

end Design

end AddressMap
