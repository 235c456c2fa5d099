import AddressMap.Proofs.Element.Values
import AddressMap.Proofs.Element.WellFormed
import Mathlib.Algebra.Group.Nat.Defs

/-!
# Consistent elements

An element is consistent when its numbers agree with each other and with those of the elements
inside: where a child stands and how much it takes, what a container has room for, and which values
fit in how many bits. Well-formed elements are consistent.
-/

namespace AddressMap

set_option autoImplicit false

namespace ElementArray

variable {α : Type}

/-- The frames of an array, at least one, make up its size and are no shorter than the template. -/
structure InBounds (array : ElementArray α) : Prop where
  repeated : 1 ≤ array.count
  size : array.size = array.framesize * array.count
  bounded : array.size ≤ maxAddress
  template : ∃ placed, array.frame.items = [placed]
  covered : array.frame.top ≤ array.framesize

end ElementArray

namespace Element

/-- The element stands here in its container, and takes this much of it. -/
def Takes (element : Element) (start size : Nat) : Prop :=
  element.offset? = some start ∧ element.length? = some size

/-- The numbers of an element are such as its kind allows. -/
def InBounds : Element → Prop
  | component element =>
      element.width.isPowerOfTwo ∧ 8 ≤ element.width ∧
        ∀ inner, register inner ∈ (component element).preorder → inner.width ≤ element.width
  | registerArray element => element.InBounds
  | register element => 1 ≤ element.width ∧ element.reset < 2 ^ element.width
  | fieldArray element => element.InBounds
  | field element =>
      1 ≤ element.size ∧ ∀ value ∈ element.values, value.value < 2 ^ element.size
  | enumValue _ => True
  | memoryMap element => element.width.isPowerOfTwo ∧ 8 ≤ element.width
  | instanceArray element => element.InBounds
  | componentInstance element =>
      element.byteSize? = some (element.component.size * element.component.width / 8)

structure Consistent (element : Element) : Prop where
  /-- Each child knows where it stands, and takes the room that it is given. -/
  seated : ∀ layout, element.layout? = some layout → ∀ placed ∈ layout.items,
    placed.item.Takes placed.start placed.size
  /-- Each layout is settled, on what the element has room for. -/
  settled : ∀ layout, element.layout? = some layout →
    ∃ extent, layout.extent = some extent ∧ element.capacity? = some extent
  inBounds : element.InBounds

end Element

theorem lt_two_pow_of_has_width {value bits : Nat} (bounded : value ≤ maxAddress)
    (fits : hasWidth value bits = true) : value < 2 ^ bits := by
  rcases Bool.or_eq_true_iff.1 fits with wide | shifted
  · have wide : 64 ≤ bits := of_decide_eq_true wide
    have small : maxAddress < 2 ^ 64 := by decide
    have power : 2 ^ 64 ≤ 2 ^ bits := Nat.pow_le_pow_right (by decide) wide
    omega
  · have zero : value / 2 ^ bits = 0 := by
      rw [← Nat.shiftRight_eq_div_pow]
      exact beq_iff_eq.1 shifted
    exact (Nat.div_eq_zero_iff_lt (Nat.two_pow_pos bits)).1 zero

namespace IsWordWidth

variable {width : Nat}

theorem power_of_two (word : IsWordWidth width) : width.isPowerOfTwo := by
  have least : width = leastPowerOfTwo width := beq_iff_eq.1 word.2.1
  rw [least]
  exact is_power_of_two_least_power_of_two width

theorem eight_dvd (word : IsWordWidth width) : 8 ∣ width := by
  obtain ⟨exponent, rfl⟩ := word.power_of_two
  have large : 2 ^ 3 ≤ 2 ^ exponent := word.1
  exact Nat.pow_dvd_pow 2 ((Nat.pow_le_pow_iff_right (by decide)).1 large)

end IsWordWidth

theorem Component.byte_size_eq_some {component : Component} {size : Nat}
    (word : IsWordWidth component.width) (sized : component.byteSize? = some size) :
    size = component.size * component.width / 8 := by
  simp only [byteSize?, boundedProduct?, Option.ite_none_right_eq_some, Option.some.injEq] at sized
  obtain ⟨-, rfl⟩ := sized
  exact (Nat.mul_div_assoc component.size word.eight_dvd).symm

theorem ElementArray.WellFormed.in_bounds {α : Type} [Placeable α] [Sited α]
    {good : Path → α → Prop} {container : Path} {array : ElementArray α}
    (well : array.WellFormed good container) : array.InBounds := by
  refine ⟨well.repeated, well.size, well.bounded, well.template, ?_⟩
  rw [well.framesize]
  exact well.frame.covered

namespace Element

theorem seated_of_seats {α : Type} [Placeable α] [Sited α] {layout : Layout α} {good : α → Prop}
    {toElement : α → Element} (seats : layout.Seats good)
    (takes : ∀ item, good item → (toElement item).Takes (Sited.offset item) (Sited.size item)) :
    ∀ placed ∈ (layout.map (toElement ·.item)).items,
      placed.item.Takes placed.start placed.size := by
  intro placed member
  obtain ⟨entry, present, rfl⟩ := List.mem_map.1 member
  obtain ⟨start, size⟩ := seats.sited entry present
  show (toElement entry.item).Takes entry.start entry.size
  rw [start, size]
  exact takes entry.item (seats.good entry present)

theorem takes_entry {α : Type} [Placeable α] [Sited α] {good : Path → α → Prop} {container : Path}
    {single : α → Element} {array : ElementArray α → Element}
    (takes : ∀ item, good container item →
      (single item).Takes (Sited.offset item) (Sited.size item))
    (arrays : ∀ elements, (array elements).Takes elements.offset elements.size) (entry : Entry α)
    (well : entry.WellFormed good container) :
    (entry.toElement single array).Takes (Sited.offset entry) (Sited.size entry) := by
  cases entry with
  | single item => exact takes item well
  | array elements => exact arrays elements

variable {wordWidth : Nat} {catalog : Catalog} {element : Element} {layout : Layout Element}

theorem size_of_instance {container : Path} {placed : Instance}
    (words : ∀ component ∈ catalog.components, IsWordWidth component.width)
    (well : placed.WellFormed catalog container) :
    Sited.size placed = placed.component.size * placed.component.width / 8 := by
  have known := List.mem_of_find?_eq_some well.bound
  exact Component.byte_size_eq_some (words _ known) well.sized

theorem takes_instance {container : Path} {placed : Instance}
    (words : ∀ component ∈ catalog.components, IsWordWidth component.width)
    (well : placed.WellFormed catalog container) :
    (componentInstance placed).Takes (Sited.offset placed) (Sited.size placed) :=
  ⟨rfl, congrArg some (size_of_instance words well).symm⟩

theorem seated_of_well_formed
    (words : ∀ component ∈ catalog.components, IsWordWidth component.width)
    (well : element.WellFormedIn wordWidth catalog) (holds : element.layout? = some layout) :
    ∀ placed ∈ layout.items, placed.item.Takes placed.start placed.size := by
  cases element with
  | component element =>
      cases holds
      exact seated_of_seats well.1.layout.toSeats
        (takes_entry (fun _ _ => ⟨rfl, rfl⟩) fun _ => ⟨rfl, rfl⟩)
  | register element =>
      cases holds
      obtain ⟨container, well⟩ := well
      exact seated_of_seats well.layout.toSeats
        (takes_entry (fun _ _ => ⟨rfl, rfl⟩) fun _ => ⟨rfl, rfl⟩)
  | memoryMap element =>
      cases holds
      exact seated_of_seats well.layout.toSeats
        (takes_entry (fun _ => takes_instance words) fun _ => ⟨rfl, rfl⟩)
  | registerArray element | fieldArray element =>
      cases holds
      obtain ⟨container, well⟩ := well
      exact seated_of_seats well.frame.toSeats fun _ _ => ⟨rfl, rfl⟩
  | instanceArray element =>
      cases holds
      obtain ⟨container, well⟩ := well
      exact seated_of_seats well.frame.toSeats fun _ => takes_instance words
  | field element | enumValue element | componentInstance element => contradiction

theorem settled_of_well_formed (well : element.WellFormedIn wordWidth catalog)
    (holds : element.layout? = some layout) :
    ∃ extent, layout.extent = some extent ∧ element.capacity? = some extent := by
  cases element with
  | component element =>
      cases holds
      exact ⟨_, well.1.layout.settled, congrArg some well.1.size⟩
  | register element =>
      cases holds
      obtain ⟨container, well⟩ := well
      exact ⟨_, well.layout.settled, congrArg some well.width⟩
  | memoryMap element =>
      cases holds
      exact ⟨_, well.layout.settled, congrArg some well.size⟩
  | registerArray element | fieldArray element | instanceArray element =>
      cases holds
      obtain ⟨container, well⟩ := well
      exact ⟨_, well.frame.settled, congrArg some well.framesize⟩
  | field element | enumValue element | componentInstance element => contradiction

theorem valid_of_well_formed (well : element.WellFormedIn wordWidth catalog)
    (holds : element.layout? = some layout) : layout.Valid := by
  cases element with
  | component element =>
      cases holds
      exact (Layout.valid_map _).2 well.1.layout.valid
  | register element =>
      cases holds
      obtain ⟨container, well⟩ := well
      exact (Layout.valid_map _).2 well.layout.valid
  | memoryMap element =>
      cases holds
      exact (Layout.valid_map _).2 well.layout.valid
  | registerArray element | fieldArray element | instanceArray element =>
      cases holds
      obtain ⟨container, well⟩ := well
      exact (Layout.valid_map _).2 well.frame.valid
  | field element | enumValue element | componentInstance element => contradiction

theorem in_bounds_of_well_formed
    (words : ∀ component ∈ catalog.components, IsWordWidth component.width)
    (well : element.WellFormedIn wordWidth catalog) : element.InBounds := by
  cases element with
  | component element =>
      refine ⟨well.1.width.power_of_two, well.1.width.1, fun inner member => ?_⟩
      obtain ⟨container, register⟩ := well_formed_in_of_mem_preorder well member
      exact well.2 ▸ register.inWord
  | registerArray element | fieldArray element | instanceArray element =>
      obtain ⟨container, well⟩ := well
      exact well.in_bounds
  | register element =>
      obtain ⟨container, well⟩ := well
      exact ⟨well.positive, lt_two_pow_of_has_width well.resetBounded well.fits⟩
  | field element =>
      obtain ⟨container, well⟩ := well
      refine ⟨well.positive, fun value member => ?_⟩
      have wellValue := well.values value member
      exact lt_two_pow_of_has_width wellValue.bounded wellValue.fits
  | enumValue element => trivial
  | memoryMap element => exact ⟨well.width.power_of_two, well.width.1⟩
  | componentInstance element =>
      obtain ⟨container, well⟩ := well
      exact well.sized.trans (congrArg some (size_of_instance words well))

theorem consistent_of_well_formed
    (words : ∀ component ∈ catalog.components, IsWordWidth component.width)
    (well : element.WellFormedIn wordWidth catalog) : element.Consistent :=
  ⟨fun _ => seated_of_well_formed words well, fun _ => settled_of_well_formed well,
    in_bounds_of_well_formed words well⟩

end Element

end AddressMap
