import AddressMap.Proofs.Elaboration.Soundness

/-!
# Copies

A copy is what hardware there is of an element: the element itself, or the template of an array once
in every frame. The main statement is that in a built design no two copies of one container share an
address, and none reaches beyond the container: words of components, bits of registers, and bytes of
memory maps.
-/

namespace AddressMap

set_option autoImplicit false

section Copies

variable {α : Type} [Placeable α] [Sited α]

namespace ElementArray

def copy (array : ElementArray α) (element : α) (index : Nat) : Placed α where
  item := element
  start := array.offset + index * array.framesize + Sited.offset element
  size := Sited.size element

end ElementArray

namespace Entry

/-- The places of an entry's elements in the container. -/
def copies : Entry α → List (Placed α)
  | single element => [⟨element, Sited.offset element, Sited.size element⟩]
  | array elements =>
      (List.range elements.count).flatMap fun index =>
        elements.frame.items.map fun placed => elements.copy placed.item index

end Entry

namespace Layout

/-- The places of all elements of a container, those of arrays in every frame. -/
def copies (layout : Layout (Entry α)) : List (Placed α) :=
  layout.items.flatMap fun placed => placed.item.copies

end Layout

variable {good : Path → α → Prop} {container : Path}

namespace ElementArray

variable {array : ElementArray α}

theorem template_end_le_framesize (well : array.WellFormed good container) {placed : Placed α}
    (member : placed ∈ array.frame.items) :
    Sited.offset placed.item + Sited.size placed.item ≤ array.framesize := by
  obtain ⟨start, size⟩ := well.frame.sited placed member
  have within := Layout.stop_le_top member
  have covered := well.frame.covered
  have framesize := well.framesize
  simp only [Placed.stop] at within
  omega

theorem mem_copies {copy : Placed α} (member : copy ∈ (Entry.array array).copies) :
    ∃ index < array.count, ∃ placed ∈ array.frame.items, array.copy placed.item index = copy := by
  simpa [Entry.copies] using member

theorem copy_within (well : array.WellFormed good container) {copy : Placed α}
    (member : copy ∈ (Entry.array array).copies) :
    array.offset ≤ copy.start ∧ copy.stop ≤ array.offset + array.size := by
  obtain ⟨index, bound, placed, present, rfl⟩ := mem_copies member
  have inFrame := template_end_le_framesize well present
  have frames : (index + 1) * array.framesize ≤ array.count * array.framesize :=
    Nat.mul_le_mul_right array.framesize bound
  have size := well.size
  rw [Nat.add_mul, Nat.one_mul] at frames
  rw [Nat.mul_comm] at size
  constructor
  · simp only [copy]
    omega
  · simp only [copy, Placed.stop]
    omega

theorem copies_apart (well : array.WellFormed good container) :
    (Entry.array array).copies.Pairwise Placed.Apart := by
  obtain ⟨only, single⟩ := well.template
  have inFrame : Sited.offset only.item + Sited.size only.item ≤ array.framesize := by
    apply template_end_le_framesize well
    rw [single]
    exact List.mem_singleton_self only
  have frames : (Entry.array array).copies =
      (List.range array.count).map (array.copy only.item) := by
    simp only [Entry.copies, single, List.map_cons, List.map_nil]
    exact List.map_eq_flatMap.symm
  rw [frames, List.pairwise_map]
  apply List.pairwise_lt_range.imp
  intro first second before
  -- The first copy ends with its frame, which is not behind the frame of the second.
  have ordered : (first + 1) * array.framesize ≤ second * array.framesize :=
    Nat.mul_le_mul_right array.framesize before
  rw [Nat.add_mul, Nat.one_mul] at ordered
  simp only [Placed.Apart, Placed.stop, copy]
  omega

end ElementArray

namespace Entry

variable {entry : Entry α}

theorem copy_within (well : entry.WellFormed good container) {copy : Placed α}
    (member : copy ∈ entry.copies) :
    Sited.offset entry ≤ copy.start ∧ copy.stop ≤ Sited.offset entry + Sited.size entry := by
  cases entry with
  | single element =>
      have same := List.mem_singleton.1 member
      subst same
      exact ⟨Nat.le_refl _, Nat.le_refl _⟩
  | array elements => exact ElementArray.copy_within well member

theorem copies_apart (well : entry.WellFormed good container) :
    entry.copies.Pairwise Placed.Apart := by
  cases entry with
  | single element => exact List.pairwise_singleton _ _
  | array elements => exact ElementArray.copies_apart well

end Entry

namespace Layout

variable {layout : Layout (Entry α)}

/-- Every copy lies within the range of its entry. -/
theorem copy_within_placed (holds : layout.Holds (Entry.WellFormed good container))
    {placed : Placed (Entry α)} (present : placed ∈ layout.items) {copy : Placed α}
    (member : copy ∈ placed.item.copies) :
    placed.start ≤ copy.start ∧ copy.stop ≤ placed.stop := by
  obtain ⟨start, size⟩ := holds.sited placed present
  have within := Entry.copy_within (holds.good placed present) member
  unfold Placed.stop at within ⊢
  omega

theorem copy_stop_le_size (holds : layout.Holds (Entry.WellFormed good container))
    {copy : Placed α} (member : copy ∈ layout.copies) : copy.stop ≤ layout.size := by
  obtain ⟨placed, present, inside⟩ := List.mem_flatMap.1 member
  have within := copy_within_placed holds present inside
  have below := stop_le_top present
  have covered := holds.covered
  omega

theorem copies_apart (holds : layout.Holds (Entry.WellFormed good container)) :
    layout.copies.Pairwise Placed.Apart := by
  apply List.pairwise_flatMap.2
  constructor
  · intro placed present
    exact Entry.copies_apart (holds.good placed present)
  · apply holds.valid.apart.imp_of_mem
    intro left right leftPresent rightPresent apart first inLeft second inRight
    have leftWithin := copy_within_placed holds leftPresent inLeft
    have rightWithin := copy_within_placed holds rightPresent inRight
    unfold Placed.Apart at apart ⊢
    simp only [Placed.stop] at apart leftWithin rightWithin ⊢
    omega

end Layout

end Copies

namespace Register

theorem size_eq_one_of_mem_copies {layout : Layout (Entry Register)} {copy : Placed Register}
    (member : copy ∈ layout.copies) : copy.size = 1 := by
  obtain ⟨placed, -, inside⟩ := List.mem_flatMap.1 member
  cases entry : placed.item with
  | single register =>
      rw [entry] at inside
      rw [List.mem_singleton.1 inside]
      rfl
  | array registers =>
      rw [entry] at inside
      obtain ⟨index, -, template, -, rfl⟩ := ElementArray.mem_copies inside
      rfl

end Register

namespace Component

variable {component : Component}

/-- Registers take a word each, so copies that are apart have different words. -/
theorem copy_starts_nodup (well : component.WellFormed) :
    (component.layout.copies.map Placed.start).Nodup := by
  apply List.pairwise_map.2
  apply (Layout.copies_apart well.layout).imp_of_mem
  intro left right leftMember rightMember apart
  have leftSize := Register.size_eq_one_of_mem_copies leftMember
  have rightSize := Register.size_eq_one_of_mem_copies rightMember
  unfold Placed.Apart Placed.stop at apart
  omega

theorem copy_start_lt_size (well : component.WellFormed) {copy : Placed Register}
    (member : copy ∈ component.layout.copies) : copy.start < component.size := by
  have bound := Layout.copy_stop_le_size well.layout member
  have size := Register.size_eq_one_of_mem_copies member
  have same := well.size
  unfold Placed.stop at bound
  omega

end Component

namespace Design

variable {defaults : MapDefaults} {decls : List Decl} {design : Design}

/-- In a built design the copies of registers have different words within the component, the copies
of fields have no bit in common and lie within the width of the register, and the copies of
instances have no byte in common and lie within the memory map. All these bounds are addresses, so
no copy's start or end is too large for one. -/
theorem copies_share_no_address (built : Design.ofDecls defaults decls = .ok design) :
    (∀ component ∈ design.components,
      (component.layout.copies.map Placed.start).Nodup ∧
        (∀ copy ∈ component.layout.copies, copy.start < component.size) ∧
        component.size ≤ maxAddress) ∧
    (∀ register, Element.register register ∈ design.elements →
      register.layout.copies.Pairwise Placed.Apart ∧
        (∀ copy ∈ register.layout.copies, copy.stop ≤ register.width) ∧
        register.width ≤ maxAddress) ∧
    (∀ map ∈ design.memoryMaps,
      map.layout.copies.Pairwise Placed.Apart ∧
        (∀ copy ∈ map.layout.copies, copy.stop ≤ map.size) ∧
        map.size ≤ maxAddress) := by
  have well := Design.well_formed_of_built built
  refine ⟨?components, ?registers, ?memoryMaps⟩
  case components =>
    intro component member
    have sound := well.components component member
    have bounded := sound.layout.bounded
    rw [← sound.size] at bounded
    exact ⟨Component.copy_starts_nodup sound,
      fun copy present => Component.copy_start_lt_size sound present, bounded⟩
  case registers =>
    intro register member
    obtain ⟨wordWidth, container, sound⟩ := well_formed_of_mem_elements well member
    have bounded := sound.layout.bounded
    rw [sound.width]
    exact ⟨Layout.copies_apart sound.layout,
      fun copy present => Layout.copy_stop_le_size sound.layout present, bounded⟩
  case memoryMaps =>
    intro map member
    have sound := well.memoryMaps map member
    have bounded := sound.layout.bounded
    rw [sound.size]
    exact ⟨Layout.copies_apart sound.layout,
      fun copy present => Layout.copy_stop_le_size sound.layout present, bounded⟩

theorem copies_of_sample_share_no_address :
    ∃ design, Design.ofDecls {} sampleDecls = .ok design ∧
      (∃ component ∈ design.components,
        component.layout.copies.map Placed.start = [0, 5, 7] ∧
          (component.layout.copies.map Placed.start).Nodup) ∧
      ∃ map ∈ design.memoryMaps,
        map.layout.copies.map Placed.start = [256, 288] ∧
          map.layout.copies.Pairwise Placed.Apart := by
  have starts : (Design.ofDecls {} sampleDecls).map (fun answer =>
      (answer.components.map fun component => component.layout.copies.map Placed.start,
        answer.memoryMaps.map fun map => map.layout.copies.map Placed.start)) =
      .ok ([[0, 5, 7]], [[256, 288]]) := by decide +kernel
  obtain ⟨design, built, same⟩ := exists_of_map_eq_ok starts
  obtain ⟨registers, instances⟩ := Prod.mk.inj same
  obtain ⟨component, member, words⟩ := List.mem_map.1 (registers ▸ List.mem_singleton_self _)
  obtain ⟨map, present, bytes⟩ := List.mem_map.1 (instances ▸ List.mem_singleton_self _)
  obtain ⟨components, -, maps⟩ := copies_share_no_address built
  exact ⟨design, built, ⟨component, member, words, (components component member).1⟩,
    map, present, bytes, (maps map present).1⟩

end Design

end AddressMap
