import AddressMap.Proofs.Elaboration.Candidates
import AddressMap.Proofs.Elaboration.Fidelity

/-!
# Aligned elements

An array, or an instance, that states no offset starts at a multiple of the least power of two that
covers it. So the address of whatever is inside is put together from the start and a distance by
setting bits, and a mask takes the distance out again. With frames of the fitting length the same
holds for the template in each frame.
-/

namespace AddressMap

set_option autoImplicit false

/-- The start is a multiple of the least power of two that covers the size. The bits below that
power are those of the distance from the start, for each address inside. -/
structure Masked (size start : Nat) : Prop where
  multiple : leastPowerOfTwo (max size 1) ∣ start
  joined : ∀ distance < size, start + distance = start ||| distance
  masked : ∀ distance < size, (start + distance) &&& (leastPowerOfTwo (max size 1) - 1) = distance

theorem masked_of_dvd {size start : Nat} (aligned : leastPowerOfTwo size ∣ start) :
    Masked size start := by
  have covered := le_least_power_of_two size
  rw [← least_power_of_two_max_one] at aligned covered
  refine ⟨aligned, ?_, ?_⟩
  all_goals
    obtain ⟨exponent, power⟩ := is_power_of_two_least_power_of_two (max size 1)
    rw [power] at aligned covered
    obtain ⟨multiple, rfl⟩ := aligned
    intro distance inside
    have small : distance < 2 ^ exponent := by omega
  · exact Nat.two_pow_add_eq_or_of_lt small multiple
  · rw [power, Nat.and_two_pow_sub_one_eq_mod, Nat.mul_add_mod, Nat.mod_eq_of_lt small]

namespace Element

/-- How an array or an instance without an offset is aligned, and the frames of an array if nothing
is stated that may put its templates elsewhere. -/
structure Aligned (decl : Decl) (element : Element) : Prop where
  masked : element.kind.isArray = true ∨ element.kind = .componentInstance →
    decl.get? .offset = none → ∃ start size, element.Takes start size ∧ Masked size start
  frames : element.kind.isArray = true → decl.get? .offset = none → decl.get? .framesize = none →
    (∀ template ∈ decl.children, template.get? .offset = none) →
      ∃ start count framesize, element.number? .offset = some start ∧
        element.number? .count = some count ∧ element.number? .framesize = some framesize ∧
        ∃ template size, element.children = [template] ∧ template.Takes 0 size ∧
          ∀ index < count, leastPowerOfTwo size ∣ start + index * framesize

end Element

namespace Family

variable {α : Type} [Placeable α] {family : Family α} {single : α → Element}
  {array : ElementArray α → Element}

omit [Placeable α] in
theorem ReadsOffset.eq_none (reads : family.ReadsOffset) {container : Path} {above : Context}
    {decl : Decl} {candidate : Candidate α}
    (built : family.ofDecl container above decl = .ok candidate)
    (unstated : decl.get? .offset = none) : candidate.offset? = none := by
  have read := reads _ _ _ _ built
  rw [unstated] at read
  exact Option.map_eq_none_iff.1 read.symm

structure Measures (family : Family α) (single : α → Element)
    (array : ElementArray α → Element) : Prop where
  single : ∀ container above decl candidate start,
    family.ofDecl container above decl = .ok candidate →
      (single (Placeable.moveTo candidate.item start)).Takes start candidate.size
  array : ∀ elements, (array elements).Takes elements.offset elements.size

section Array

variable {placer : Placer} {container : Path} {above : Context} {decl : Decl}
  {parts : ArrayParts α} {start : Nat}

end Array

end Family

theorem Field.measures : Field.family.Measures Element.field Element.fieldArray := by
  refine ⟨fun container above decl candidate start built => ⟨rfl, ?_⟩, fun _ => ⟨rfl, rfl⟩⟩
  have rule := Field.of_decl_eq_ok.1 built
  exact congrArg some rule.plain.2.1

theorem Register.measures (wordWidth : Nat) :
    (Register.family wordWidth).Measures Element.register Element.registerArray := by
  refine ⟨fun container above decl candidate start built => ⟨rfl, ?_⟩, fun _ => ⟨rfl, rfl⟩⟩
  have rule := Register.of_decl_eq_ok.1 built
  exact congrArg some rule.plain.2.1.symm

theorem Instance.measures {catalog : Catalog} (stocked : catalog.Stocked) :
    (Instance.family catalog).Measures Element.componentInstance Element.instanceArray := by
  refine ⟨fun container above decl candidate start built => ⟨rfl, ?_⟩, fun _ => ⟨rfl, rfl⟩⟩
  have rule := Instance.of_decl_eq_ok.1 built
  obtain ⟨source, made⟩ := stocked _ (List.mem_of_find?_eq_some rule.bound)
  have word := (Component.well_formed_of_built made).width
  exact congrArg some (Component.byte_size_eq_some word rule.size).symm

/-- Without an offset an instance is aligned, since every space that it is placed in aligns. -/
theorem Instance.aligned {catalog : Catalog} {container : Path} {above : Context} {decl : Decl}
    {candidate : Candidate Instance} {start : Nat} (stocked : catalog.Stocked)
    (built : Instance.ofDecl catalog container above decl = .ok candidate)
    (suits : candidate.Suits .aligned start) :
    Element.Aligned decl (.componentInstance (Placeable.moveTo candidate.item start)) := by
  have rule := Instance.of_decl_eq_ok.1 built
  constructor
  · intro _ unstated
    have aligned := suits.chosen ((Instance.reads_offset catalog).eq_none built unstated)
    rw [rule.plain.2] at aligned
    exact ⟨start, candidate.size, (Instance.measures stocked).single _ _ _ _ start built,
      masked_of_dvd aligned⟩
  · intro array
    contradiction

namespace Design

variable {defaults : MapDefaults} {decls : List Decl} {design : Design}

end Design

end AddressMap
