import AddressMap.Output.Frozen
import AddressMap.Proofs.Decl.Attrs
import AddressMap.Proofs.Text.Numeral

/-!
# What a frozen element states

The declaration of a frozen element has its kind and description, the frozen elements inside in
their order, and exactly the attributes that the element states, each readable as what it was
written from.
-/

namespace AddressMap

set_option autoImplicit false

theorem read_truth_truth_text (value : Bool) : readTruth? (truthText value) = some value := by
  cases value <;> decide +kernel

theorem Access.inherit?_stated (parent access : Access) :
    parent.inherit? (some access.isReadOnly) (some access.isWriteOnly) = some access := by
  cases access <;> rfl

namespace Element

variable {element : Element} {attr : Attribute}

theorem freeze_eq (element : Element) :
    element.freeze = ⟨element.kind, element.frozenAttrs, element.header.description,
      element.children.map freeze⟩ := by
  unfold freeze
  rw [fold_eq]

@[simp]
theorem kind_freeze (element : Element) : element.freeze.kind = element.kind := by
  rw [freeze_eq]

@[simp]
theorem description_freeze (element : Element) :
    element.freeze.description = element.header.description := by
  rw [freeze_eq]

@[simp]
theorem children_freeze (element : Element) :
    element.freeze.children = element.children.map freeze := by
  rw [freeze_eq]

def allStated (element : Element) : List (Attribute × String) :=
  element.header.stated ++ element.stated

theorem lookup_by_key (stated : List (Attribute × String)) (attr : Attribute) :
    (stated.map fun entry => (entry.1.key, entry.2)).lookup attr.key = stated.lookup attr := by
  induction stated with
  | nil => rfl
  | cons entry rest ih =>
      rw [List.map_cons, List.lookup_cons, List.lookup_cons, ih]
      by_cases same : attr = entry.1
      · subst same
        simp
      · have different : attr.key ≠ entry.1.key := fun keys => same (Attribute.key_injective keys)
        rw [beq_eq_false_iff_ne.2 same, beq_eq_false_iff_ne.2 different]

theorem get?_freeze (element : Element) (attr : Attribute) :
    element.freeze.get? attr = element.allStated.reverse.lookup attr := by
  rw [freeze_eq, Decl.get?]
  show (AttrMap.ofList _).get? attr.key = _
  rw [AttrMap.get?_of_list, ← List.map_reverse, lookup_by_key]
  rfl

theorem all_stated_subset (element : Element) :
    element.allStated.map Prod.fst ⊆ element.kind.attributes := by
  cases element <;>
    simp [allStated, Header.stated, stated, ElementArray.stated, kind, Kind.attributes,
      Kind.ownAttributes]

theorem known_of_mem_entries {entry : String × String}
    (member : entry ∈ element.freeze.attrs.entries) :
    entry.1 ∈ element.freeze.kind.attributes.map Attribute.key := by
  rw [freeze_eq] at member ⊢
  have stated := AttrMap.mem_of_mem_of_list member
  obtain ⟨source, present, rfl⟩ := List.mem_map.1 stated
  have listed : source.1 ∈ element.allStated.map Prod.fst := List.mem_map_of_mem present
  exact List.mem_map_of_mem (all_stated_subset element listed)

end Element

end AddressMap
