import AddressMap.Element.Tree

/-!
# Descending through elements

No element holds another of its own rank or of a higher one, so a descent through the children ends.
What every child inherits from its parent holds of all elements inside.
-/

namespace AddressMap

set_option autoImplicit false

namespace Element

def rank : Element → Nat
  | component _ => 5
  | registerArray _ => 4
  | register _ => 3
  | fieldArray _ => 2
  | field _ => 1
  | enumValue _ => 0
  | memoryMap _ => 2
  | instanceArray _ => 1
  | componentInstance _ => 0

theorem mem_elements {α : Type} {toElement : α → Element} {layout : Layout α} {element : Element}
    (member : element ∈ layout.elements toElement) :
    ∃ placed ∈ layout.items, toElement placed.item = element := by
  simpa [Layout.elements] using member

theorem rank_lt_of_mem_children {element child : Element} (member : child ∈ element.children) :
    child.rank < element.rank := by
  cases element with
  | component element =>
      obtain ⟨⟨entry, _, _⟩, _, rfl⟩ := mem_elements member
      cases entry <;> simp [rank, Entry.toElement]
  | registerArray element =>
      obtain ⟨placed, _, rfl⟩ := mem_elements member
      simp [rank]
  | register element =>
      obtain ⟨⟨entry, _, _⟩, _, rfl⟩ := mem_elements member
      cases entry <;> simp [rank, Entry.toElement]
  | fieldArray element =>
      obtain ⟨placed, _, rfl⟩ := mem_elements member
      simp [rank]
  | field element =>
      obtain ⟨value, _, rfl⟩ := List.mem_map.1 member
      simp [rank]
  | enumValue element => exact absurd member List.not_mem_nil
  | memoryMap element =>
      obtain ⟨⟨entry, _, _⟩, _, rfl⟩ := mem_elements member
      cases entry <;> simp [rank, Entry.toElement]
  | instanceArray element =>
      obtain ⟨placed, _, rfl⟩ := mem_elements member
      simp [rank]
  | componentInstance element => exact absurd member List.not_mem_nil

theorem induction_on_children {motive : Element → Prop}
    (step : ∀ element, (∀ child ∈ element.children, motive child) → motive element)
    (element : Element) : motive element := by
  apply step
  intro child member
  exact induction_on_children step child
termination_by element.rank
decreasing_by exact rank_lt_of_mem_children member

theorem mem_preorder_self (element : Element) : element ∈ element.preorder := by
  rw [preorder_eq]
  exact List.mem_cons_self

theorem mem_preorder_of_child {element child inner : Element} (member : child ∈ element.children)
    (inside : inner ∈ child.preorder) : inner ∈ element.preorder := by
  rw [preorder_eq]
  exact List.mem_cons_of_mem element (List.mem_flatMap.2 ⟨child, member, inside⟩)

theorem mem_preorder_trans {outer middle inner : Element} (around : middle ∈ outer.preorder)
    (inside : inner ∈ middle.preorder) : inner ∈ outer.preorder := by
  induction outer using induction_on_children with
  | step outer ih =>
      rw [preorder_eq] at around
      rcases List.mem_cons.1 around with rfl | below
      · exact inside
      · obtain ⟨child, member, deeper⟩ := List.mem_flatMap.1 below
        exact mem_preorder_of_child member (ih child member deeper)

/-- What children inherit holds of all elements inside. -/
theorem forall_mem_preorder {good : Element → Prop}
    (inherited : ∀ element, good element → ∀ child ∈ element.children, good child)
    {element : Element} (holds : good element) : ∀ inner ∈ element.preorder, good inner := by
  induction element using induction_on_children with
  | step element ih =>
      intro inner member
      rw [preorder_eq] at member
      rcases List.mem_cons.1 member with rfl | below
      · exact holds
      · obtain ⟨child, present, inside⟩ := List.mem_flatMap.1 below
        exact ih child present (inherited element holds child present) inner inside

end Element

end AddressMap
