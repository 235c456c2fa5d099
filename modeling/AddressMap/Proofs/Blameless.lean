import Mathlib.Data.List.Infix
import Mathlib.Data.List.Induction

/-!
# The first to blame

A check that goes through a list in order stops at the first element that is to blame, given those
before it. Either there is such an element, and only one, or the whole list is blameless.
-/

namespace AddressMap

set_option autoImplicit false

variable {α : Type} {blames weaker : List α → α → Prop} {list before : List α} {element : α}

def Blameless (blames : List α → α → Prop) (list : List α) : Prop :=
  ∀ before element, before ++ [element] <+: list → ¬ blames before element

/-- The first element of the list that is to blame, with those before it. -/
structure FirstBlamed (blames : List α → α → Prop) (list before : List α) (element : α) : Prop where
  within : before ++ [element] <+: list
  blamed : blames before element
  blameless : Blameless blames before

theorem blameless_nil (blames : List α → α → Prop) : Blameless blames [] := by
  intro before element within
  have length := within.length_le
  simp at length

theorem blameless_concat :
    Blameless blames (list ++ [element]) ↔ Blameless blames list ∧ ¬ blames list element := by
  unfold Blameless
  simp only [List.prefix_concat_iff]
  constructor
  · intro all
    exact ⟨fun before other within => all before other (.inr within), all list element (.inl rfl)⟩
  · intro both before other within
    rcases within with same | within
    · obtain ⟨rfl, last⟩ := List.append_inj' same rfl
      cases last
      exact both.2
    · exact both.1 before other within

theorem Blameless.imp (stronger : ∀ before element, weaker before element → blames before element)
    (whole : Blameless blames list) : Blameless weaker list :=
  fun before element within blamed => whole before element within (stronger before element blamed)

theorem blameless_or_first_blamed (blames : List α → α → Prop) (list : List α) :
    Blameless blames list ∨ ∃ before element, FirstBlamed blames list before element := by
  induction list using List.reverseRecOn with
  | nil => exact .inl (blameless_nil blames)
  | append_singleton list last ih =>
      rcases ih with whole | ⟨before, element, first⟩
      · by_cases blamed : blames list last
        · exact .inr ⟨list, last, List.prefix_rfl, blamed, whole⟩
        · exact .inl (blameless_concat.2 ⟨whole, blamed⟩)
      · have within := first.within.trans (List.prefix_append list [last])
        exact .inr ⟨before, element, within, first.blamed, first.blameless⟩

namespace FirstBlamed

theorem mem (first : FirstBlamed blames list before element) : element ∈ list :=
  first.within.subset (List.mem_append_right before List.mem_cons_self)

theorem not_blameless (first : FirstBlamed blames list before element) :
    ¬ Blameless blames list :=
  fun whole => whole before element first.within first.blamed

/-- The first to blame is the first for a narrower reason if it is to blame for that. -/
theorem narrow (stronger : ∀ before element, weaker before element → blames before element)
    (first : FirstBlamed blames list before element) (blamed : weaker before element) :
    FirstBlamed weaker list before element :=
  ⟨first.within, blamed, first.blameless.imp stronger⟩

theorem unique {otherBefore : List α} {other : α}
    (first : FirstBlamed blames list before element)
    (second : FirstBlamed blames list otherBefore other) :
    before = otherBefore ∧ element = other := by
  have shorter {before otherBefore : List α} {element other : α}
      (first : FirstBlamed blames list before element)
      (second : FirstBlamed blames list otherBefore other) :
      otherBefore.length ≤ before.length := by
    by_contra longer
    have length : (before ++ [element]).length ≤ otherBefore.length := by
      rw [List.length_append, List.length_singleton]
      omega
    have start := List.prefix_append otherBefore [other]
    have within := List.prefix_of_prefix_length_le first.within (start.trans second.within) length
    exact second.blameless before element within first.blamed
  have length : before.length = otherBefore.length :=
    Nat.le_antisymm (shorter second first) (shorter first second)
  have same : before ++ [element] = otherBefore ++ [other] := by
    have bound : (before ++ [element]).length ≤ (otherBefore ++ [other]).length := by
      simp [length]
    exact (List.prefix_of_prefix_length_le first.within second.within bound).eq_of_length
      (by simp [length])
  obtain ⟨sameBefore, last⟩ := List.append_inj same length
  exact ⟨sameBefore, List.singleton_inj.1 last⟩

end FirstBlamed

end AddressMap
