import AddressMap.Proofs.Text.Numeral
import AddressMap.Proofs.Text.Words

/-!
# Texts of one line

A text is on one line if no line break is in it. Numbers and wrapped lines are, and so is what is
put together from texts that are.
-/

namespace AddressMap

set_option autoImplicit false

def OnOneLine (text : String) : Prop :=
  '\n' ∉ text.toList

instance (text : String) : Decidable (OnOneLine text) :=
  inferInstanceAs (Decidable ('\n' ∉ text.toList))

namespace OnOneLine

@[simp]
theorem append_iff {first second : String} :
    OnOneLine (first ++ second) ↔ OnOneLine first ∧ OnOneLine second := by
  simp only [OnOneLine, String.toList_append, List.mem_append, not_or]

theorem intercalate {separator : String} {texts : List String} (apart : OnOneLine separator)
    (each : ∀ text ∈ texts, OnOneLine text) : OnOneLine (String.intercalate separator texts) := by
  induction texts with
  | nil => exact List.not_mem_nil
  | cons first rest ih =>
      obtain ⟨here, others⟩ := List.forall_mem_cons.1 each
      cases rest with
      | nil => exact here
      | cons second rest =>
          rw [String.intercalate_cons_cons, append_iff, append_iff]
          exact ⟨⟨here, apart⟩, ih others⟩

theorem of_digits {radix n : Nat} (large : 1 < radix) (small : radix ≤ 16) :
    '\n' ∉ Nat.toDigits radix n := by
  intro member
  obtain ⟨visible, -⟩ := bare_of_mem_to_digits large small member
  exact absurd visible (by decide)

@[simp]
theorem number (n : Nat) : OnOneLine n.repr := by
  rw [OnOneLine, Nat.toList_repr]
  exact of_digits (by decide) (by decide)

@[simp]
theorem hex (n : Nat) : OnOneLine (hex n) := by
  have digits : OnOneLine (String.ofList (Nat.toDigits 16 n)) := by
    rw [OnOneLine, String.toList_ofList]
    exact of_digits (by decide) (by decide)
  exact append_iff.2 ⟨by decide, digits⟩

theorem of_mem_wrap {width : Nat} {text line : String} (member : line ∈ wrap width text) :
    OnOneLine line := by
  intro inside
  rcases AddressMap.of_mem_wrap member inside with space | visible
  · exact absurd space (by decide)
  · exact absurd visible (by decide)

end OnOneLine

end AddressMap
