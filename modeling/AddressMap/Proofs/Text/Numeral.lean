import AddressMap.Text.Numeral
import Mathlib.Tactic.IntervalCases

/-!
# Written numerals are read back

A number that is written in the radix ten, or in the radix sixteen behind `0x`, is read back as
itself as long as it is an address.
-/

namespace AddressMap

set_option autoImplicit false

theorem trim_of_no_blanks {chars : List Char} (bare : ∀ c ∈ chars, isBlank c = false) :
    trim chars = chars := by
  have kept (others : List Char) (clean : ∀ c ∈ others, isBlank c = false) :
      others.dropWhile isBlank = others := by
    cases others with
    | nil => rfl
    | cons head rest => rw [List.dropWhile_cons_of_neg (by simp [clean])]
  have reversed : ∀ c ∈ chars.reverse, isBlank c = false := by
    intro c member
    exact bare c (List.mem_reverse.1 member)
  rw [trim, kept chars bare, kept chars.reverse reversed, List.reverse_reverse]

section Digits

variable {radix : Nat}

theorem digit?_digit_char {value : Nat} (below : value < radix) (small : radix ≤ 16) :
    digit? radix (Nat.digitChar value) = some value := by
  have bound : value < 16 := by omega
  interval_cases value <;> exact if_pos below

theorem read_digits_append (value : Nat) (first second : List Char) :
    readDigits? radix value (first ++ second) =
      (readDigits? radix value first).bind fun middle => readDigits? radix middle second := by
  induction first generalizing value with
  | nil => rfl
  | cons c rest ih =>
      simp only [List.cons_append, readDigits?]
      cases digit? radix c with
      | none => rfl
      | some digit => exact ih (value * radix + digit)

theorem read_digits_to_digits (large : 1 < radix) (small : radix ≤ 16) (n : Nat) :
    readDigits? radix 0 (Nat.toDigits radix n) = some n := by
  induction n using Nat.strongRecOn with
  | ind n ih =>
      by_cases single : n < radix
      · rw [Nat.toDigits_of_lt_base single]
        simp [readDigits?, digit?_digit_char single small]
      · have smaller : n / radix < n := Nat.div_lt_self (by omega) large
        have last : n % radix < radix := Nat.mod_lt n (by omega)
        have whole := Nat.div_add_mod' n radix
        rw [Nat.toDigits_of_base_le large (by omega), read_digits_append, ih _ smaller]
        simp [readDigits?, digit?_digit_char last small, whole]

theorem exists_digit_of_mem_to_digits (large : 1 < radix) {n : Nat} {c : Char}
    (member : c ∈ Nat.toDigits radix n) : ∃ digit < radix, c = Nat.digitChar digit := by
  induction n using Nat.strongRecOn with
  | ind n ih =>
      by_cases single : n < radix
      · rw [Nat.toDigits_of_lt_base single] at member
        exact ⟨n, single, List.mem_singleton.1 member⟩
      · have smaller : n / radix < n := Nat.div_lt_self (by omega) large
        rw [Nat.toDigits_of_base_le large (by omega)] at member
        rcases List.mem_append.1 member with earlier | last
        · exact ih _ smaller earlier
        · exact ⟨n % radix, Nat.mod_lt n (by omega), List.mem_singleton.1 last⟩

theorem bare_of_mem_to_digits (large : 1 < radix) (small : radix ≤ 16) {n : Nat} {c : Char}
    (member : c ∈ Nat.toDigits radix n) : isBlank c = false ∧ c ≠ '_' := by
  obtain ⟨digit, below, rfl⟩ := exists_digit_of_mem_to_digits large member
  have bound : digit < 16 := by omega
  interval_cases digit <;> decide

/-- No digit names a radix behind a leading zero. -/
theorem split_radix_of_digits {chars : List Char} (digits : ∀ c ∈ chars, c.isDigit = true) :
    splitRadix chars = (10, chars) := by
  unfold splitRadix
  split
  case h_7 => rfl
  all_goals simp at digits

theorem read_numeral_of_split {text : String} {n : Nat} (large : 1 < radix) (small : radix ≤ 16)
    (bounded : n ≤ maxAddress)
    (split : splitRadix (trim text.toList) = (radix, Nat.toDigits radix n)) :
    readNumeral? text = some n := by
  have marked (c : Char) (member : c ∈ Nat.toDigits radix n) : c ≠ '_' :=
    (bare_of_mem_to_digits large small member).2
  have nonempty : (Nat.toDigits radix n).isEmpty = false := by
    simp [Nat.toDigits_ne_nil]
  have first : ((Nat.toDigits radix n).head? == some '_') = false := by
    rw [beq_eq_false_iff_ne]
    intro head
    exact marked '_' (List.mem_of_head? head) rfl
  have last : ((Nat.toDigits radix n).getLast? == some '_') = false := by
    rw [beq_eq_false_iff_ne]
    intro final
    exact marked '_' (List.mem_of_getLast? final) rfl
  have unmarked : (Nat.toDigits radix n).filter (· ≠ '_') = Nat.toDigits radix n := by
    apply List.filter_eq_self.2
    intro c member
    simp [marked c member]
  simp only [readNumeral?, split, nonempty, first, last, unmarked, Bool.or_self]
  simp [read_digits_to_digits large small, bounded]

end Digits

theorem read_numeral_to_string {n : Nat} (bounded : n ≤ maxAddress) :
    readNumeral? (toString n) = some n := by
  have text : (toString n).toList = Nat.toDigits 10 n := Nat.toList_repr
  have bare : trim (Nat.toDigits 10 n) = Nat.toDigits 10 n := by
    apply trim_of_no_blanks
    intro c member
    exact (bare_of_mem_to_digits (by decide : 1 < 10) (by decide) member).1
  apply read_numeral_of_split (by decide : 1 < 10) (by decide) bounded
  rw [text, bare]
  apply split_radix_of_digits
  intro c member
  exact Nat.isDigit_of_mem_toDigits (by decide) (by decide) member

theorem read_numeral_hex {n : Nat} (bounded : n ≤ maxAddress) :
    readNumeral? (hex n) = some n := by
  have text : (hex n).toList = '0' :: 'x' :: Nat.toDigits 16 n := by simp [hex]
  have bare : trim ('0' :: 'x' :: Nat.toDigits 16 n) = '0' :: 'x' :: Nat.toDigits 16 n := by
    apply trim_of_no_blanks
    simp only [List.forall_mem_cons]
    refine ⟨by decide, by decide, ?_⟩
    intro c member
    exact (bare_of_mem_to_digits (by decide : 1 < 16) (by decide) member).1
  apply read_numeral_of_split (by decide : 1 < 16) (by decide) bounded
  rw [text, bare]
  rfl

end AddressMap
