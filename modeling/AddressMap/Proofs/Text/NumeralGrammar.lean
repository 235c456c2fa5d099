import AddressMap.Proofs.Text.Numeral
import Mathlib.Data.List.DropRight
import Mathlib.Data.Nat.Digits.Defs

/-!
# The grammar of numerals

A numeral is a mark of its radix, which ten does not need, and a run of digits of that radix. In the
run separators may stand, but neither first nor last. Its value is that of the digits by their
positions. The main statement is that a text is read exactly if it is a numeral between blanks whose
value is an address, and that the value is what is read.
-/

namespace AddressMap

set_option autoImplicit false

/-- The character stands for a number below the radix: it is the digit, or the digit in upper
case. -/
def IsDigitOf (radix : Nat) (c : Char) (value : Nat) : Prop :=
  value < radix ∧ (c = Nat.digitChar value ∨ c = (Nat.digitChar value).toUpper)

def radixMarks : List (List Char × Nat) :=
  [([], 10), (['0', 'x'], 16), (['0', 'X'], 16), (['0', 'o'], 8), (['0', 'O'], 8),
    (['0', 'b'], 2), (['0', 'B'], 2)]

/-- A run of digits and separators, with the values of the digits. -/
inductive DigitRun (radix : Nat) : List Char → List Nat → Prop where
  | nil : DigitRun radix [] []
  | digit {c : Char} {value : Nat} {chars : List Char} {values : List Nat}
      (spells : IsDigitOf radix c value) (rest : DigitRun radix chars values) :
      DigitRun radix (c :: chars) (value :: values)
  | separator {chars : List Char} {values : List Nat} (rest : DigitRun radix chars values) :
      DigitRun radix ('_' :: chars) values

def IsNumeral (chars : List Char) (value : Nat) : Prop :=
  ∃ mark radix run values, (mark, radix) ∈ radixMarks ∧ chars = mark ++ run ∧
    DigitRun radix run values ∧ run ≠ [] ∧ run.head? ≠ some '_' ∧ run.getLast? ≠ some '_' ∧
    value = Nat.ofDigits radix values.reverse

section Digits

variable {radix : Nat}

theorem is_digit_of_iff (small : radix ≤ 16) {c : Char} {value : Nat} :
    IsDigitOf radix c value ↔ digit? radix c = some value := by
  constructor
  · rintro ⟨below, rfl | rfl⟩
    · exact digit?_digit_char below small
    · have bound : value < 16 := by omega
      interval_cases value <;> exact if_pos below
  · intro read
    simp only [digit?, Option.ite_none_right_eq_some, Option.some.injEq, Char.isDigit_iff_toNat,
      Char.le_def, UInt32.le_iff_toNat_le, Char.toNat_val] at read
    obtain ⟨below, same⟩ := read
    rw [same] at below
    refine ⟨below, ?_⟩
    -- The code point tells the value in each of the three ranges.
    have codes : c.toNat = value + '0'.toNat ∧ value < 10 ∨
        c.toNat + 10 = value + 'a'.toNat ∧ 10 ≤ value ∨
        c.toNat + 10 = value + 'A'.toNat ∧ 10 ≤ value := by
      have nine : '9'.toNat = '0'.toNat + 9 := rfl
      split at same
      next => exact .inl (by omega)
      next =>
        split at same
        next => exact .inr (.inl (by omega))
        next =>
          split at same
          next => exact .inr (.inr (by omega))
          next => omega
    have bound : value < 16 := by omega
    rcases codes with ⟨code, small⟩ | ⟨code, large⟩ | ⟨code, large⟩
    · left
      rw [← Char.toNat_inj, Nat.toNat_digitChar_of_lt_ten small, code, Nat.add_comm]
      rfl
    · left
      interval_cases value <;> exact Char.toNat_inj.1 (Nat.add_right_cancel code)
    · right
      interval_cases value <;> exact Char.toNat_inj.1 (Nat.add_right_cancel code)

theorem digit?_separator (radix : Nat) : digit? radix '_' = none :=
  if_neg (Nat.lt_irrefl radix)

theorem not_blank_of_is_digit (small : radix ≤ 16) {c : Char} {value : Nat}
    (spells : IsDigitOf radix c value) : isBlank c = false := by
  obtain ⟨below, spelled⟩ := spells
  have bound : value < 16 := by omega
  rcases spelled with rfl | rfl
  · interval_cases value <;> decide
  · interval_cases value <;> decide

namespace DigitRun

variable {c : Char} {chars : List Char} {values : List Nat}

theorem separator_cons_iff (small : radix ≤ 16) :
    DigitRun radix ('_' :: chars) values ↔ DigitRun radix chars values := by
  constructor
  · intro run
    cases run with
    | digit spells rest =>
        rw [is_digit_of_iff small, digit?_separator] at spells
        contradiction
    | separator rest => exact rest
  · exact .separator

theorem digit_cons_iff (digit : c ≠ '_') :
    DigitRun radix (c :: chars) values ↔
      ∃ value later, values = value :: later ∧ IsDigitOf radix c value ∧
        DigitRun radix chars later := by
  constructor
  · intro run
    cases run with
    | digit spells rest => exact ⟨_, _, rfl, spells, rest⟩
    | separator rest => contradiction
  · rintro ⟨value, later, rfl, spells, rest⟩
    exact .digit spells rest

theorem separator_or_digit (run : DigitRun radix chars values) (member : c ∈ chars) :
    c = '_' ∨ ∃ value, IsDigitOf radix c value := by
  induction run with
  | nil => contradiction
  | digit spells _ ih =>
      rcases List.mem_cons.1 member with rfl | later
      · exact .inr ⟨_, spells⟩
      · exact ih later
  | separator _ ih =>
      rcases List.mem_cons.1 member with rfl | later
      · exact .inl rfl
      · exact ih later

end DigitRun

/-- The digits of a run are read behind a number that they continue. -/
theorem read_digits_eq_some (small : radix ≤ 16) {start value : Nat} {run : List Char} :
    readDigits? radix start (run.filter (· ≠ '_')) = some value ↔
      ∃ values, DigitRun radix run values ∧
        value = start * radix ^ values.length + Nat.ofDigits radix values.reverse := by
  induction run generalizing start with
  | nil =>
      constructor
      · intro read
        obtain rfl := Option.some.inj read
        exact ⟨[], .nil, by simp⟩
      · rintro ⟨values, ends, rfl⟩
        cases ends
        simp [readDigits?]
  | cons c rest ih =>
      by_cases separator : c = '_'
      · rw [separator, List.filter_cons_of_neg (by simp), ih]
        simp only [DigitRun.separator_cons_iff small]
      · rw [List.filter_cons_of_pos (by simpa using separator), readDigits?]
        simp only [Option.bind_eq_bind, Option.bind_eq_some_iff, ih, ← is_digit_of_iff small,
          DigitRun.digit_cons_iff separator]
        -- The digit counts as often as its position says.
        have shifted (digit : Nat) (later : List Nat) :
            start * radix ^ (digit :: later).length +
                Nat.ofDigits radix (digit :: later).reverse =
              (start * radix + digit) * radix ^ later.length +
                Nat.ofDigits radix later.reverse := by
          rw [List.reverse_cons, Nat.ofDigits_append, Nat.ofDigits_singleton, List.length_reverse,
            List.length_cons]
          ring
        constructor
        · rintro ⟨digit, spells, later, digits, rfl⟩
          exact ⟨_, ⟨digit, later, rfl, spells, digits⟩, (shifted digit later).symm⟩
        · rintro ⟨_, ⟨digit, later, rfl, spells, digits⟩, rfl⟩
          exact ⟨digit, spells, later, digits, shifted digit later⟩

end Digits

section Marks

variable {mark : List Char} {radix : Nat}

theorem radix_le_of_marked (marked : (mark, radix) ∈ radixMarks) : radix ≤ 16 := by
  have all : ∀ entry ∈ radixMarks, entry.2 ≤ 16 := by decide
  exact all _ marked

theorem not_blank_of_marked (marked : (mark, radix) ∈ radixMarks) :
    ∀ c ∈ mark, isBlank c = false := by
  have all : ∀ entry ∈ radixMarks, entry.1.all (!isBlank ·) = true := by decide
  intro c member
  have visible := List.all_eq_true.1 (all _ marked) c member
  rwa [Bool.not_eq_true'] at visible

theorem exists_mark (chars : List Char) :
    ∃ mark, (mark, (splitRadix chars).1) ∈ radixMarks ∧ chars = mark ++ (splitRadix chars).2 := by
  unfold splitRadix
  split
  · exact ⟨['0', 'x'], by simp [radixMarks], rfl⟩
  · exact ⟨['0', 'X'], by simp [radixMarks], rfl⟩
  · exact ⟨['0', 'o'], by simp [radixMarks], rfl⟩
  · exact ⟨['0', 'O'], by simp [radixMarks], rfl⟩
  · exact ⟨['0', 'b'], by simp [radixMarks], rfl⟩
  · exact ⟨['0', 'B'], by simp [radixMarks], rfl⟩
  · exact ⟨[], by simp [radixMarks], rfl⟩

/-- A run of decimal digits is not mistaken for a mark and a run of another radix. -/
theorem split_radix_of_decimal {run : List Char} {values : List Nat}
    (digits : DigitRun 10 run values) : splitRadix run = (10, run) := by
  have letter (c : Char) (none : digit? 10 c = none) (other : c ≠ '_') : c ∉ run := by
    intro member
    rcases digits.separator_or_digit member with same | ⟨value, spells⟩
    · exact other same
    · rw [is_digit_of_iff (by decide), none] at spells
      contradiction
  unfold splitRadix
  split
  · exact absurd (by simp) (letter 'x' (by decide) (by decide))
  · exact absurd (by simp) (letter 'X' (by decide) (by decide))
  · exact absurd (by simp) (letter 'o' (by decide) (by decide))
  · exact absurd (by simp) (letter 'O' (by decide) (by decide))
  · exact absurd (by simp) (letter 'b' (by decide) (by decide))
  · exact absurd (by simp) (letter 'B' (by decide) (by decide))
  · rfl

theorem split_radix_of_run {run : List Char} {values : List Nat}
    (marked : (mark, radix) ∈ radixMarks) (digits : DigitRun radix run values) :
    splitRadix (mark ++ run) = (radix, run) := by
  simp only [radixMarks, List.mem_cons, List.not_mem_nil, or_false, Prod.mk.injEq] at marked
  rcases marked with ⟨rfl, rfl⟩ | marked
  · exact split_radix_of_decimal digits
  · rcases marked with ⟨rfl, rfl⟩ | ⟨rfl, rfl⟩ | ⟨rfl, rfl⟩ | ⟨rfl, rfl⟩ | ⟨rfl, rfl⟩ | ⟨rfl, rfl⟩
    all_goals rfl

end Marks

section Trim

variable {chars : List Char}

theorem exists_trimmed (chars : List Char) :
    ∃ before after, chars = before ++ trim chars ++ after ∧ ∀ c ∈ before ++ after, isBlank c := by
  have front := List.takeWhile_append_dropWhile (p := isBlank) (l := chars)
  have back := List.rdropWhile_append_rtakeWhile (p := isBlank) (l := chars.dropWhile isBlank)
  refine ⟨chars.takeWhile isBlank, (chars.dropWhile isBlank).rtakeWhile isBlank, ?_, ?_⟩
  · rw [List.append_assoc]
    exact (front.symm.trans (congrArg _ back.symm))
  · intro c member
    rcases List.mem_append.1 member with first | last
    · exact List.mem_takeWhile_imp first
    · exact List.mem_rtakeWhile_imp last

/-- Blanks around characters of which none is blank are all that is dropped. -/
theorem trim_between {before bare after : List Char} (blanks : ∀ c ∈ before ++ after, isBlank c)
    (clean : ∀ c ∈ bare, isBlank c = false) : trim (before ++ bare ++ after) = bare := by
  obtain ⟨first, last⟩ := List.forall_mem_append.1 blanks
  have reversed : ∀ c ∈ after.reverse, isBlank c := fun c member =>
    last c (List.mem_reverse.1 member)
  rw [trim, List.append_assoc, List.dropWhile_append_of_pos first]
  cases bare with
  | nil =>
      rw [List.nil_append, List.dropWhile_eq_nil_iff.2 last]
      rfl
  | cons head rest =>
      have visible : ¬ isBlank head = true := by simp [clean]
      have whole := trim_of_no_blanks clean
      rw [trim, List.dropWhile_cons_of_neg visible] at whole
      rw [List.cons_append, List.dropWhile_cons_of_neg visible, ← List.cons_append,
        List.reverse_append, List.dropWhile_append_of_pos reversed, whole]

end Trim

theorem read_numeral_eq_some {text : String} {value : Nat} :
    readNumeral? text = some value ↔
      value ≤ maxAddress ∧ (splitRadix (trim text.toList)).2 ≠ [] ∧
        (splitRadix (trim text.toList)).2.head? ≠ some '_' ∧
        (splitRadix (trim text.toList)).2.getLast? ≠ some '_' ∧
        readDigits? (splitRadix (trim text.toList)).1 0
          ((splitRadix (trim text.toList)).2.filter (· ≠ '_')) = some value := by
  unfold readNumeral?
  dsimp only
  split
  next refused =>
    simp only [Bool.or_eq_true, List.isEmpty_iff, beq_iff_eq] at refused
    constructor
    · exact fun read => by contradiction
    · rintro ⟨-, some, first, last, -⟩
      rcases refused with (none | marked) | marked
      · exact absurd none some
      · exact absurd marked first
      · exact absurd marked last
  next accepted =>
    simp only [Bool.or_eq_true, List.isEmpty_iff, beq_iff_eq, not_or] at accepted
    obtain ⟨⟨some, first⟩, last⟩ := accepted
    simp only [Option.bind_eq_bind, Option.bind_eq_some_iff, Option.ite_none_right_eq_some,
      Option.some.injEq]
    constructor
    · rintro ⟨_, read, bounded, rfl⟩
      exact ⟨bounded, some, first, last, read⟩
    · rintro ⟨bounded, -, -, -, read⟩
      exact ⟨value, read, bounded, rfl⟩

theorem not_blank_of_is_numeral {chars : List Char} {value : Nat}
    (numeral : IsNumeral chars value) : ∀ c ∈ chars, isBlank c = false := by
  obtain ⟨mark, radix, run, values, marked, rfl, digits, -⟩ := numeral
  intro c member
  rcases List.mem_append.1 member with first | last
  · exact not_blank_of_marked marked c first
  · rcases digits.separator_or_digit last with rfl | ⟨digit, spells⟩
    · decide
    · exact not_blank_of_is_digit (radix_le_of_marked marked) spells

/-- A text is read exactly if it is a numeral between blanks whose value has sixty-four bits, and
the value is the answer. So every such number is read back from its decimal digits, and from its
hexadecimal ones. -/
theorem read_numeral_iff_is_numeral (value : Nat) :
    (∀ text : String, readNumeral? text = some value ↔
      value < 2 ^ 64 ∧ ∃ before numeral after, text.toList = before ++ numeral ++ after ∧
        (∀ c ∈ before ++ after, isBlank c) ∧ IsNumeral numeral value) ∧
      (value < 2 ^ 64 →
        readNumeral? (toString value) = some value ∧ readNumeral? (hex value) = some value) := by
  have bound : value < 2 ^ 64 ↔ value ≤ maxAddress := Nat.lt_succ_iff
  refine ⟨fun text => ?_, fun bounded => ?_⟩
  · rw [read_numeral_eq_some, bound, and_congr_right_iff]
    intro bounded
    constructor
    · rintro ⟨some, first, last, read⟩
      obtain ⟨before, after, cut, blanks⟩ := exists_trimmed text.toList
      obtain ⟨mark, marked, split⟩ := exists_mark (trim text.toList)
      obtain ⟨values, digits, same⟩ := (read_digits_eq_some (radix_le_of_marked marked)).1 read
      rw [Nat.zero_mul, Nat.zero_add] at same
      exact ⟨before, _, after, cut, blanks, mark, _, _, values, marked, split, digits, some, first,
        last, same⟩
    · rintro ⟨before, numeral, after, cut, blanks, spelled⟩
      rw [cut, trim_between blanks (not_blank_of_is_numeral spelled)]
      obtain ⟨mark, radix, run, values, marked, rfl, digits, some, first, last, same⟩ := spelled
      rw [split_radix_of_run marked digits]
      refine ⟨some, first, last, (read_digits_eq_some (radix_le_of_marked marked)).2 ?_⟩
      exact ⟨values, digits, by rw [Nat.zero_mul, Nat.zero_add, same]⟩
  · rw [bound] at bounded
    exact ⟨read_numeral_to_string bounded, read_numeral_hex bounded⟩

/-- The largest number is read back, and leading zeros, a separator, digits of either case and
blanks around are read as the grammar says. -/
theorem largest_numeral_read_back :
    2 ^ 64 - 1 < 2 ^ 64 ∧ readNumeral? (toString (2 ^ 64 - 1)) = some (2 ^ 64 - 1) ∧
      readNumeral? (hex (2 ^ 64 - 1)) = some (2 ^ 64 - 1) ∧
      IsNumeral "0X00_fF".toList 255 ∧ readNumeral? "\u30000X00_fF\n" = some 255 := by
  have digits : DigitRun 16 ['0', '0', '_', 'f', 'F'] [0, 0, 15, 15] :=
    .digit ⟨by decide, .inl rfl⟩ (.digit ⟨by decide, .inl rfl⟩ (.separator
      (.digit ⟨by decide, .inl rfl⟩ (.digit ⟨by decide, .inr rfl⟩ .nil))))
  have numeral : IsNumeral "0X00_fF".toList 255 :=
    ⟨['0', 'X'], 16, _, _, by decide, by decide, digits, by decide, by decide, by decide, rfl⟩
  obtain ⟨decimal, hexadecimal⟩ := (read_numeral_iff_is_numeral (2 ^ 64 - 1)).2 (by decide)
  refine ⟨by decide, decimal, hexadecimal, numeral,
    ((read_numeral_iff_is_numeral 255).1 _).2 ⟨by decide, ['\u3000'], _, ['\n'], ?_, ?_, numeral⟩⟩
  · decide
  · exact List.all_eq_true.1 (by decide)

end AddressMap
