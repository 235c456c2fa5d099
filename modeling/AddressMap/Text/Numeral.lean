import AddressMap.Address
import AddressMap.Text.Blank

/-!
# Numerals

A numeral is a run of digits of one radix: ten, or the one that `0x`, `0o` or `0b` names. The mark
`_` may stand between digits. No sign is read. Values are addresses, so a larger one is refused.
-/

namespace AddressMap

set_option autoImplicit false

def digit? (radix : Nat) (c : Char) : Option Nat :=
  let value :=
    if c.isDigit then c.toNat - '0'.toNat
    else if 'a' ≤ c ∧ c ≤ 'z' then c.toNat - 'a'.toNat + 10
    else if 'A' ≤ c ∧ c ≤ 'Z' then c.toNat - 'A'.toNat + 10
    else radix
  if value < radix then some value else none

def readDigits? (radix : Nat) (value : Nat) : List Char → Option Nat
  | [] => some value
  | c :: rest => do
      let digit ← digit? radix c
      readDigits? radix (value * radix + digit) rest

def splitRadix : List Char → Nat × List Char
  | '0' :: 'x' :: rest | '0' :: 'X' :: rest => (16, rest)
  | '0' :: 'o' :: rest | '0' :: 'O' :: rest => (8, rest)
  | '0' :: 'b' :: rest | '0' :: 'B' :: rest => (2, rest)
  | chars => (10, chars)

/-- The value of a numeral between blanks. -/
def readNumeral? (text : String) : Option Nat :=
  let (radix, digits) := splitRadix (trim text.toList)
  if digits.isEmpty || digits.head? == some '_' || digits.getLast? == some '_' then none
  else do
    let value ← readDigits? radix 0 (digits.filter (· ≠ '_'))
    if value ≤ maxAddress then some value else none

def hex (n : Nat) : String :=
  "0x" ++ String.ofList (Nat.toDigits 16 n)

def equalIgnoringCase (left right : String) : Bool :=
  left.toList.map Char.toLower == right.toList.map Char.toLower

/-- A truth value between blanks: `1`, `true`, `yes`, `0`, `false` or `no`. -/
def readTruth? (text : String) : Option Bool :=
  let bare := String.ofList (trim text.toList)
  if ["1", "true", "yes"].any (equalIgnoringCase bare) then some true
  else if ["0", "false", "no"].any (equalIgnoringCase bare) then some false
  else none

example : readNumeral? " 0x8000_0000 " = some (2 ^ 31) := by decide +kernel
example : readNumeral? "0x_1" = none ∧ readNumeral? "1_" = none ∧ readNumeral? "+1" = none := by
  decide +kernel
example : readTruth? "Yes" = some true ∧ readTruth? "on" = none := by decide +kernel

end AddressMap
