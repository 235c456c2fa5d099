/-!
# Addresses

Addresses, sizes and counts are natural numbers bounded by `maxAddress`: a sum or a product that
would pass the bound is refused, never wrapped. The main statements say that `leastPowerOfTwo n`
is a power of two, at least `n`, and at most every power of two that is at least `n`.
-/

namespace AddressMap

set_option autoImplicit false

/-- The largest address, and the largest size and count: sixty-four bits, all set. -/
def maxAddress : Nat := 0xFFFFFFFFFFFFFFFF

def maxPowerOfTwo : Nat := 0x8000000000000000

/-- The least number that is too large to count the bits of a word. -/
def wordWidthBound : Nat := 0x100000000

/-- The sum of two sizes, unless it passes `maxAddress`. -/
def boundedSum? (left right : Nat) : Option Nat :=
  if left + right ≤ maxAddress then some (left + right) else none

def boundedProduct? (left right : Nat) : Option Nat :=
  if left * right ≤ maxAddress then some (left * right) else none

def leastPowerOfTwo (n : Nat) : Nat :=
  if n ≤ 1 then 1 else 1 <<< (Nat.log2 (n - 1) + 1)

/-- A positive number is a power of two when it is the least power of two not below itself. -/
def isPowerOfTwo (n : Nat) : Bool :=
  n == leastPowerOfTwo n

/-- The least multiple of `unit` that is at least `n`. -/
def roundUp (n unit : Nat) : Nat :=
  (n + (unit - 1)) / unit * unit

theorem is_power_of_two_least_power_of_two (n : Nat) : (leastPowerOfTwo n).isPowerOfTwo := by
  unfold leastPowerOfTwo
  split
  · exact ⟨0, rfl⟩
  · exact ⟨_, Nat.one_shiftLeft _⟩

theorem le_least_power_of_two (n : Nat) : n ≤ leastPowerOfTwo n := by
  unfold leastPowerOfTwo
  split
  · omega
  · have below := @Nat.lt_log2_self (n - 1)
    rw [Nat.one_shiftLeft]
    omega

theorem least_power_of_two_le {n power : Nat} (isPower : power.isPowerOfTwo) (bound : n ≤ power) :
    leastPowerOfTwo n ≤ power := by
  obtain ⟨exponent, rfl⟩ := isPower
  unfold leastPowerOfTwo
  split
  · exact Nat.one_le_two_pow
  · have nonzero : n - 1 ≠ 0 := by omega
    have small : Nat.log2 (n - 1) < exponent := (Nat.log2_lt nonzero).2 (by omega)
    rw [Nat.one_shiftLeft]
    exact Nat.pow_le_pow_right (by omega) small

theorem least_power_of_two_pos (n : Nat) : 0 < leastPowerOfTwo n :=
  Nat.pos_of_isPowerOfTwo (is_power_of_two_least_power_of_two n)

theorem le_round_up {unit : Nat} (n : Nat) (positive : 0 < unit) : n ≤ roundUp n unit := by
  unfold roundUp
  have division := Nat.div_add_mod (n + (unit - 1)) unit
  have remainder := Nat.mod_lt (n + (unit - 1)) positive
  rw [Nat.mul_comm] at division
  omega

theorem round_up_le {unit n multiple : Nat} (bound : n ≤ multiple * unit) :
    roundUp n unit ≤ multiple * unit := by
  unfold roundUp
  by_cases positive : 0 < unit
  · apply Nat.mul_le_mul_right
    have small : (n + (unit - 1)) / unit < multiple + 1 := by
      rw [Nat.div_lt_iff_lt_mul positive, Nat.add_mul]
      omega
    omega
  · have zero : unit = 0 := by omega
    simp [zero]

end AddressMap
