import AddressMap.Proofs.Space.FirstFit

/-!
# Placing in words of sixty-four bits

Addresses are words of sixty-four bits, and sums of words wrap. A start can be aligned in such
words: a mask is added, its bits are cleared, and a sum that would wrap means that the child has no
place in the gap. The main statement is that this loses no place: for all words it gives what the
placers give in natural numbers, and this is the least multiple of the alignment that leaves room
for the child. Only a size above the largest power of two among the words has no alignment.
-/

namespace AddressMap

set_option autoImplicit false

def wordSum? (left right : UInt64) : Option UInt64 :=
  if left + right < left then none else some (left + right)

def clearBits (word mask : UInt64) : UInt64 :=
  word &&& ~~~mask

def alignedWord? (size start stop unit : UInt64) : Option UInt64 := do
  let raised ← wordSum? start (unit - 1)
  let aligned := clearBits raised (unit - 1)
  let last ← wordSum? aligned size
  if last ≤ stop then some aligned else none

def Placer.chooseWord (placer : Placer) (size start stop : UInt64) :
    Except SpaceError (Option UInt64) :=
  match placer with
  | manual => .error (.unresolvableOffset size.toNat)
  | linear => .ok (if size ≤ stop - start then some start else none)
  | aligned =>
      match alignment? size.toNat with
      | none => .error (.addressOverflow start.toNat size.toNat)
      | some unit => .ok (alignedWord? size start stop (.ofNat unit))

section Words

theorem word_sum?_eq_some {left right sum : UInt64} :
    wordSum? left right = some sum ↔ sum.toNat = left.toNat + right.toNat := by
  have first := left.toNat_lt
  have second := right.toNat_lt
  have bound := sum.toNat_lt
  unfold wordSum?
  rw [Option.ite_none_left_eq_some, UInt64.lt_iff_toNat_lt, Option.some.injEq, ← UInt64.toNat_inj,
    UInt64.toNat_add]
  omega

theorem to_nat_clear_bits {word mask : UInt64} {exponent : Nat}
    (low : mask.toNat = 2 ^ exponent - 1) :
    (clearBits word mask).toNat = word.toNat / 2 ^ exponent * 2 ^ exponent := by
  have flipped : (~~~mask).toNat = 2 ^ 64 - (mask.toNat + 1) := by
    rw [UInt64.toNat_not, UInt64.size]
    omega
  apply Nat.eq_of_testBit_eq
  intro index
  rw [clearBits, UInt64.toNat_and, Nat.testBit_and, flipped,
    Nat.testBit_two_pow_sub_succ mask.toNat_lt, low, Nat.testBit_two_pow_sub_one,
    Nat.testBit_mul_two_pow]
  by_cases kept : exponent ≤ index
  · rw [Nat.testBit_div_two_pow, Nat.sub_add_cancel kept]
    by_cases inside : index < 64
    · simp [kept, inside]
    · have high : word.toNat.testBit index = false := by
        apply Nat.testBit_lt_two_pow
        exact Nat.lt_of_lt_of_le word.toNat_lt (Nat.pow_le_pow_right (by decide) (by omega))
      simp [high]
  · simp [kept, Nat.not_le.1 kept]

theorem round_up_past_words {start unit : Nat} (power : unit.isPowerOfTwo) (small : unit < 2 ^ 64)
    (wraps : 2 ^ 64 ≤ start + (unit - 1)) : 2 ^ 64 ≤ roundUp start unit := by
  obtain ⟨exponent, rfl⟩ := power
  have below : exponent ≤ 64 := Nat.le_of_lt ((Nat.pow_lt_pow_iff_right (by decide)).1 small)
  obtain ⟨multiple, whole⟩ := Nat.pow_dvd_pow 2 below
  rw [roundUp, whole, Nat.mul_comm]
  apply Nat.mul_le_mul_right
  rw [Nat.le_div_iff_mul_le (Nat.two_pow_pos exponent), Nat.mul_comm, ← whole]
  exact wraps

end Words

theorem aligned_word?_eq_some {size start stop unit word : UInt64}
    (power : unit.toNat.isPowerOfTwo) :
    alignedWord? size start stop unit = some word ↔
      word.toNat = roundUp start.toNat unit.toNat ∧ word.toNat + size.toNat ≤ stop.toNat := by
  have positive := Nat.pos_of_isPowerOfTwo power
  have mask : (unit - 1).toNat = unit.toNat - 1 :=
    UInt64.toNat_sub_of_le unit 1 (UInt64.le_iff_toNat_le.2 positive)
  have rounds {raised : UInt64} (sum : raised.toNat = start.toNat + (unit - 1).toNat) :
      (clearBits raised (unit - 1)).toNat = roundUp start.toNat unit.toNat := by
    obtain ⟨exponent, same⟩ := power
    rw [to_nat_clear_bits (mask.trans (congrArg (· - 1) same)), sum, mask, roundUp, same]
  unfold alignedWord?
  simp only [bind, Option.bind_eq_some_iff, Option.ite_none_right_eq_some, Option.some.injEq,
    word_sum?_eq_some]
  constructor
  · rintro ⟨raised, sum, last, ends, within, rfl⟩
    have bound := UInt64.le_iff_toNat_le.1 within
    exact ⟨rounds sum, ends ▸ bound⟩
  · rintro ⟨rounded, within⟩
    -- A word is reached, so the sum with the mask does not wrap.
    have fits : start.toNat + (unit.toNat - 1) < 2 ^ 64 := by
      refine Nat.not_le.1 fun wraps => ?_
      have past := round_up_past_words power unit.toNat_lt wraps
      have bound := word.toNat_lt
      omega
    have top := stop.toNat_lt
    have sum : (UInt64.ofNat (start.toNat + (unit.toNat - 1))).toNat =
        start.toNat + (unit - 1).toNat := by
      rw [UInt64.toNat_ofNat_of_lt' fits, mask]
    have ends : (UInt64.ofNat (word.toNat + size.toNat)).toNat = word.toNat + size.toNat :=
      UInt64.toNat_ofNat_of_lt' (Nat.lt_of_le_of_lt within top)
    have same : clearBits (.ofNat (start.toNat + (unit.toNat - 1))) (unit - 1) = word :=
      UInt64.toNat_inj.1 ((rounds sum).trans rounded.symm)
    refine ⟨_, sum, .ofNat (word.toNat + size.toNat), ?_, ?_, same⟩
    · rw [same]
      exact ends
    · rw [UInt64.le_iff_toNat_le, ends]
      exact within

/-- In words the aligned start is the rounded one, and there is none just where that one leaves no
room. -/
theorem aligned_word?_eq {size start stop unit : UInt64} (power : unit.toNat.isPowerOfTwo) :
    (alignedWord? size start stop unit).map UInt64.toNat =
      if roundUp start.toNat unit.toNat + size.toNat ≤ stop.toNat then
        some (roundUp start.toNat unit.toNat)
      else none := by
  split
  next room =>
    have bound : roundUp start.toNat unit.toNat < 2 ^ 64 := by
      have top := stop.toNat_lt
      omega
    have reached := UInt64.toNat_ofNat_of_lt' bound
    rw [(aligned_word?_eq_some power).2 ⟨reached, reached.symm ▸ room⟩]
    exact congrArg some reached
  next full =>
    rw [Option.map_eq_none_iff, Option.eq_none_iff_forall_ne_some]
    intro word found
    obtain ⟨rounded, within⟩ := (aligned_word?_eq_some power).1 found
    exact full (rounded ▸ within)

theorem alignment?_eq (size : Nat) :
    alignment? size =
      if size ≤ maxPowerOfTwo then some (leastPowerOfTwo size) else none := by
  simp only [alignment?, least_power_of_two_max_one, least_power_of_two_le_max_power]

namespace Placer

/-- Sums that wrap lose nothing: in words each placer answers what it answers in numbers. -/
theorem choose_word_eq (placer : Placer) (size : UInt64) {start stop : UInt64}
    (proper : start ≤ stop) :
    (placer.chooseWord size start stop).map (·.map UInt64.toNat) =
      placer.choose size.toNat ⟨start.toNat, stop.toNat⟩ := by
  cases placer with
  | manual => rfl
  | linear =>
      have length : (stop - start).toNat = Gap.length ⟨start.toNat, stop.toNat⟩ :=
        UInt64.toNat_sub_of_le stop start proper
      simp only [chooseWord, choose, UInt64.le_iff_toNat_le, length]
      by_cases room : size.toNat ≤ Gap.length ⟨start.toNat, stop.toNat⟩
      · rw [if_pos room, if_pos room]
        rfl
      · rw [if_neg room, if_neg room]
        rfl
  | aligned =>
      simp only [chooseWord, choose, alignment?_eq]
      by_cases small : size.toNat ≤ maxPowerOfTwo
      · simp only [if_pos small]
        have bound : leastPowerOfTwo size.toNat < UInt64.size :=
          Nat.lt_of_le_of_lt (least_power_of_two_le_max_power.2 small) (by decide)
        have same := UInt64.toNat_ofNat_of_lt' bound
        have power := is_power_of_two_least_power_of_two size.toNat
        rw [← same] at power
        have found := @aligned_word?_eq size start stop _ power
        rw [same] at found
        exact congrArg Except.ok found
      · simp only [if_neg small]
        rfl

/-- A placer takes the first start in a gap that suits the child. The aligned one counts multiples
of the least power of two that covers the child, and refuses a child that is larger than all powers
of two. -/
structure Exact (size : Nat) (gap : Gap) : Prop where
  refused : (∃ error, Placer.aligned.choose size gap = .error error) ↔ 2 ^ 63 < size
  aligned : size ≤ 2 ^ 63 → ∃ unit answer?,
    IsLeast {power | power.isPowerOfTwo ∧ max size 1 ≤ power} unit ∧
      Placer.aligned.choose size gap = .ok answer? ∧
      IsLeastAnswer (fun start => unit ∣ start ∧ gap.start ≤ start ∧ start + size ≤ gap.stop)
        answer?
  linear : ∃ answer?, Placer.linear.choose size gap = .ok answer? ∧
    IsLeastAnswer (fun start => 1 ∣ start ∧ gap.start ≤ start ∧ start + size ≤ gap.stop) answer?

end Placer

theorem is_least_least_power_of_two (n : Nat) :
    IsLeast {power | power.isPowerOfTwo ∧ n ≤ power} (leastPowerOfTwo n) := by
  refine ⟨⟨is_power_of_two_least_power_of_two n, le_least_power_of_two n⟩, ?_⟩
  rintro power ⟨isPower, bound⟩
  exact least_power_of_two_le isPower bound

theorem Placer.exact (size : Nat) {gap : Gap} (proper : gap.start ≤ gap.stop) :
    Placer.Exact size gap := by
  constructor
  case refused =>
    constructor
    · rintro ⟨error, failed⟩
      refine Nat.not_le.1 fun small => ?_
      obtain ⟨answer?, chosen, -⟩ :=
        @choose_is_least .aligned size gap proper (Nat.not_lt.2 small)
      rw [failed] at chosen
      contradiction
    · exact fun large => @choose_of_refuses .aligned size large gap
  case aligned =>
    intro small
    obtain ⟨answer?, chosen, least⟩ :=
      @choose_is_least .aligned size gap proper (Nat.not_lt.2 small)
    refine ⟨_, answer?, is_least_least_power_of_two _, chosen, ?_⟩
    rw [least_power_of_two_max_one]
    exact least
  case linear =>
    obtain ⟨answer?, chosen, least⟩ := @choose_is_least .linear size gap proper id
    refine ⟨answer?, chosen, (is_least_answer_congr fun start => ?_).1 least⟩
    exact and_congr_left' (iff_of_true trivial (Nat.one_dvd start))

namespace Resizer

/-- The extent is the least power of two that covers what is occupied, and nothing if nothing is. -/
structure Exact (occupied : Nat) : Prop where
  refused : (∃ error, Resizer.aligned.extent occupied = .error error) ↔ 2 ^ 63 < occupied
  empty : occupied = 0 → Resizer.aligned.extent occupied = .ok 0
  aligned : 0 < occupied → occupied ≤ 2 ^ 63 → ∃ extent,
    Resizer.aligned.extent occupied = .ok extent ∧
      IsLeast {power | power.isPowerOfTwo ∧ occupied ≤ power} extent

theorem extent_aligned (occupied : Nat) :
    Resizer.aligned.extent occupied =
      if occupied = 0 then .ok 0
      else if occupied ≤ maxPowerOfTwo then .ok (leastPowerOfTwo occupied)
      else .error (.addressOverflow 0 occupied) := by
  simp only [extent, least_power_of_two_le_max_power]

theorem exact (occupied : Nat) : Exact occupied := by
  have limit : maxPowerOfTwo = 2 ^ 63 := rfl
  constructor
  case refused =>
    rw [extent_aligned, limit]
    constructor
    · rintro ⟨error, failed⟩
      split at failed
      · contradiction
      · split at failed
        · contradiction
        · omega
    · intro large
      rw [if_neg (by omega), if_neg (by omega)]
      exact ⟨_, rfl⟩
  case empty =>
    rintro rfl
    rfl
  case aligned =>
    intro some small
    rw [extent_aligned, limit, if_neg (Nat.ne_of_gt some), if_pos small]
    exact ⟨_, rfl, is_least_least_power_of_two occupied⟩

end Resizer

/-- For all words, placers and resizers are exact. Starts that are computed in words are the same,
and each sum on the way is the sum of the numbers or is given up. -/
theorem policies_exact_in_words (size occupied : UInt64) {start stop : UInt64}
    (proper : start ≤ stop) :
    Placer.Exact size.toNat ⟨start.toNat, stop.toNat⟩ ∧ Resizer.Exact occupied.toNat ∧
      (∀ placer : Placer, (placer.chooseWord size start stop).map (·.map UInt64.toNat) =
        placer.choose size.toNat ⟨start.toNat, stop.toNat⟩) ∧
      ∀ left right sum, wordSum? left right = some sum ↔
        sum.toNat = left.toNat + right.toNat :=
  ⟨Placer.exact size.toNat (UInt64.le_iff_toNat_le.1 proper), Resizer.exact occupied.toNat,
    fun placer => placer.choose_word_eq size proper, fun _ _ _ => word_sum?_eq_some⟩

/-- The last multiple of four among the words has room for three addresses. -/
theorem policies_exact_at_last_words :
    (0xFFFFFFFFFFFFFFF6 : UInt64) ≤ 0xFFFFFFFFFFFFFFFF ∧
      Placer.Exact 3 ⟨2 ^ 64 - 10, 2 ^ 64 - 1⟩ ∧ Resizer.Exact 132 ∧
      Placer.aligned.choose 3 ⟨2 ^ 64 - 10, 2 ^ 64 - 1⟩ = .ok (some (2 ^ 64 - 8)) := by
  have proper : (0xFFFFFFFFFFFFFFF6 : UInt64) ≤ 0xFFFFFFFFFFFFFFFF := by decide
  obtain ⟨placers, resizers, words, -⟩ := policies_exact_in_words 3 132 proper
  have found : Placer.aligned.chooseWord 3 0xFFFFFFFFFFFFFFF6 0xFFFFFFFFFFFFFFFF =
      .ok (some 0xFFFFFFFFFFFFFFF8) := by decide
  have same := words .aligned
  rw [found] at same
  exact ⟨proper, placers, resizers, same.symm⟩

end AddressMap
