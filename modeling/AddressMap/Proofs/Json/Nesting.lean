import AddressMap.Json.Token

/-!
# How deep brackets nest

The nesting of a run of tokens is the greatest number of brackets that are open at once. What is
written bracket by bracket is balanced: whatever stands before and behind it, it nests as deep as it
does alone. Of balanced runs in sequence the deepest counts, and brackets around one add a level.
-/

namespace AddressMap.Json

set_option autoImplicit false

namespace Token

def opens : Token → Bool
  | openObject | openArray => true
  | _ => false

def closes : Token → Bool
  | closeObject | closeArray => true
  | _ => false

def isBracket (token : Token) : Bool :=
  token.opens || token.closes

end Token

/-- The greatest number of open brackets in a run of tokens before which this many are open. -/
def nestingFrom (depth : Nat) : List Token → Nat
  | [] => depth
  | token :: rest =>
      match token with
      | .openObject | .openArray => nestingFrom (depth + 1) rest
      | .closeObject | .closeArray => max depth (nestingFrom (depth - 1) rest)
      | _ => nestingFrom depth rest

def nesting (tokens : List Token) : Nat :=
  nestingFrom 0 tokens

theorem depth_le_nesting_from (depth : Nat) (tokens : List Token) :
    depth ≤ nestingFrom depth tokens := by
  induction tokens generalizing depth with
  | nil => exact Nat.le_refl depth
  | cons token rest ih =>
      have here := ih depth
      have deeper := ih (depth + 1)
      cases token <;> simp only [nestingFrom] <;> omega

/-- What the tokens add to the depth at which they stand, and that they come back to it. -/
def Balanced (tokens : List Token) : Prop :=
  ∀ depth rest, nestingFrom depth (tokens ++ rest) =
    max (depth + nesting tokens) (nestingFrom depth rest)

section Balanced

variable {tokens more : List Token}

theorem balanced_of_levels {levels : Nat}
    (adds : ∀ depth rest, nestingFrom depth (tokens ++ rest) =
      max (depth + levels) (nestingFrom depth rest)) :
    Balanced tokens ∧ nesting tokens = levels := by
  have alone := adds 0 []
  rw [List.append_nil, nestingFrom, Nat.zero_add, Nat.max_zero] at alone
  refine ⟨?_, alone⟩
  intro depth rest
  rw [adds, nesting, alone]

theorem balanced_nil : Balanced [] := by
  intro depth rest
  have deep := depth_le_nesting_from depth rest
  exact (Nat.max_eq_right deep).symm

theorem balanced_append (first : Balanced tokens) (second : Balanced more) :
    Balanced (tokens ++ more) ∧ nesting (tokens ++ more) = max (nesting tokens) (nesting more) := by
  apply balanced_of_levels
  intro depth rest
  rw [List.append_assoc, first, second]
  omega

theorem balanced_cons {token : Token} (inner : token.isBracket = false)
    (balanced : Balanced tokens) :
    Balanced (token :: tokens) ∧ nesting (token :: tokens) = nesting tokens := by
  apply balanced_of_levels
  intro depth rest
  rw [← balanced depth rest]
  cases token <;> first | rfl | contradiction

theorem balanced_between {opening closing : Token} (opens : opening.opens = true)
    (closes : closing.closes = true) (balanced : Balanced tokens) :
    Balanced (opening :: (tokens ++ [closing])) ∧
      nesting (opening :: (tokens ++ [closing])) = nesting tokens + 1 := by
  apply balanced_of_levels
  intro depth rest
  have opened : ∀ later, nestingFrom depth (opening :: later) = nestingFrom (depth + 1) later := by
    cases opening <;> first | exact fun _ => rfl | contradiction
  have closed : nestingFrom (depth + 1) (closing :: rest) =
      max (depth + 1) (nestingFrom depth rest) := by
    cases closing <;> first | rfl | contradiction
  rw [List.cons_append, List.append_assoc, opened, balanced, List.singleton_append, closed]
  omega

/-- Runs with commas between them nest as deep as the deepest of them. -/
theorem balanced_intercalate {runs : List (List Token)} (each : ∀ run ∈ runs, Balanced run) :
    Balanced (List.intercalate [.comma] runs) ∧
      ∀ room, nesting (List.intercalate [.comma] runs) ≤ room ↔
        ∀ run ∈ runs, nesting run ≤ room := by
  induction runs with
  | nil => exact ⟨balanced_nil, by simp [nesting, nestingFrom, List.intercalate]⟩
  | cons run others ih =>
      have here := each run List.mem_cons_self
      obtain ⟨behind, within⟩ := ih fun other member => each other (List.mem_cons_of_mem run member)
      cases others with
      | nil =>
          rw [List.intercalate_singleton]
          exact ⟨here, by simp⟩
      | cons second later =>
          obtain ⟨separated, same⟩ := @balanced_cons _ .comma rfl behind
          obtain ⟨whole, deepest⟩ := balanced_append here separated
          rw [List.intercalate_cons_cons, List.append_assoc, List.singleton_append]
          refine ⟨whole, fun room => ?_⟩
          rw [deepest, same, Nat.max_le, within]
          exact (List.forall_mem_cons (p := (nesting · ≤ room))).symm

end Balanced

end AddressMap.Json
