import AddressMap.Proofs.Json.Taking

/-!
# What readers promise

A reader promises a property if it reads no value without it, whatever the tokens. What readers in
sequence promise, the last one promises of all values that the others may hand on.
-/

namespace AddressMap.Json.Reader

set_option autoImplicit false

variable {α β : Type} {property : α → Prop} {wanted : β → Prop}

def Promises (reader : Reader α) (property : α → Prop) : Prop :=
  ∀ tokens value rest, reader tokens = some (value, rest) → property value

theorem promises_of_forall {reader : Reader α} (holds : ∀ value, property value) :
    reader.Promises property :=
  fun _ value _ _ => holds value

theorem promises_failure : Promises failure property := by
  intro tokens value rest read
  contradiction

theorem promises_pure {value : α} (holds : property value) : Promises (pure value) property := by
  intro tokens other rest read
  obtain ⟨rfl, -⟩ := Prod.mk.inj (Option.some.inj read)
  exact holds

theorem promises_bind {first : Reader α} {next : α → Reader β} (here : first.Promises property)
    (later : ∀ value, property value → (next value).Promises wanted) :
    (first >>= next).Promises wanted := by
  intro tokens answer rest read
  cases passed : first tokens with
  | none =>
      have stopped : (first >>= next) tokens = none := by
        show StateT.bind first next tokens = none
        rw [StateT.bind, passed]
        rfl
      rw [stopped] at read
      contradiction
  | some found =>
      obtain ⟨value, behind⟩ := found
      rw [bind_of_some passed] at read
      exact later value (here tokens value behind passed) behind answer rest read

theorem promises_then {first : Reader α} {next : α → Reader β}
    (later : ∀ value, (next value).Promises wanted) : (first >>= next).Promises wanted :=
  promises_bind (promises_of_forall fun _ => trivial) fun value _ => later value

theorem promises_map {reader : Reader α} {f : α → β}
    (promised : reader.Promises fun value => wanted (f value)) :
    Promises (f <$> reader) wanted := by
  have mapped : Promises (reader >>= fun value => pure (f value)) wanted :=
    promises_bind promised fun _ holds => promises_pure holds
  exact mapped

section Separated

variable {close : Token} {entry : Reader α}

theorem promises_separated_from (each : entry.Promises property) (bound : List Token) :
    (separatedFrom close entry bound).Promises fun values => ∀ value ∈ values, property value := by
  induction bound with
  | nil => exact promises_failure
  | cons token bound ih =>
      refine promises_bind each fun first holds => promises_then fun closed => ?_
      cases closed with
      | true => exact promises_pure (List.forall_mem_singleton.2 holds)
      | false =>
          refine promises_bind ih fun others hold => ?_
          exact promises_pure (List.forall_mem_cons.2 ⟨holds, hold⟩)

theorem promises_separated (each : entry.Promises property) :
    (separated close entry).Promises fun values => ∀ value ∈ values, property value := by
  intro tokens values rest read
  cases tokens with
  | nil => contradiction
  | cons token behind =>
      unfold separated at read
      dsimp only at read
      split at read
      · obtain ⟨rfl, -⟩ := Prod.mk.inj (Option.some.inj read)
        exact List.forall_mem_nil _
      · exact promises_separated_from each (token :: behind) _ values rest read

end Separated

end AddressMap.Json.Reader
