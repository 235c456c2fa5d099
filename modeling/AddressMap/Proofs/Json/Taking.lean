import AddressMap.Json.Reader

/-!
# Readers that take what was written

A reader takes a run of tokens as a value when it reads that value off the front of the run,
whatever follows. Readers in sequence take runs in sequence, and `separated` takes the runs of its
entries with commas between them.
-/

namespace AddressMap.Json

set_option autoImplicit false

namespace Reader

variable {α β : Type}

def Takes (reader : Reader α) (tokens : List Token) (value : α) : Prop :=
  ∀ rest, reader (tokens ++ rest) = some (value, rest)

theorem bind_of_some {first : Reader α} {next : α → Reader β} {tokens rest : List Token} {value : α}
    (read : first tokens = some (value, rest)) : (first >>= next) tokens = next value rest := by
  show StateT.bind first next tokens = next value rest
  rw [StateT.bind, read]
  rfl

theorem takes_bind {first : Reader α} {next : α → Reader β} {front back : List Token} {value : α}
    {answer : β} (reads : first.Takes front value) (continues : (next value).Takes back answer) :
    (first >>= next).Takes (front ++ back) answer := by
  intro rest
  rw [List.append_assoc, bind_of_some (reads _)]
  exact continues rest

theorem takes_pure (value : α) : Takes (pure value) [] value :=
  fun _ => rfl

theorem takes_next (token : Token) : next.Takes [token] token :=
  fun _ => rfl

theorem takes_expect (token : Token) : (expect token).Takes [token] () := by
  have found : (if token = token then pure () else failure : Reader Unit) = pure () := if_pos rfl
  have checked : Takes (if token = token then pure () else failure : Reader Unit) [] () := by
    rw [found]
    exact takes_pure ()
  exact takes_bind (takes_next token) checked

theorem takes_string (text : String) : string.Takes [.string text] text :=
  fun _ => rfl

theorem takes_map {reader : Reader α} {tokens : List Token} {value : α} (f : α → β)
    (reads : reader.Takes tokens value) : Takes (f <$> reader) tokens (f value) := by
  have mapped : Takes (reader >>= fun value => pure (f value)) (tokens ++ []) (f value) :=
    takes_bind reads (takes_pure (f value))
  rw [List.append_nil] at mapped
  exact mapped

section Separated

variable {close : Token} {entry : Reader α} {ι : Type} {tokensOf : ι → List Token}
  {valueOf : ι → α}

theorem takes_closes_true (close : Token) : (closes close).Takes [close] true := by
  intro rest
  show (if close = close then pure true else _ : Reader Bool) rest = _
  rw [if_pos rfl]
  rfl

theorem takes_closes_false (notComma : close ≠ .comma) : (closes close).Takes [.comma] false := by
  intro rest
  show (if Token.comma = close then _ else _ : Reader Bool) rest = _
  rw [if_neg notComma.symm]
  rfl

theorem takes_separated_from (notComma : close ≠ .comma) {items : List ι}
    (nonempty : items ≠ []) (each : ∀ item ∈ items, entry.Takes (tokensOf item) (valueOf item))
    {bound : List Token} (enough : items.length ≤ bound.length) :
    (separatedFrom close entry bound).Takes
      (List.intercalate [.comma] (items.map tokensOf) ++ [close]) (items.map valueOf) := by
  induction items generalizing bound with
  | nil => contradiction
  | cons item others ih =>
      have first := each item List.mem_cons_self
      cases bound with
      | nil => contradiction
      | cons token bound =>
          cases others with
          | nil =>
              rw [List.map_singleton, List.intercalate_singleton, List.map_singleton]
              apply takes_bind first
              rw [← List.append_nil [close]]
              apply takes_bind (takes_closes_true close)
              exact takes_pure _
          | cons second later =>
              have inner := ih (List.cons_ne_nil _ _)
                (fun other member => each other (List.mem_cons_of_mem item member))
                (Nat.le_of_succ_le_succ enough)
              rw [List.map_cons, List.map_cons, List.intercalate_cons_cons, List.append_assoc,
                List.append_assoc, ← List.map_cons]
              apply takes_bind first
              apply takes_bind (takes_closes_false notComma)
              have mapped := takes_map (valueOf item :: ·) inner
              exact mapped

theorem length_le_intercalate {runs : List (List Token)} (nonempty : ∀ run ∈ runs, run ≠ []) :
    runs.length ≤ (List.intercalate [.comma] runs).length := by
  induction runs with
  | nil => exact Nat.zero_le _
  | cons run others ih =>
      have inner := ih fun other member => nonempty other (List.mem_cons_of_mem run member)
      have here := List.length_pos_iff.2 (nonempty run List.mem_cons_self)
      cases others with
      | nil =>
          rw [List.intercalate_singleton]
          exact here
      | cons second later =>
          rw [List.intercalate_cons_cons, List.length_append, List.length_append, List.length_cons]
          omega

/-- Entries are taken up to the closing token, which none of them starts with. -/
theorem takes_separated (notComma : close ≠ .comma) {items : List ι}
    (each : ∀ item ∈ items, entry.Takes (tokensOf item) (valueOf item))
    (starts : ∀ item ∈ items, ∃ token rest, tokensOf item = token :: rest ∧ token ≠ close) :
    (separated close entry).Takes
      (List.intercalate [.comma] (items.map tokensOf) ++ [close]) (items.map valueOf) := by
  intro rest
  cases items with
  | nil => exact if_pos rfl
  | cons item others =>
      have nonempty : ∀ run ∈ (item :: others).map tokensOf, run ≠ [] := by
        intro run member
        obtain ⟨source, present, rfl⟩ := List.mem_map.1 member
        obtain ⟨token, later, spelled, -⟩ := starts source present
        rw [spelled]
        exact List.cons_ne_nil token later
      have long := length_le_intercalate nonempty
      obtain ⟨first, later, spelled⟩ : ∃ first later, first ≠ close ∧
          List.intercalate [.comma] ((item :: others).map tokensOf) = first :: later := by
        obtain ⟨first, later, spelled, different⟩ := starts item List.mem_cons_self
        rw [List.map_cons, spelled]
        cases others with
        | nil => exact ⟨first, later, different, List.intercalate_singleton⟩
        | cons second last =>
            rw [List.map_cons, List.intercalate_cons_cons]
            exact ⟨first, _, different, rfl⟩
      have enough : (item :: others).length ≤ (List.intercalate [.comma]
          ((item :: others).map tokensOf) ++ [close] ++ rest).length := by
        rw [List.length_map] at long
        rw [List.length_append, List.length_append]
        omega
      have taken := takes_separated_from notComma (List.cons_ne_nil item others) each enough rest
      rw [spelled.2] at taken ⊢
      rw [← taken]
      exact if_neg spelled.1

end Separated

end Reader

end AddressMap.Json
