import AddressMap.Decl.Attrs

/-!
# Attribute maps from lists

A map that is made from a list answers under each key the last text that the list has there, and
holds nothing else. The entries of a map make the same map again.
-/

namespace AddressMap

set_option autoImplicit false

theorem insert_entry_of_last {key value : String} {entries : List (String × String)}
    (below : ∀ entry ∈ entries, entry.1 < key) :
    insertEntry key value entries = entries ++ [(key, value)] := by
  induction entries with
  | nil => rfl
  | cons head rest ih =>
      have first := below head List.mem_cons_self
      have others := ih fun entry later => below entry (List.mem_cons_of_mem head later)
      rw [insertEntry, if_neg (String.lt_asymm first), if_pos first, others, List.cons_append]

theorem lookup_of_mem {entry : String × String} {entries : List (String × String)}
    (ordered : Ascending entries) (member : entry ∈ entries) :
    entries.lookup entry.1 = some entry.2 := by
  induction entries with
  | nil => contradiction
  | cons head rest ih =>
      obtain ⟨below, restOrdered⟩ := List.pairwise_cons.1 ordered
      rcases List.mem_cons.1 member with rfl | later
      · exact List.lookup_cons_self
      · have different : entry.1 ≠ head.1 := fun same =>
          String.lt_irrefl head.1 (same ▸ below entry later)
        rw [List.lookup_cons, beq_eq_false_iff_ne.2 different]
        exact ih restOrdered later

namespace AttrMap

theorem get?_of_mem {entry : String × String} {attrs : AttrMap} (member : entry ∈ attrs.entries) :
    attrs.get? entry.1 = some entry.2 :=
  lookup_of_mem attrs.ascending member

theorem eq_empty_of_is_empty {attrs : AttrMap} (none : attrs.isEmpty = true) : attrs = empty := by
  obtain ⟨entries, ascending⟩ := attrs
  cases entries with
  | nil => rfl
  | cons head rest => contradiction

variable {attrs : AttrMap} {entries : List (String × String)}

def insertAll (attrs : AttrMap) (entries : List (String × String)) : AttrMap :=
  entries.foldl (fun attrs entry => attrs.insert entry.1 entry.2) attrs

theorem get?_insert_all (key : String) :
    (attrs.insertAll entries).get? key = (entries.reverse.lookup key).or (attrs.get? key) := by
  induction entries generalizing attrs with
  | nil => rfl
  | cons head rest ih =>
      obtain ⟨other, value⟩ := head
      have step : attrs.insertAll ((other, value) :: rest) =
          (attrs.insert other value).insertAll rest := rfl
      rw [step, ih, List.reverse_cons, List.lookup_append, Option.or_assoc]
      congr 1
      by_cases same : key = other
      · subst same
        simp
      · have unequal : (key == other) = false := beq_eq_false_iff_ne.2 same
        rw [get?_insert_of_ne attrs value same]
        simp [List.lookup_cons, unequal]

theorem get?_of_list (key : String) : (ofList entries).get? key = entries.reverse.lookup key := by
  have answer := @get?_insert_all .empty entries key
  rw [show empty.get? key = none from rfl, Option.or_none] at answer
  exact answer

theorem mem_insert_all {entry : String × String}
    (member : entry ∈ (attrs.insertAll entries).entries) : entry ∈ entries ∨ entry ∈ attrs.entries := by
  induction entries generalizing attrs with
  | nil => exact .inr member
  | cons head rest ih =>
      rcases ih member with later | before
      · exact .inl (List.mem_cons_of_mem head later)
      · rcases eq_or_mem_of_mem_insert_entry before with new | old
        · exact .inl (new ▸ List.mem_cons_self)
        · exact .inr old

theorem mem_of_mem_of_list {entry : String × String} (member : entry ∈ (ofList entries).entries) :
    entry ∈ entries := by
  rcases mem_insert_all member with listed | absent
  · exact listed
  · exact absurd absent List.not_mem_nil

theorem entries_insert_all (ordered : Ascending (attrs.entries ++ entries)) :
    (attrs.insertAll entries).entries = attrs.entries ++ entries := by
  induction entries generalizing attrs with
  | nil => exact (List.append_nil _).symm
  | cons head rest ih =>
      have below : ∀ entry ∈ attrs.entries, entry.1 < head.1 := fun entry member =>
        (List.pairwise_append.1 ordered).2.2 entry member head List.mem_cons_self
      have inserted : (attrs.insert head.1 head.2).entries = attrs.entries ++ [head] :=
        insert_entry_of_last below
      have regrouped : attrs.entries ++ head :: rest =
          (attrs.insert head.1 head.2).entries ++ rest := by
        rw [inserted, List.append_assoc, List.singleton_append]
      rw [regrouped] at ordered ⊢
      exact ih ordered

theorem of_list_entries (attrs : AttrMap) : ofList attrs.entries = attrs := by
  have entries : (ofList attrs.entries).entries = attrs.entries :=
    @entries_insert_all .empty attrs.entries attrs.ascending
  cases made : ofList attrs.entries
  rw [made] at entries
  cases attrs
  cases entries
  rfl

end AttrMap

end AddressMap
