/-!
# Attribute maps

The attributes of a declaration map keys to texts. They are held in ascending order of their keys,
each key once, so that two maps with the same attributes are equal.
-/

namespace AddressMap

set_option autoImplicit false

/-- The entries with one more; an entry under the same key is replaced. -/
def insertEntry (key value : String) : List (String × String) → List (String × String)
  | [] => [(key, value)]
  | head :: rest =>
      if key < head.1 then (key, value) :: head :: rest
      else if head.1 < key then head :: insertEntry key value rest
      else (key, value) :: rest

def Ascending (entries : List (String × String)) : Prop :=
  entries.Pairwise fun left right => left.1 < right.1

theorem eq_or_mem_of_mem_insert_entry {key value : String} {entry : String × String}
    {entries : List (String × String)} (member : entry ∈ insertEntry key value entries) :
    entry = (key, value) ∨ entry ∈ entries := by
  induction entries with
  | nil => simpa [insertEntry] using member
  | cons head rest ih =>
      unfold insertEntry at member
      split at member
      · simpa using member
      · split at member
        · rcases List.mem_cons.1 member with same | later
          · exact .inr (same ▸ List.mem_cons_self)
          · exact (ih later).imp id (List.mem_cons_of_mem head)
        · exact (List.mem_cons.1 member).imp id (List.mem_cons_of_mem head)

theorem ascending_insert_entry (key value : String) {entries : List (String × String)}
    (ordered : Ascending entries) : Ascending (insertEntry key value entries) := by
  induction entries with
  | nil => exact List.pairwise_singleton _ _
  | cons head rest ih =>
      have below := (List.pairwise_cons.1 ordered).1
      have restOrdered : Ascending rest := (List.pairwise_cons.1 ordered).2
      unfold insertEntry
      split
      next before =>
        refine List.pairwise_cons.2 ⟨fun entry member => ?_, ordered⟩
        rcases List.mem_cons.1 member with same | later
        · exact same ▸ before
        · exact String.lt_trans before (below entry later)
      next notBefore =>
        split
        next after =>
          refine List.pairwise_cons.2 ⟨fun entry member => ?_, ih restOrdered⟩
          rcases eq_or_mem_of_mem_insert_entry member with same | later
          · exact same ▸ after
          · exact below entry later
        next notAfter =>
          have same : key = head.1 :=
            String.le_antisymm (String.not_lt.1 notAfter) (String.not_lt.1 notBefore)
          exact List.pairwise_cons.2 ⟨fun entry member => same ▸ below entry member, restOrdered⟩

theorem lookup_insert_entry_self (key value : String) (entries : List (String × String)) :
    (insertEntry key value entries).lookup key = some value := by
  induction entries with
  | nil => simp [insertEntry]
  | cons head rest ih =>
      unfold insertEntry
      split
      · simp
      · split
        next after =>
          have different : (key == head.1) = false :=
            beq_eq_false_iff_ne.2 fun same => String.lt_irrefl _ (same ▸ after)
          rw [List.lookup_cons, different]
          exact ih
        · simp

theorem lookup_insert_entry_of_ne {key other : String} (value : String)
    (entries : List (String × String)) (different : other ≠ key) :
    (insertEntry key value entries).lookup other = entries.lookup other := by
  have unequal : (other == key) = false := beq_eq_false_iff_ne.2 different
  induction entries with
  | nil => simp [insertEntry, List.lookup_cons, unequal]
  | cons head rest ih =>
      unfold insertEntry
      split
      · rw [List.lookup_cons, unequal]
      · split
        · rw [List.lookup_cons, List.lookup_cons, ih]
        next notBefore notAfter =>
          have same : key = head.1 :=
            String.le_antisymm (String.not_lt.1 notAfter) (String.not_lt.1 notBefore)
          rw [List.lookup_cons, List.lookup_cons, ← same, unequal]

/-- Texts under keys, in ascending order of the keys. -/
structure AttrMap where
  entries : List (String × String)
  ascending : Ascending entries
deriving DecidableEq

namespace AttrMap

def empty : AttrMap where
  entries := []
  ascending := List.Pairwise.nil

instance : Inhabited AttrMap := ⟨empty⟩

def isEmpty (attrs : AttrMap) : Bool :=
  attrs.entries.isEmpty

def get? (attrs : AttrMap) (key : String) : Option String :=
  attrs.entries.lookup key

def insert (attrs : AttrMap) (key value : String) : AttrMap where
  entries := insertEntry key value attrs.entries
  ascending := ascending_insert_entry key value attrs.ascending

@[simp]
theorem get?_insert_self (attrs : AttrMap) (key value : String) :
    (attrs.insert key value).get? key = some value :=
  lookup_insert_entry_self key value attrs.entries

theorem get?_insert_of_ne (attrs : AttrMap) {key other : String} (value : String)
    (different : other ≠ key) : (attrs.insert key value).get? other = attrs.get? other :=
  lookup_insert_entry_of_ne value attrs.entries different

/-- Sets texts one after the other, so that the last under a key stands. -/
def ofList (entries : List (String × String)) : AttrMap :=
  entries.foldl (fun attrs entry => attrs.insert entry.1 entry.2) empty

end AttrMap

end AddressMap
