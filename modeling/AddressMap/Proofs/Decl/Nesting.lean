import AddressMap.Decl.Basic

/-!
# Declarations inside declarations

Two kinds hold nothing: named values and instances. `pruned` drops what is declared inside them,
and leaves alone every declaration in which nothing is.
-/

namespace AddressMap

set_option autoImplicit false

namespace Kind

/-- Whether elements of one kind can stand directly inside elements of another. -/
def admits : (outer inner : Kind) → Bool
  | component, register | component, registerArray => true
  | registerArray, register => true
  | register, field | register, fieldArray => true
  | fieldArray, field => true
  | field, enumValue => true
  | memoryMap, componentInstance | memoryMap, instanceArray => true
  | instanceArray, componentInstance => true
  | _, _ => false

def isLeaf (kind : Kind) : Bool :=
  all.all fun inner => !kind.admits inner

end Kind

namespace Decl

theorem induction_on_children {motive : Decl → Prop}
    (step : ∀ decl, (∀ child ∈ decl.children, motive child) → motive decl) (decl : Decl) :
    motive decl := by
  apply step
  intro child member
  exact induction_on_children step child
termination_by decl
decreasing_by
  obtain ⟨kind, attrs, description, children⟩ := decl
  have smaller := List.sizeOf_lt_of_mem member
  simp only [mk.sizeOf_spec] at smaller ⊢
  omega

/-- The first declaration is the second one or stands at any depth inside it. -/
inductive Inside : Decl → Decl → Prop where
  | self (decl : Decl) : Inside decl decl
  | deeper {inner child outer : Decl} (member : child ∈ outer.children)
      (inside : Inside inner child) : Inside inner outer

mutual

/-- The declaration without what is declared inside kinds that hold nothing. -/
def pruned : Decl → Decl
  | ⟨kind, attrs, description, children⟩ =>
      ⟨kind, attrs, description, if kind.isLeaf then [] else prunedAll children⟩

def prunedAll : List Decl → List Decl
  | [] => []
  | child :: rest => child.pruned :: prunedAll rest

end

theorem pruned_all_eq_map (decls : List Decl) : prunedAll decls = decls.map pruned := by
  induction decls with
  | nil => rfl
  | cons decl rest ih => rw [prunedAll, List.map_cons, ih]

@[simp]
theorem kind_pruned (decl : Decl) : decl.pruned.kind = decl.kind := by
  cases decl
  rfl

@[simp]
theorem description_pruned (decl : Decl) : decl.pruned.description = decl.description := by
  cases decl
  rfl

theorem children_pruned (decl : Decl) :
    decl.pruned.children = if decl.kind.isLeaf then [] else decl.children.map pruned := by
  cases decl
  rw [pruned, pruned_all_eq_map]

def held (decl : Decl) : List Decl :=
  if decl.kind.isLeaf then [] else decl.children

theorem held_of_leaf {decl : Decl} (leaf : decl.kind.isLeaf = true) : decl.held = [] := by
  rw [held, if_pos leaf]

theorem held_of_not_leaf {decl : Decl} (holder : decl.kind.isLeaf = false) :
    decl.held = decl.children := by
  rw [held, holder]
  rfl

theorem children_pruned_eq_map_held (decl : Decl) :
    decl.pruned.children = decl.held.map pruned := by
  rw [children_pruned, held]
  split <;> rfl

theorem children_pruned_of_leaf {decl : Decl} (leaf : decl.kind.isLeaf = true) :
    decl.pruned.children = [] := by
  rw [children_pruned, if_pos leaf]

theorem children_pruned_of_not_leaf {decl : Decl} (holder : decl.kind.isLeaf = false) :
    decl.pruned.children = decl.children.map pruned := by
  rw [children_pruned, holder]
  rfl

theorem pruned_eq_self {decl : Decl}
    (bare : ∀ inner, Inside inner decl → inner.kind.isLeaf → inner.children = []) :
    decl.pruned = decl := by
  induction decl using induction_on_children with
  | step decl ih =>
      have children : decl.pruned.children = decl.children := by
        by_cases leaf : decl.kind.isLeaf
        · rw [children_pruned_of_leaf leaf, bare decl (.self decl) leaf]
        · have unchanged : ∀ child ∈ decl.children, child.pruned = child := by
            intro child member
            apply ih child member
            intro inner inside
            exact bare inner (.deeper member inside)
          rw [children_pruned_of_not_leaf (by simpa using leaf), List.map_congr_left unchanged]
          exact List.map_id' _
      obtain ⟨kind, attrs, description, inner⟩ := decl
      rw [pruned] at children ⊢
      exact congrArg _ children

end Decl

end AddressMap
