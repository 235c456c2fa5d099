import AddressMap.Proofs.Elaboration.Making
import AddressMap.Proofs.Element.Descent

/-!
# Declarations and their elements

An element mirrors a declaration when it has its kind and description, and the elements inside,
which may be in another order, mirror one by one the declarations inside. A design mirrors its
declarations in this sense, except that what is declared inside a named value or an instance is
dropped without an error. Everywhere else a declaration in the wrong place is refused.
-/

namespace AddressMap

set_option autoImplicit false

inductive Mirrors : Decl → Element → Prop where
  | intro {decl : Decl} {element : Element} {arranged : List Element}
      (kind : element.kind = decl.kind)
      (description : element.header.description = decl.description)
      (perm : arranged.Perm element.children)
      (children : List.Forall₂ Mirrors decl.children arranged) : Mirrors decl element

/-- One element for each declaration and one declaration for each element, in any order. -/
def MirrorEach (decls : List Decl) (elements : List Element) : Prop :=
  ∃ arranged, arranged.Perm elements ∧ List.Forall₂ Mirrors decls arranged

namespace Mirrors

variable {decl : Decl} {element : Element}

theorem intro_of_each (kind : element.kind = decl.kind)
    (description : element.header.description = decl.description)
    (each : MirrorEach decl.children element.children) : Mirrors decl element := by
  obtain ⟨arranged, perm, children⟩ := each
  exact .intro kind description perm children

theorem of_mem_children (mirrors : Mirrors decl element) {child : Decl}
    (member : child ∈ decl.children) : ∃ inner ∈ element.children, Mirrors child inner := by
  cases mirrors with
  | intro kind description perm children =>
      have swapped := children.flip
      obtain ⟨inner, present, found⟩ := exists_related_of_mem swapped member
      exact ⟨inner, perm.mem_iff.1 present, found⟩

theorem of_inside (mirrors : Mirrors decl element) {inner : Decl}
    (inside : Decl.Inside inner decl) : ∃ other, Mirrors inner other := by
  induction inside generalizing element with
  | self => exact ⟨element, mirrors⟩
  | deeper member _ ih =>
      obtain ⟨other, -, found⟩ := of_mem_children mirrors member
      exact ih found

theorem kind_eq (mirrors : Mirrors decl element) : element.kind = decl.kind := by
  cases mirrors with
  | intro kind description perm children => exact kind

end Mirrors

namespace Element

theorem admits_of_mem_children {element child : Element} (member : child ∈ element.children) :
    element.kind.admits child.kind := by
  cases element with
  | component element =>
      obtain ⟨⟨entry, _, _⟩, _, rfl⟩ := mem_elements member
      cases entry <;> rfl
  | registerArray element =>
      obtain ⟨placed, _, rfl⟩ := mem_elements member
      rfl
  | register element =>
      obtain ⟨⟨entry, _, _⟩, _, rfl⟩ := mem_elements member
      cases entry <;> rfl
  | fieldArray element =>
      obtain ⟨placed, _, rfl⟩ := mem_elements member
      rfl
  | field element =>
      obtain ⟨value, _, rfl⟩ := List.mem_map.1 member
      rfl
  | enumValue element => exact absurd member List.not_mem_nil
  | memoryMap element =>
      obtain ⟨⟨entry, _, _⟩, _, rfl⟩ := mem_elements member
      cases entry <;> rfl
  | instanceArray element =>
      obtain ⟨placed, _, rfl⟩ := mem_elements member
      rfl
  | componentInstance element => exact absurd member List.not_mem_nil

end Element

theorem admits_of_mirrored {decl inner child : Decl} {element : Element}
    (mirrors : Mirrors decl element) (inside : inner.Inside decl)
    (member : child ∈ inner.children) : inner.kind.admits child.kind := by
  obtain ⟨outer, found⟩ := mirrors.of_inside inside
  obtain ⟨below, present, mirrored⟩ := found.of_mem_children member
  rw [← found.kind_eq, ← mirrored.kind_eq]
  exact Element.admits_of_mem_children present

theorem bare_of_mirrored {decl inner : Decl} {element : Element} (mirrors : Mirrors decl element)
    (inside : inner.Inside decl) (leaf : inner.kind.isLeaf = true) : inner.children = [] := by
  apply List.eq_nil_iff_forall_not_mem.2
  intro child member
  have admitted := admits_of_mirrored mirrors inside member
  have refused := List.all_eq_true.1 leaf child.kind (by cases child.kind <;> decide)
  rw [admitted] at refused
  contradiction

section Becomes

variable {above : Context} {decl : Decl} {element : Element} {decls : List Decl}
  {elements : List Element}

theorem mirror_each_of_pairs {pairs : List (Decl × Element)} (first : pairs.map Prod.fst = decls)
    (second : (pairs.map Prod.snd).Perm elements)
    (mirrored : ∀ pair ∈ pairs, Mirrors pair.1.pruned pair.2) :
    MirrorEach (decls.map Decl.pruned) elements := by
  refine ⟨pairs.map Prod.snd, second, ?_⟩
  rw [← first, List.map_map]
  exact List.forall₂_map_left_iff.2 (List.forall₂_map_right_iff.2 (List.forall₂_same.2 mirrored))

/-- An element mirrors the declaration that it is made from, without what is dropped. -/
theorem mirrors_pruned_of_made (made : Becomes Element.Made above decl element) :
    Mirrors decl.pruned element := by
  induction made with
  | intro pairs here decls elements inside ih =>
      apply Mirrors.intro_of_each
      · rw [Decl.kind_pruned]
        exact here.kind
      · rw [Decl.description_pruned]
        exact Site.description_of_header here.header
      · rw [Decl.children_pruned_eq_map_held]
        exact mirror_each_of_pairs decls elements ih

end Becomes

namespace Design

variable {defaults : MapDefaults} {decls : List Decl} {design : Design}

/-- The roots mirror what is left of the declarations once what stands inside leaves is dropped. -/
theorem mirror_each_pruned (built : Design.ofDecls defaults decls = .ok design) :
    MirrorEach (decls.map Decl.pruned) design.roots := by
  obtain ⟨pairs, first, second, made⟩ := become_each_of_built built
  apply mirror_each_of_pairs first second
  exact fun pair member => mirrors_pruned_of_made (made pair member)

/-- The elements of a design correspond one to one to the declarations, as long as no named value
and no instance declares anything inside; if one does, they do not. What is left of the declarations
once all that is dropped always corresponds to the elements, and in it every declaration stands
inside a kind that admits it. -/
theorem mirrors_declarations_iff (built : Design.ofDecls defaults decls = .ok design) :
    (MirrorEach decls design.roots ↔
      ∀ decl ∈ decls, ∀ inner, Decl.Inside inner decl → inner.kind.isLeaf → inner.children = []) ∧
    MirrorEach (decls.map Decl.pruned) design.roots ∧
    ∀ decl ∈ decls, ∀ inner, Decl.Inside inner decl.pruned → ∀ child ∈ inner.children,
      inner.kind.admits child.kind := by
  have each := mirror_each_pruned built
  refine ⟨⟨?faithful, ?bare⟩, each, ?placed⟩
  case faithful =>
    intro ⟨arranged, perm, mirrored⟩ decl member inner inside leaf
    obtain ⟨element, present, mirrors⟩ := exists_related_of_mem mirrored.flip member
    exact bare_of_mirrored mirrors inside leaf
  case bare =>
    intro bare
    have unchanged : ∀ decl ∈ decls, decl.pruned = decl := by
      intro decl member
      exact Decl.pruned_eq_self (bare decl member)
    rw [List.map_congr_left unchanged, List.map_id'] at each
    exact each
  case placed =>
    intro decl member inner inside child present
    obtain ⟨arranged, perm, mirrored⟩ := each
    have known : decl.pruned ∈ decls.map Decl.pruned := List.mem_map_of_mem member
    obtain ⟨element, -, mirrors⟩ := exists_related_of_mem mirrored.flip known
    exact admits_of_mirrored mirrors inside present

theorem sample_mirrored :
    ∃ design, Design.ofDecls {} sampleDecls = .ok design ∧
      design.roots.map Element.name = ["timer", "bus"] ∧ MirrorEach sampleDecls design.roots := by
  have names : (Design.ofDecls {} sampleDecls).map (·.roots.map Element.name) =
      .ok ["timer", "bus"] := by decide +kernel
  obtain ⟨design, built, roots⟩ := exists_of_map_eq_ok names
  have whole : sampleDecls.map Decl.pruned = sampleDecls := rfl
  have pruned := (mirrors_declarations_iff built).2.1
  rw [whole] at pruned
  exact ⟨design, built, roots, pruned⟩

def valueWithField : Decl where
  kind := .enumValue
  attrs := .ofList [("name", "idle")]
  children := [{ kind := .field, attrs := .ofList [("name", "lost")] }]

def componentOfValue : Decl where
  kind := .component
  attrs := .ofList [("name", "timer"), ("width", "32")]
  children :=
    [{ kind := .register
       attrs := .ofList [("name", "control")]
       children :=
        [{ kind := .field
           attrs := .ofList [("name", "mode")]
           children := [valueWithField] }] }]

/-- The field inside the named value is dropped, and nothing says so. -/
theorem field_inside_value_dropped :
    ∃ design, Design.ofDecls {} [componentOfValue] = .ok design ∧
      ¬ MirrorEach [componentOfValue] design.roots := by
  obtain ⟨design, built⟩ :=
    @exists_eq_ok_of_is_ok _ _ (Design.ofDecls {} [componentOfValue]) (by decide +kernel)
  refine ⟨design, built, ?_⟩
  intro ⟨arranged, perm, mirrored⟩
  have inside : valueWithField.Inside componentOfValue :=
    .deeper (List.mem_singleton_self _)
      (.deeper (List.mem_singleton_self _) (.deeper (List.mem_singleton_self _) (.self _)))
  obtain ⟨element, -, mirrors⟩ :=
    exists_related_of_mem mirrored.flip (List.mem_singleton_self componentOfValue)
  have bare := bare_of_mirrored mirrors inside rfl
  contradiction

end Design

end AddressMap
