import AddressMap.Proofs.Elaboration.Candidates
import AddressMap.Proofs.Elaboration.Offering
import Mathlib.Data.List.Perm.Basic

/-!
# The order of children

A child with an offset may be declared anywhere among the children of a component: as long as the
children without one keep their order, the same component is built, or none.
-/

namespace AddressMap

set_option autoImplicit false

namespace Family

variable {α : Type} [Placeable α] {family : Family α} {container other : Site} {above : Context}
  {candidates : List (Candidate (Entry α))}

/-- The candidates of reordered children are the same in another order, and those that wait are in
the same order. -/
theorem children_of_perm (reads : family.ReadsOffset) (path : container.path = other.path)
    (perm : container.decl.children.Perm other.decl.children)
    (waiting : container.decl.children.filter Decl.isUnplaced =
      other.decl.children.filter Decl.isUnplaced)
    (built : family.children container above = .ok candidates) :
    ∃ reordered, family.children other above = .ok reordered ∧ candidates.Perm reordered ∧
      candidates.filter (·.offset?.isNone) = reordered.filter (·.offset?.isNone) := by
  obtain ⟨each, distinct⟩ := children_eq_ok.1 built
  obtain ⟨reordered, eachOther, samePerm⟩ := List.perm_comp_forall₂ perm.symm each
  have unplaced (decl : Decl) (candidate : Candidate (Entry α))
      (made : family.entryOfDecl container above decl = .ok candidate) :
      decl.isUnplaced ↔ candidate.offset?.isNone := by
    rw [reads.is_unplaced made]
  have sameWaiting : candidates.filter (·.offset?.isNone) =
      reordered.filter (·.offset?.isNone) := by
    have first := List.rel_filter (fun decl candidate made => unplaced decl candidate made) each
    have second := List.rel_filter (fun decl candidate made => unplaced decl candidate made)
      eachOther
    rw [← waiting] at second
    apply Relator.RightUnique.forall₂ _ first second
    intro decl one another made madeAgain
    exact Except.ok.inj (made.symm.trans madeAgain)
  refine ⟨reordered, children_eq_ok.2 ⟨?_, ?_⟩, samePerm.symm, sameWaiting⟩
  · exact eachOther.imp fun decl candidate made => (entry_of_decl_congr path).1 made
  · exact ((samePerm.map _).nodup_iff).2 distinct

theorem layout_rule_of_perm [Sited α] {good : Path → α → Prop} (reads : family.ReadsOffset)
    (occupies : family.Occupies good) {placer : Placer} {layout : Layout (Entry α)}
    (path : container.path = other.path)
    (perm : container.decl.children.Perm other.decl.children)
    (waiting : container.decl.children.filter Decl.isUnplaced =
      other.decl.children.filter Decl.isUnplaced)
    (size : container.number? .size = other.number? .size)
    (rule : family.LayoutRule placer container above layout) :
    family.LayoutRule placer other above layout := by
  obtain ⟨candidates, space, declared?, built, arranged, declared, settled⟩ := rule.arranged
  obtain ⟨reordered, builtAgain, samePerm, sameWaiting⟩ :=
    children_of_perm reads path perm waiting built
  have occupied : ∀ candidate ∈ candidates, 0 < candidate.size := by
    intro candidate member
    obtain ⟨decl, -, made⟩ := exists_related_of_mem (children_eq_ok.1 built).1 member
    exact occupies.size_pos_of_entry made
  rw [size] at declared
  rw [path] at settled
  exact ⟨reordered, space, declared?, builtAgain,
    arrange_of_perm samePerm sameWaiting occupied arranged, declared, settled⟩

end Family

namespace Component

theorem of_decl_of_perm {decl : Decl} {children : List Decl} {component : Component}
    (perm : decl.children.Perm children)
    (waiting : decl.children.filter Decl.isUnplaced = children.filter Decl.isUnplaced)
    (built : Component.ofDecl decl = .ok component) :
    Component.ofDecl (decl.withChildren children) = .ok component := by
  have rule := Component.of_decl_eq_ok.1 built
  have stated := rule.width
  rw [Component.stated_width_eq_ok] at stated
  obtain ⟨word, -⟩ := Site.check_word_width_eq_ok.1 stated.2
  let site : Site := ⟨decl, Path.root decl.label⟩
  let reordered : Site := ⟨decl.withChildren children, Path.root decl.label⟩
  have path : site.path = reordered.path := rfl
  have number (attr : Attribute) : reordered.number? attr = site.number? attr :=
    Site.number?_with_children attr
  apply Component.of_decl_eq_ok.2
  refine ⟨rule.kind, Site.titled_with_children.2 rule.titled, ?_, ?_, rule.size⟩
  · rw [← number] at stated
    exact Component.stated_width_eq_ok.2 stated
  · exact Family.layout_rule_of_perm (Register.reads_offset _) (Register.occupies word) path perm
      waiting (number .size).symm rule.layout

/-- However the children of a component are reordered, as long as those without an offset keep their
order, the same component is built from them, or none. -/
theorem built_alike_of_reordered {decl : Decl} {children : List Decl}
    (perm : decl.children.Perm children)
    (waiting : decl.children.filter Decl.isUnplaced = children.filter Decl.isUnplaced)
    (component : Component) :
    Component.ofDecl decl = .ok component ↔
      Component.ofDecl (decl.withChildren children) = .ok component := by
  constructor
  · exact of_decl_of_perm perm waiting
  · intro built
    have back : (decl.withChildren children).withChildren decl.children = decl := by
      cases decl
      rfl
    rw [← back]
    exact of_decl_of_perm perm.symm waiting.symm built

def fixedRegister : Decl where
  kind := .register
  attrs := .ofList [("name", "status"), ("offset", "2")]

def waitingRegisters : List Decl :=
  [{ kind := .register, attrs := .ofList [("name", "control")] },
    { kind := .registerArray
      attrs := .ofList [("count", "3")]
      children := [{ kind := .register, attrs := .ofList [("name", "data")] }] }]

def componentOfFixed : Decl where
  kind := .component
  attrs := .ofList [("name", "uart"), ("width", "32")]
  children := fixedRegister :: waitingRegisters

theorem sample_built_alike :
    ∃ component, Component.ofDecl componentOfFixed = .ok component ∧
      Component.ofDecl (componentOfFixed.withChildren (waitingRegisters ++ [fixedRegister])) =
        .ok component := by
  have succeeds : (Component.ofDecl componentOfFixed).isOk = true := by decide +kernel
  obtain ⟨component, built⟩ := exists_eq_ok_of_is_ok succeeds
  refine ⟨component, built, (built_alike_of_reordered ?_ ?_ component).1 built⟩
  · exact (List.perm_append_singleton fixedRegister waitingRegisters).symm
  · rfl

end Component

end AddressMap
