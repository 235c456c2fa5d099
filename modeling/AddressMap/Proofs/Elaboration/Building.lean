import AddressMap.Proofs.Decl.Nesting
import AddressMap.Proofs.Elaboration.Roots
import AddressMap.Proofs.Elaboration.Seating
import Mathlib.Data.List.Perm.Basic

/-!
# How declarations become elements

`Becomes node` says that a declaration becomes an element: `node` relates the two, and the
declarations inside become one by one the elements inside, which may be in another order. Every
declaration becomes its element with the relation `Element.Built`: the element is what its builder
answers, in a place that suits it.
-/

namespace AddressMap

set_option autoImplicit false

/-- The relation `node` is given what the container hands down. -/
inductive Becomes (node : Context → Decl → Element → Prop) : Context → Decl → Element → Prop where
  | intro {above : Context} {decl : Decl} {element : Element} (pairs : List (Decl × Element))
      (here : node above decl element)
      (decls : pairs.map Prod.fst = decl.held)
      (elements : (pairs.map Prod.snd).Perm element.children)
      (inside : ∀ pair ∈ pairs, Becomes node element.header.context pair.1 pair.2) :
      Becomes node above decl element

/-- One element for each declaration and one declaration for each element, in any order. -/
def BecomeEach (node : Context → Decl → Element → Prop) (above : Context) (decls : List Decl)
    (elements : List Element) : Prop :=
  ∃ pairs : List (Decl × Element), pairs.map Prod.fst = decls ∧
    (pairs.map Prod.snd).Perm elements ∧ ∀ pair ∈ pairs, Becomes node above pair.1 pair.2

section Becomes

variable {node other : Context → Decl → Element → Prop} {above : Context} {decl : Decl}
  {element : Element} {decls : List Decl} {elements : List Element}

theorem Becomes.intro_of_each (here : node above decl element)
    (each : BecomeEach node element.header.context decl.held element.children) :
    Becomes node above decl element := by
  obtain ⟨pairs, first, second, inside⟩ := each
  exact .intro pairs here first second inside

theorem Becomes.here (becomes : Becomes node above decl element) : node above decl element := by
  cases becomes with
  | intro _ here _ _ _ => exact here

theorem Becomes.imp (weaker : ∀ above decl element, node above decl element →
    other above decl element) (becomes : Becomes node above decl element) :
    Becomes other above decl element := by
  induction becomes with
  | intro pairs here decls elements _ ih => exact .intro pairs (weaker _ _ _ here) decls elements ih

theorem BecomeEach.imp (weaker : ∀ above decl element, node above decl element →
    other above decl element) (each : BecomeEach node above decls elements) :
    BecomeEach other above decls elements := by
  obtain ⟨pairs, first, second, inside⟩ := each
  exact ⟨pairs, first, second, fun pair member => (inside pair member).imp weaker⟩

theorem become_each_of_forall₂ {arranged : List Element}
    (each : List.Forall₂ (Becomes node above) decls arranged) (perm : arranged.Perm elements) :
    BecomeEach node above decls elements := by
  refine ⟨decls.zip arranged, ?_, ?_, ?_⟩
  · exact List.map_fst_zip (Nat.le_of_eq each.length_eq)
  · rw [List.map_snd_zip (Nat.le_of_eq each.length_eq.symm)]
    exact perm
  · exact fun pair member => List.forall₂_zip each member

theorem become_each_nil : BecomeEach node above [] [] :=
  become_each_of_forall₂ .nil (.refl _)

theorem become_each_of_arrange {α : Type} [Placeable α] {candidates : List (Candidate α)}
    {placer : Placer} {resizer : Resizer} {space : Space α} {toElement : α → Element}
    (built : List.Forall₂ (fun decl candidate => ∀ start, candidate.Suits placer start →
      Becomes node above decl (toElement (Placeable.moveTo candidate.item start)))
      decls candidates)
    (arranged : arrange { placer, resizer } candidates = .ok space) :
    BecomeEach node above decls (space.layout.elements toElement) := by
  obtain ⟨placed, perm, suited⟩ := suited_of_arrange arranged
  have each : List.Forall₂ (Becomes node above) decls
      (placed.map fun entry => toElement entry.item) := by
    apply List.forall₂_map_right_iff.2
    clear perm arranged
    induction built generalizing placed with
    | nil =>
        cases suited
        exact .nil
    | cons here _ ih =>
        cases suited with
        | cons found others =>
            apply List.Forall₂.cons
            · rw [found.2]
              exact here _ found.1
            · exact ih _ others
  exact become_each_of_forall₂ each (perm.map _)

end Becomes

/-- An entry of the family that is built from the declaration, in a place that suits it. -/
inductive Family.Builds {α : Type} [Placeable α] (family : Family α) (placer : Placer)
    (container : Path) (above : Context) (decl : Decl) : Entry α → Prop where
  | single {candidate : Candidate α} {start : Nat} (kind : decl.kind = family.kind)
      (built : family.ofDecl container above decl = .ok candidate)
      (suits : candidate.Suits placer start) :
      Builds family placer container above decl (.single (Placeable.moveTo candidate.item start))
  | array {parts : ArrayParts α} {start : Nat} (kind : decl.kind = family.arrayKind)
      (rule : family.ArrayRule container above decl parts)
      (suits : parts.candidate.Suits placer start) :
      Builds family placer container above decl
        (.array { parts.candidate.item with offset := start })

def Catalog.Stocked (catalog : Catalog) : Prop :=
  ∀ component ∈ catalog.components, ∃ decl, Component.ofDecl decl = .ok component

/-- The element is built from the declaration, and where it is placed, the place suits it. -/
inductive Element.Built : Context → Decl → Element → Prop where
  | component {decl : Decl} {component : Component}
      (built : Component.ofDecl decl = .ok component) : Built {} decl (.component component)
  | register {wordWidth : Nat} {placer : Placer} {container : Path} {above : Context} {decl : Decl}
      {entry : Entry Register}
      (built : (Register.family wordWidth).Builds placer container above decl entry) :
      Built above decl (entry.toElement .register .registerArray)
  | field {placer : Placer} {container : Path} {above : Context} {decl : Decl} {entry : Entry Field}
      (built : Field.family.Builds placer container above decl entry) :
      Built above decl (entry.toElement .field .fieldArray)
  | enumValue {field : Site} {size : Nat} {names : List String} {largest? : Option Nat}
      {above : Context} {decl : Decl} {value : EnumValue}
      (rule : EnumValue.Rule field size above names largest? decl value) :
      Built above decl (.enumValue value)
  | memoryMap {catalog : Catalog} {defaults : MapDefaults} {decl : Decl} {map : MemoryMap}
      (built : MemoryMap.ofDecl catalog defaults decl = .ok map) : Built {} decl (.memoryMap map)
  | componentInstance {catalog : Catalog} {container : Path} {above : Context} {decl : Decl}
      {entry : Entry Instance} (stocked : catalog.Stocked)
      (built : (Instance.family catalog).Builds .aligned container above decl entry) :
      Built above decl (entry.toElement .componentInstance .instanceArray)

namespace Family

variable {α : Type} [Placeable α] {family : Family α} {placers : Placer → Prop}
  {single : α → Element} {array : ElementArray α → Element}

structure Views (family : Family α) (single : α → Element) (array : ElementArray α → Element) :
    Prop where
  kind : ∀ element, (single element).kind = family.kind
  header : ∀ element, (single element).header = Placeable.header element
  kinds : family.arrayKind ≠ family.kind
  arrayHolds : family.arrayKind.isLeaf = false
  arrayKind : ∀ elements, (array elements).kind = family.arrayKind
  arrayHeader : ∀ elements, (array elements).header = elements.header
  arrayChildren : ∀ elements, (array elements).children = elements.frame.elements single

structure Arises (family : Family α) (placers : Placer → Prop) (single : α → Element)
    (array : ElementArray α → Element) : Prop extends Views family single array where
  aligned : placers .aligned
  built : ∀ placer container above decl entry, placers placer →
    family.Builds placer container above decl entry →
      Element.Built above decl (entry.toElement single array)
  inside : ∀ container above decl candidate start, decl.kind = family.kind →
    family.ofDecl container above decl = .ok candidate →
      let element := single (Placeable.moveTo candidate.item start)
      BecomeEach Element.Built element.header.context decl.held element.children

namespace Arises

variable (arises : family.Arises placers single array) {placer : Placer} {container : Path}
  {above : Context} {decl : Decl}

include arises

theorem becomes_single {candidate : Candidate α} {start : Nat} (allowed : placers placer)
    (kind : decl.kind = family.kind) (built : family.ofDecl container above decl = .ok candidate)
    (suits : candidate.Suits placer start) :
    Becomes Element.Built above decl (single (Placeable.moveTo candidate.item start)) :=
  .intro_of_each (arises.built _ _ _ _ _ allowed (.single kind built suits))
    (arises.inside _ _ _ _ _ kind built)

/-- The template of an array becomes what stands in the frame. -/
theorem become_each_template {parts : ArrayParts α}
    (rule : family.ArrayRule container above decl parts) :
    BecomeEach Element.Built parts.header.context [parts.template]
      (parts.frame.elements single) := by
  obtain ⟨extent, -, framed⟩ := settled_layout_eq_ok.1 rule.frame
  have template : BecomeEach Element.Built parts.header.context [parts.template]
      (parts.space.layout.elements single) := by
    apply become_each_of_arrange _ rule.space
    refine .cons (fun start suits => ?_) .nil
    exact becomes_single arises arises.aligned rule.kind rule.inner suits
  rw [framed]
  exact template

theorem becomes_array {parts : ArrayParts α} {start : Nat} (allowed : placers placer)
    (kind : decl.kind = family.arrayKind) (rule : family.ArrayRule container above decl parts)
    (suits : parts.candidate.Suits placer start) :
    Becomes Element.Built above decl (array { parts.candidate.item with offset := start }) := by
  apply Becomes.intro_of_each (arises.built _ _ _ _ _ allowed (.array kind rule suits))
  have holder : decl.kind.isLeaf = false := kind ▸ arises.arrayHolds
  rw [Entry.toElement, arises.arrayHeader, arises.arrayChildren, Decl.held_of_not_leaf holder,
    rule.children]
  exact become_each_template arises rule

theorem becomes_entry {site : Site} {candidate : Candidate (Entry α)} (allowed : placers placer)
    (built : family.entryOfDecl site above decl = .ok candidate) (start : Nat)
    (suits : candidate.Suits placer start) :
    Becomes Element.Built above decl
      ((Placeable.moveTo candidate.item start).toElement single array) := by
  rcases entry_of_decl_eq_ok.1 built with ⟨kind, inner, made, rfl⟩ | ⟨-, kind, inner, made, rfl⟩
  · exact becomes_single arises allowed kind made ⟨suits.stated, suits.chosen⟩
  · obtain ⟨parts, rule, rfl⟩ := array_of_decl_eq_ok.1 made
    exact becomes_array arises allowed kind rule ⟨suits.stated, suits.chosen⟩

theorem become_each_child {site : Site} {candidates : List (Candidate (Entry α))}
    {resizer : Resizer} {space : Space (Entry α)} (allowed : placers placer)
    (holder : site.decl.kind.isLeaf = false)
    (built : family.children site above = .ok candidates)
    (arranged : arrange { placer, resizer } candidates = .ok space) :
    BecomeEach Element.Built above site.decl.held
      (space.layout.elements (·.toElement single array)) := by
  rw [Decl.held_of_not_leaf holder]
  apply become_each_of_arrange _ arranged
  exact (children_eq_ok.1 built).1.imp fun decl candidate made =>
    becomes_entry arises allowed made

/-- The children of a root become the elements of its layout. -/
theorem become_each_of_layout_rule {site : Site} {layout : Layout (Entry α)}
    (allowed : placers placer) (holder : site.decl.kind.isLeaf = false)
    (rule : family.LayoutRule placer site above layout) :
    BecomeEach Element.Built above site.decl.held
      (layout.elements (·.toElement single array)) := by
  obtain ⟨candidates, space, declared?, built, arranging, -, settled⟩ := rule.arranged
  obtain ⟨extent, -, rfl⟩ := settled_layout_eq_ok.1 settled
  exact become_each_child arises allowed holder built arranging

end Arises

end Family

theorem EnumValue.become_each_of_decls {field : Site} {size : Nat} {above : Context}
    {names : List String} {largest? : Option Nat} {decls : List Decl} {values : List EnumValue}
    (built : EnumValue.ofDecls field size above names largest? decls = .ok values) :
    List.Forall₂ (Becomes Element.Built above) decls (values.map Element.enumValue) := by
  induction decls generalizing names largest? values with
  | nil =>
      cases built
      exact .nil
  | cons decl rest ih =>
      obtain ⟨value, others, rule, later, rfl⟩ := of_decls_cons_eq_ok.1 built
      apply List.Forall₂.cons _ (ih later)
      apply Becomes.intro_of_each (.enumValue rule)
      rw [Decl.held_of_leaf (by rw [rule.kind]; rfl)]
      exact become_each_nil

theorem Field.views : Field.family.Views Element.field Element.fieldArray :=
  ⟨fun _ => rfl, fun _ => rfl, nofun, rfl, fun _ => rfl, fun _ => rfl, fun _ => rfl⟩

theorem Field.arises :
    Field.family.Arises (fun _ => True) Element.field Element.fieldArray := by
  refine ⟨Field.views, trivial, fun _ _ _ _ _ _ built => .field built, ?_⟩
  intro container above decl candidate start kind built
  have rule := Field.of_decl_eq_ok.1 built
  rw [Decl.held_of_not_leaf (by rw [kind]; rfl)]
  exact become_each_of_forall₂ (EnumValue.become_each_of_decls rule.values) (.refl _)

theorem Register.views (wordWidth : Nat) :
    (Register.family wordWidth).Views Element.register Element.registerArray :=
  ⟨fun _ => rfl, fun _ => rfl, nofun, rfl, fun _ => rfl, fun _ => rfl, fun _ => rfl⟩

theorem Register.arises (wordWidth : Nat) :
    (Register.family wordWidth).Arises (fun _ => True) Element.register Element.registerArray := by
  refine ⟨Register.views wordWidth, trivial, fun _ _ _ _ _ _ built => .register built, ?_⟩
  intro container above decl candidate start kind built
  have rule := Register.of_decl_eq_ok.1 built
  obtain ⟨fields, children, arranging⟩ := rule.fields
  obtain ⟨space, arranged, -, settled⟩ := Register.arrange_fields_eq_ok.1 arranging
  obtain ⟨extent, -, layout⟩ := settled_layout_eq_ok.1 settled
  have holder : (decl.siteIn container).decl.kind.isLeaf = false := by
    rw [Decl.siteIn, kind]
    rfl
  have each := Field.arises.become_each_child trivial holder children arranged
  show BecomeEach _ _ decl.held (candidate.item.layout.elements _)
  rw [layout]
  exact each

theorem Instance.views (catalog : Catalog) :
    (Instance.family catalog).Views Element.componentInstance Element.instanceArray :=
  ⟨fun _ => rfl, fun _ => rfl, nofun, rfl, fun _ => rfl, fun _ => rfl, fun _ => rfl⟩

theorem Instance.arises {catalog : Catalog} (stocked : catalog.Stocked) :
    (Instance.family catalog).Arises (· = .aligned) Element.componentInstance
      Element.instanceArray := by
  refine ⟨Instance.views catalog, rfl, ?_, ?_⟩
  · rintro placer container above decl entry rfl built
    exact .componentInstance stocked built
  · intro container above decl candidate start kind built
    rw [Decl.held_of_leaf (by rw [kind]; rfl)]
    exact become_each_nil

theorem Component.becomes {decl : Decl} {component : Component}
    (built : Component.ofDecl decl = .ok component) :
    Becomes Element.Built {} decl (.component component) := by
  have rule := Component.of_decl_eq_ok.1 built
  have kind : decl.kind = .component := rule.kind
  exact .intro_of_each (.component built)
    ((Register.arises _).become_each_of_layout_rule trivial (by rw [kind]; rfl) rule.layout)

theorem MemoryMap.becomes {catalog : Catalog} {defaults : MapDefaults} {decl : Decl}
    {map : MemoryMap} (stocked : catalog.Stocked)
    (built : MemoryMap.ofDecl catalog defaults decl = .ok map) :
    Becomes Element.Built {} decl (.memoryMap map) := by
  have rule := MemoryMap.of_decl_eq_ok.1 built
  have kind : decl.kind = .memoryMap := rule.kind
  exact .intro_of_each (.memoryMap built)
    ((Instance.arises stocked).become_each_of_layout_rule rfl (by rw [kind]; rfl) rule.layout)

namespace Design

variable {defaults : MapDefaults} {decls : List Decl} {design : Design}

/-- Components come first and then memory maps, each in the order of declaration. -/
theorem becomes_in_order (built : Design.ofDecls defaults decls = .ok design) :
    List.Forall₂ (Becomes Element.Built {})
      (decls.filter (·.kind = .component) ++ decls.filter (·.kind = .memoryMap)) design.roots := by
  have rule := Design.of_decls_eq_ok.1 built
  have stocked : Catalog.Stocked ⟨design.components⟩ := by
    intro component member
    obtain ⟨decl, -, made⟩ := exists_related_of_mem rule.components member
    exact ⟨decl, made⟩
  apply List.rel_append
  · apply List.forall₂_map_right_iff.2
    exact rule.components.imp fun _ _ built => Component.becomes built
  · apply List.forall₂_map_right_iff.2
    exact rule.memoryMaps.imp fun _ _ built => MemoryMap.becomes stocked built

theorem become_each (built : Design.ofDecls defaults decls = .ok design) :
    BecomeEach Element.Built {} decls design.roots := by
  have rule := Design.of_decls_eq_ok.1 built
  have sorted : decls.Perm
      (decls.filter (·.kind = .component) ++ decls.filter (·.kind = .memoryMap)) := by
    have others : decls.filter (·.kind = .memoryMap) =
        decls.filter fun decl => !decide (decl.kind = .component) := by
      apply List.filter_congr
      intro decl member
      have root := rule.roots decl member
      cases kind : decl.kind <;> simp_all [Kind.isRoot]
    rw [others]
    exact (List.filter_append_perm _ decls).symm
  obtain ⟨arranged, each, perm⟩ := List.perm_comp_forall₂ sorted (becomes_in_order built)
  exact become_each_of_forall₂ each perm

end Design

end AddressMap
