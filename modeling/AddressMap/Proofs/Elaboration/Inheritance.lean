import AddressMap.Proofs.Elaboration.Making
import AddressMap.Proofs.Element.Paths

/-!
# What elements inherit

An element stems from a declaration, and so does each element around it. Whether software may read
and write the element, and how its bits are read, is decided by the nearest of these declarations
that says something about it. A declaration that imposes one of the two restrictions lifts the other
one.
-/

namespace AddressMap

set_option autoImplicit false

/-- The element with the name of the declaration stems from it, among the roots or inside an element
that stems from the declaration around it. The declarations around are listed from the nearest one
outwards. -/
inductive StemsFrom (decls : List Decl) (roots : List Element) :
    List Decl → Decl → Element → Prop where
  | root {decl : Decl} {element : Element} (member : decl ∈ decls) (present : element ∈ roots)
      (named : decl.elementName? = some element.name) : StemsFrom decls roots [] decl element
  | inside {around : List Decl} {outer decl : Decl} {parent element : Element}
      (stems : StemsFrom decls roots around outer parent) (member : decl ∈ outer.children)
      (present : element ∈ parent.children) (named : decl.elementName? = some element.name) :
      StemsFrom decls roots (outer :: around) decl element

namespace Decl

/-- Whether the declaration imposes a restriction: as it states, or not if it imposes the opposite
one. Otherwise it leaves this open. -/
def imposes? (restriction opposite : Attribute) (decl : Decl) : Option Bool :=
  decl.truth? restriction <|> if decl.truth? opposite = some true then some false else none

def format? (decl : Decl) : Option Format :=
  (decl.get? .format).bind Format.ofKeyword?

theorem held_eq_children {decl child : Decl} (member : child ∈ decl.held) :
    decl.held = decl.children := by
  cases leaf : decl.kind.isLeaf with
  | true =>
      rw [held_of_leaf leaf] at member
      contradiction
  | false => exact held_of_not_leaf leaf

end Decl

/-- Whether the nearest declaration that does not leave it open imposes the restriction. -/
def imposed (chain : List Decl) (restriction opposite : Attribute) : Bool :=
  (chain.findSome? (Decl.imposes? restriction opposite)).getD false

def nearestFormat (chain : List Decl) : Format :=
  (chain.findSome? Decl.format?).getD .bits

theorem get_d_find_some?_cons {α β : Type} (f : α → Option β) (default : β) (first : α)
    (rest : List α) :
    ((first :: rest).findSome? f).getD default =
      (f first).getD ((rest.findSome? f).getD default) := by
  rw [List.findSome?_cons]
  cases f first <;> rfl

namespace Access

/-- A restriction that is neither stated nor lifted by the opposite one is that of the parent. -/
theorem restrictions_of_inherit? {parent access : Access} {readOnly? writeOnly? : Option Bool}
    (inherited : parent.inherit? readOnly? writeOnly? = some access) :
    access.isReadOnly = (readOnly? <|> if writeOnly? = some true then some false else none).getD
        parent.isReadOnly ∧
      access.isWriteOnly = (writeOnly? <|> if readOnly? = some true then some false else none).getD
        parent.isWriteOnly := by
  rcases readOnly? with - | - | - <;> rcases writeOnly? with - | - | - <;> cases parent <;>
    cases inherited <;> decide

theorem not_both_restrictions (access : Access) :
    ¬ (access.isReadOnly = true ∧ access.isWriteOnly = true) := by
  cases access <;> decide

end Access

namespace Context

/-- What is handed down is what the nearest declarations decide. -/
structure Follows (context : Context) (chain : List Decl) : Prop where
  readOnly : context.access.isReadOnly = imposed chain .readOnly .writeOnly
  writeOnly : context.access.isWriteOnly = imposed chain .writeOnly .readOnly
  format : context.format = nearestFormat chain

theorem follows_nil : ({} : Context).Follows [] :=
  ⟨rfl, rfl, rfl⟩

theorem follows_of_header {site : Site} {name : String} {above : Context} {header : Header}
    {around : List Decl} (headed : site.header name above = .ok header)
    (follows : above.Follows around) : header.context.Follows (site.decl :: around) := by
  obtain ⟨readOnly?, writeOnly?, format?, readOnly, writeOnly, format, inherited, -, -, -,
    formats⟩ := Site.header_eq_ok.1 headed
  have given {α : Type} {text? : Option String} {read? : String → Option α} {value? : Option α}
      (read : text?.map read? = value?.map some) : text?.bind read? = value? := by
    cases text? <;> cases value? <;> simp_all
  have reads : site.decl.truth? .readOnly = readOnly? := given (Site.truth?_eq_ok.1 readOnly)
  have writes : site.decl.truth? .writeOnly = writeOnly? := given (Site.truth?_eq_ok.1 writeOnly)
  have formatted : site.decl.format? = format? := given (Site.format?_eq_ok.1 format)
  obtain ⟨readable, writable⟩ := Access.restrictions_of_inherit? inherited
  constructor
  case readOnly =>
    show header.access.isReadOnly = _
    rw [imposed, get_d_find_some?_cons, readable, follows.readOnly, Decl.imposes?, reads, writes]
    rfl
  case writeOnly =>
    show header.access.isWriteOnly = _
    rw [imposed, get_d_find_some?_cons, writable, follows.writeOnly, Decl.imposes?, reads, writes]
    rfl
  case format =>
    show header.format = _
    rw [nearestFormat, get_d_find_some?_cons, formats, follows.format, formatted]
    rfl

theorem Follows.not_both {context : Context} {chain : List Decl} (follows : context.Follows chain) :
    ¬ (imposed chain .readOnly .writeOnly = true ∧ imposed chain .writeOnly .readOnly = true) := by
  rw [← follows.readOnly, ← follows.writeOnly]
  exact context.access.not_both_restrictions

end Context

theorem becomes_of_named {above : Context} {decls : List Decl} {elements : List Element}
    (each : BecomeEach Element.Made above decls elements)
    (distinct : (elements.map Element.name).Nodup) {decl : Decl} {element : Element}
    (member : decl ∈ decls) (present : element ∈ elements)
    (named : decl.elementName? = some element.name) : Becomes Element.Made above decl element := by
  obtain ⟨pairs, rfl, perm, becomes⟩ := each
  obtain ⟨⟨decl, other⟩, paired, rfl⟩ := List.mem_map.1 member
  have becomesOther := becomes _ paired
  have namedOther : decl.elementName? = some other.name := becomesOther.here.named
  have presentOther : other ∈ elements := perm.mem_iff.1 (List.mem_map.2 ⟨_, paired, rfl⟩)
  have sameName : other.name = element.name := Option.some.inj (namedOther.symm.trans named)
  rw [← List.inj_on_of_nodup_map distinct presentOther present sameName]
  exact becomesOther

namespace Design

variable {defaults : MapDefaults} {decls : List Decl} {design : Design}

/-- What stems from a declaration is what the declaration becomes, and the declarations around it
decide what is handed down to it. -/
theorem becomes_of_stems_from (built : Design.ofDecls defaults decls = .ok design)
    {around : List Decl} {decl : Decl} {element : Element}
    (stems : StemsFrom decls design.roots around decl element) :
    element ∈ design.elements ∧
      ∃ above : Context, above.Follows around ∧ Becomes Element.Made above decl element := by
  have well := well_formed_of_built built
  induction stems with
  | @root decl element member present named =>
      refine ⟨mem_elements_of_root present element.mem_preorder_self, {}, Context.follows_nil, ?_⟩
      exact becomes_of_named (become_each_of_built built) (root_names_distinct well) member present
        named
  | @inside around outer decl parent element _ member present named ih =>
      obtain ⟨parentPresent, above, follows, becomes⟩ := ih
      refine ⟨mem_elements_of_child parentPresent present, parent.header.context, ?_, ?_⟩
      · exact Context.follows_of_header becomes.here.header follows
      · have distinct := (labels_of_mem_elements well parent parentPresent).distinct
        cases becomes with
        | intro pairs _ held perm inside =>
            obtain ⟨pair, paired, -⟩ := List.mem_map.1 (perm.mem_iff.2 present)
            -- The parent has a child, so nothing that is declared inside it is dropped.
            have children : outer.held = outer.children := by
              apply Decl.held_eq_children
              rw [← held]
              exact List.mem_map.2 ⟨pair, paired, rfl⟩
            rw [← children] at member
            exact becomes_of_named ⟨pairs, held, perm, inside⟩ distinct member present named

/-- All elements inside one that stems from a declaration stem from declarations, too. -/
theorem exists_stems_from_inside {roots : List Element} {above : Context} {around : List Decl}
    {decl : Decl} {element : Element} (becomes : Becomes Element.Made above decl element)
    (stems : StemsFrom decls roots around decl element) :
    ∀ inner ∈ element.preorder, ∃ innerAround innerDecl,
      StemsFrom decls roots innerAround innerDecl inner := by
  induction becomes generalizing around with
  | @intro above decl element pairs _ held perm inside ih =>
      intro inner member
      rw [Element.preorder_eq] at member
      rcases List.mem_cons.1 member with rfl | below
      · exact ⟨around, decl, stems⟩
      · obtain ⟨child, present, deeper⟩ := List.mem_flatMap.1 below
        obtain ⟨⟨childDecl, _⟩, paired, rfl⟩ := List.mem_map.1 (perm.mem_iff.2 present)
        have childHeld : childDecl ∈ decl.held := by
          rw [← held]
          exact List.mem_map.2 ⟨_, paired, rfl⟩
        rw [Decl.held_eq_children childHeld] at childHeld
        have named := (inside _ paired).here.named
        exact ih _ paired (.inside stems childHeld present named) inner deeper

theorem exists_stems_from (built : Design.ofDecls defaults decls = .ok design) :
    ∀ element ∈ design.elements, ∃ around decl,
      StemsFrom decls design.roots around decl element := by
  intro element member
  obtain ⟨root, present, below⟩ := List.mem_flatMap.1 member
  obtain ⟨pairs, roots, perm, becomes⟩ := become_each_of_built built
  obtain ⟨⟨decl, root⟩, paired, rfl⟩ := List.mem_map.1 (perm.mem_iff.2 present)
  have declared : decl ∈ decls := by
    rw [← roots]
    exact List.mem_map.2 ⟨_, paired, rfl⟩
  have named := (becomes _ paired).here.named
  exact exists_stems_from_inside (becomes _ paired) (.root declared present named) element below

/-- Every element stems from a declaration. The declaration and those around it decide its access
and its format, the nearest one first, and never impose both restrictions. -/
theorem nearest_declaration_decides (built : Design.ofDecls defaults decls = .ok design) :
    (∀ element ∈ design.elements, ∃ around decl,
      StemsFrom decls design.roots around decl element) ∧
    ∀ around decl element, StemsFrom decls design.roots around decl element →
      element.header.context.Follows (decl :: around) ∧
        ¬ (imposed (decl :: around) .readOnly .writeOnly = true ∧
          imposed (decl :: around) .writeOnly .readOnly = true) := by
  refine ⟨exists_stems_from built, ?_⟩
  intro around decl element stems
  obtain ⟨-, above, followsAbove, becomes⟩ := becomes_of_stems_from built stems
  have follows := Context.follows_of_header becomes.here.header followsAbove
  exact ⟨follows, follows.not_both⟩

/-- The array lifts the restriction of the component and imposes the other one. Its template states
neither to hold, so the field below is writable only. -/
def restrictedDecls : List Decl :=
  [{ kind := .component
     attrs := .ofList [("name", "port"), ("width", "8"), ("readOnly", "yes"), ("format", "signed")]
     children :=
      [{ kind := .registerArray
         attrs := .ofList [("count", "2"), ("writeOnly", "yes")]
         children :=
          [{ kind := .register
             attrs := .ofList [("name", "lane"), ("readOnly", "no")]
             children := [{ kind := .field, attrs := .ofList [("name", "level")] }] }] }] }]

theorem nearest_declaration_of_port_decides :
    ∃ design, Design.ofDecls {} restrictedDecls = .ok design ∧
      design.elements.map (fun element => (element.header.access, element.header.format)) =
        [(.readOnly, .signed), (.writeOnly, .signed), (.writeOnly, .signed),
          (.writeOnly, .signed)] ∧
      (∀ element ∈ design.elements, ∃ around decl,
        StemsFrom restrictedDecls design.roots around decl element) ∧
      ∀ around decl element, StemsFrom restrictedDecls design.roots around decl element →
        element.header.context.Follows (decl :: around) ∧
          ¬ (imposed (decl :: around) .readOnly .writeOnly = true ∧
            imposed (decl :: around) .writeOnly .readOnly = true) := by
  have contexts : (Design.ofDecls {} restrictedDecls).map (·.elements.map fun element =>
      (element.header.access, element.header.format)) =
      .ok [(.readOnly, .signed), (.writeOnly, .signed), (.writeOnly, .signed),
        (.writeOnly, .signed)] := by decide +kernel
  obtain ⟨design, built, same⟩ := exists_of_map_eq_ok contexts
  exact ⟨design, built, same, nearest_declaration_decides built⟩

end Design

end AddressMap
