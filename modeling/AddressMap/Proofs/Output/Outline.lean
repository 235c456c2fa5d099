import AddressMap.Proofs.Elaboration.Fidelity
import AddressMap.Proofs.Element.Paths
import AddressMap.Proofs.Output.Sinks
import AddressMap.Proofs.Text.Lines
import AddressMap.Proofs.Text.Wrapping

/-!
# Outlines as texts

The text of an outline lists the elements of a root in preorder. Each has a headline with its name,
behind four blanks for every level that it stands below the root. The paragraphs of its description
follow in order, one level deeper, and each is set greedily in what a hundred columns leave of a
line. As long as no name breaks a line, the lines of the text are these and no others.
-/

namespace AddressMap

set_option autoImplicit false

namespace OutlineLine

/-- The line as it stands in the text, without the line break behind it. -/
def shown (line : OutlineLine) : String :=
  String.ofList (List.replicate (4 * line.level) ' ') ++ line.text

theorem to_list_pieces (line : OutlineLine) :
    line.pieces.flatMap String.toList = line.shown.toList ++ ['\n'] := by
  have step : "    ".toList = List.replicate 4 ' ' := rfl
  have indent : (List.replicate line.level "    ").flatMap String.toList =
      List.replicate (4 * line.level) ' ' := by
    rw [List.flatMap_replicate, step, List.flatten_replicate_replicate, Nat.mul_comm]
  rw [pieces, List.flatMap_append, indent, shown, String.toList_append, String.toList_ofList,
    List.append_assoc]
  rfl

theorem on_one_line_shown {line : OutlineLine} (text : OnOneLine line.text) :
    OnOneLine line.shown := by
  refine OnOneLine.append_iff.2 ⟨?_, text⟩
  rw [OnOneLine, String.toList_ofList]
  intro broken
  exact absurd (List.eq_of_mem_replicate broken) (by decide)

end OutlineLine

namespace Element

section Headlines

variable {element : Element}

/-- The names that the headline of the element may show are on one line. -/
def NamedOnOneLine (element : Element) : Prop :=
  OnOneLine element.name ∧ ∀ bound ∈ element.componentName?, OnOneLine bound

instance (element : Element) : Decidable element.NamedOnOneLine :=
  inferInstanceAs (Decidable (_ ∧ _))

theorem on_one_line_mark (access : Access) : OnOneLine access.mark := by
  cases access <;> decide

theorem on_one_line_title (kind : Kind) : OnOneLine kind.title := by
  cases kind <;> decide

theorem on_one_line_key (attr : Attribute) : OnOneLine attr.key := by
  cases attr <;> decide

theorem on_one_line_stated (named : element.NamedOnOneLine) :
    ∀ entry ∈ element.stated, OnOneLine entry.2 := by
  have bound := named.2
  cases element <;> simp_all [stated, ElementArray.stated, componentName?]

theorem on_one_line_listed_line (named : element.NamedOnOneLine) :
    OnOneLine element.listedLine := by
  have attrs : ∀ text ∈ element.stated.map fun entry => s!"{entry.1.key}={entry.2}",
      OnOneLine text := by
    intro text member
    obtain ⟨entry, present, rfl⟩ := List.mem_map.1 member
    simp only [OnOneLine.append_iff, and_assoc]
    exact ⟨on_one_line_key entry.1, by decide, on_one_line_stated named entry present⟩
  have formats : ∀ text ∈ (if element.header.format = .bits then []
      else [s!"format={element.header.format.keyword}"]), OnOneLine text := by
    cases element.header.format <;> decide
  have listed := OnOneLine.intercalate (by decide : OnOneLine ",")
    (List.forall_mem_append.2 ⟨attrs, formats⟩)
  simp only [listedLine, OnOneLine.append_iff, and_assoc]
  exact ⟨on_one_line_title _, by decide, named.1, by decide, listed, on_one_line_mark _, by decide⟩

/-- Only a name can break a headline: numbers and fixed texts hold no line break. -/
theorem on_one_line_outline_line (named : element.NamedOnOneLine) :
    OnOneLine element.outlineLine := by
  have access := on_one_line_mark element.header.access
  cases element with
  | component item =>
      simp only [outlineLine, OnOneLine.append_iff, and_assoc]
      exact ⟨by decide, named.1, by decide, .number _, access, by decide⟩
  | register item =>
      simp only [outlineLine, OnOneLine.append_iff, and_assoc]
      exact ⟨by decide, .number _, by decide, named.1, by decide, .hex _, access, by decide⟩
  | enumValue item =>
      simp only [outlineLine, OnOneLine.append_iff, and_assoc]
      exact ⟨named.1, by decide, .number _⟩
  | componentInstance item =>
      simp only [outlineLine, OnOneLine.append_iff, and_assoc]
      exact ⟨by decide, .number _, by decide, named.2 _ rfl, by decide, named.1⟩
  | registerArray item | fieldArray item | field item | memoryMap item | instanceArray item =>
      exact on_one_line_listed_line named

end Headlines

section Listing

variable {element inner : Element}

/-- The element and the elements inside in preorder, each with the level at which it stands if this
one stands at the given level. -/
def leveled : Element → Nat → List (Nat × Element) :=
  fold fun element below level =>
    (level, element) :: below.flatMap fun listed => listed (level + 1)

theorem leveled_eq (element : Element) (level : Nat) :
    element.leveled level =
      (level, element) :: element.children.flatMap fun child => child.leveled (level + 1) := by
  unfold leveled
  rw [fold_eq, List.flatMap_map]

theorem map_snd_leveled (element : Element) (level : Nat) :
    (element.leveled level).map Prod.snd = element.preorder := by
  induction element using induction_on_children generalizing level with
  | step element ih =>
      rw [leveled_eq, preorder_eq, List.map_cons, List.map_flatMap]
      congr 1
      exact List.flatMap_congr fun child member => ih child member (level + 1)

theorem below_of_mem_leveled {level reached : Nat}
    (member : (reached, inner) ∈ element.leveled level) :
    ∃ levels, reached = level + levels ∧ Below levels inner element := by
  induction element using induction_on_children generalizing level with
  | step element ih =>
      rw [leveled_eq] at member
      rcases List.mem_cons.1 member with same | deeper
      · obtain ⟨rfl, rfl⟩ := Prod.mk.inj same
        exact ⟨0, rfl, .self inner⟩
      · obtain ⟨child, present, listed⟩ := List.mem_flatMap.1 deeper
        obtain ⟨levels, rfl, below⟩ := ih child present listed
        exact ⟨levels + 1, by omega, .deeper present below⟩

/-- What stands before the name in a headline: what finds the element, or else what it is. -/
def lead : Element → String
  | component _ => "component "
  | register item => "(" ++ toString item.offset ++ ") "
  | enumValue _ => ""
  | componentInstance item => "(" ++ toString item.offset ++ ") " ++ item.componentName ++ " "
  | element => element.kind.title ++ " "

theorem lead_begins_outline_line (element : Element) :
    (element.lead ++ element.name).toList <+: element.outlineLine.toList := by
  have plain (text : String) : toString text = text := rfl
  cases element <;>
    simp only [outlineLine, listedLine, lead, plain, String.toList_append, List.append_assoc,
      List.prefix_append_right_inj, List.prefix_append, List.prefix_rfl, String.toList_empty,
      List.nil_append]

theorem description_lines_eq (element : Element) (level : Nat) :
    element.descriptionLines level =
      element.header.description.flatMap (wrap (100 - 4 * level)) := by
  rw [descriptionLines, Nat.mul_comm]
  rfl

/-- The headline of the element, and behind it the lines of each paragraph of its description. -/
def ownLines (element : Element) (level : Nat) : List OutlineLine :=
  ⟨level, element.outlineLine⟩ ::
    (element.header.description.flatMap (wrap (100 - 4 * (level + 1)))).map
      (OutlineLine.mk (level + 1))

theorem lines_from_eq_flat_map (element : Element) (level : Nat) :
    element.linesFrom level =
      (element.leveled level).flatMap fun entry => entry.2.ownLines entry.1 := by
  induction element using induction_on_children generalizing level with
  | step element ih =>
      rw [lines_from_eq, leveled_eq, List.flatMap_cons, List.flatMap_assoc, description_lines_eq]
      have below := List.flatMap_congr fun child member => ih child member (level + 1)
      rw [below]
      rfl

theorem on_one_line_of_mem_own_lines {level : Nat} {line : OutlineLine}
    (named : element.NamedOnOneLine) (member : line ∈ element.ownLines level) :
    OnOneLine line.text := by
  rcases List.mem_cons.1 member with rfl | described
  · exact on_one_line_outline_line named
  · obtain ⟨text, wrapped, rfl⟩ := List.mem_map.1 described
    obtain ⟨paragraph, -, inside⟩ := List.mem_flatMap.1 wrapped
    exact OnOneLine.of_mem_wrap inside

theorem on_one_line_of_mem_lines_from {level : Nat} {line : OutlineLine}
    (named : ∀ inner ∈ element.preorder, inner.NamedOnOneLine)
    (member : line ∈ element.linesFrom level) : OnOneLine line.text := by
  rw [lines_from_eq_flat_map] at member
  obtain ⟨entry, listed, own⟩ := List.mem_flatMap.1 member
  have inside : entry.2 ∈ element.preorder := by
    rw [← map_snd_leveled element level]
    exact List.mem_map_of_mem listed
  exact on_one_line_of_mem_own_lines (named entry.2 inside) own

end Listing

end Element

namespace Outline

/-- The lines of the text are those of the elements in preorder, each as many levels deep as the
element stands below the root. -/
structure Lists (root : Element) (text : String) : Prop where
  /-- Nothing stands behind the last line break. -/
  lines : List.splitOn '\n' text.toList =
    ((root.leveled 0).flatMap fun entry => entry.2.ownLines entry.1).map (·.shown.toList) ++ [[]]
  preorder : (root.leveled 0).map Prod.snd = root.preorder
  nested : ∀ entry ∈ root.leveled 0, Element.Below entry.1 entry.2 root
  headed : ∀ entry ∈ root.leveled 0,
    (entry.2.lead ++ entry.2.name).toList <+: entry.2.outlineLine.toList
  /-- With its indent, a line of several words keeps to a hundred columns. -/
  wrapped : ∀ entry ∈ root.leveled 0, ∀ paragraph ∈ entry.2.header.description,
    SetGreedily String.utf8ByteSize (100 - 4 * (entry.1 + 1)) paragraph
      (wrap (100 - 4 * (entry.1 + 1)) paragraph)

theorem to_list_text (root : Element) :
    (OutputFormat.tree.text root).toList =
      ((root.linesFrom 0).map (·.shown.toList)).flatMap (· ++ ['\n']) := by
  rw [OutputFormat.text, String.toList_join, OutputFormat.pieces, List.flatMap_assoc,
    List.flatMap_map]
  exact List.flatMap_congr fun line _ => line.to_list_pieces

/-- This is so for every element inside which no name breaks a line. -/
theorem lists_of_named_on_one_line {root : Element}
    (named : ∀ element ∈ root.preorder, element.NamedOnOneLine) :
    Lists root (OutputFormat.tree.text root) := by
  constructor
  case lines =>
    rw [to_list_text, ← root.lines_from_eq_flat_map]
    apply split_on_of_terminated
    intro piece member
    obtain ⟨line, listed, rfl⟩ := List.mem_map.1 member
    exact OutlineLine.on_one_line_shown (Element.on_one_line_of_mem_lines_from named listed)
  case preorder => exact root.map_snd_leveled 0
  case nested =>
    intro entry member
    obtain ⟨levels, reached, below⟩ := Element.below_of_mem_leveled member
    rw [reached, Nat.zero_add]
    exact below
  case headed => exact fun entry _ => entry.2.lead_begins_outline_line
  case wrapped => exact fun entry _ paragraph _ => set_greedily_wrap _ paragraph

/-- Of thirty words with four letters, nineteen fit behind the indent. -/
example : renderText .tree (.enumValue
      ⟨⟨"ON", ⟨["ON"]⟩, [joined (.replicate 30 "word")], .readWrite, .bits⟩, 1⟩) =
    .ok ("ON = 1\n    " ++ joined (.replicate 19 "word") ++ "\n    " ++
      joined (.replicate 11 "word") ++ "\n") := by
  decide +kernel

end Outline

theorem EnumValue.named_as_declared {field : Site} {size : Nat} {above : Context}
    {names : List String} {largest? : Option Nat} {decls : List Decl} {values : List EnumValue}
    (built : EnumValue.ofDecls field size above names largest? decls = .ok values) :
    List.Forall₂ (fun decl value => decl.name? = some value.header.name) decls values := by
  induction decls generalizing names largest? values with
  | nil =>
      cases built
      exact .nil
  | cons decl rest ih =>
      obtain ⟨value, others, rule, later, rfl⟩ := of_decls_cons_eq_ok.1 built
      exact .cons rule.titled.name (ih later)

namespace Element

/-- The values of a field stand in the order in which the declaration names them. -/
def ValuesAsDeclared (decl : Decl) (element : Element) : Prop :=
  ∀ item, element = .field item →
    List.Forall₂ (fun child value => child.name? = some value.header.name) decl.children item.values

theorem values_as_declared_of_built {above : Context} {decl : Decl} {element : Element}
    (built : Built above decl element) : ValuesAsDeclared decl element := by
  intro item same
  cases built with
  | component built | memoryMap built | enumValue rule => contradiction
  | register built | componentInstance stocked built => cases built <;> contradiction
  | field built =>
      cases built with
      | single kind built suits =>
          cases same
          exact EnumValue.named_as_declared (Field.of_decl_eq_ok.1 built).values
      | array kind rule suits => contradiction

/-- The order of what is directly inside an element. -/
structure OrdersChildren (element : Element) : Prop where
  laidOut : ∀ layout, element.layout? = some layout →
    Layout.InOrder layout.items ∧ element.children = layout.items.map (·.item) ∧
      ∀ placed ∈ layout.items, placed.item.offset? = some placed.start
  values : ∀ item, element = .field item → element.children = item.values.map .enumValue
  /-- The component that an instance is bound to is not inside it. -/
  bound : ∀ placed, element = .componentInstance placed → element.children = []

end Element

namespace Design

variable {defaults : MapDefaults} {decls : List Decl} {design : Design}

theorem orders_children_of_built (built : Design.ofDecls defaults decls = .ok design) :
    ∀ element ∈ design.elements, element.OrdersChildren := by
  intro element member
  obtain ⟨wordWidth, well⟩ := well_formed_in_of_mem_elements (well_formed_of_built built) member
  constructor
  case laidOut =>
    intro layout holds
    have valid := Element.valid_of_well_formed well holds
    refine ⟨valid.ordered, Element.children_of_layout? holds, ?_⟩
    intro placed inside
    exact ((consistent_of_built built element member).seated layout holds placed inside).1
  case values =>
    rintro item rfl
    rfl
  case bound =>
    rintro placed rfl
    rfl

/-- The outline of each root inside which no name breaks a line is the listing of its elements in
preorder, where children stand in address order and named values as they are declared. -/
theorem outlines_list_preorder (built : Design.ofDecls defaults decls = .ok design) :
    (∀ root ∈ design.roots, (∀ element ∈ root.preorder, element.NamedOnOneLine) →
      ∃ text, renderText .tree root = .ok text ∧ Outline.Lists root text) ∧
    (∀ element ∈ design.elements, element.OrdersChildren) ∧
    BecomeEach (fun _ => Element.ValuesAsDeclared) {} decls design.roots := by
  refine ⟨?_, orders_children_of_built built, ?_⟩
  · intro root _ named
    exact ⟨_, render_text_eq .tree root, Outline.lists_of_named_on_one_line named⟩
  · exact (become_each built).imp fun _ _ _ => Element.values_as_declared_of_built

def sampleOutlines : List String :=
  ["component timer (size=8)
    Counts down.
    (0) control (reset=0x0)
        Field mode (offset=0,size=2)
            once = 0
            periodic = 1
        FieldArray enable (offset=4,count=3,framesize=1,size=3)
            Field lane (offset=0,size=1)
    RegisterArray reload (offset=4,count=2,framesize=2,size=4)
        (1) reload (reset=0xff)\n",
    "MemoryMap bus (base=0x80000000,width=32,size=320 RO)
    InstanceArray timer (offset=256,count=2,framesize=32,size=64 RO)
        (0) timer timer\n"]

theorem outlines_of_sample_list_preorder :
    ∃ design, Design.ofDecls {} sampleDecls = .ok design ∧
      design.roots.map (renderText .tree) = sampleOutlines.map .ok ∧
      (∀ root ∈ design.roots, ∃ text, renderText .tree root = .ok text ∧
        Outline.Lists root text) ∧
      (∀ element ∈ design.elements, element.OrdersChildren) ∧
      BecomeEach (fun _ => Element.ValuesAsDeclared) {} sampleDecls design.roots := by
  have shown : (Design.ofDecls {} sampleDecls).map (fun design =>
      (design.roots.map (renderText .tree),
        decide (∀ root ∈ design.roots, ∀ element ∈ root.preorder, element.NamedOnOneLine))) =
      .ok (sampleOutlines.map .ok, true) := by decide +kernel
  obtain ⟨design, built, same⟩ := exists_of_map_eq_ok shown
  obtain ⟨texts, checked⟩ := Prod.mk.inj same
  have named := of_decide_eq_true checked
  obtain ⟨outlines, ordered, declared⟩ := outlines_list_preorder built
  exact ⟨design, built, texts, fun root member => outlines root member (named root member),
    ordered, declared⟩

end Design

end AddressMap
