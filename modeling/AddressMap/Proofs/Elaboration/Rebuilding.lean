import AddressMap.Proofs.Elaboration.Correspondence
import AddressMap.Proofs.Elaboration.Soundness
import AddressMap.Proofs.Output.Frozen

/-!
# Frozen elements are rebuilt as they were

Every builder answers for the declaration of a frozen element that element again, whatever its
container hands down and whatever is chosen by default. Nothing is left to choose: all offsets and
sizes are stated, so a layout is arranged as it was.
-/

namespace AddressMap

set_option autoImplicit false

namespace Candidate

variable {α : Type} [Placeable α] [Sited α]

def restated (element : α) (placer? : Option Placer) : Candidate α where
  item := Placeable.moveTo element 0
  offset? := some (Sited.offset element)
  size := Sited.size element
  placer? := placer?

end Candidate

section Arrange

variable {α : Type} [Placeable α] [Sited α] {layout : Layout α} {good : α → Prop}

/-- Candidates that state a seated layout are arranged as that layout. -/
theorem arrange_restated (seats : layout.Seats good) (placer : Placer) (resizer : Resizer)
    (placerOf : α → Option Placer) :
    arrange { placer, resizer }
        (layout.items.map fun placed => Candidate.restated placed.item (placerOf placed.item)) =
      .ok ⟨placer, resizer, ⟨layout.items, none⟩, []⟩ := by
  apply arrange_of_stated seats.valid
  · intro candidate member
    obtain ⟨placed, -, rfl⟩ := List.mem_map.1 member
    rfl
  · have places : (layout.items.map fun placed =>
          Candidate.restated placed.item (placerOf placed.item)).flatMap Candidate.fixed =
        layout.items.map fun placed =>
          ⟨Placeable.moveTo placed.item 0, placed.start, placed.size⟩ := by
      rw [List.flatMap_map, List.map_eq_flatMap]
      apply List.flatMap_congr
      intro placed member
      obtain ⟨start, size⟩ := seats.sited placed member
      rw [start, size]
      rfl
    have unmoved : ∀ placed ∈ layout.items,
        (⟨Placeable.moveTo (Placeable.moveTo placed.item 0) placed.start, placed.start,
          placed.size⟩ : Placed α) = placed := by
      intro placed member
      rw [Sited.move_to_move_to, (seats.sited placed member).1, Sited.move_to_offset,
        ← (seats.sited placed member).1]
    rw [places, recordOffsets, Layout.map, List.map_map]
    exact congrArg (Layout.mk · none) ((List.map_congr_left unmoved).trans (List.map_id' _))

theorem settled_layout_restated (holds : layout.Holds good) (path : Path) (placer : Placer)
    (resizer : Resizer) :
    settledLayout path ⟨placer, resizer, ⟨layout.items, none⟩, []⟩ (some layout.size) =
      .ok layout := by
  apply settled_layout_eq_ok.2
  refine ⟨layout.size, ⟨holds.covered, rfl⟩, ?_⟩
  have settled := holds.settled
  obtain ⟨items, extent⟩ := layout
  exact congrArg (Layout.mk items) settled

end Arrange

namespace Site

variable {element : Element} {site : Site} {attr : Attribute}

theorem number?_of_freeze {text : String} {number : Nat} (element : Element)
    (frozen : site.decl = element.freeze)
    (stated : element.allStated.reverse.lookup attr = some text)
    (read : readNumeral? text = some number) : site.number? attr = .ok (some number) := by
  rw [number?_eq_ok, frozen, Element.get?_freeze, stated]
  exact congrArg some read

theorem number?_of_unstated (element : Element) (frozen : site.decl = element.freeze)
    (unstated : element.allStated.reverse.lookup attr = none) : site.number? attr = .ok none := by
  rw [number?_eq_ok, frozen, Element.get?_freeze, unstated]
  rfl

/-- A frozen element has the header that it had, whatever its container hands down. -/
theorem titled_of_freeze (frozen : site.decl = element.freeze)
    (path : element.header.path = site.path) (above : Context) :
    site.Titled above element.header := by
  have stated (attr : Attribute) (text : String)
      (given : element.allStated.reverse.lookup attr = some text) :
      site.decl.get? attr = some text := by
    rw [frozen, Element.get?_freeze, given]
  have name := stated .name element.header.name (by cases element <;> rfl)
  have readOnly := stated .readOnly (truthText element.header.access.isReadOnly)
    (by cases element <;> rfl)
  have writeOnly := stated .writeOnly (truthText element.header.access.isWriteOnly)
    (by cases element <;> rfl)
  have format := stated .format element.header.format.keyword (by cases element <;> rfl)
  refine ⟨?_, name, ?_⟩
  · apply check_keys_eq_ok.2
    intro entry member
    rw [frozen] at member ⊢
    exact Element.known_of_mem_entries member
  · apply header_eq_ok.2
    refine ⟨some element.header.access.isReadOnly, some element.header.access.isWriteOnly,
      some element.header.format, ?_, ?_, ?_, Access.inherit?_stated _ _, rfl, path, ?_, rfl⟩
    · rw [truth?_eq_ok, readOnly]
      exact congrArg some (read_truth_truth_text _)
    · rw [truth?_eq_ok, writeOnly]
      exact congrArg some (read_truth_truth_text _)
    · rw [format?_eq_ok, format]
      exact congrArg some (Format.of_keyword_keyword _)
    · rw [frozen, Element.description_freeze]

end Site

theorem Element.label_freeze (element : Element) : element.freeze.label = element.header.name := by
  have name : element.freeze.name? = some element.header.name := by
    rw [Decl.name?, Element.get?_freeze]
    cases element <;> rfl
  rw [Decl.label, name, Option.getD_some]

theorem Site.titled_in_container (element : Element) {container : Path}
    (path : element.header.path = container.child element.header.name) (above : Context) :
    (element.freeze.siteIn container).Titled above element.header := by
  apply titled_of_freeze rfl
  rw [path, ← Element.label_freeze]
  rfl

section Family

variable {α : Type} [Placeable α] [Sited α] {family : Family α} {single : α → Element}
  {array : ElementArray α → Element} {good : Path → α → Prop}

structure Family.Rebuilds (family : Family α) (single : α → Element)
    (array : ElementArray α → Element) (good : Path → α → Prop) : Prop
    extends Family.Views family single array where
  arrayStated : ∀ elements, (array elements).stated = elements.stated
  rebuilt : ∀ container above element, good container element →
    Sited.offset element ≤ maxAddress →
      family.ofDecl container above (single element).freeze = .ok (.restated element none)

namespace Family.Rebuilds

theorem offset_bounded {layout : Layout α} {good : α → Prop} (seats : layout.Seats good)
    {placed : Placed α} (member : placed ∈ layout.items) :
    Sited.offset placed.item ≤ maxAddress := by
  have start := (seats.sited placed member).1
  have bound := seats.valid.bounded placed member
  unfold Placed.stop at bound
  omega

variable (rebuilds : family.Rebuilds single array good)

include rebuilds

theorem array_shape_of_freeze {site : Site} {container : Path} {elements : ElementArray α}
    (frozen : site.decl = (array elements).freeze) (well : elements.WellFormed good container)
    (bounded : elements.offset ≤ maxAddress) :
    site.arrayShape = .ok ⟨elements.count, some elements.offset, some elements.framesize,
      some elements.size⟩ := by
  have stated : (array elements).allStated = elements.header.stated ++ elements.stated := by
    rw [Element.allStated, rebuilds.arrayHeader, rebuilds.arrayStated]
  have read {attr : Attribute} {number : Nat} (bound : number ≤ maxAddress)
      (given : (elements.header.stated ++ elements.stated).reverse.lookup attr =
        some (toString number)) : site.number? attr = .ok (some number) := by
    rw [← stated] at given
    exact Site.number?_of_freeze (array elements) frozen given (read_numeral_to_string bound)
  have framesizeBounded : elements.framesize ≤ maxAddress := by
    rw [well.framesize]
    exact well.frame.bounded
  apply Site.array_shape_eq_ok.2
  refine ⟨?count, read bounded rfl, read framesizeBounded rfl, read well.bounded rfl⟩
  apply Site.positive?_eq_ok.2
  refine ⟨read well.countBounded rfl, ?_⟩
  intro zero
  exact absurd well.repeated (Option.some.inj zero ▸ Nat.lt_irrefl 0)

theorem array_of_freeze {container : Path} {elements : ElementArray α} (above : Context)
    (well : elements.WellFormed good container) (bounded : elements.offset ≤ maxAddress) :
    family.arrayOfDecl container above (array elements).freeze =
      .ok ⟨{ elements with offset := 0 }, some elements.offset, elements.size, some .aligned⟩ := by
  have header := rebuilds.arrayHeader elements
  have path : (array elements).header.path = container.child (array elements).header.name := by
    rw [header]
    exact well.path
  have titled := Site.titled_in_container (array elements) path above
  rw [header] at titled
  have site : (array elements).freeze.siteIn container =
      ⟨(array elements).freeze, container.child elements.header.name⟩ := by
    rw [Decl.siteIn, Element.label_freeze, header]
  rw [site] at titled
  obtain ⟨only, items⟩ := well.template
  have member : only ∈ elements.frame.items := by
    rw [items]
    exact List.mem_singleton_self only
  apply Family.array_of_decl_eq_ok.2
  refine ⟨{
      template := (single only.item).freeze
      name := elements.header.name
      shape := ⟨elements.count, some elements.offset, some elements.framesize, some elements.size⟩
      header := elements.header
      inner := .restated only.item none
      space := ⟨.aligned, .aligned, ⟨elements.frame.items, none⟩, []⟩
      frame := elements.frame
      size := elements.size }, ⟨?children, ?kind, ?name, titled.keys,
        array_shape_of_freeze rebuilds rfl well bounded, titled.header, ?inner, ?space, ?frame,
        ?size⟩, ?same⟩
  case children =>
    rw [Element.children_freeze, rebuilds.arrayChildren, Layout.elements, items]
    rfl
  case kind => rw [Element.kind_freeze, rebuilds.kind]
  case name =>
    rw [titled.name]
    rfl
  case inner =>
    have good := well.frame.good only member
    rw [well.path] at good
    exact rebuilds.rebuilt _ _ _ good (offset_bounded well.frame.toSeats member)
  case space =>
    have arranged := arrange_restated well.frame.toSeats .aligned .aligned fun _ => none
    rw [items] at arranged ⊢
    exact arranged
  case frame =>
    rw [well.framesize]
    exact settled_layout_restated well.frame _ _ _
  case size =>
    apply Site.array_size_eq_ok.2
    rw [← well.framesize]
    refine ⟨well.size, well.bounded, ?_⟩
    intro declared same
    exact (Option.some.inj same).symm
  case same =>
    rw [Family.ArrayParts.candidate, ← well.framesize]

def entryPlacer? : Entry α → Option Placer
  | .single _ => none
  | .array _ => some .aligned

theorem entry_of_freeze {container : Site} {entry : Entry α} (above : Context)
    (well : entry.WellFormed good container.path) (bounded : Sited.offset entry ≤ maxAddress) :
    family.entryOfDecl container above (entry.toElement single array).freeze =
      .ok (.restated entry (entryPlacer? entry)) := by
  apply Family.entry_of_decl_eq_ok.2
  cases entry with
  | single element =>
      refine .inl ⟨?_, .restated element none, ?_, rfl⟩
      · rw [Element.kind_freeze]
        exact rebuilds.kind element
      · exact rebuilds.rebuilt _ _ _ well bounded
  | array elements =>
      have kind : (array elements).freeze.kind = family.arrayKind := by
        rw [Element.kind_freeze, rebuilds.arrayKind]
      refine .inr ⟨?_, kind, _, array_of_freeze rebuilds above well bounded, rfl⟩
      intro same
      exact rebuilds.kinds (kind.symm.trans same)

/-- The frozen elements of a layout are built as candidates that state it. -/
theorem children_of_freeze {container : Site} {layout : Layout (Entry α)} (above : Context)
    (holds : layout.Holds (Entry.WellFormed good container.path))
    (children : container.decl.children =
      (layout.elements (·.toElement single array)).map Element.freeze) :
    family.children container above =
      .ok (layout.items.map fun placed => .restated placed.item (entryPlacer? placed.item)) := by
  apply Family.children_eq_ok.2
  constructor
  · rw [children, Layout.elements, List.map_map]
    apply List.forall₂_map_left_iff.2
    apply List.forall₂_map_right_iff.2
    apply List.forall₂_same.2
    intro placed member
    exact entry_of_freeze rebuilds above (holds.good placed member)
      (offset_bounded holds.toSeats member)
  · have names : (layout.items.map fun placed =>
          Candidate.restated placed.item (entryPlacer? placed.item)).map
            (fun candidate => candidate.path.leaf) =
        layout.items.map fun placed => (Placeable.header placed.item).path.leaf := by
      rw [List.map_map]
      apply List.map_congr_left
      intro placed member
      exact congrArg (·.path.leaf) (Sited.header_move_to placed.item 0)
    rw [names]
    exact holds.distinct

theorem layout_of_freeze {site : Site} {layout : Layout (Entry α)} {placer : Placer}
    (above : Context) (holds : layout.Holds (Entry.WellFormed good site.path))
    (children : site.decl.children =
      (layout.elements (·.toElement single array)).map Element.freeze)
    (size : site.number? .size = .ok (some layout.size)) :
    family.LayoutRule placer site above layout := by
  refine ⟨_, _, _, children_of_freeze rebuilds above holds children, ?_, size,
    settled_layout_restated holds site.path placer .linear⟩
  exact arrange_restated holds.toSeats placer .linear entryPlacer?

end Family.Rebuilds

end Family

namespace EnumValue

theorem of_decls_freeze {field : Site} {size : Nat} {above : Context} {names : List String}
    {largest? : Option Nat} {values : List EnumValue}
    (well : ∀ value ∈ values, value.WellFormed size field.path)
    (claims : Claimable names (values.map (·.header.name))) :
    EnumValue.ofDecls field size above names largest?
      ((values.map Element.enumValue).map Element.freeze) = .ok values := by
  induction values generalizing names largest? with
  | nil => rfl
  | cons value rest ih =>
      have first := well value List.mem_cons_self
      have others := fun other later => well other (List.mem_cons_of_mem value later)
      obtain ⟨free, laterClaims⟩ := claimable_cons.1 claims
      have number : ((Element.enumValue value).freeze.siteIn field.path).number? .value =
          .ok (some value.value) :=
        Site.number?_of_freeze (.enumValue value) rfl rfl (read_numeral_to_string first.bounded)
      have rule : Rule field size above names largest? (Element.enumValue value).freeze value := by
        refine ⟨Element.kind_freeze _, Site.titled_in_container (.enumValue value) first.path above,
          free, ?_, first.fits⟩
        apply number_eq_ok.2
        exact ⟨some value.value, number, rfl⟩
      apply of_decls_cons_eq_ok.2
      refine ⟨value, rest, rule, ih others ?_, rfl⟩
      rw [first.path, Path.leaf_child]
      exact laterClaims

end EnumValue

theorem Field.rebuilds :
    Field.family.Rebuilds Element.field Element.fieldArray Field.WellFormed := by
  refine ⟨Field.views, fun _ => rfl, ?_⟩
  intro container above field well bounded
  have titled := Site.titled_in_container (.field field) well.path above
  apply Field.of_decl_eq_ok.2
  refine ⟨titled, Site.number?_of_freeze (.field field) rfl rfl (read_numeral_to_string bounded),
    ⟨some field.size, ?_, rfl⟩, ?_, rfl, rfl, rfl⟩
  · apply Site.positive?_eq_ok.2
    refine ⟨Site.number?_of_freeze (.field field) rfl rfl (read_numeral_to_string well.bounded), ?_⟩
    intro zero
    exact absurd well.positive (Option.some.inj zero ▸ Nat.lt_irrefl 0)
  · have path : field.header.path = _ := Site.path_of_header titled.header
    have values := well.values
    rw [path] at values
    show EnumValue.ofDecls _ _ _ _ _ (Element.field field).freeze.children = _
    rw [Element.children_freeze]
    exact EnumValue.of_decls_freeze values (claimable_untaken.2 well.distinct)

theorem Register.rebuilds (wordWidth : Nat) :
    (Register.family wordWidth).Rebuilds Element.register Element.registerArray
      (Register.WellFormed wordWidth) := by
  refine ⟨Register.views wordWidth, fun _ => rfl, ?_⟩
  intro container above register well bounded
  have titled := Site.titled_in_container (.register register) well.path above
  have path : register.header.path = _ := Site.path_of_header titled.header
  have inWord := well.inWord
  have widthBounded : register.width ≤ maxAddress := by
    rw [well.width]
    exact well.layout.bounded
  have offset := read_numeral_to_string bounded
  have width := read_numeral_to_string widthBounded
  have reset := read_numeral_hex well.resetBounded
  apply Register.of_decl_eq_ok.2
  refine ⟨titled, Site.number?_of_freeze (.register register) rfl rfl offset, ?_, ?_, ?_, ?_,
    rfl, rfl, rfl⟩
  · apply Register.check_size_eq_ok.2
    exact ⟨none, Site.number?_of_unstated (.register register) rfl rfl, nofun⟩
  · apply Register.stated_width_eq_ok.2
    refine ⟨some register.width,
      Site.number?_of_freeze (.register register) rfl rfl width, rfl, ?_⟩
    intro stated same
    cases same
    exact ⟨well.positive, inWord⟩
  · apply Register.stated_reset_eq_ok.2
    exact ⟨some register.reset,
      Site.number?_of_freeze (.register register) rfl rfl reset, rfl, well.fits⟩
  · have holds := well.layout
    rw [path] at holds
    have children := Field.rebuilds.children_of_freeze register.header.context holds
      (Element.children_freeze (.register register))
    refine ⟨_, children, ?_⟩
    apply Register.arrange_fields_eq_ok.2
    refine ⟨_, arrange_restated holds.toSeats .linear .linear _, ?_, ?_⟩
    · intro placed member
      have below := Layout.stop_le_top (show placed ∈ register.layout.items from member)
      have covered := holds.covered
      have width := well.width
      show placed.stop ≤ register.width
      omega
    · show settledLayout _ _ (some register.width) = .ok register.layout
      rw [well.width]
      exact settled_layout_restated holds _ _ _

theorem Site.titled_at_root (element : Element)
    (path : element.header.path = Path.root element.header.name) (above : Context) :
    Site.Titled ⟨element.freeze, Path.root element.freeze.label⟩ above element.header := by
  apply titled_of_freeze rfl
  rw [path, Element.label_freeze]

theorem Component.of_decl_freeze {component : Component} (well : component.WellFormed) :
    Component.ofDecl (Element.component component).freeze = .ok component := by
  have titled := Site.titled_at_root (.component component) well.path {}
  have path : component.header.path = _ := Site.path_of_header titled.header
  have sizeBounded := well.layout.bounded
  have widthBounded : component.width ≤ maxAddress := by
    have small : wordWidthBound ≤ maxAddress := by decide
    have below := well.width.2.2
    omega
  apply Component.of_decl_eq_ok.2
  refine ⟨Element.kind_freeze _, titled, ?_, ?_, well.size⟩
  · apply Component.stated_width_eq_ok.2
    refine ⟨Site.number?_of_freeze (.component component) rfl rfl
      (read_numeral_to_string widthBounded), ?_⟩
    exact Site.check_word_width_eq_ok.2 ⟨well.width, rfl⟩
  · have holds := well.layout
    rw [path] at holds
    apply (Register.rebuilds component.width).layout_of_freeze _ holds
    · exact Element.children_freeze _
    · rw [← well.size] at sizeBounded ⊢
      exact Site.number?_of_freeze (.component component) rfl rfl
        (read_numeral_to_string sizeBounded)

theorem Instance.rebuilds (catalog : Catalog) :
    (Instance.family catalog).Rebuilds Element.componentInstance Element.instanceArray
      (Instance.WellFormed catalog) := by
  refine ⟨Instance.views catalog, fun _ => rfl, ?_⟩
  intro container above placed well bounded
  have titled := Site.titled_in_container (.componentInstance placed) well.path above
  apply Instance.of_decl_eq_ok.2
  refine ⟨titled,
    Site.number?_of_freeze (.componentInstance placed) rfl rfl (read_numeral_to_string bounded),
    ?_, well.bound, well.sized, rfl, rfl⟩
  show ((Element.componentInstance placed).freeze.get? .componentName).getD _ = _
  rw [Element.get?_freeze]
  rfl

theorem MemoryMap.of_decl_freeze {catalog : Catalog} (defaults : MapDefaults) {map : MemoryMap}
    (well : map.WellFormed catalog) (bounded : map.base ≤ maxAddress) :
    MemoryMap.ofDecl catalog defaults (Element.memoryMap map).freeze = .ok map := by
  have titled := Site.titled_at_root (.memoryMap map) well.path {}
  have path : map.header.path = _ := Site.path_of_header titled.header
  have sizeBounded := well.layout.bounded
  have widthBounded : map.width ≤ maxAddress := by
    have small : wordWidthBound ≤ maxAddress := by decide
    have below := well.width.2.2
    omega
  apply MemoryMap.of_decl_eq_ok.2
  refine ⟨Element.kind_freeze _, titled, ?_, ?_, ?_, well.size⟩
  · exact ⟨some map.base,
      Site.number?_of_freeze (.memoryMap map) rfl rfl (read_numeral_hex bounded), rfl⟩
  · refine ⟨some map.width,
      Site.number?_of_freeze (.memoryMap map) rfl rfl (read_numeral_to_string widthBounded), ?_⟩
    exact Site.check_word_width_eq_ok.2 ⟨well.width, rfl⟩
  · have holds := well.layout
    rw [path] at holds
    apply (Instance.rebuilds catalog).layout_of_freeze _ holds
    · exact Element.children_freeze _
    · rw [← well.size] at sizeBounded ⊢
      exact Site.number?_of_freeze (.memoryMap map) rfl rfl (read_numeral_to_string sizeBounded)

namespace Design

variable {design : Design}

theorem filter_frozen_roots (design : Design) :
    (design.roots.map Element.freeze).filter (·.kind = .component) =
        design.components.map (fun component => (Element.component component).freeze) ∧
      (design.roots.map Element.freeze).filter (·.kind = .memoryMap) =
        design.memoryMaps.map fun map => (Element.memoryMap map).freeze := by
  simp only [roots, List.map_append, List.map_map, List.filter_append]
  constructor
  · rw [List.filter_eq_self.2, List.filter_eq_nil_iff.2, List.append_nil]
    · rfl
    · simp [Element.kind]
    · simp [Element.kind]
  · rw [List.filter_eq_nil_iff.2, List.filter_eq_self.2, List.nil_append]
    · rfl
    · simp [Element.kind]
    · simp [Element.kind]

/-- The frozen roots of a well-formed design are the declarations of that design. -/
theorem of_decls_freeze (defaults : MapDefaults) (well : design.WellFormed)
    (bounded : ∀ map ∈ design.memoryMaps, map.base ≤ maxAddress) :
    Design.ofDecls defaults (design.roots.map Element.freeze) = .ok design := by
  obtain ⟨componentRoots, mapRoots⟩ := filter_frozen_roots design
  apply Design.of_decls_eq_ok.2
  refine ⟨?_, ?_, ?_, well.distinct, well.catalog⟩
  · intro decl member
    obtain ⟨root, present, rfl⟩ := List.mem_map.1 member
    rw [Element.kind_freeze]
    rcases List.mem_append.1 present with first | later
    · obtain ⟨component, -, rfl⟩ := List.mem_map.1 first
      rfl
    · obtain ⟨map, -, rfl⟩ := List.mem_map.1 later
      rfl
  · rw [componentRoots]
    apply List.forall₂_map_left_iff.2
    apply List.forall₂_same.2
    intro component member
    exact Component.of_decl_freeze (well.components component member)
  · rw [mapRoots]
    apply List.forall₂_map_left_iff.2
    apply List.forall₂_same.2
    intro map member
    exact MemoryMap.of_decl_freeze defaults (well.memoryMaps map member) (bounded map member)

end Design

end AddressMap
