import AddressMap.Proofs.Decl.Attrs
import AddressMap.Proofs.Decl.Validity
import AddressMap.Proofs.Elaboration.Building
import AddressMap.Proofs.Element.Values

/-!
# What elements have from their declarations

`Element.Made` says all that can be said of one element and its own declaration. Whatever is built
from a declaration is made so.
-/

namespace AddressMap

set_option autoImplicit false

namespace Element

/-- If the declaration gives the attribute, then the element holds the value that is spelled. -/
def Upholds (element : Element) (decl : Decl) (attr : Attribute) : Prop :=
  ∀ text, decl.get? attr = some text →
    ∃ value, attr.read? text = some value ∧ element.value? attr = some value

/-- The capacity is the one that the declaration states or, if it states none, the fitting one. -/
def Fits (decl : Decl) (element : Element) : Prop :=
  ∀ attr fitting, element.fitting? = some (attr, fitting) →
    ∃ stated? : Option Nat, (decl.get? attr).map readNumeral? = stated?.map some ∧
      element.capacity? = some (stated?.getD fitting)

/-- An instance asks for its component by the name that the declaration states, or by its own. -/
def Asks (decl : Decl) (element : Element) : Prop :=
  ∀ name, element.componentName? = some name →
    name = (decl.get? .componentName).getD element.name

structure Made (above : Context) (decl : Decl) (element : Element) : Prop where
  kind : element.kind = decl.kind
  keys : ∀ entry ∈ decl.attrs.entries, entry.1 ∈ decl.kind.attributes.map Attribute.key
  named : decl.elementName? = some element.name
  header : Site.header ⟨decl, element.path⟩ element.name above = .ok element.header
  own : ∀ attr ∈ decl.kind.ownAttributes, element.Upholds decl attr
  fits : Fits decl element
  asks : Asks decl element

variable {element : Element} {site : Site} {above : Context}

theorem upholds_of_read {α : Type} {attr : Attribute} {read? : String → Option α}
    {value? : Option α} (toValue : α → AttributeValue)
    (read : (site.decl.get? attr).map read? = value?.map some)
    (reads : ∀ text, attr.read? text = (read? text).map toValue)
    (holds : ∀ value, value? = some value → element.value? attr = some (toValue value)) :
    element.Upholds site.decl attr := by
  intro text given
  rw [given] at read
  obtain ⟨value, stated, spelled⟩ := Option.map_eq_some_iff.1 read.symm
  refine ⟨toValue value, ?_, holds value stated⟩
  rw [reads, ← spelled]
  rfl

theorem upholds_number {attr : Attribute} {number? : Option Nat}
    (numeric : attr.isNumber = true) (read : site.number? attr = .ok number?)
    (holds : ∀ number, number? = some number → element.number? attr = some number) :
    element.Upholds site.decl attr := by
  apply upholds_of_read .number (Site.number?_eq_ok.1 read)
  · exact Attribute.read?_of_number numeric
  · intro number stated
    rw [value?_of_number numeric, holds number stated]
    rfl

theorem upholds_defaulted {attr : Attribute} {number? : Option Nat} {default : Nat}
    (numeric : attr.isNumber = true) (read : site.number? attr = .ok number?)
    (holds : element.number? attr = some (number?.getD default)) :
    element.Upholds site.decl attr := by
  apply upholds_number numeric read
  intro number stated
  rw [stated] at holds
  exact holds

theorem fits_of_no_fitting {decl : Decl} (unfitted : element.fitting? = none) :
    Fits decl element := by
  intro attr fitting fitted
  rw [unfitted] at fitted
  contradiction

theorem asks_of_no_name {decl : Decl} (nameless : element.componentName? = none) :
    Asks decl element := by
  intro name asked
  rw [nameless] at asked
  contradiction

theorem component_name?_of_not_leaf (holder : element.kind.isLeaf = false) :
    element.componentName? = none := by
  cases element <;> first | rfl | contradiction

theorem Made.name {decl : Decl} (made : element.Made above decl) : element.Upholds decl .name := by
  intro text given
  have named := made.named
  rw [Decl.elementName?, show decl.name? = some text from given] at named
  exact ⟨.text text, rfl, congrArg (fun name => some (AttributeValue.text name))
    (Option.some.inj named).symm⟩

theorem made_of_header (kind : element.kind = site.decl.kind) (keys : site.checkKeys = .ok ())
    (named : site.decl.elementName? = some element.name)
    (header : site.header element.name above = .ok element.header)
    (own : ∀ attr ∈ site.decl.kind.ownAttributes, element.Upholds site.decl attr)
    (fits : Fits site.decl element) (asks : Asks site.decl element) :
    Made above site.decl element := by
  refine ⟨kind, Site.check_keys_eq_ok.1 keys, named, ?_, own, fits, asks⟩
  have path : element.path = site.path := Site.path_of_header header
  rw [path]
  exact header

theorem made_of_titled (kind : element.kind = site.decl.kind)
    (titled : site.Titled above element.header)
    (own : ∀ attr ∈ site.decl.kind.ownAttributes, element.Upholds site.decl attr)
    (fits : Fits site.decl element) (asks : Asks site.decl element) :
    Made above site.decl element := by
  refine made_of_header kind titled.keys ?_ titled.header own fits asks
  rw [Decl.elementName?, titled.name]
  rfl

end Element

theorem Resizer.eq_least_frame {occupied extent : Nat}
    (answered : Resizer.aligned.extent occupied = .ok extent) : extent = leastFrame occupied := by
  simp only [Resizer.extent] at answered
  unfold leastFrame
  split at answered
  next empty =>
    rw [if_pos empty]
    exact (Except.ok.inj answered).symm
  next occupied =>
    rw [if_neg occupied]
    split at answered
    · exact (Except.ok.inj answered).symm
    · contradiction

theorem size_of_settled_layout {α : Type} {path : Path} {space : Space α} {declared? : Option Nat}
    {layout : Layout α} {fitting : Nat}
    (settled : settledLayout path space declared? = .ok layout)
    (resized : ∀ extent, space.resizer.extent layout.top = .ok extent → extent = fitting) :
    layout.size = declared?.getD fitting := by
  obtain ⟨extent, settles, rfl⟩ := settled_layout_eq_ok.1 settled
  show extent = _
  cases declared? with
  | some declared => exact settles.2.symm
  | none => exact resized extent settles

namespace Family

variable {α : Type} [Placeable α] {family : Family α} {single : α → Element}
  {array : ElementArray α → Element}

structure ArrayViews (family : Family α) (array : ElementArray α → Element) : Prop where
  own : family.arrayKind.ownAttributes = [.offset, .count, .framesize, .size]
  number? : ∀ elements attr, (array elements).number? attr = elements.number? attr
  fitting? : ∀ elements, (array elements).fitting? = some elements.fitting
  capacity? : ∀ elements, (array elements).capacity? = some elements.framesize

section Array

variable {placer : Placer} {container : Path} {above : Context} {decl : Decl}

omit [Placeable α] in
theorem ArrayViews.upholds_number (holds : family.ArrayViews array) {site : Site}
    {attr : Attribute} {number? : Option Nat} {elements : ElementArray α}
    (numeric : attr.isNumber = true) (read : site.number? attr = .ok number?)
    (same : ∀ number, number? = some number → elements.number? attr = some number) :
    (array elements).Upholds site.decl attr := by
  apply Element.upholds_number numeric read
  rw [holds.number?]
  exact same

/-- A frame is as long as is stated or else the least power of two that covers the template. -/
theorem size_of_frame {path : Path} {candidates : List (Candidate α)} {space : Space α}
    {framesize? : Option Nat} {frame : Layout α}
    (arranged : arrange { placer := .aligned, resizer := .aligned } candidates = .ok space)
    (framed : settledLayout path space framesize? = .ok frame) :
    frame.size = framesize?.getD (leastFrame frame.top) := by
  apply size_of_settled_layout framed
  rw [(arranged_of_arrange arranged).1]
  exact fun extent => Resizer.eq_least_frame

theorem made_of_array_rule (views : family.Views single array) (holds : family.ArrayViews array)
    {parts : ArrayParts α} (kind : decl.kind = family.arrayKind)
    (rule : family.ArrayRule container above decl parts) {start : Nat}
    (suits : parts.candidate.Suits placer start) :
    Element.Made above decl (array { parts.candidate.item with offset := start }) := by
  obtain ⟨counted, offset, framesize, size⟩ := Site.array_shape_eq_ok.1 rule.shape
  obtain ⟨count, -⟩ := Site.positive?_eq_ok.1 counted
  obtain ⟨-, -, agrees⟩ := Site.array_size_eq_ok.1 rule.size
  have frame := size_of_frame rule.space rule.frame
  have named : parts.header.name = parts.name := Site.name_of_header rule.header
  show Element.Made above (parts.site container decl).decl _
  apply Element.made_of_header
  · rw [views.arrayKind]
    exact kind.symm
  · exact rule.keys
  · show decl.elementName? = _
    rw [Element.name, views.arrayHeader, Decl.elementName?, rule.children]
    exact rule.name.trans (congrArg some named.symm)
  · rw [Element.name, views.arrayHeader]
    show (parts.site container decl).header parts.header.name above = .ok parts.header
    rw [named]
    exact rule.header
  · show ∀ attr ∈ decl.kind.ownAttributes, _
    rw [kind, holds.own]
    simp only [List.forall_mem_cons]
    refine ⟨?_, ?_, ?_, ?_, nofun⟩
    · exact holds.upholds_number rfl offset fun number stated =>
        congrArg some (suits.stated number stated)
    · exact holds.upholds_number rfl count fun number stated => stated
    · apply Element.upholds_defaulted rfl framesize
      rw [holds.number?]
      exact congrArg some frame
    · exact holds.upholds_number rfl size fun number stated =>
        congrArg some (agrees number stated).symm
  · intro attr fitting fitted
    rw [holds.fitting?] at fitted
    cases fitted
    refine ⟨parts.shape.framesize?, Site.number?_eq_ok.1 framesize, ?_⟩
    rw [holds.capacity?]
    exact congrArg some frame
  · apply Element.asks_of_no_name
    apply Element.component_name?_of_not_leaf
    rw [views.arrayKind]
    exact views.arrayHolds

theorem made_of_builds (views : family.Views single array) (holds : family.ArrayViews array)
    (own : ∀ candidate start, decl.kind = family.kind →
      family.ofDecl container above decl = .ok candidate → candidate.Suits placer start →
        Element.Made above decl (single (Placeable.moveTo candidate.item start)))
    {entry : Entry α} (built : family.Builds placer container above decl entry) :
    Element.Made above decl (entry.toElement single array) := by
  cases built with
  | single kind built suits => exact own _ _ kind built suits
  | array kind rule suits => exact made_of_array_rule views holds kind rule suits

end Array

/-- The extent of the layout of a root is the stated size or the end of the last child. -/
theorem size_of_layout_rule {placer : Placer} {site : Site} {above : Context}
    {layout : Layout (Entry α)} (rule : family.LayoutRule placer site above layout) :
    ∃ declared?, site.number? .size = .ok declared? ∧
      layout.size = declared?.getD layout.top := by
  obtain ⟨candidates, space, declared?, -, arranging, declared, settled⟩ := rule.arranged
  refine ⟨declared?, declared, size_of_settled_layout settled ?_⟩
  rw [(arranged_of_arrange arranging).1]
  exact fun extent answered => (Except.ok.inj answered).symm

end Family

section Made

variable {placer : Placer} {container : Path} {above : Context} {decl : Decl} {start : Nat}

theorem EnumValue.made {field : Site} {size : Nat} {names : List String} {largest? : Option Nat}
    {value : EnumValue} (rule : EnumValue.Rule field size above names largest? decl value) :
    Element.Made above decl (.enumValue value) := by
  obtain ⟨stated?, read, chosen⟩ := number_eq_ok.1 rule.number
  show Element.Made above (decl.siteIn field.path).decl _
  refine Element.made_of_titled rule.kind.symm rule.titled ?_ ?_ ?_
  · show ∀ attr ∈ decl.kind.ownAttributes, _
    rw [rule.kind]
    refine List.forall_mem_singleton.2 (Element.upholds_number rfl read ?_)
    intro number stated
    rw [stated] at chosen
    exact chosen.symm
  · exact Element.fits_of_no_fitting rfl
  · exact Element.asks_of_no_name rfl

theorem Field.made {candidate : Candidate Field} (kind : decl.kind = .field)
    (built : Field.ofDecl container above decl = .ok candidate)
    (suits : candidate.Suits placer start) :
    Element.Made above decl (.field (Placeable.moveTo candidate.item start)) := by
  have rule := Field.of_decl_eq_ok.1 built
  obtain ⟨size?, read, size⟩ := rule.size
  obtain ⟨number, -⟩ := Site.positive?_eq_ok.1 read
  show Element.Made above (decl.siteIn container).decl _
  refine Element.made_of_titled kind.symm rule.titled ?_ ?_ ?_
  · show ∀ attr ∈ decl.kind.ownAttributes, _
    rw [kind]
    refine List.forall_mem_cons.2 ⟨?_, List.forall_mem_singleton.2 ?_⟩
    · exact Element.upholds_number rfl rule.offset fun number stated =>
        congrArg some (suits.stated number stated)
    · have same : candidate.item.size = size?.getD 1 := rule.plain.2.1.trans size.symm
      exact Element.upholds_defaulted rfl number (congrArg some same)
  · exact Element.fits_of_no_fitting rfl
  · exact Element.asks_of_no_name rfl

theorem Register.made {wordWidth : Nat} {candidate : Candidate Register}
    (kind : decl.kind = .register)
    (built : Register.ofDecl wordWidth container above decl = .ok candidate)
    (suits : candidate.Suits placer start) :
    Element.Made above decl (.register (Placeable.moveTo candidate.item start)) := by
  have rule := Register.of_decl_eq_ok.1 built
  obtain ⟨size?, size, single⟩ := Register.check_size_eq_ok.1 rule.single
  obtain ⟨width?, width, stated, -⟩ := Register.stated_width_eq_ok.1 rule.width
  obtain ⟨reset?, reset, resets, -⟩ := Register.stated_reset_eq_ok.1 rule.reset
  show Element.Made above (decl.siteIn container).decl _
  refine Element.made_of_titled kind.symm rule.titled ?_ ?_ ?_
  · show ∀ attr ∈ decl.kind.ownAttributes, _
    rw [kind]
    refine List.forall_mem_cons.2 ⟨?_, List.forall_mem_cons.2 ⟨?_, List.forall_mem_cons.2
      ⟨?_, List.forall_mem_singleton.2 ?_⟩⟩⟩
    · exact Element.upholds_number rfl rule.offset fun number given =>
        congrArg some (suits.stated number given)
    · exact Element.upholds_number rfl size fun number given =>
        congrArg some (single number given).symm
    · exact Element.upholds_defaulted rfl width (congrArg some stated.symm)
    · exact Element.upholds_defaulted rfl reset (congrArg some resets.symm)
  · exact Element.fits_of_no_fitting rfl
  · exact Element.asks_of_no_name rfl

theorem Component.made {component : Component} (built : Component.ofDecl decl = .ok component) :
    Element.Made {} decl (.component component) := by
  have rule := Component.of_decl_eq_ok.1 built
  have kind : decl.kind = .component := rule.kind
  obtain ⟨width, -⟩ := Component.stated_width_eq_ok.1 rule.width
  obtain ⟨declared?, declared, size⟩ := Family.size_of_layout_rule rule.layout
  rw [← rule.size] at size
  show Element.Made {} (Site.mk decl (Path.root decl.label)).decl _
  refine Element.made_of_titled kind.symm rule.titled ?_ ?_ (Element.asks_of_no_name rfl)
  · show ∀ attr ∈ decl.kind.ownAttributes, _
    rw [kind]
    refine List.forall_mem_cons.2 ⟨?_, List.forall_mem_singleton.2 ?_⟩
    · exact Element.upholds_number rfl width fun number stated => stated
    · exact Element.upholds_defaulted rfl declared (congrArg some size)
  · rintro _ _ ⟨⟩
    exact ⟨declared?, Site.number?_eq_ok.1 declared, congrArg some size⟩

theorem Instance.made {catalog : Catalog} {candidate : Candidate Instance}
    (kind : decl.kind = .componentInstance)
    (built : Instance.ofDecl catalog container above decl = .ok candidate)
    (suits : candidate.Suits placer start) :
    Element.Made above decl (.componentInstance (Placeable.moveTo candidate.item start)) := by
  have rule := Instance.of_decl_eq_ok.1 built
  show Element.Made above (decl.siteIn container).decl _
  refine Element.made_of_titled kind.symm rule.titled ?_ ?_ ?_
  · show ∀ attr ∈ decl.kind.ownAttributes, _
    rw [kind]
    refine List.forall_mem_cons.2 ⟨?_, List.forall_mem_singleton.2 ?_⟩
    · exact Element.upholds_number rfl rule.offset fun number stated =>
        congrArg some (suits.stated number stated)
    · intro text given
      have named := rule.named
      rw [given] at named
      exact ⟨.text text, rfl, congrArg (fun name => some (AttributeValue.text name)) named.symm⟩
  · exact Element.fits_of_no_fitting rfl
  · rintro _ ⟨⟩
    exact rule.named.symm

theorem MemoryMap.made {catalog : Catalog} {defaults : MapDefaults} {map : MemoryMap}
    (built : MemoryMap.ofDecl catalog defaults decl = .ok map) :
    Element.Made {} decl (.memoryMap map) := by
  have rule := MemoryMap.of_decl_eq_ok.1 built
  have kind : decl.kind = .memoryMap := rule.kind
  obtain ⟨base?, base, based⟩ := rule.base
  obtain ⟨width?, width, checked⟩ := rule.width
  obtain ⟨-, bus⟩ := Site.check_word_width_eq_ok.1 checked
  obtain ⟨declared?, declared, size⟩ := Family.size_of_layout_rule rule.layout
  rw [← rule.size] at size
  show Element.Made {} (Site.mk decl (Path.root decl.label)).decl _
  refine Element.made_of_titled kind.symm rule.titled ?_ ?_ (Element.asks_of_no_name rfl)
  · show ∀ attr ∈ decl.kind.ownAttributes, _
    rw [kind]
    refine List.forall_mem_cons.2 ⟨?_, List.forall_mem_cons.2 ⟨?_,
      List.forall_mem_singleton.2 ?_⟩⟩
    · exact Element.upholds_defaulted rfl base (congrArg some based.symm)
    · exact Element.upholds_defaulted rfl width (congrArg some bus.symm)
    · exact Element.upholds_defaulted rfl declared (congrArg some size)
  · rintro _ _ ⟨⟩
    exact ⟨declared?, Site.number?_eq_ok.1 declared, congrArg some size⟩

end Made

theorem Field.array_views : Field.family.ArrayViews Element.fieldArray :=
  ⟨rfl, fun _ _ => rfl, fun _ => rfl, fun _ => rfl⟩

theorem Register.array_views (wordWidth : Nat) :
    (Register.family wordWidth).ArrayViews Element.registerArray :=
  ⟨rfl, fun _ _ => rfl, fun _ => rfl, fun _ => rfl⟩

theorem Instance.array_views (catalog : Catalog) :
    (Instance.family catalog).ArrayViews Element.instanceArray :=
  ⟨rfl, fun _ _ => rfl, fun _ => rfl, fun _ => rfl⟩

/-- What is built from a declaration has from it all that it can have. -/
theorem Element.made_of_built {above : Context} {decl : Decl} {element : Element}
    (built : Element.Built above decl element) : element.Made above decl := by
  cases built with
  | component built => exact Component.made built
  | memoryMap built => exact MemoryMap.made built
  | enumValue rule => exact EnumValue.made rule
  | field built =>
      exact Family.made_of_builds Field.views Field.array_views (fun _ _ => Field.made) built
  | register built =>
      exact Family.made_of_builds (Register.views _) (Register.array_views _)
        (fun _ _ => Register.made) built
  | componentInstance _ built =>
      exact Family.made_of_builds (Instance.views _) (Instance.array_views _)
        (fun _ _ => Instance.made) built

namespace Design

variable {defaults : MapDefaults} {decls : List Decl} {design : Design}

theorem become_in_order_of_built (built : Design.ofDecls defaults decls = .ok design) :
    List.Forall₂ (Becomes Element.Made {})
      (decls.filter (·.kind = .component) ++ decls.filter (·.kind = .memoryMap)) design.roots :=
  (becomes_in_order built).imp fun _ _ becomes => becomes.imp fun _ _ _ => Element.made_of_built

/-- Every declaration becomes one element of the design, and every element comes from one. -/
theorem become_each_of_built (built : Design.ofDecls defaults decls = .ok design) :
    BecomeEach Element.Made {} decls design.roots :=
  (become_each built).imp fun _ _ _ => Element.made_of_built

end Design

end AddressMap
