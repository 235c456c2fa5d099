import AddressMap.Proofs.Elaboration.Renaming
import AddressMap.Proofs.Elaboration.Roots

/-!
# Revised declarations

A revision rewrites declarations so that at most the headers of their elements change. From revised
declarations every builder makes what it made before, under the revised headers: nothing moves, and
no number changes. What stands in the catalog may be exchanged, too, as long as it keeps its name and
its length.
-/

namespace AddressMap

set_option autoImplicit false

/-- Attributes that say how software uses an element, and nothing about where it stands. -/
def Attribute.isUsage : Attribute → Bool
  | readOnly | writeOnly | format => true
  | _ => false

structure Revision where
  decl : Decl → Decl
  /-- What containers hand down once their headers are revised. -/
  context : Context → Context
  header : Header → Header
  kind : ∀ old, (decl old).kind = old.kind
  children : ∀ old, (decl old).children = old.children.map decl
  get? : ∀ old attr, attr.isUsage = false → (decl old).get? attr = old.get? attr
  keys : ∀ old, ∀ entry ∈ (decl old).attrs.entries, ∃ given ∈ old.attrs.entries, given.1 = entry.1
  outermost : context {} = {}
  name : ∀ old, (header old).name = old.name
  path : ∀ old, (header old).path = old.path
  handed : ∀ old, (header old).context = context old.context
  headed : ∀ (site : Site) (name : String) (above : Context) (old : Header),
    site.header name above = .ok old →
      Site.header ⟨decl site.decl, site.path⟩ name (context above) = .ok (header old)

namespace Revision

variable {α : Type} (revision : Revision)

def site (old : Site) : Site :=
  ⟨revision.decl old.decl, old.path⟩

def onValue (value : EnumValue) : EnumValue :=
  { value with header := revision.header value.header }

def onField (field : Field) : Field :=
  { field with
    header := revision.header field.header
    values := field.values.map revision.onValue }

def onArray (inner : α → α) (array : ElementArray α) : ElementArray α :=
  { array with header := revision.header array.header, frame := array.frame.rename inner }

def onEntry (inner : α → α) : Entry α → Entry α
  | .single element => .single (inner element)
  | .array elements => .array (revision.onArray inner elements)

def onRegister (register : Register) : Register :=
  { register with
    header := revision.header register.header
    layout := register.layout.rename (revision.onEntry revision.onField) }

def onComponent (component : Component) : Component :=
  { component with
    header := revision.header component.header
    layout := component.layout.rename (revision.onEntry revision.onRegister) }

def onInstance (exchange : Component → Component) (placed : Instance) : Instance :=
  { placed with
    header := revision.header placed.header
    component := exchange placed.component }

def onMap (exchange : Component → Component) (map : MemoryMap) : MemoryMap :=
  { map with
    header := revision.header map.header
    layout := map.layout.rename (revision.onEntry (revision.onInstance exchange)) }

def onDesign (design : Design) : Design where
  components := design.components.map revision.onComponent
  memoryMaps := design.memoryMaps.map (revision.onMap revision.onComponent)
  catalog := ⟨design.catalog.components.map revision.onComponent⟩

section Site

variable {site : Site} {decl : Decl} {attr : Attribute} {above : Context} {header : Header}

theorem name?_decl (decl : Decl) : (revision.decl decl).name? = decl.name? :=
  revision.get? decl .name rfl

theorem label_decl (decl : Decl) : (revision.decl decl).label = decl.label := by
  rw [Decl.label, name?_decl, revision.kind]
  rfl

theorem site_in_decl (decl : Decl) (container : Path) :
    (revision.decl decl).siteIn container = revision.site (decl.siteIn container) := by
  rw [Decl.siteIn, label_decl]
  rfl

theorem number?_site (plain : attr.isUsage = false) :
    (revision.site site).number? attr = site.number? attr := by
  have same : (revision.site site).decl.get? attr = site.decl.get? attr :=
    revision.get? site.decl attr plain
  unfold Site.number? Site.readAttribute?
  rw [same]
  rfl

theorem positive?_site (plain : attr.isUsage = false) :
    (revision.site site).positive? attr = site.positive? attr := by
  unfold Site.positive?
  rw [revision.number?_site plain]
  rfl

theorem check_keys_site (known : site.checkKeys = .ok ()) :
    (revision.site site).checkKeys = .ok () := by
  apply Site.check_keys_eq_ok.2
  intro entry member
  obtain ⟨given, present, same⟩ := revision.keys site.decl entry member
  have kind : (revision.site site).decl.kind = site.decl.kind := revision.kind site.decl
  rw [← same, kind]
  exact Site.check_keys_eq_ok.1 known given present

theorem titled_site (titled : site.Titled above header) :
    (revision.site site).Titled (revision.context above) (revision.header header) := by
  constructor
  · exact revision.check_keys_site titled.keys
  · rw [revision.name]
    exact (revision.name?_decl site.decl).trans titled.name
  · rw [revision.name]
    exact revision.headed site header.name above header titled.header

theorem array_shape_site {shape : ArrayShape} (shaped : site.arrayShape = .ok shape) :
    (revision.site site).arrayShape = .ok shape := by
  obtain ⟨count, offset, framesize, size⟩ := Site.array_shape_eq_ok.1 shaped
  apply Site.array_shape_eq_ok.2
  rw [positive?_site revision rfl, number?_site revision rfl, number?_site revision rfl,
    number?_site revision rfl]
  exact ⟨count, offset, framesize, size⟩

end Site

theorem values_of_decls {field : Site} {size : Nat} {above : Context} {names : List String}
    {largest? : Option Nat} {decls : List Decl} {values : List EnumValue}
    (built : EnumValue.ofDecls field size above names largest? decls = .ok values) :
    EnumValue.ofDecls (revision.site field) size (revision.context above) names largest?
      (decls.map revision.decl) = .ok (values.map revision.onValue) := by
  induction decls generalizing names largest? values with
  | nil =>
      cases built
      rfl
  | cons decl rest ih =>
      obtain ⟨value, others, rule, later, rfl⟩ := EnumValue.of_decls_cons_eq_ok.1 built
      rw [List.map_cons, List.map_cons, EnumValue.of_decls_cons_eq_ok]
      refine ⟨revision.onValue value, others.map revision.onValue, ?_, ?_, rfl⟩
      · have place : (revision.decl decl).siteIn (revision.site field).path =
            revision.site (decl.siteIn field.path) := revision.site_in_decl decl field.path
        constructor
        · exact (revision.kind decl).trans rule.kind
        · rw [place]
          exact revision.titled_site rule.titled
        · rw [onValue, revision.name]
          exact rule.free
        · obtain ⟨stated?, read, chosen⟩ := EnumValue.number_eq_ok.1 rule.number
          rw [place]
          exact EnumValue.number_eq_ok.2
            ⟨stated?, (revision.number?_site rfl).trans read, chosen⟩
        · exact rule.fits
      · have next := ih later
        rw [onValue, revision.path]
        exact next

/-- From a revised declaration the other family makes what the family made, revised. -/
structure Carries [Placeable α] (inner : α → α) (family other : Family α) : Prop where
  kind : other.kind = family.kind
  arrayKind : other.arrayKind = family.arrayKind
  moved : ∀ element start,
    inner (Placeable.moveTo element start) = Placeable.moveTo (inner element) start
  path : ∀ element, (Placeable.header (inner element)).path = (Placeable.header element).path
  built : ∀ container above decl candidate,
    family.ofDecl container above decl = .ok candidate →
      other.ofDecl container (revision.context above) (revision.decl decl) =
        .ok (candidate.map inner)

namespace Carries

variable [Placeable α] {inner : α → α} {family other : Family α} {revision}

theorem array_built (carries : revision.Carries inner family other) {container : Path}
    {above : Context} {decl : Decl} {candidate : Candidate (ElementArray α)}
    (built : family.arrayOfDecl container above decl = .ok candidate) :
    other.arrayOfDecl container (revision.context above) (revision.decl decl) =
      .ok (candidate.map (revision.onArray inner)) := by
  obtain ⟨parts, rule, rfl⟩ := Family.array_of_decl_eq_ok.1 built
  let revised : Family.ArrayParts α :=
    { parts with
      template := revision.decl parts.template
      header := revision.header parts.header
      inner := parts.inner.map inner
      space := parts.space.rename inner
      frame := parts.frame.rename inner }
  have site : revised.site container (revision.decl decl) =
      revision.site (parts.site container decl) := rfl
  have frame : revised.frame.size = parts.frame.size := Layout.size_map _ parts.frame
  apply Family.array_of_decl_eq_ok.2
  refine ⟨revised, ?_, ?_⟩
  · constructor
    case children =>
      rw [revision.children, rule.children]
      rfl
    case kind => exact (revision.kind parts.template).trans (rule.kind.trans carries.kind.symm)
    case name =>
      rw [revision.name?_decl, revision.name?_decl]
      exact rule.name
    case keys =>
      rw [site]
      exact revision.check_keys_site rule.keys
    case shape =>
      rw [site]
      exact revision.array_shape_site rule.shape
    case header => exact revision.headed _ _ _ _ rule.header
    case inner =>
      have handed : revised.header.context = revision.context parts.header.context :=
        revision.handed parts.header
      rw [handed]
      exact carries.built _ _ _ _ rule.inner
    case space => exact arrange_rename carries.moved rule.space
    case frame => exact settled_layout_rename rule.frame
    case size =>
      rw [frame]
      exact rule.size
  · simp only [Candidate.map, Family.ArrayParts.candidate, onArray, frame]
    rfl

theorem moved_entry (carries : revision.Carries inner family other) (entry : Entry α)
    (start : Nat) :
    revision.onEntry inner (Placeable.moveTo entry start) =
      Placeable.moveTo (revision.onEntry inner entry) start := by
  cases entry with
  | single element => exact congrArg Entry.single (carries.moved element start)
  | array elements => rfl

theorem path_entry (carries : revision.Carries inner family other) (entry : Entry α) :
    (Placeable.header (revision.onEntry inner entry)).path = (Placeable.header entry).path := by
  cases entry with
  | single element => exact carries.path element
  | array elements => exact revision.path elements.header

theorem entry_built (carries : revision.Carries inner family other) {container : Site}
    {above : Context} {decl : Decl} {candidate : Candidate (Entry α)}
    (built : family.entryOfDecl container above decl = .ok candidate) :
    other.entryOfDecl (revision.site container) (revision.context above) (revision.decl decl) =
      .ok (candidate.map (revision.onEntry inner)) := by
  apply Family.entry_of_decl_eq_ok.2
  rw [revision.kind, carries.kind, carries.arrayKind]
  rcases Family.entry_of_decl_eq_ok.1 built with ⟨kind, found, made, rfl⟩ |
    ⟨different, kind, found, made, rfl⟩
  · exact Or.inl ⟨kind, _, carries.built _ _ _ _ made, rfl⟩
  · exact Or.inr ⟨different, kind, _, carries.array_built made, rfl⟩

theorem children_built (carries : revision.Carries inner family other) {container : Site}
    {above : Context} {candidates : List (Candidate (Entry α))}
    (built : family.children container above = .ok candidates) :
    other.children (revision.site container) (revision.context above) =
      .ok (candidates.map (Candidate.map (revision.onEntry inner))) := by
  obtain ⟨each, distinct⟩ := Family.children_eq_ok.1 built
  have declared : (revision.site container).decl.children =
      container.decl.children.map revision.decl := revision.children container.decl
  apply Family.children_eq_ok.2
  constructor
  · rw [declared, List.forall₂_map_left_iff, List.forall₂_map_right_iff]
    exact each.imp fun decl candidate made => carries.entry_built made
  · have leaves : (candidates.map (Candidate.map (revision.onEntry inner))).map
        (fun candidate => candidate.path.leaf) =
          candidates.map fun candidate => candidate.path.leaf := by
      rw [List.map_map]
      apply List.map_congr_left
      intro candidate _
      exact congrArg Path.leaf (carries.path_entry candidate.item)
    rw [leaves]
    exact distinct

theorem layout_built (carries : revision.Carries inner family other) {placer : Placer}
    {site : Site} {above : Context} {layout : Layout (Entry α)}
    (rule : family.LayoutRule placer site above layout) :
    other.LayoutRule placer (revision.site site) (revision.context above)
      (layout.rename (revision.onEntry inner)) := by
  obtain ⟨candidates, space, declared?, built, arranged, declared, settled⟩ := rule.arranged
  constructor
  refine ⟨_, _, declared?, carries.children_built built,
    arrange_rename carries.moved_entry arranged, ?_, settled_layout_rename settled⟩
  exact (revision.number?_site rfl).trans declared

end Carries

theorem carries_fields : revision.Carries revision.onField Field.family Field.family := by
  refine ⟨rfl, rfl, fun _ _ => rfl, fun field => revision.path field.header, ?_⟩
  intro container above decl candidate built
  have rule := Field.of_decl_eq_ok.1 built
  obtain ⟨size?, read, size⟩ := rule.size
  apply Field.of_decl_eq_ok.2
  rw [site_in_decl]
  constructor
  case titled => exact revision.titled_site rule.titled
  case offset => exact (revision.number?_site rfl).trans rule.offset
  case size => exact ⟨size?, (revision.positive?_site rfl).trans read, size⟩
  case values =>
    have declared : (revision.site (decl.siteIn container)).decl.children =
        decl.children.map revision.decl := revision.children decl
    have values := revision.values_of_decls rule.values
    rw [← revision.handed] at values
    rw [declared]
    exact values
  case plain => exact rule.plain

theorem carries_registers (wordWidth : Nat) :
    revision.Carries revision.onRegister (Register.family wordWidth)
      (Register.family wordWidth) := by
  refine ⟨rfl, rfl, fun _ _ => rfl, fun register => revision.path register.header, ?_⟩
  intro container above decl candidate built
  have rule := Register.of_decl_eq_ok.1 built
  obtain ⟨size?, size, single⟩ := Register.check_size_eq_ok.1 rule.single
  obtain ⟨width?, width, stated⟩ := Register.stated_width_eq_ok.1 rule.width
  obtain ⟨reset?, reset, resets⟩ := Register.stated_reset_eq_ok.1 rule.reset
  obtain ⟨fields, children, arranging⟩ := rule.fields
  obtain ⟨space, arranged, within, settled⟩ := Register.arrange_fields_eq_ok.1 arranging
  apply Register.of_decl_eq_ok.2
  rw [site_in_decl]
  constructor
  case titled => exact revision.titled_site rule.titled
  case offset => exact (revision.number?_site rfl).trans rule.offset
  case single =>
    exact Register.check_size_eq_ok.2 ⟨size?, (revision.number?_site rfl).trans size, single⟩
  case width =>
    exact Register.stated_width_eq_ok.2 ⟨width?, (revision.number?_site rfl).trans width, stated⟩
  case reset =>
    exact Register.stated_reset_eq_ok.2 ⟨reset?, (revision.number?_site rfl).trans reset, resets⟩
  case fields =>
    have revised := revision.carries_fields.children_built children
    rw [← revision.handed] at revised
    have placed := arrange_rename revision.carries_fields.moved_entry arranged
    exact ⟨_, revised, Register.arrange_fields_eq_ok.2
      ⟨_, placed, List.forall_mem_map.2 within, settled_layout_rename settled⟩⟩
  case plain => exact rule.plain

theorem root_site (decl : Decl) :
    (⟨revision.decl decl, Path.root (revision.decl decl).label⟩ : Site) =
      revision.site ⟨decl, Path.root decl.label⟩ := by
  rw [label_decl]
  rfl

theorem check_word_width_site {site : Site} {width answer : Nat}
    (checked : site.checkWordWidth width = .ok answer) :
    (revision.site site).checkWordWidth width = .ok answer := by
  rw [Site.check_word_width_eq_ok] at checked ⊢
  exact checked

theorem titled_root {site : Site} {header : Header} (titled : site.Titled {} header) :
    (revision.site site).Titled {} (revision.header header) := by
  have revised := revision.titled_site titled
  rwa [revision.outermost] at revised

theorem component_of_decl {decl : Decl} {component : Component}
    (built : Component.ofDecl decl = .ok component) :
    Component.ofDecl (revision.decl decl) = .ok (revision.onComponent component) := by
  have rule := Component.of_decl_eq_ok.1 built
  obtain ⟨width, word⟩ := Component.stated_width_eq_ok.1 rule.width
  apply Component.of_decl_eq_ok.2
  rw [root_site]
  constructor
  case kind => exact (revision.kind decl).trans rule.kind
  case titled => exact revision.titled_root rule.titled
  case width =>
    exact Component.stated_width_eq_ok.2
      ⟨(revision.number?_site rfl).trans width, revision.check_word_width_site word⟩
  case layout =>
    have layout := (revision.carries_registers component.width).layout_built rule.layout
    rw [← revision.handed] at layout
    exact layout
  case size => exact rule.size.trans (Layout.size_map _ component.layout).symm

section Exchange

variable {exchange : Component → Component} {catalog other : Catalog}

/-- The other catalog holds under each name what is given in exchange for the component there. -/
structure Exchanges (exchange : Component → Component) (catalog other : Catalog) : Prop where
  found : ∀ name, other.get? name = (catalog.get? name).map exchange
  size : ∀ component : Component, (exchange component).byteSize? = component.byteSize?

theorem exchanges_of_map (named : ∀ component, (exchange component).header.name =
    component.header.name) (size : ∀ component : Component,
      (exchange component).byteSize? = component.byteSize?) (components : List Component) :
    Exchanges exchange ⟨components⟩ ⟨components.map exchange⟩ := by
  refine ⟨?_, size⟩
  intro name
  unfold Catalog.get?
  rw [List.find?_map]
  simp only [Function.comp_def, named]

theorem carries_instances (exchanges : Exchanges exchange catalog other) :
    revision.Carries (revision.onInstance exchange) (Instance.family catalog)
      (Instance.family other) := by
  refine ⟨rfl, rfl, fun _ _ => rfl, fun placed => revision.path placed.header, ?_⟩
  intro container above decl candidate built
  have rule := Instance.of_decl_eq_ok.1 built
  apply Instance.of_decl_eq_ok.2
  rw [site_in_decl]
  constructor
  case titled => exact revision.titled_site rule.titled
  case offset => exact (revision.number?_site rfl).trans rule.offset
  case named =>
    have name : (revision.onInstance exchange candidate.item).header.name =
        candidate.item.header.name := revision.name _
    have asked : (revision.site (decl.siteIn container)).decl.get? .componentName =
        (decl.siteIn container).decl.get? .componentName := revision.get? decl .componentName rfl
    have named := rule.named
    rw [← name, ← asked] at named
    exact named
  case bound =>
    have found := exchanges.found candidate.item.componentName
    rw [rule.bound] at found
    exact found
  case size => exact (exchanges.size candidate.item.component).trans rule.size
  case plain => exact rule.plain

theorem map_of_decl (exchanges : Exchanges exchange catalog other) {defaults : MapDefaults}
    {decl : Decl} {map : MemoryMap} (built : MemoryMap.ofDecl catalog defaults decl = .ok map) :
    MemoryMap.ofDecl other defaults (revision.decl decl) = .ok (revision.onMap exchange map) := by
  have rule := MemoryMap.of_decl_eq_ok.1 built
  obtain ⟨base?, base, based⟩ := rule.base
  obtain ⟨width?, width, word⟩ := rule.width
  apply MemoryMap.of_decl_eq_ok.2
  rw [root_site]
  constructor
  case kind => exact (revision.kind decl).trans rule.kind
  case titled => exact revision.titled_root rule.titled
  case base => exact ⟨base?, (revision.number?_site rfl).trans base, based⟩
  case width =>
    exact ⟨width?, (revision.number?_site rfl).trans width, revision.check_word_width_site word⟩
  case layout =>
    have layout := (revision.carries_instances exchanges).layout_built rule.layout
    rw [← revision.handed] at layout
    exact layout
  case size => exact rule.size.trans (Layout.size_map _ map.layout).symm

end Exchange

theorem byte_size?_on_component (component : Component) :
    (revision.onComponent component).byteSize? = component.byteSize? :=
  rfl

/-- Revised declarations make the revised design. -/
theorem design_of_decls {defaults : MapDefaults} {decls : List Decl} {design : Design}
    (built : Design.ofDecls defaults decls = .ok design) :
    Design.ofDecls defaults (decls.map revision.decl) = .ok (revision.onDesign design) := by
  have rule := Design.of_decls_eq_ok.1 built
  have exchanges : Exchanges revision.onComponent ⟨design.components⟩
      ⟨design.components.map revision.onComponent⟩ :=
    exchanges_of_map (fun component => revision.name component.header)
      revision.byte_size?_on_component design.components
  have chosen (kind : Kind) : (decls.map revision.decl).filter (·.kind = kind) =
      (decls.filter (·.kind = kind)).map revision.decl := by
    rw [List.filter_map]
    simp only [Function.comp_def, revision.kind]
  apply Design.of_decls_eq_ok.2
  constructor
  case roots =>
    intro revised member
    obtain ⟨decl, present, rfl⟩ := List.mem_map.1 member
    rw [revision.kind]
    exact rule.roots decl present
  case components =>
    rw [chosen]
    apply List.forall₂_map_left_iff.2
    apply List.forall₂_map_right_iff.2
    exact rule.components.imp fun decl component made => revision.component_of_decl made
  case memoryMaps =>
    rw [chosen]
    apply List.forall₂_map_left_iff.2
    apply List.forall₂_map_right_iff.2
    exact rule.memoryMaps.imp fun decl map made => revision.map_of_decl exchanges made
  case distinct =>
    have names : (revision.onDesign design).rootNames = design.rootNames := by
      simp only [Design.root_names_eq, onDesign, List.map_map, Function.comp_def, onComponent,
        onMap, revision.path]
    rw [names]
    exact rule.distinct
  case catalog =>
    exact congrArg (fun old : Catalog => (⟨old.components.map revision.onComponent⟩ : Catalog))
      rule.catalog

end Revision

end AddressMap
