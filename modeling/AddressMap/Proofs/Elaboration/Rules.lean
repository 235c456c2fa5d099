import AddressMap.Proofs.Elaboration.Arranging

/-!
# Rules of elaboration

For each builder a rule says what a declaration, and what is built from it, have to satisfy. A
builder succeeds with an element exactly when its rule holds, so whatever is true of built elements
follows from the rules alone.
-/

namespace AddressMap

set_option autoImplicit false

theorem map_error_eq_ok {ε δ α : Type} {first : Except ε α} {f : ε → δ} {answer : α} :
    first.mapError f = .ok answer ↔ first = .ok answer := by
  cases first <;> simp [Except.mapError]

@[simp]
theorem Path.leaf_root (name : String) : (Path.root name).leaf = name :=
  rfl

namespace Site

/-- What every builder asks of a declaration first: no unknown keys, a name, and a header. -/
structure Titled (site : Site) (above : Context) (header : Header) : Prop where
  keys : site.checkKeys = .ok ()
  name : site.decl.name? = some header.name
  header : site.header header.name above = .ok header

variable {site : Site} {above : Context} {header : Header}

theorem name_of_header {name : String} (headed : site.header name above = .ok header) :
    header.name = name := by
  obtain ⟨-, -, -, -, -, -, -, same, -⟩ := header_eq_ok.1 headed
  exact same

theorem path_of_header {name : String} (headed : site.header name above = .ok header) :
    header.path = site.path := by
  obtain ⟨-, -, -, -, -, -, -, -, same, -⟩ := header_eq_ok.1 headed
  exact same

theorem description_of_header {name : String} (headed : site.header name above = .ok header) :
    header.description = site.decl.description := by
  obtain ⟨-, -, -, -, -, -, -, -, -, same, -⟩ := header_eq_ok.1 headed
  exact same

theorem titled_of_name {name : String} (keys : site.checkKeys = .ok ())
    (named : site.name = .ok name) (headed : site.header name above = .ok header) :
    site.Titled above header := by
  have same := name_of_header headed
  subst same
  exact ⟨keys, name_eq_ok.1 named, headed⟩

theorem name_of_titled (titled : site.Titled above header) : site.name = .ok header.name :=
  name_eq_ok.2 titled.name

theorem label_of_titled (titled : site.Titled above header) : site.decl.label = header.name := by
  rw [Decl.label, titled.name, Option.getD_some]

theorem path_of_titled {decl : Decl} {container : Path}
    (titled : (decl.siteIn container).Titled above header) :
    header.path = container.child header.name := by
  rw [path_of_header titled.header, ← label_of_titled titled]
  rfl

theorem path_of_titled_root {decl : Decl}
    (titled : Site.Titled ⟨decl, Path.root decl.label⟩ above header) :
    header.path = Path.root header.name := by
  rw [path_of_header titled.header, ← label_of_titled titled]

end Site

namespace Family

variable {α : Type} [Placeable α] {family : Family α}

omit [Placeable α] in
theorem template_eq_ok {array : Site} {template : Decl} :
    family.template array = .ok template ↔
      array.decl.children = [template] ∧ template.kind = family.kind := by
  unfold Family.template
  split
  next only one =>
    rw [one]
    by_cases same : only.kind = family.kind
    · rw [if_pos same]
      constructor
      · intro given
        cases given
        exact ⟨rfl, same⟩
      · rintro ⟨listed, -⟩
        rw [(List.cons.inj listed).1]
    · rw [if_neg same]
      constructor
      · exact fun accepted => absurd accepted Site.refuse_child_ne_ok
      · rintro ⟨listed, kind⟩
        rw [(List.cons.inj listed).1] at same
        exact absurd kind same
  next children several =>
    constructor
    · exact fun accepted => absurd accepted Site.fail_ne_ok
    · exact fun one => absurd one.1 (several template)

structure ArrayParts (α : Type) where
  template : Decl
  name : String
  shape : ArrayShape
  header : Header
  inner : Candidate α
  space : Space α
  frame : Layout α
  size : Nat

namespace ArrayParts

def site (parts : ArrayParts α) (container : Path) (decl : Decl) : Site :=
  ⟨decl, container.child parts.name⟩

def candidate (parts : ArrayParts α) : Candidate (ElementArray α) :=
  { item :=
      { header := parts.header
        offset := 0
        count := parts.shape.count
        framesize := parts.frame.size
        size := parts.size
        frame := parts.frame }
    offset? := parts.shape.offset?
    size := parts.size
    placer? := some .aligned }

end ArrayParts

structure ArrayRule (family : Family α) (container : Path) (above : Context) (decl : Decl)
    (parts : ArrayParts α) : Prop where
  children : decl.children = [parts.template]
  kind : parts.template.kind = family.kind
  name : (decl.name? <|> parts.template.name?) = some parts.name
  keys : (parts.site container decl).checkKeys = .ok ()
  shape : (parts.site container decl).arrayShape = .ok parts.shape
  header : (parts.site container decl).header parts.name above = .ok parts.header
  inner : family.ofDecl (container.child parts.name) parts.header.context parts.template =
    .ok parts.inner
  space : arrange { placer := .aligned, resizer := .aligned } [parts.inner] = .ok parts.space
  frame : settledLayout (container.child parts.name) parts.space parts.shape.framesize? =
    .ok parts.frame
  size : (parts.site container decl).arraySize parts.shape parts.frame.size = .ok parts.size

theorem array_of_decl_eq_ok {container : Path} {above : Context} {decl : Decl}
    {candidate : Candidate (ElementArray α)} :
    family.arrayOfDecl container above decl = .ok candidate ↔
      ∃ parts, family.ArrayRule container above decl parts ∧ candidate = parts.candidate := by
  simp only [arrayOfDecl, bind_eq_ok, template_eq_ok, Site.named_after_eq_ok]
  constructor
  · rintro ⟨template, ⟨children, kind⟩, site, ⟨name, named, rfl⟩, ⟨⟩, keys, shape, shaped, header,
      headed, inner, built, space, arranged, frame, framed, size, sized, given⟩
    cases given
    rw [Path.leaf_child] at headed
    exact ⟨⟨template, name, shape, header, inner, space, frame, size⟩,
      ⟨children, kind, named, keys, shaped, headed, built, arranged, framed, sized⟩, rfl⟩
  · rintro ⟨parts, rule, rfl⟩
    have headed := rule.header
    rw [← Path.leaf_child container parts.name] at headed
    exact ⟨parts.template, ⟨rule.children, rule.kind⟩, parts.site container decl,
      ⟨parts.name, rule.name, rfl⟩, (), rule.keys, parts.shape, rule.shape, parts.header, headed,
      parts.inner, rule.inner, parts.space, rule.space, parts.frame, rule.frame, parts.size,
      rule.size, rfl⟩

theorem entry_of_decl_eq_ok {container : Site} {above : Context} {decl : Decl}
    {candidate : Candidate (Entry α)} :
    family.entryOfDecl container above decl = .ok candidate ↔
      (decl.kind = family.kind ∧ ∃ inner, family.ofDecl container.path above decl = .ok inner ∧
          candidate = inner.map .single) ∨
        (decl.kind ≠ family.kind ∧ decl.kind = family.arrayKind ∧
          ∃ inner, family.arrayOfDecl container.path above decl = .ok inner ∧
            candidate = inner.map .array) := by
  unfold entryOfDecl
  by_cases single : decl.kind = family.kind
  · rw [if_pos single, bind_eq_ok]
    constructor
    · rintro ⟨inner, built, given⟩
      exact .inl ⟨single, inner, built, (Except.ok.inj given).symm⟩
    · rintro (⟨-, inner, built, rfl⟩ | ⟨other, -⟩)
      · exact ⟨inner, built, rfl⟩
      · exact absurd single other
  · rw [if_neg single]
    by_cases array : decl.kind = family.arrayKind
    · rw [if_pos array, bind_eq_ok]
      constructor
      · rintro ⟨inner, built, given⟩
        exact .inr ⟨single, array, inner, built, (Except.ok.inj given).symm⟩
      · rintro (⟨same, -⟩ | ⟨-, -, inner, built, rfl⟩)
        · exact absurd same single
        · exact ⟨inner, built, rfl⟩
    · simp [single, array, Site.refuse_child_ne_ok]

theorem entries_of_decls_eq_ok {container : Site} {above : Context} {names : List String}
    {decls : List Decl} {candidates : List (Candidate (Entry α))} :
    family.entriesOfDecls container above names decls = .ok candidates ↔
      List.Forall₂ (fun decl candidate => family.entryOfDecl container above decl = .ok candidate)
          decls candidates ∧
        Claimable names (candidates.map fun candidate => candidate.path.leaf) := by
  induction decls generalizing names candidates with
  | nil =>
      constructor
      · intro given
        cases given
        exact ⟨.nil, claimable_nil names⟩
      · rintro ⟨built, -⟩
        cases built
        rfl
  | cons decl rest ih =>
      simp only [entriesOfDecls, bind_eq_ok, claim_name_eq_ok, ih]
      constructor
      · rintro ⟨candidate, first, -, free, others, ⟨built, claims⟩, given⟩
        cases given
        exact ⟨.cons first built, claimable_cons.2 ⟨free, claims⟩⟩
      · rintro ⟨built, claims⟩
        cases built with
        | @cons _ candidate _ others first later =>
            obtain ⟨free, laterClaims⟩ := claimable_cons.1 claims
            exact ⟨candidate, first, (), free, others, ⟨later, laterClaims⟩, rfl⟩

theorem children_eq_ok {container : Site} {above : Context}
    {candidates : List (Candidate (Entry α))} :
    family.children container above = .ok candidates ↔
      List.Forall₂ (fun decl candidate => family.entryOfDecl container above decl = .ok candidate)
          container.decl.children candidates ∧
        (candidates.map fun candidate => candidate.path.leaf).Nodup := by
  unfold children
  rw [entries_of_decls_eq_ok, claimable_untaken]

end Family

namespace EnumValue

variable {field : Site} {size : Nat} {above : Context} {names : List String}
  {largest? : Option Nat} {decl : Decl}

theorem number_eq_ok {site : Site} {number : Nat} :
    EnumValue.number site largest? = .ok number ↔
      ∃ stated?, site.number? .value = .ok stated? ∧
        (stated? <|> next? largest?) = some number := by
  simp only [EnumValue.number, bind_eq_ok]
  apply exists_congr
  intro stated?
  apply and_congr_right
  intro read
  cases stated? with
  | some stated => simp
  | none =>
      cases next : next? largest? with
      | some value => simp
      | none => simp [Site.fail_ne_ok]

structure Rule (field : Site) (size : Nat) (above : Context) (names : List String)
    (largest? : Option Nat) (decl : Decl) (value : EnumValue) : Prop where
  kind : decl.kind = .enumValue
  titled : (decl.siteIn field.path).Titled above value.header
  free : value.header.name ∉ names
  number : EnumValue.number (decl.siteIn field.path) largest? = .ok value.value
  fits : hasWidth value.value size

theorem of_decl_eq_ok {value : EnumValue} :
    EnumValue.ofDecl field size above names largest? decl = .ok value ↔
      Rule field size above names largest? decl value := by
  unfold EnumValue.ofDecl
  by_cases kind : decl.kind = .enumValue
  · rw [if_neg (not_not.2 kind)]
    simp only [bind_eq_ok, claim_name_eq_ok]
    constructor
    · rintro ⟨⟨⟩, keys, name, named, ⟨⟩, free, number, numbered, accepted⟩
      by_cases fits : hasWidth number size
      · rw [if_pos fits] at accepted
        obtain ⟨header, headed, given⟩ := bind_eq_ok.1 accepted
        cases given
        have titled := Site.titled_of_name keys named headed
        refine ⟨kind, titled, ?_, numbered, fits⟩
        rw [Decl.siteIn, Path.leaf_child] at free
        rwa [← Site.label_of_titled titled]
      · rw [if_neg fits] at accepted
        exact absurd accepted Site.fail_ne_ok
    · intro rule
      have free := rule.free
      rw [← Site.label_of_titled rule.titled] at free
      refine ⟨(), rule.titled.keys, value.header.name, Site.name_of_titled rule.titled, (), ?_,
        value.value, rule.number, ?_⟩
      · rw [Decl.siteIn, Path.leaf_child]
        exact free
      · rw [if_pos rule.fits]
        exact bind_eq_ok.2 ⟨value.header, rule.titled.header, rfl⟩
  · rw [if_pos kind]
    constructor
    · exact fun accepted => absurd accepted Site.refuse_child_ne_ok
    · exact fun rule => absurd rule.kind kind

theorem of_decls_cons_eq_ok {rest : List Decl} {values : List EnumValue} :
    EnumValue.ofDecls field size above names largest? (decl :: rest) = .ok values ↔
      ∃ value others, Rule field size above names largest? decl value ∧
        EnumValue.ofDecls field size above (value.header.path.leaf :: names)
          (some (largestWith largest? value.value)) rest = .ok others ∧
        values = value :: others := by
  simp only [EnumValue.ofDecls, bind_eq_ok, of_decl_eq_ok]
  constructor
  · rintro ⟨value, first, others, later, given⟩
    exact ⟨value, others, first, later, (Except.ok.inj given).symm⟩
  · rintro ⟨value, others, first, later, rfl⟩
    exact ⟨value, first, others, later, rfl⟩

end EnumValue

namespace Field

structure Rule (site : Site) (above : Context) (candidate : Candidate Field) : Prop where
  titled : site.Titled above candidate.item.header
  offset : site.number? .offset = .ok candidate.offset?
  size : ∃ size?, site.positive? .size = .ok size? ∧ size?.getD 1 = candidate.size
  values : EnumValue.ofDecls site candidate.size candidate.item.header.context [] none
    site.decl.children = .ok candidate.item.values
  plain : candidate.item.offset = 0 ∧ candidate.item.size = candidate.size ∧
    candidate.placer? = none

theorem of_decl_eq_ok {container : Path} {above : Context} {decl : Decl}
    {candidate : Candidate Field} :
    Field.ofDecl container above decl = .ok candidate ↔
      Rule (decl.siteIn container) above candidate := by
  simp only [Field.ofDecl, bind_eq_ok]
  constructor
  · rintro ⟨⟨⟩, keys, name, named, offset?, offset, size?, size, header, headed, values, built,
      given⟩
    cases given
    exact ⟨Site.titled_of_name keys named headed, offset, ⟨size?, size, rfl⟩, built, rfl, rfl, rfl⟩
  · obtain ⟨⟨header, start, length, values⟩, offset?, size, placer?⟩ := candidate
    rintro ⟨titled, offset, ⟨size?, read, same⟩, built, plain⟩
    dsimp only at same plain
    obtain ⟨rfl, rfl, rfl⟩ := plain
    subst same
    exact ⟨(), titled.keys, header.name, Site.name_of_titled titled, offset?, offset, size?, read,
      header, titled.header, values, built, rfl⟩

end Field

namespace Register

variable {site : Site}

theorem check_size_eq_ok {answer : Unit} :
    Register.checkSize site = .ok answer ↔
      ∃ size?, site.number? .size = .ok size? ∧ ∀ size, size? = some size → size = 1 := by
  simp only [Register.checkSize, bind_eq_ok]
  apply exists_congr
  intro size?
  apply and_congr_right
  intro read
  cases size? with
  | none => simp
  | some size =>
      by_cases one : size = 1
      · simp [one]
      · simp [one, Site.fail_attribute_ne_ok]

theorem stated_width_eq_ok {wordWidth width : Nat} :
    Register.statedWidth site wordWidth = .ok width ↔
      ∃ width?, site.number? .width = .ok width? ∧ width?.getD wordWidth = width ∧
        ∀ stated, width? = some stated → 1 ≤ stated ∧ stated ≤ wordWidth := by
  simp only [Register.statedWidth, bind_eq_ok]
  apply exists_congr
  intro width?
  apply and_congr_right
  intro read
  cases width? with
  | none => simp
  | some stated =>
      by_cases proper : 1 ≤ stated ∧ stated ≤ wordWidth
      · simp [proper]
      · simp [proper, Site.fail_ne_ok]

theorem stated_reset_eq_ok {width reset : Nat} :
    Register.statedReset site width = .ok reset ↔
      ∃ reset?, site.number? .reset = .ok reset? ∧ reset?.getD 0 = reset ∧
        hasWidth reset width := by
  simp only [Register.statedReset, bind_eq_ok]
  apply exists_congr
  intro reset?
  apply and_congr_right
  intro read
  by_cases fits : hasWidth (reset?.getD 0) width
  · rw [if_pos fits]
    constructor
    · intro given
      cases given
      exact ⟨rfl, fits⟩
    · rintro ⟨rfl, -⟩
      rfl
  · rw [if_neg fits]
    constructor
    · exact fun accepted => absurd accepted Site.fail_ne_ok
    · rintro ⟨rfl, also⟩
      exact absurd also fits

theorem arrange_fields_eq_ok {path : Path} {width : Nat}
    {candidates : List (Candidate (Entry Field))} {layout : Layout (Entry Field)} :
    Register.arrangeFields path width candidates = .ok layout ↔
      ∃ space, arrange { placer := .linear, resizer := .linear } candidates = .ok space ∧
        (∀ placed ∈ space.layout.items, placed.stop ≤ width) ∧
        settledLayout path space (some width) = .ok layout := by
  simp only [Register.arrangeFields, bind_eq_ok, map_error_eq_ok]
  apply exists_congr
  intro space
  apply and_congr_right
  intro arranged
  split
  next outside found =>
    have beyond := List.find?_some found
    rw [decide_eq_true_eq] at beyond
    constructor
    · exact fun accepted => by contradiction
    · rintro ⟨within, -⟩
      have bound := within outside (List.mem_of_find?_eq_some found)
      omega
  next absent =>
    simp only [List.find?_eq_none, decide_eq_true_eq, Nat.not_lt] at absent
    exact ⟨fun settled => ⟨absent, settled⟩, fun both => both.2⟩

structure Rule (wordWidth : Nat) (site : Site) (above : Context) (candidate : Candidate Register) :
    Prop where
  titled : site.Titled above candidate.item.header
  offset : site.number? .offset = .ok candidate.offset?
  single : Register.checkSize site = .ok ()
  width : Register.statedWidth site wordWidth = .ok candidate.item.width
  reset : Register.statedReset site candidate.item.width = .ok candidate.item.reset
  fields : ∃ fields, Field.family.children site candidate.item.header.context = .ok fields ∧
    Register.arrangeFields site.path candidate.item.width fields = .ok candidate.item.layout
  plain : candidate.item.offset = 0 ∧ candidate.size = 1 ∧ candidate.placer? = none

theorem of_decl_eq_ok {wordWidth : Nat} {container : Path} {above : Context} {decl : Decl}
    {candidate : Candidate Register} :
    Register.ofDecl wordWidth container above decl = .ok candidate ↔
      Rule wordWidth (decl.siteIn container) above candidate := by
  simp only [Register.ofDecl, bind_eq_ok]
  constructor
  · rintro ⟨⟨⟩, keys, name, named, offset?, offset, ⟨⟩, single, width, stated, reset, resets,
      header, headed, fields, built, layout, arranged, given⟩
    cases given
    exact ⟨Site.titled_of_name keys named headed, offset, single, stated, resets,
      ⟨fields, built, arranged⟩, rfl, rfl, rfl⟩
  · obtain ⟨⟨header, start, width, reset, layout⟩, offset?, size, placer?⟩ := candidate
    rintro ⟨titled, offset, single, stated, resets, ⟨fields, built, arranged⟩, plain⟩
    dsimp only at plain
    obtain ⟨rfl, rfl, rfl⟩ := plain
    exact ⟨(), titled.keys, header.name, Site.name_of_titled titled, offset?, offset, (), single,
      width, stated, reset, resets, header, titled.header, fields, built, layout, arranged, rfl⟩

end Register

theorem Decl.root_site_eq_ok {decl : Decl} {kind : Kind} {site : Site} :
    decl.rootSite kind = .ok site ↔ decl.kind = kind ∧ site = ⟨decl, Path.root decl.label⟩ := by
  unfold Decl.rootSite
  by_cases same : decl.kind = kind
  · simp [same, eq_comm]
  · simp [same, Site.fail_ne_ok]

/-- The layout of a root: its children arranged, and the extent settled. -/
structure Family.LayoutRule {α : Type} [Placeable α] (family : Family α) (placer : Placer)
    (site : Site) (above : Context) (layout : Layout (Entry α)) : Prop where
  arranged : ∃ candidates space declared?, family.children site above = .ok candidates ∧
    arrange { placer, resizer := .linear } candidates = .ok space ∧
    site.number? .size = .ok declared? ∧ settledLayout site.path space declared? = .ok layout

namespace Component

theorem stated_width_eq_ok {site : Site} {width : Nat} :
    Component.statedWidth site = .ok width ↔
      site.number? .width = .ok (some width) ∧ site.checkWordWidth width = .ok width := by
  simp only [Component.statedWidth, bind_eq_ok]
  constructor
  · rintro ⟨width?, read, accepted⟩
    cases width? with
    | none => exact absurd accepted Site.fail_ne_ok
    | some stated =>
        obtain ⟨-, rfl⟩ := Site.check_word_width_eq_ok.1 accepted
        exact ⟨read, accepted⟩
  · rintro ⟨read, accepted⟩
    exact ⟨some width, read, accepted⟩

structure Rule (site : Site) (component : Component) : Prop where
  kind : site.decl.kind = .component
  titled : site.Titled {} component.header
  width : Component.statedWidth site = .ok component.width
  layout : (Register.family component.width).LayoutRule .linear site component.header.context
    component.layout
  size : component.size = component.layout.size

theorem of_decl_eq_ok {decl : Decl} {component : Component} :
    Component.ofDecl decl = .ok component ↔ Rule ⟨decl, Path.root decl.label⟩ component := by
  simp only [Component.ofDecl, bind_eq_ok, Decl.root_site_eq_ok]
  constructor
  · rintro ⟨site, ⟨kind, rfl⟩, ⟨⟩, keys, name, named, width, stated, header, headed, registers,
      built, space, arranged, declared?, declared, layout, settled, given⟩
    cases given
    exact ⟨kind, Site.titled_of_name keys named headed, stated,
      ⟨registers, space, declared?, built, arranged, declared, settled⟩, rfl⟩
  · obtain ⟨header, width, size, layout⟩ := component
    rintro ⟨kind, titled, stated, ⟨registers, space, declared?, built, arranged, declared, settled⟩,
      same⟩
    dsimp only at same
    subst same
    exact ⟨_, ⟨kind, rfl⟩, (), titled.keys, header.name, Site.name_of_titled titled, width, stated,
      header, titled.header, registers, built, space, arranged, declared?, declared, layout,
      settled, rfl⟩

end Component

theorem Catalog.require_eq_ok {catalog : Catalog} {path : Path} {name : String}
    {component : Component} :
    catalog.require path name = .ok component ↔ catalog.get? name = some component := by
  unfold Catalog.require
  cases catalog.get? name <;> simp

namespace Instance

structure Rule (catalog : Catalog) (site : Site) (above : Context)
    (candidate : Candidate Instance) : Prop where
  titled : site.Titled above candidate.item.header
  offset : site.number? .offset = .ok candidate.offset?
  named : (site.decl.get? .componentName).getD candidate.item.header.name =
    candidate.item.componentName
  bound : catalog.get? candidate.item.componentName = some candidate.item.component
  size : candidate.item.byteSize? = some candidate.size
  plain : candidate.item.offset = 0 ∧ candidate.placer? = none

theorem of_decl_eq_ok {catalog : Catalog} {container : Path} {above : Context} {decl : Decl}
    {candidate : Candidate Instance} :
    Instance.ofDecl catalog container above decl = .ok candidate ↔
      Rule catalog (decl.siteIn container) above candidate := by
  simp only [Instance.ofDecl, bind_eq_ok, Catalog.require_eq_ok]
  constructor
  · rintro ⟨⟨⟩, keys, name, named, offset?, offset, header, headed, component, found, accepted⟩
    cases sized : component.byteSize? with
    | none =>
        rw [sized] at accepted
        exact absurd accepted Site.fail_attribute_ne_ok
    | some size =>
        rw [sized] at accepted
        cases accepted
        have same := Site.name_of_header headed
        subst same
        exact ⟨Site.titled_of_name keys named headed, offset, rfl, found, sized, rfl, rfl⟩
  · obtain ⟨⟨header, start, componentName, component⟩, offset?, size, placer?⟩ := candidate
    rintro ⟨titled, offset, asked, bound, sized, plain⟩
    dsimp only at asked bound sized plain
    obtain ⟨rfl, rfl⟩ := plain
    subst asked
    refine ⟨(), titled.keys, header.name, Site.name_of_titled titled, offset?, offset, header,
      titled.header, component, bound, ?_⟩
    rw [Instance.byteSize?] at sized
    rw [sized]
    rfl

end Instance

namespace MemoryMap

structure Rule (catalog : Catalog) (defaults : MapDefaults) (site : Site) (map : MemoryMap) :
    Prop where
  kind : site.decl.kind = .memoryMap
  titled : site.Titled {} map.header
  base : ∃ base?, site.number? .base = .ok base? ∧ base?.getD defaults.base = map.base
  width : ∃ width?, site.number? .width = .ok width? ∧
    site.checkWordWidth (width?.getD defaults.busWidth) = .ok map.width
  layout : (Instance.family catalog).LayoutRule .aligned site map.header.context map.layout
  size : map.size = map.layout.size

theorem of_decl_eq_ok {catalog : Catalog} {defaults : MapDefaults} {decl : Decl} {map : MemoryMap} :
    MemoryMap.ofDecl catalog defaults decl = .ok map ↔
      Rule catalog defaults ⟨decl, Path.root decl.label⟩ map := by
  simp only [MemoryMap.ofDecl, bind_eq_ok, Decl.root_site_eq_ok]
  constructor
  · rintro ⟨site, ⟨kind, rfl⟩, ⟨⟩, keys, name, named, base?, base, width?, width, bus, checked,
      header, headed, instances, built, space, arranged, declared?, declared, layout, settled, given⟩
    cases given
    exact ⟨kind, Site.titled_of_name keys named headed, ⟨base?, base, rfl⟩,
      ⟨width?, width, checked⟩, ⟨instances, space, declared?, built, arranged, declared, settled⟩, rfl⟩
  · obtain ⟨header, base, width, size, layout⟩ := map
    rintro ⟨kind, titled, ⟨base?, read, fallback⟩, ⟨width?, given, checked⟩,
      ⟨instances, space, declared?, built, arranged, declared, settled⟩, same⟩
    dsimp only at fallback same
    subst fallback same
    exact ⟨_, ⟨kind, rfl⟩, (), titled.keys, header.name, Site.name_of_titled titled, base?, read,
      width?, given, width, checked, header, titled.header, instances, built, space, arranged,
      declared?, declared, layout, settled, rfl⟩

end MemoryMap

end AddressMap
