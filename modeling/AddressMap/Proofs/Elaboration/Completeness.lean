import AddressMap.Proofs.Elaboration.Deciding
import AddressMap.Proofs.Element.Consistency

/-!
# No valid component is refused

Named values, fields, registers and components are built exactly when their declarations are valid.
So none of the faults that a builder can report is reported for a valid component.
-/

namespace AddressMap

set_option autoImplicit false

theorem has_width_iff {value bits : Nat} (bounded : value ≤ maxAddress) :
    hasWidth value bits = true ↔ value < 2 ^ bits := by
  constructor
  · exact lt_two_pow_of_has_width bounded
  · intro small
    have shifted : value >>> bits = 0 := by
      rw [Nat.shiftRight_eq_div_pow]
      exact Nat.div_eq_of_lt small
    exact Bool.or_eq_true_iff.2 (.inr (beq_iff_eq.2 shifted))

theorem is_word_width_iff {width : Nat} :
    IsWordWidth width ↔ width.isPowerOfTwo ∧ 8 ≤ width ∧ width ≤ 2 ^ 31 := by
  constructor
  · intro word
    obtain ⟨exponent, rfl⟩ := word.power_of_two
    have below : 2 ^ exponent < 2 ^ 32 := word.2.2
    have small : exponent < 32 := (Nat.pow_lt_pow_iff_right (by decide)).1 below
    exact ⟨⟨exponent, rfl⟩, word.1, Nat.pow_le_pow_right (by decide) (Nat.le_of_lt_succ small)⟩
  · intro word
    obtain ⟨power, large, small⟩ := word
    have least : width = leastPowerOfTwo width :=
      Nat.le_antisymm (le_least_power_of_two width) (least_power_of_two_le power (Nat.le_refl _))
    have bound : 2 ^ 31 < wordWidthBound := by decide
    exact ⟨large, beq_iff_eq.2 least, by omega⟩

namespace Decl

theorem number?_le {decl : Decl} {attr : Attribute} {number : Nat}
    (stated : decl.number? attr = some number) : number ≤ maxAddress := by
  obtain ⟨text, -, spelled⟩ := Option.bind_eq_some_iff.1 stated
  exact le_max_address_of_read_numeral spelled

theorem label_of_name {decl : Decl} {name : String} (named : decl.name? = some name) :
    decl.label = name := by
  rw [label, named, Option.getD_some]

theorem valid_enum_iff {decl : Decl} {wordWidth : Nat} (kind : decl.kind = .enumValue)
    (childless : decl.children = []) :
    decl.ValidThroughout wordWidth ↔ decl.Attributed := by
  rw [valid_throughout_iff, childless]
  constructor
  · exact fun valid => valid.1.attributed
  · intro attributed
    refine ⟨⟨⟨?_, ?_⟩, attributed, ⟨?_, ?_, ?_, ?_⟩, ?_, ⟨?_, ?_⟩⟩, nofun⟩ <;>
      simp [kind, childless, Kind.isArray, Kind.spaceUnit?]

end Decl

namespace EnumValue

variable {field : Site} {size : Nat} {above : Context} {names : List String} {before : List Nat}
  {decl : Decl} {value : EnumValue}

theorem number_iff {site : Site} {number : Nat} :
    EnumValue.number site before.max? = .ok number ↔
      site.decl.Reads .value ∧ number = site.decl.enumNumber before ∧ number ≤ maxAddress := by
  simp only [number_eq_ok, Site.number?_iff .value rfl, Decl.enumNumber]
  cases stated : site.decl.number? .value with
  | some given =>
      have bounded := Decl.number?_le stated
      simp only [Option.getD_some]
      constructor
      · rintro ⟨_, ⟨reads, rfl⟩, same⟩
        cases same
        exact ⟨reads, rfl, bounded⟩
      · rintro ⟨reads, rfl, -⟩
        exact ⟨_, ⟨reads, rfl⟩, rfl⟩
  | none =>
      have next : next? before.max? = some number ↔
          number = before.max?.elim 0 (· + 1) ∧ number ≤ maxAddress := by
        cases before.max? with
        | none =>
            have small : 0 ≤ maxAddress := Nat.zero_le _
            simp only [next?, Option.elim_none, Option.some.injEq]
            omega
        | some largest =>
            simp only [next?, boundedSum?, Option.ite_none_right_eq_some, Option.some.injEq,
              Option.elim_some]
            omega
      simp only [Option.getD_none, ← next]
      constructor
      · rintro ⟨_, ⟨reads, rfl⟩, same⟩
        exact ⟨reads, same⟩
      · rintro ⟨reads, same⟩
        exact ⟨none, ⟨reads, rfl⟩, same⟩

/-- A named value is called as declared and has the number that follows from those before. -/
theorem of_rule (rule : Rule field size above names before.max? decl value) :
    value.header.path.leaf = decl.label ∧ value.value = decl.enumNumber before := by
  constructor
  · rw [Site.path_of_titled rule.titled, Path.leaf_child]
    exact (Site.label_of_titled rule.titled).symm
  · exact (number_iff.1 rule.number).2.1

theorem attributed_iff (kind : decl.kind = .enumValue) :
    decl.Attributed ↔
      (∃ header, (decl.siteIn field.path).Titled above header) ∧ decl.Reads .value := by
  have titled := Decl.attributed_iff_titled (decl.siteIn field.path).path above
    (show decl.kind.required = [.name] by rw [kind]; rfl)
  rw [kind] at titled
  simpa [Kind.ownAttributes, Decl.siteIn] using titled

theorem exists_rule_iff :
    (∃ value, Rule field size above names before.max? decl value) ↔
      (decl.kind = .enumValue ∧ decl.Attributed) ∧ decl.label ∉ names ∧
        decl.enumNumber before ≤ maxAddress ∧ decl.enumNumber before < 2 ^ size := by
  constructor
  · intro ruled
    obtain ⟨value, rule⟩ := ruled
    obtain ⟨reads, -, bounded⟩ := number_iff.1 rule.number
    obtain ⟨leaf, number⟩ := of_rule rule
    have fits := rule.fits
    rw [number] at bounded fits
    have label : decl.label = value.header.name := Site.label_of_titled rule.titled
    refine ⟨⟨rule.kind, (attributed_iff rule.kind).2 ⟨⟨_, rule.titled⟩, reads⟩⟩, ?_, bounded,
      (has_width_iff bounded).1 fits⟩
    rw [label]
    exact rule.free
  · intro asked
    obtain ⟨⟨kind, attributes⟩, free, bounded, fits⟩ := asked
    obtain ⟨⟨header, titled⟩, reads⟩ := (@attributed_iff field above decl kind).1 attributes
    have label : decl.label = header.name := Site.label_of_titled titled
    rw [label] at free
    exact ⟨⟨header, decl.enumNumber before⟩, kind, titled, free,
      number_iff.2 ⟨reads, rfl, bounded⟩, (has_width_iff bounded).2 fits⟩

/-- The named values of a field are built just when each is valid, their names differ, and their
numbers fit. -/
theorem exists_values_iff {decls : List Decl} :
    (∃ values, EnumValue.ofDecls field size above names before.max? decls = .ok values) ↔
      (∀ decl ∈ decls, decl.kind = .enumValue ∧ decl.Attributed) ∧
        Claimable names (decls.map Decl.label) ∧
        ∀ number ∈ Decl.enumNumbers before decls, number ≤ maxAddress ∧ number < 2 ^ size := by
  induction decls generalizing names before with
  | nil => exact ⟨fun _ => ⟨nofun, claimable_nil names, nofun⟩, fun _ => ⟨[], rfl⟩⟩
  | cons decl rest ih =>
      have largest : some (largestWith before.max? (decl.enumNumber before)) =
          (decl.enumNumber before :: before).max? := List.max?_cons.symm
      simp only [List.forall_mem_cons, List.map_cons, Decl.enumNumbers, claimable_cons]
      constructor
      · intro built
        obtain ⟨values, built⟩ := built
        obtain ⟨value, others, rule, later, -⟩ := of_decls_cons_eq_ok.1 built
        obtain ⟨leaf, number⟩ := of_rule rule
        rw [leaf, number, largest] at later
        obtain ⟨attributed, claims, fit⟩ := ih.1 ⟨others, later⟩
        obtain ⟨first, free, fits⟩ := exists_rule_iff.1 ⟨value, rule⟩
        exact ⟨⟨first, attributed⟩, ⟨free, claims⟩, fits, fit⟩
      · intro asked
        obtain ⟨⟨first, attributed⟩, ⟨free, claims⟩, fits, fit⟩ := asked
        obtain ⟨value, rule⟩ :=
          (@exists_rule_iff field size above names before decl).2 ⟨first, free, fits⟩
        obtain ⟨leaf, number⟩ := of_rule rule
        obtain ⟨others, later⟩ := ih.2 ⟨attributed, claims, fit⟩
        rw [← leaf, ← largest, ← number] at later
        exact ⟨_, of_decls_cons_eq_ok.2 ⟨value, others, rule, later, rfl⟩⟩

end EnumValue

namespace Decl

variable {decl : Decl} {wordWidth : Nat}

theorem element_name_of_titled {container : Path} {above : Context} {header : Header}
    (titled : (decl.siteIn container).Titled above header) :
    decl.elementName? = some header.path.leaf := by
  have named : decl.name? = some header.name := titled.name
  rw [Site.path_of_titled titled, Path.leaf_child, elementName?, named]
  rfl

theorem element_names_eq {decls : List Decl} (named : ∀ decl ∈ decls, decl.name?.isSome) :
    decls.map elementName? = (decls.map label).map some := by
  rw [List.map_map]
  apply List.map_congr_left
  intro decl member
  obtain ⟨name, given⟩ := Option.isSome_iff_exists.1 (named decl member)
  rw [elementName?, given, Function.comp_apply, label_of_name given]
  rfl

structure ValidValues (decl : Decl) : Prop where
  valid : ∀ child ∈ decl.children, child.kind = .enumValue ∧ child.Attributed
  distinct : (decl.children.map label).Nodup
  fit : ∀ number ∈ enumNumbers [] decl.children,
    number ≤ maxAddress ∧ number < 2 ^ decl.fieldBits

theorem valid_field_iff (kind : decl.kind = .field) (bare : decl.Bare) :
    decl.ValidThroughout wordWidth ↔
      decl.Attributed ∧ decl.number? .size ≠ some 0 ∧ decl.ValidValues := by
  have inside : (∀ child ∈ decl.children, decl.kind.admits child.kind) ∧
      (∀ child ∈ decl.children, child.ValidThroughout wordWidth) ↔
        ∀ child ∈ decl.children, child.kind = .enumValue ∧ child.Attributed := by
    rw [← forall₂_and]
    apply forall₂_congr
    intro child member
    have admits : decl.kind.admits child.kind = true ↔ child.kind = .enumValue := by
      rw [kind]
      cases child.kind <;> decide
    rw [admits]
    apply and_congr_right
    intro named
    exact valid_enum_iff named (bare.child member child (.self child) (by rw [named]; rfl))
  have positive : 1 ≤ decl.fieldBits ↔ decl.number? .size ≠ some 0 := by
    unfold fieldBits
    cases decl.number? .size with
    | none => simp
    | some size => simp [Nat.one_le_iff_ne_zero]
  have distinct (named : ∀ child ∈ decl.children, child.kind = .enumValue ∧ child.Attributed) :
      (decl.children.map elementName?).Nodup ↔ (decl.children.map label).Nodup := by
    rw [element_names_eq]
    · exact List.nodup_map_iff (Option.some_injective _)
    · intro child member
      obtain ⟨kind, attributed⟩ := named child member
      exact attributed.given .name (by rw [kind]; exact List.mem_singleton_self _)
  rw [valid_throughout_iff]
  constructor
  · intro valid
    obtain ⟨node, children⟩ := valid
    have named := inside.1 ⟨node.nested.admitted, children⟩
    obtain ⟨bits, numbers⟩ := node.inBounds.field kind
    exact ⟨node.attributed, positive.1 bits, named, (distinct named).1 node.distinct, numbers⟩
  · intro asked
    obtain ⟨attributed, nonzero, ⟨named, labels, numbers⟩⟩ := asked
    obtain ⟨admitted, children⟩ := inside.2 named
    refine ⟨⟨⟨admitted, ?_⟩, attributed, ⟨?_, ?_, ?_, ?_⟩, (distinct named).2 labels, ⟨?_, ?_⟩⟩,
      children⟩
    case refine_5 => exact fun _ => ⟨positive.2 nonzero, numbers⟩
    all_goals
      rw [kind]
      exact nofun

end Decl

theorem Field.exists_candidate_iff {wordWidth : Nat} {container : Path} {above : Context}
    {decl : Decl} (kind : decl.kind = .field) (bare : decl.Bare) :
    (∃ candidate, Field.ofDecl container above decl = .ok candidate) ↔
      decl.ValidThroughout wordWidth := by
  let site := decl.siteIn container
  have attributed : decl.Attributed ↔
      (∃ header, site.Titled above header) ∧ decl.Reads .offset ∧ decl.Reads .size := by
    have titled := Decl.attributed_iff_titled site.path above
      (show decl.kind.required = [.name] by rw [kind]; rfl)
    rw [kind] at titled
    simpa [Kind.ownAttributes, site, Decl.siteIn] using titled
  have values (above : Context) :
      (∃ values, EnumValue.ofDecls site decl.fieldBits above [] none decl.children = .ok values) ↔
        decl.ValidValues := by
    have built := @EnumValue.exists_values_iff site decl.fieldBits above [] [] decl.children
    rw [claimable_untaken] at built
    apply built.trans
    constructor
    · intro all
      exact ⟨all.1, all.2.1, all.2.2⟩
    · intro values
      exact ⟨values.valid, values.distinct, values.fit⟩
  rw [Decl.valid_field_iff kind bare]
  constructor
  · intro built
    obtain ⟨candidate, built⟩ := built
    have rule := Field.of_decl_eq_ok.1 built
    obtain ⟨size?, read, bits⟩ := rule.size
    obtain ⟨reads, same, nonzero⟩ := (Site.positive?_iff .size rfl).1 read
    obtain ⟨offsets, -⟩ := (Site.number?_iff .offset rfl).1 rule.offset
    have bits : candidate.size = decl.fieldBits := by
      rw [← bits, same]
      rfl
    have made := rule.values
    rw [bits] at made
    exact ⟨attributed.2 ⟨⟨_, rule.titled⟩, offsets, reads⟩, nonzero, (values _).1 ⟨_, made⟩⟩
  · intro asked
    obtain ⟨attributes, nonzero, children⟩ := asked
    obtain ⟨⟨header, titled⟩, offsets, sizes⟩ := attributed.1 attributes
    obtain ⟨made, built⟩ := (values header.context).2 children
    refine ⟨⟨⟨header, 0, decl.fieldBits, made⟩, decl.number? .offset, decl.fieldBits, none⟩, ?_⟩
    exact Field.of_decl_eq_ok.2 ⟨titled, (Site.number?_iff .offset rfl).2 ⟨offsets, rfl⟩,
      ⟨_, (Site.positive?_iff .size rfl).2 ⟨sizes, rfl, nonzero⟩, rfl⟩, built, rfl, rfl, rfl⟩

theorem Field.decides (wordWidth : Nat) : Field.family.Decides wordWidth where
  array := rfl
  single := rfl
  template kind := by cases kind <;> decide
  named := List.mem_singleton_self _
  builds _ _ _ kind bare := exists_candidate_iff kind bare
  requests container above decl candidate kind built := by
    have rule := Field.of_decl_eq_ok.1 built
    have kind : decl.kind = .field := kind
    obtain ⟨size?, read, bits⟩ := rule.size
    obtain ⟨-, same, -⟩ := (Site.positive?_iff .size rfl).1 read
    obtain ⟨-, offset⟩ := (Site.number?_iff .offset rfl).1 rule.offset
    refine ⟨Decl.element_name_of_titled rule.titled, ?_⟩
    have size : candidate.size = decl.length := by
      rw [← bits, same, Decl.length, Decl.singleLength, kind]
      rfl
    show (⟨(), candidate.offset?, candidate.size, candidate.placer?⟩ : Candidate Unit) = _
    rw [offset, size, rule.plain.2.2, Decl.request, kind]
    rfl
  occupied _ _ _ _ built := Field.occupies.size_pos_of_entry built

namespace Register

variable {site : Site} {wordWidth : Nat}

theorem check_size_iff {answer : Unit} :
    Register.checkSize site = .ok answer ↔
      site.decl.Reads .size ∧ ∀ size, site.decl.number? .size = some size → size = 1 := by
  simp only [check_size_eq_ok, Site.number?_iff .size rfl, and_assoc]
  constructor
  · rintro ⟨_, reads, rfl, single⟩
    exact ⟨reads, single⟩
  · rintro ⟨reads, single⟩
    exact ⟨_, reads, rfl, single⟩

theorem stated_width_iff (word : IsWordWidth wordWidth) {width : Nat} :
    Register.statedWidth site wordWidth = .ok width ↔
      site.decl.Reads .width ∧ width = site.decl.usedBits wordWidth ∧
        1 ≤ site.decl.usedBits wordWidth ∧ site.decl.usedBits wordWidth ≤ wordWidth := by
  have large : 8 ≤ wordWidth := word.1
  simp only [stated_width_eq_ok, Site.number?_iff .width rfl, and_assoc, Decl.usedBits]
  constructor
  · rintro ⟨_, reads, rfl, rfl, proper⟩
    refine ⟨reads, rfl, ?_⟩
    cases stated : site.decl.number? .width with
    | none => exact ⟨by rw [Option.getD_none]; omega, Nat.le_refl _⟩
    | some width => exact proper width stated
  · rintro ⟨reads, rfl, proper⟩
    refine ⟨_, reads, rfl, rfl, fun stated given => ?_⟩
    rw [given] at proper
    exact proper

theorem stated_reset_iff {width reset : Nat} :
    Register.statedReset site width = .ok reset ↔
      site.decl.Reads .reset ∧ reset = (site.decl.number? .reset).getD 0 ∧
        (site.decl.number? .reset).getD 0 < 2 ^ width := by
  have bounded : (site.decl.number? .reset).getD 0 ≤ maxAddress := by
    cases stated : site.decl.number? .reset with
    | none => exact Nat.zero_le _
    | some reset => exact Decl.number?_le stated
  rw [← has_width_iff bounded]
  simp only [stated_reset_eq_ok, Site.number?_iff .reset rfl, and_assoc]
  constructor
  · rintro ⟨_, reads, rfl, rfl, fits⟩
    exact ⟨reads, rfl, fits⟩
  · rintro ⟨reads, rfl, fits⟩
    exact ⟨_, reads, rfl, rfl, fits⟩

theorem exists_layout_iff {path : Path} {width : Nat}
    {candidates : List (Candidate (Entry Field))} :
    (∃ layout, Register.arrangeFields path width candidates = .ok layout) ↔
      ∃ space, arrange { placer := .linear, resizer := .linear } candidates = .ok space ∧
        space.layout.top ≤ width := by
  simp only [arrange_fields_eq_ok]
  constructor
  · rintro ⟨layout, space, arranged, within, -⟩
    exact ⟨space, arranged, Layout.top_le within⟩
  · rintro ⟨space, arranged, below⟩
    obtain ⟨layout, settled⟩ :=
      (exists_settled_linear_iff (arranged_of_arrange arranged).1).2 <| by
        intro declared same
        exact Option.some.inj same ▸ below
    refine ⟨layout, space, arranged, fun placed member => ?_, settled⟩
    exact Nat.le_trans (Layout.stop_le_top member) below

end Register

namespace Decl

variable {decl : Decl} {wordWidth : Nat}

theorem valid_container_iff (holder : decl.kind.spaceUnit?.isSome)
    (single : decl.kind.isArray = false) :
    decl.ValidThroughout wordWidth ↔
      decl.Attributed ∧ decl.InBounds wordWidth ∧ decl.ValidInside wordWidth ∧
        ∃ layout, FirstFits decl.kind.placer (decl.children.map request) layout ∧
          ∀ limit, decl.limit? wordWidth = some limit → layout.top ≤ limit := by
  rw [valid_throughout_iff]
  constructor
  · intro valid
    obtain ⟨node, children⟩ := valid
    exact ⟨node.attributed, node.inBounds,
      ⟨fun child member => ⟨node.nested.admitted child member, children child member⟩,
        node.distinct⟩, node.roomy.children holder⟩
  · intro asked
    obtain ⟨attributed, bounds, inside, room⟩ := asked
    have plain : ¬ decl.kind.isArray = true := ne_true_of_eq_false single
    exact ⟨⟨⟨fun child member => (inside.valid child member).1, fun array => absurd array plain⟩,
      attributed, bounds, inside.distinct, fun _ => room, fun array => absurd array plain⟩,
      fun child member => (inside.valid child member).2⟩

theorem valid_register_iff (kind : decl.kind = .register) :
    decl.ValidThroughout wordWidth ↔
      decl.Attributed ∧
        ((1 ≤ decl.usedBits wordWidth ∧ decl.usedBits wordWidth ≤ wordWidth) ∧
          (∀ size, decl.number? .size = some size → size = 1) ∧
          (decl.number? .reset).getD 0 < 2 ^ decl.usedBits wordWidth) ∧
        decl.ValidInside wordWidth ∧
        ∃ layout, FirstFits .linear (decl.children.map request) layout ∧
          layout.top ≤ decl.usedBits wordWidth := by
  have bounds : decl.InBounds wordWidth ↔
      (1 ≤ decl.usedBits wordWidth ∧ decl.usedBits wordWidth ≤ wordWidth) ∧
        (∀ size, decl.number? .size = some size → size = 1) ∧
        (decl.number? .reset).getD 0 < 2 ^ decl.usedBits wordWidth := by
    refine ⟨fun bounds => bounds.register kind, fun bounds => ⟨?_, ?_, fun _ => bounds, ?_⟩⟩ <;>
      exact fun other => absurd other (by rw [kind]; decide)
  rw [valid_container_iff (by rw [kind]; rfl) (by rw [kind]; rfl), bounds]
  simp [limit?, kind, Kind.placer]

theorem valid_component_iff (kind : decl.kind = .component) :
    decl.ValidThroughout wordWidth ↔
      decl.Attributed ∧ IsWordWidth wordWidth ∧ decl.ValidInside wordWidth ∧
        ∃ layout, FirstFits .linear (decl.children.map request) layout ∧
          ∀ limit, decl.number? .size = some limit → layout.top ≤ limit := by
  have bounds : decl.InBounds wordWidth ↔ IsWordWidth wordWidth := by
    rw [is_word_width_iff]
    refine ⟨fun bounds => bounds.component kind, fun word => ⟨fun _ => word, ?_, ?_, ?_⟩⟩ <;>
      exact fun other => absurd other (by rw [kind]; decide)
  rw [valid_container_iff (by rw [kind]; rfl) (by rw [kind]; rfl), bounds]
  simp [limit?, kind, Kind.placer]

end Decl

theorem Register.exists_candidate_iff {wordWidth : Nat} (word : IsWordWidth wordWidth)
    {container : Path} {above : Context} {decl : Decl} (kind : decl.kind = .register)
    (bare : decl.Bare) :
    (∃ candidate, Register.ofDecl wordWidth container above decl = .ok candidate) ↔
      decl.ValidThroughout wordWidth := by
  let site := decl.siteIn container
  have attributed : decl.Attributed ↔ (∃ header, site.Titled above header) ∧
      decl.Reads .offset ∧ decl.Reads .size ∧ decl.Reads .width ∧ decl.Reads .reset := by
    have titled := Decl.attributed_iff_titled site.path above
      (show decl.kind.required = [.name] by rw [kind]; rfl)
    rw [kind] at titled
    simpa [Kind.ownAttributes, site, Decl.siteIn] using titled
  have admits (inner : Kind) : site.decl.kind.admits inner = true ↔
      inner = Field.family.kind ∨ inner = Field.family.arrayKind := by
    rw [show site.decl.kind = .register from kind]
    cases inner <;> decide
  have inside (above : Context) : (∃ fields, Field.family.children site above = .ok fields ∧
      ∃ layout, Register.arrangeFields site.path (decl.usedBits wordWidth) fields = .ok layout) ↔
        decl.ValidInside wordWidth ∧
        ∃ layout, FirstFits .linear (decl.children.map Decl.request) layout ∧
          layout.top ≤ decl.usedBits wordWidth := by
    simp only [exists_layout_iff]
    exact (Field.decides wordWidth).exists_space_iff (· ≤ decl.usedBits wordWidth) bare admits
  rw [Decl.valid_register_iff kind]
  constructor
  · intro built
    obtain ⟨candidate, built⟩ := built
    have rule := Register.of_decl_eq_ok.1 built
    obtain ⟨sizes, single⟩ := check_size_iff.1 rule.single
    obtain ⟨widths, width, proper⟩ := (stated_width_iff word).1 rule.width
    obtain ⟨resets, -, fits⟩ := stated_reset_iff.1 rule.reset
    have width : candidate.item.width = decl.usedBits wordWidth := width
    obtain ⟨fields, children, arranged⟩ := rule.fields
    rw [width] at fits arranged
    obtain ⟨offsets, -⟩ := (Site.number?_iff .offset rfl).1 rule.offset
    exact ⟨attributed.2 ⟨⟨_, rule.titled⟩, offsets, sizes, widths, resets⟩,
      ⟨proper, single, fits⟩, (inside _).1 ⟨fields, children, _, arranged⟩⟩
  · intro asked
    obtain ⟨attributes, ⟨proper, single, fits⟩, children⟩ := asked
    obtain ⟨⟨header, titled⟩, offsets, sizes, widths, resets⟩ := attributed.1 attributes
    obtain ⟨fields, made, layout, arranged⟩ := (inside header.context).2 children
    let register : Register :=
      ⟨header, 0, decl.usedBits wordWidth, (decl.number? .reset).getD 0, layout⟩
    refine ⟨⟨register, decl.number? .offset, 1, none⟩, Register.of_decl_eq_ok.2 ?_⟩
    exact ⟨titled, (Site.number?_iff .offset rfl).2 ⟨offsets, rfl⟩,
      check_size_iff.2 ⟨sizes, single⟩, (stated_width_iff word).2 ⟨widths, rfl, proper⟩,
      stated_reset_iff.2 ⟨resets, rfl, fits⟩, ⟨fields, made, arranged⟩, rfl, rfl, rfl⟩

theorem Register.decides {wordWidth : Nat} (word : IsWordWidth wordWidth) :
    (Register.family wordWidth).Decides wordWidth where
  array := rfl
  single := rfl
  template kind := by
    show Kind.admits .registerArray kind = true ↔ kind = .register
    cases kind <;> decide
  named := List.mem_singleton_self _
  builds _ _ _ kind bare := exists_candidate_iff word kind bare
  requests container above decl candidate kind built := by
    have rule := Register.of_decl_eq_ok.1 built
    have kind : decl.kind = .register := kind
    obtain ⟨-, offset⟩ := (Site.number?_iff .offset rfl).1 rule.offset
    obtain ⟨-, size, placer⟩ := rule.plain
    refine ⟨Decl.element_name_of_titled rule.titled, ?_⟩
    show (⟨(), candidate.offset?, candidate.size, candidate.placer?⟩ : Candidate Unit) = _
    rw [offset, size, placer, Decl.request, Decl.length, Decl.singleLength, kind]
    rfl
  occupied _ _ _ _ built := (Register.occupies word).size_pos_of_entry built

namespace Component

/-- The registers of a component can be laid out just when they are valid, differ by their names,
and have room within the size that is stated. -/
theorem exists_layout_rule_iff {wordWidth : Nat} (word : IsWordWidth wordWidth) {site : Site}
    {above : Context} (kind : site.decl.kind = .component) (bare : site.decl.Bare) :
    (∃ layout, (Register.family wordWidth).LayoutRule .linear site above layout) ↔
      site.decl.Reads .size ∧
        site.decl.ValidInside wordWidth ∧
        ∃ layout, FirstFits .linear (site.decl.children.map Decl.request) layout ∧
          ∀ limit, site.decl.number? .size = some limit → layout.top ≤ limit := by
  have admits (inner : Kind) : site.decl.kind.admits inner = true ↔
      inner = (Register.family wordWidth).kind ∨
        inner = (Register.family wordWidth).arrayKind := by
    rw [kind]
    show Kind.admits .component inner = true ↔ inner = .register ∨ inner = .registerArray
    cases inner <;> decide
  rw [← (Register.decides word).exists_space_iff
    (fun top => ∀ limit, site.decl.number? .size = some limit → top ≤ limit) bare admits]
  constructor
  · rintro ⟨layout, candidates, space, declared?, built, arranged, declared, settled⟩
    obtain ⟨reads, rfl⟩ := (Site.number?_iff .size rfl).1 declared
    have below := (exists_settled_linear_iff (arranged_of_arrange arranged).1).1 ⟨layout, settled⟩
    exact ⟨reads, candidates, built, space, arranged, below⟩
  · rintro ⟨reads, candidates, built, space, arranged, below⟩
    obtain ⟨layout, settled⟩ :=
      (exists_settled_linear_iff (arranged_of_arrange arranged).1).2 below
    exact ⟨layout, candidates, space, _, built, arranged,
      (Site.number?_iff .size rfl).2 ⟨reads, rfl⟩, settled⟩

theorem stated_width_iff {site : Site} {width : Nat} :
    Component.statedWidth site = .ok width ↔
      site.decl.Reads .width ∧ site.decl.number? .width = some width ∧ IsWordWidth width := by
  rw [stated_width_eq_ok, Site.number?_iff .width rfl, Site.check_word_width_eq_ok, and_assoc,
    eq_comm, IsWordWidth]
  simp

/-- A component is built exactly when its declaration is valid, where the builder does not look
inside kinds that hold nothing. -/
theorem valid_iff_exists_component (decl : Decl) :
    decl.Valid ↔ (∃ component, Component.ofDecl decl = .ok component) ∧ decl.Bare := by
  let site : Site := ⟨decl, Path.root decl.label⟩
  have attributed (kind : decl.kind = .component) : decl.Attributed ↔
      (∃ header, site.Titled {} header) ∧ (decl.Reads .width ∧ decl.Reads .size) ∧
        (decl.get? .width).isSome := by
    have titled := Decl.attributed_iff_titled site.path {}
      (show decl.kind.required = [.name, .width] by rw [kind]; rfl)
    rw [kind] at titled
    simpa [Kind.ownAttributes, site] using titled
  constructor
  · intro valid
    obtain ⟨kind, throughout⟩ := valid
    have bare := throughout.bare
    obtain ⟨attributes, word, room⟩ := (Decl.valid_component_iff kind).1 throughout
    obtain ⟨⟨header, titled⟩, ⟨widths, sizes⟩, given⟩ := (attributed kind).1 attributes
    obtain ⟨width, stated⟩ := Option.isSome_iff_exists.1 (Decl.number?_of_reads rfl widths given)
    have same : decl.wordWidth = width := by rw [Decl.wordWidth, stated, Option.getD_some]
    rw [same] at word room
    obtain ⟨layout, rule⟩ : ∃ layout,
        (Register.family width).LayoutRule .linear site header.context layout :=
      (exists_layout_rule_iff word kind bare).2 ⟨sizes, room⟩
    refine ⟨⟨⟨header, width, layout.size, layout⟩, Component.of_decl_eq_ok.2 ?_⟩, bare⟩
    exact ⟨kind, titled, stated_width_iff.2 ⟨widths, stated, word⟩, rule, rfl⟩
  · intro both
    obtain ⟨⟨component, built⟩, bare⟩ := both
    have rule := Component.of_decl_eq_ok.1 built
    have kind : decl.kind = .component := rule.kind
    obtain ⟨widths, stated, word⟩ := stated_width_iff.1 rule.width
    have same : decl.wordWidth = component.width := by
      rw [Decl.wordWidth, show decl.number? .width = _ from stated, Option.getD_some]
    obtain ⟨sizes, room⟩ := (exists_layout_rule_iff word kind bare).1 ⟨_, rule.layout⟩
    refine ⟨kind, (Decl.valid_component_iff kind).2 ?_⟩
    rw [same]
    have given := Decl.get?_is_some_of_number? stated
    exact ⟨(attributed kind).2 ⟨⟨_, rule.titled⟩, ⟨widths, sizes⟩, given⟩, word, room⟩

/-- A component whose last word is the last there is, with a field as long as an address. -/
def brimful : Decl where
  kind := .component
  attrs := .ofList [("name", "edge"), ("width", "64")]
  children :=
    [{ kind := .register
       attrs := .ofList [("name", "status"), ("offset", "0xFFFFFFFFFFFFFFFE")]
       children :=
        [{ kind := .field
           attrs := .ofList [("name", "code"), ("size", "64")]
           children :=
            [{ kind := .enumValue
               attrs := .ofList [("name", "all"), ("value", "0xFFFFFFFFFFFFFFFF")] }] }] },
      { kind := .registerArray
        attrs := .ofList [("count", "2")]
        children := [{ kind := .register, attrs := .ofList [("name", "data")] }] }]

theorem brimful_valid : brimful.Valid := by
  apply (valid_iff_exists_component brimful).2
  constructor
  · exact exists_eq_ok_of_is_ok (by decide +kernel)
  · exact Decl.bare_iff_pruned.2 rfl

end Component

end AddressMap
