import AddressMap.Proofs.Blameless
import AddressMap.Proofs.Elaboration.Completeness

/-!
# The numbers of named values

A named value has the number that it states, or the one past the largest before it, or zero. Each
step of the elaboration gives this number or, if it does not fit in the field, refuses the value. So
a field is refused at the first value whose number does not fit, and otherwise holds its values in
the order of declaration, with these numbers.
-/

namespace AddressMap

set_option autoImplicit false

namespace Decl

variable {decl child : Decl} {before others : List Nat}

/-- The number of the named value, given the declarations before it, has too many bits for a field
of this size or is no address. -/
def Misnumbers (size : Nat) (before : List Decl) (decl : Decl) : Prop :=
  2 ^ size ≤ decl.enumNumber (enumNumbers [] before) ∨
    2 ^ 64 ≤ decl.enumNumber (enumNumbers [] before)

/-- Only how large the numbers before it are matters to a named value, not their order. -/
theorem enum_number_reverse (decl : Decl) (before : List Nat) :
    decl.enumNumber before.reverse = decl.enumNumber before := by
  have largest : before.reverse.max? = before.max? := by
    cases first : before.max? with
    | none =>
        rw [List.max?_eq_none_iff] at first ⊢
        rw [first, List.reverse_nil]
    | some number =>
        rw [List.max?_eq_some_iff] at first ⊢
        simpa using first
  rw [enumNumber, enumNumber, largest]

/-- The number that is not stated is larger than all before. -/
theorem lt_enum_number (unstated : decl.get? .value = none) {number : Nat}
    (member : number ∈ before) : number < decl.enumNumber before := by
  have unnumbered : decl.number? .value = none := by
    rw [number?, unstated]
    rfl
  rw [enumNumber, unnumbered, Option.getD_none]
  cases largest : before.max? with
  | none =>
      rw [List.max?_eq_none_iff.1 largest] at member
      contradiction
  | some greatest =>
      have bound := (List.max?_eq_some_iff.1 largest).2 number member
      exact Nat.lt_succ_of_le bound

theorem enum_numbers_append (first second : List Decl) :
    enumNumbers before (first ++ second) =
      enumNumbers before first ++
        enumNumbers ((enumNumbers before first).reverse ++ before) second := by
  induction first generalizing before with
  | nil => rfl
  | cons decl rest ih =>
      simp only [List.cons_append, enumNumbers, ih, List.reverse_cons, List.append_assoc,
        List.nil_append]

theorem numbers_fit_iff {size : Nat} {decls : List Decl} :
    (∀ number ∈ enumNumbers [] decls, number ≤ maxAddress ∧ number < 2 ^ size) ↔
      Blameless (Misnumbers size) decls := by
  induction decls using List.reverseRecOn with
  | nil => exact ⟨fun _ => blameless_nil _, fun _ => nofun⟩
  | append_singleton decls last ih =>
      have fits : ¬ Misnumbers size decls last ↔
          last.enumNumber (enumNumbers [] decls) ≤ maxAddress ∧
            last.enumNumber (enumNumbers [] decls) < 2 ^ size := by
        simp only [Misnumbers, maxAddress]
        omega
      rw [blameless_concat, ← ih, fits, enum_numbers_append, List.append_nil,
        List.forall_mem_append]
      simp only [enumNumbers, enum_number_reverse, List.forall_mem_singleton]

end Decl

namespace EnumValue

variable {field : Site} {size : Nat} {above : Context} {names : List String} {before : List Nat}
  {decl : Decl} {decls : List Decl}

theorem number_of_none_left {site : Site} (reads : site.decl.Reads .value)
    (large : maxAddress < site.decl.enumNumber before) :
    EnumValue.number site before.max? = site.fail (.fieldRange .noValueLeft) := by
  have unstated : site.decl.number? .value = none := by
    cases stated : site.decl.number? .value with
    | none => rfl
    | some given =>
        have bounded := Decl.number?_le stated
        rw [Decl.enumNumber, stated, Option.getD_some] at large
        omega
  have read : site.number? .value = .ok none :=
    (Site.number?_iff .value rfl).2 ⟨reads, unstated.symm⟩
  rw [Decl.enumNumber, unstated, Option.getD_none] at large
  have exhausted : next? before.max? = none := by
    cases largest : before.max? with
    | none =>
        rw [largest] at large
        contradiction
    | some greatest =>
        rw [largest] at large
        exact if_neg (Nat.not_le.2 large)
  simp only [EnumValue.number, read, exhausted, bind, Except.bind]

theorem of_decl_of_misfit (kind : decl.kind = .enumValue) (attributed : decl.Attributed)
    (free : decl.label ∉ names)
    (misfit : ¬ (decl.enumNumber before ≤ maxAddress ∧ decl.enumNumber before < 2 ^ size)) :
    ∃ cause, EnumValue.ofDecl field size above names before.max? decl =
      .error ⟨field.path.child decl.label, .fieldRange cause⟩ := by
  obtain ⟨⟨header, titled⟩, reads⟩ := (@attributed_iff field above decl kind).1 attributed
  have claimed : claimName names (decl.siteIn field.path).path = .ok () := by
    rw [claim_name_eq_ok, Decl.siteIn, Path.leaf_child]
    exact free
  have named := Site.name_of_titled titled
  unfold EnumValue.ofDecl
  rw [if_neg (not_not.2 kind)]
  simp only [titled.keys, named, claimed, bind, Except.bind]
  by_cases bounded : decl.enumNumber before ≤ maxAddress
  · have numbered : EnumValue.number (decl.siteIn field.path) before.max? =
        .ok (decl.enumNumber before) := number_iff.2 ⟨reads, rfl, bounded⟩
    have wide : ¬ hasWidth (decl.enumNumber before) size = true := by
      rw [has_width_iff bounded]
      exact fun fits => misfit ⟨bounded, fits⟩
    rw [numbered]
    dsimp only
    rw [if_neg wide]
    exact ⟨_, rfl⟩
  · have exhausted : EnumValue.number (decl.siteIn field.path) before.max? = _ :=
      number_of_none_left reads (Nat.not_le.1 bounded)
    rw [exhausted]
    exact ⟨_, rfl⟩

/-- Values that are built have the names that are declared and the numbers that follow. -/
theorem numbered_of_decls {values : List EnumValue}
    (built : EnumValue.ofDecls field size above names before.max? decls = .ok values) :
    values.map (·.header.path) = decls.map (fun decl => field.path.child decl.label) ∧
      values.map (·.value) = Decl.enumNumbers before decls := by
  induction decls generalizing names before values with
  | nil =>
      cases built
      exact ⟨rfl, rfl⟩
  | cons decl rest ih =>
      obtain ⟨value, others, rule, later, rfl⟩ := of_decls_cons_eq_ok.1 built
      obtain ⟨-, number⟩ := of_rule rule
      have largest : some (largestWith before.max? value.value) =
          (decl.enumNumber before :: before).max? := by
        rw [number]
        exact List.max?_cons.symm
      rw [largest] at later
      obtain ⟨paths, numbers⟩ := ih later
      have path : value.header.path = field.path.child decl.label :=
        Site.path_of_header rule.titled.header
      constructor
      · rw [List.map_cons, List.map_cons, path, paths]
      · rw [List.map_cons, Decl.enumNumbers, number, numbers]

theorem of_decls_of_refused {rest : List Decl} {values : List EnumValue} {error : BuildError}
    (built : EnumValue.ofDecls field size above names before.max? decls = .ok values)
    (refused : EnumValue.ofDecl field size above ((decls.map Decl.label).reverse ++ names)
      ((Decl.enumNumbers before decls).reverse ++ before).max? decl = .error error) :
    EnumValue.ofDecls field size above names before.max? (decls ++ decl :: rest) =
      .error error := by
  induction decls generalizing names before values with
  | nil => exact bind_eq_error.2 (.inl refused)
  | cons first others ih =>
      obtain ⟨value, values, rule, later, -⟩ := of_decls_cons_eq_ok.1 built
      obtain ⟨leaf, number⟩ := of_rule rule
      have largest : some (largestWith before.max? value.value) =
          (first.enumNumber before :: before).max? := by
        rw [number]
        exact List.max?_cons.symm
      have here := of_decl_eq_ok.2 rule
      simp only [List.map_cons, Decl.enumNumbers, List.reverse_cons, List.append_assoc,
        List.singleton_append] at refused
      rw [leaf, largest] at later
      refine bind_eq_error.2 (.inr ⟨value, here, bind_eq_error.2 (.inl ?_)⟩)
      rw [leaf, largest]
      exact ih later refused

/-- Values that are valid but for their numbers are refused at the first that is to blame. -/
theorem of_decls_of_first_misnumbered {before : List Decl} {refused : Decl}
    (valid : ∀ child ∈ decls, child.kind = .enumValue ∧ child.Attributed)
    (claims : Claimable [] (decls.map Decl.label))
    (first : FirstBlamed (Decl.Misnumbers size) decls before refused) :
    ∃ cause, EnumValue.ofDecls field size above [] none decls =
      .error ⟨field.path.child refused.label, .fieldRange cause⟩ := by
  obtain ⟨after, split⟩ := first.within
  rw [List.append_assoc, List.singleton_append] at split
  rw [← split] at valid claims ⊢
  obtain ⟨kind, attributed⟩ := valid refused (List.mem_append_right before List.mem_cons_self)
  -- All values before the one to blame are built.
  rw [List.map_append, List.map_cons, claimable_append, claimable_cons] at claims
  obtain ⟨earlier, free, -⟩ := claims
  obtain ⟨values, built⟩ := (@exists_values_iff field size above [] [] before).2
    ⟨fun child member => valid child (List.mem_append_left _ member), earlier,
      Decl.numbers_fit_iff.2 first.blameless⟩
  have unfit := first.blamed
  rw [Decl.Misnumbers, ← Decl.enum_number_reverse] at unfit
  have misfit : ¬ (refused.enumNumber (Decl.enumNumbers [] before).reverse ≤ maxAddress ∧
      refused.enumNumber (Decl.enumNumbers [] before).reverse < 2 ^ size) := by
    simp only [maxAddress]
    omega
  rw [List.nil_append, ← List.mem_reverse] at free
  obtain ⟨cause, stopped⟩ := @of_decl_of_misfit field size above _ _ refused kind attributed free
    misfit
  refine ⟨cause, of_decls_of_refused built ?_⟩
  rw [List.append_nil, List.append_nil]
  exact stopped

end EnumValue

namespace Field

variable {container : Path} {above : Context} {decl : Decl}

/-- The field can be read, and its children are named values that can be read and differ by their
names. Nothing is said about numbers. -/
structure Readable (decl : Decl) : Prop where
  kind : decl.kind = .field
  attributed : decl.Attributed
  positive : decl.number? .size ≠ some 0
  values : ∀ child ∈ decl.children, child.kind = .enumValue ∧ child.Attributed
  distinct : (decl.children.map Decl.label).Nodup

theorem of_decl_of_readable (readable : Readable decl) (container : Path) (above : Context) :
    ∃ header offset?, Field.ofDecl container above decl = (do
      let values ← EnumValue.ofDecls (decl.siteIn container) decl.fieldBits header.context [] none
        decl.children
      .ok { item := { header, offset := 0, size := decl.fieldBits, values }
            offset?, size := decl.fieldBits }) := by
  have titled := Decl.attributed_iff_titled (decl.siteIn container).path above
    (show decl.kind.required = [.name] by rw [readable.kind]; rfl)
  rw [readable.kind] at titled
  simp only [Kind.ownAttributes, List.forall_mem_cons] at titled
  obtain ⟨⟨header, headed⟩, ⟨offsets, sizes, -⟩, -⟩ := titled.1 readable.attributed
  have headed : (decl.siteIn container).Titled above header := headed
  have offset : (decl.siteIn container).number? .offset = .ok (decl.number? .offset) :=
    (Site.number?_iff .offset rfl).2 ⟨offsets, rfl⟩
  have size : (decl.siteIn container).positive? .size = .ok (decl.number? .size) :=
    (Site.positive?_iff .size rfl).2 ⟨sizes, rfl, readable.positive⟩
  refine ⟨header, decl.number? .offset, ?_⟩
  unfold Field.ofDecl
  simp only [headed.keys, Site.name_of_titled headed, offset, size, headed.header, bind,
    Except.bind]
  rfl

/-- A readable field is refused at the first value whose number does not fit, with an error of range
that names the value. If all numbers fit, it holds the values in the order of declaration, each with
its number: the stated one, or one past the largest before it, or zero. A number that is not stated
is larger than all before it. -/
theorem values_numbered_in_order (readable : Readable decl) (container : Path) (above : Context) :
    let path := container.child decl.label
    (∀ before refused,
      FirstBlamed (Decl.Misnumbers decl.fieldBits) decl.children before refused →
        ∃ cause, Field.ofDecl container above decl =
          .error ⟨path.child refused.label, .fieldRange cause⟩) ∧
    (Blameless (Decl.Misnumbers decl.fieldBits) decl.children →
      ∃ candidate, Field.ofDecl container above decl = .ok candidate ∧
        candidate.item.values.map (·.header.path) =
          decl.children.map (fun child => path.child child.label) ∧
        candidate.item.values.map (·.value) = Decl.enumNumbers [] decl.children) ∧
    ∀ before child, before ++ [child] <+: decl.children → child.get? .value = none →
      ∀ number ∈ Decl.enumNumbers [] before,
        number < child.enumNumber (Decl.enumNumbers [] before) := by
  intro path
  obtain ⟨header, offset?, answer⟩ := of_decl_of_readable readable container above
  have claims : Claimable [] (decl.children.map Decl.label) := claimable_untaken.2 readable.distinct
  refine ⟨?refused, ?built, ?larger⟩
  case refused =>
    intro before refused first
    obtain ⟨cause, stopped⟩ := @EnumValue.of_decls_of_first_misnumbered (decl.siteIn container)
      _ header.context _ _ _ readable.values claims first
    exact ⟨cause, answer.trans (bind_eq_error.2 (.inl stopped))⟩
  case built =>
    intro fits
    obtain ⟨values, built⟩ :=
      (@EnumValue.exists_values_iff (decl.siteIn container) decl.fieldBits header.context [] []
        decl.children).2 ⟨readable.values, claims, Decl.numbers_fit_iff.2 fits⟩
    obtain ⟨paths, numbers⟩ := @EnumValue.numbered_of_decls _ _ _ _ [] _ _ built
    exact ⟨_, answer.trans (bind_eq_ok.2 ⟨values, built, rfl⟩), paths, numbers⟩
  case larger =>
    intro before child _ unstated number member
    exact Decl.lt_enum_number unstated member

def modeField (values : List Decl) : Decl where
  kind := .field
  attrs := .ofList [("name", "mode"), ("size", "3")]
  children := values

def modeValues : List Decl :=
  [{ kind := .enumValue, attrs := .ofList [("name", "idle")] },
    { kind := .enumValue, attrs := .ofList [("name", "burst"), ("value", "0b101")] },
    { kind := .enumValue, attrs := .ofList [("name", "single")] },
    { kind := .enumValue, attrs := .ofList [("name", "slow"), ("value", "2")] },
    { kind := .enumValue, attrs := .ofList [("name", "test")] }]

def spareValue : Decl where
  kind := .enumValue
  attrs := .ofList [("name", "spare")]

theorem mode_field_readable {values : List Decl}
    (valid : ∀ child ∈ values, child.kind = .enumValue ∧ child.Attributed)
    (distinct : (values.map Decl.label).Nodup) : Readable (modeField values) where
  kind := rfl
  attributed := by
    -- What the field holds does not matter here.
    have alone : (modeField []).Attributed :=
      ⟨by decide +kernel, by decide +kernel, by decide +kernel⟩
    exact ⟨alone.understood, alone.given, alone.unrestricted⟩
  positive := show (modeField []).number? .size ≠ some 0 by decide +kernel
  values := valid
  distinct := distinct

theorem mode_values_valid :
    ∀ child ∈ modeValues ++ [spareValue], child.kind = .enumValue ∧ child.Attributed := by
  have all : ∀ child ∈ modeValues ++ [spareValue], child.kind = .enumValue ∧
      (∀ entry ∈ child.attrs.entries, ∃ attr ∈ child.kind.attributes,
        attr.key = entry.1 ∧ (attr.read? entry.2).isSome) ∧
      (∀ attr ∈ child.kind.required, (child.get? attr).isSome) ∧
      ¬ (child.truth? .readOnly = some true ∧ child.truth? .writeOnly = some true) := by
    decide +kernel
  intro child member
  obtain ⟨kind, understood, given, unrestricted⟩ := all child member
  exact ⟨kind, understood, given, unrestricted⟩

/-- The values take numbers up to the last of the field, and one more has none left. -/
theorem values_of_mode_numbered :
    (∃ candidate, Field.ofDecl (Path.root "timer") {} (modeField modeValues) = .ok candidate ∧
      candidate.item.values.map (·.value) = [0, 5, 6, 2, 7]) ∧
    ∃ cause, Field.ofDecl (Path.root "timer") {} (modeField (modeValues ++ [spareValue])) =
      .error ⟨⟨["timer", "mode", "spare"]⟩, .fieldRange cause⟩ := by
  have known : ∀ child ∈ modeValues, child.kind = .enumValue ∧ child.Attributed :=
    fun child member => mode_values_valid child (List.mem_append_left _ member)
  have fits : Blameless (Decl.Misnumbers 3) modeValues :=
    Decl.numbers_fit_iff.1 (by decide +kernel)
  have full : FirstBlamed (Decl.Misnumbers 3) (modeValues ++ [spareValue]) modeValues spareValue :=
    ⟨List.prefix_rfl, .inl (by decide +kernel), fits⟩
  constructor
  · obtain ⟨-, built, -⟩ := values_numbered_in_order (mode_field_readable known (by decide +kernel))
      (Path.root "timer") {}
    obtain ⟨candidate, made, -, numbers⟩ := built fits
    exact ⟨candidate, made, numbers.trans (by decide +kernel)⟩
  · obtain ⟨refused, -, -⟩ := values_numbered_in_order
      (mode_field_readable mode_values_valid (by decide +kernel)) (Path.root "timer") {}
    exact refused modeValues spareValue full

end Field

end AddressMap
