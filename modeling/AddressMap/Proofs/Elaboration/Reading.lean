import AddressMap.Elaboration.MemoryMap
import AddressMap.Proofs.Space.Validity

/-!
# Reading a site

Each reader of attributes is described by what the declaration holds when the reader succeeds, and
conversely. The rules of the builders cite these descriptions and open no reader again.
-/

namespace AddressMap

set_option autoImplicit false

theorem bind_eq_ok {ε α β : Type} {first : Except ε α} {next : α → Except ε β} {answer : β} :
    first >>= next = .ok answer ↔ ∃ value, first = .ok value ∧ next value = .ok answer := by
  cases first <;> simp [bind, Except.bind]

theorem bind_eq_error {ε α β : Type} {first : Except ε α} {next : α → Except ε β} {failure : ε} :
    first >>= next = .error failure ↔
      first = .error failure ∨ ∃ value, first = .ok value ∧ next value = .error failure := by
  cases first <;> simp [bind, Except.bind]

theorem exists_eq_ok_of_is_ok {ε α : Type} {answer : Except ε α} (succeeds : answer.isOk = true) :
    ∃ value, answer = .ok value := by
  cases answer with
  | error error => contradiction
  | ok value => exact ⟨value, rfl⟩

theorem exists_of_map_eq_ok {ε α β : Type} {answer : Except ε α} {f : α → β} {image : β}
    (mapped : answer.map f = .ok image) : ∃ value, answer = .ok value ∧ f value = image := by
  cases answer with
  | error error => contradiction
  | ok value => exact ⟨value, rfl, Except.ok.inj mapped⟩

theorem le_max_address_of_read_numeral {text : String} {value : Nat}
    (read : readNumeral? text = some value) : value ≤ maxAddress := by
  simp only [readNumeral?] at read
  split at read
  · contradiction
  · obtain ⟨digits, -, bounded⟩ := Option.bind_eq_some_iff.1 read
    simp only [Option.ite_none_right_eq_some, Option.some.injEq] at bounded
    omega

namespace Site

variable {α : Type} {site : Site} {attr : Attribute}

theorem fail_ne_ok {fault : Fault} {answer : α} : site.fail fault ≠ .ok answer :=
  nofun

theorem fail_attribute_ne_ok {cause : AttributeFault} {answer : α} :
    site.failAttribute attr cause ≠ .ok answer :=
  nofun

theorem refuse_child_ne_ok {container : Site} {child : Decl} {answer : α} :
    container.refuseChild child ≠ .ok answer := by
  unfold refuseChild
  intro accepted
  dsimp only at accepted
  split at accepted
  · split at accepted <;> exact fail_ne_ok accepted
  · exact fail_ne_ok accepted

theorem check_keys_eq_ok {answer : Unit} :
    site.checkKeys = .ok answer ↔
      ∀ entry ∈ site.decl.attrs.entries,
        entry.1 ∈ site.decl.kind.attributes.map Attribute.key := by
  unfold checkKeys
  dsimp only
  split
  next entry found =>
    constructor
    · exact fun accepted => absurd accepted fail_ne_ok
    · intro known
      have unknown := List.find?_some found
      have member := known entry (List.mem_of_find?_eq_some found)
      simp only [Bool.not_eq_true', List.contains_eq_mem, decide_eq_false_iff_not] at unknown
      exact absurd member unknown
  next absent =>
    simp only [List.find?_eq_none, Bool.not_eq_true', Bool.not_eq_false, List.contains_eq_mem,
      decide_eq_true_eq] at absent
    exact ⟨fun _ => absent, fun _ => rfl⟩

theorem read_attribute?_eq_ok {read? : String → Option α} {cause : String → AttributeFault}
    {value? : Option α} :
    site.readAttribute? attr read? cause = .ok value? ↔
      (site.decl.get? attr).map read? = value?.map some := by
  unfold readAttribute?
  cases site.decl.get? attr with
  | none => cases value? <;> simp
  | some text =>
      cases read : read? text with
      | none => cases value? <;> simp [read, fail_attribute_ne_ok]
      | some value => cases value? <;> simp [read]

theorem number?_eq_ok {number? : Option Nat} :
    site.number? attr = .ok number? ↔
      (site.decl.get? attr).map readNumeral? = number?.map some :=
  read_attribute?_eq_ok

theorem le_max_address_of_number? {number : Nat} (read : site.number? attr = .ok (some number)) :
    number ≤ maxAddress := by
  obtain ⟨text, -, spelled⟩ := Option.map_eq_some_iff.1 (number?_eq_ok.1 read)
  exact le_max_address_of_read_numeral spelled

theorem positive?_eq_ok {number? : Option Nat} :
    site.positive? attr = .ok number? ↔ site.number? attr = .ok number? ∧ number? ≠ some 0 := by
  simp only [positive?, bind_eq_ok]
  constructor
  · rintro ⟨read?, read, accepted⟩
    split at accepted
    · exact absurd accepted fail_attribute_ne_ok
    next nonzero =>
      cases accepted
      exact ⟨read, nonzero⟩
  · rintro ⟨read, nonzero⟩
    refine ⟨number?, read, ?_⟩
    split
    · contradiction
    · rfl

theorem truth?_eq_ok {truth? : Option Bool} :
    site.truth? attr = .ok truth? ↔ (site.decl.get? attr).map readTruth? = truth?.map some :=
  read_attribute?_eq_ok

theorem format?_eq_ok {format? : Option Format} :
    site.format? = .ok format? ↔
      (site.decl.get? .format).map Format.ofKeyword? = format?.map some :=
  read_attribute?_eq_ok

theorem name_eq_ok {name : String} : site.name = .ok name ↔ site.decl.name? = some name := by
  unfold Site.name
  cases site.decl.name? with
  | none => simp [fail_ne_ok]
  | some stated => simp

theorem header_eq_ok {name : String} {above : Context} {header : Header} :
    site.header name above = .ok header ↔
      ∃ readOnly? writeOnly? format?,
        site.truth? .readOnly = .ok readOnly? ∧ site.truth? .writeOnly = .ok writeOnly? ∧
          site.format? = .ok format? ∧
          above.access.inherit? readOnly? writeOnly? = some header.access ∧
          header.name = name ∧ header.path = site.path ∧
          header.description = site.decl.description ∧
          header.format = format?.getD above.format := by
  simp only [Site.header, bind_eq_ok]
  constructor
  · rintro ⟨readOnly?, readOnly, writeOnly?, writeOnly, accepted⟩
    cases access : above.access.inherit? readOnly? writeOnly? with
    | none =>
        rw [access] at accepted
        exact absurd accepted fail_attribute_ne_ok
    | some inherited =>
        rw [access] at accepted
        obtain ⟨format?, format, built⟩ := bind_eq_ok.1 accepted
        cases built
        exact ⟨readOnly?, writeOnly?, format?, readOnly, writeOnly, format, access, rfl, rfl, rfl,
          rfl⟩
  · rintro ⟨readOnly?, writeOnly?, format?, readOnly, writeOnly, format, access, rfl, path,
      description, formats⟩
    refine ⟨readOnly?, readOnly, writeOnly?, writeOnly, ?_⟩
    rw [access]
    refine bind_eq_ok.2 ⟨format?, format, ?_⟩
    rw [← path, ← description, ← formats]

theorem check_word_width_eq_ok {width answer : Nat} :
    site.checkWordWidth width = .ok answer ↔
      (8 ≤ width ∧ isPowerOfTwo width ∧ width < wordWidthBound) ∧ width = answer := by
  unfold checkWordWidth
  split
  next proper => simp [proper]
  next improper => simp [improper, fail_ne_ok]

theorem array_shape_eq_ok {shape : ArrayShape} :
    site.arrayShape = .ok shape ↔
      site.positive? .count = .ok (some shape.count) ∧ site.number? .offset = .ok shape.offset? ∧
        site.number? .framesize = .ok shape.framesize? ∧ site.number? .size = .ok shape.size? := by
  simp only [arrayShape, bind_eq_ok]
  constructor
  · rintro ⟨count?, count, rest⟩
    cases count? with
    | none =>
        obtain ⟨number, failed, -⟩ := bind_eq_ok.1 rest
        exact absurd failed fail_ne_ok
    | some number =>
        simp only [bind_eq_ok] at rest
        obtain ⟨same, given, offset?, offset, framesize?, framesize, size?, size, built⟩ := rest
        cases given
        cases built
        exact ⟨count, offset, framesize, size⟩
  · rintro ⟨count, offset, framesize, size⟩
    refine ⟨some shape.count, count, ?_⟩
    simp only [bind_eq_ok]
    exact ⟨_, rfl, _, offset, _, framesize, _, size, rfl⟩

theorem named_after_eq_ok {array named : Site} {container : Path} {template : Decl} :
    array.namedAfter container template = .ok named ↔
      ∃ name, (array.decl.name? <|> template.name?) = some name ∧
        named = ⟨array.decl, container.child name⟩ := by
  unfold namedAfter
  split
  next name stated => simp [stated, eq_comm]
  next nameless => simp [nameless, fail_ne_ok]

theorem array_size_eq_ok {shape : ArrayShape} {framesize size : Nat} :
    site.arraySize shape framesize = .ok size ↔
      size = framesize * shape.count ∧ size ≤ maxAddress ∧
        ∀ declared, shape.size? = some declared → declared = size := by
  unfold arraySize boundedProduct?
  by_cases bounded : framesize * shape.count ≤ maxAddress
  · rw [if_pos bounded]
    dsimp only
    split
    next unstated =>
      simp only [unstated, Except.ok.injEq]
      constructor
      · rintro rfl
        exact ⟨rfl, bounded, nofun⟩
      · exact fun sized => sized.1.symm
    next declared stated =>
      split
      next same =>
        subst same
        simp only [stated, Except.ok.injEq, Option.some.injEq]
        constructor
        · rintro rfl
          exact ⟨rfl, bounded, fun _ other => other.symm⟩
        · exact fun sized => sized.1.symm
      next different =>
        constructor
        · exact fun accepted => absurd accepted fail_ne_ok
        · rintro ⟨rfl, -, agrees⟩
          exact absurd (agrees declared stated) different
  · rw [if_neg bounded]
    constructor
    · exact fun accepted => absurd accepted fail_attribute_ne_ok
    · rintro ⟨rfl, bound, -⟩
      exact absurd bound bounded

end Site

theorem claim_name_eq_ok {names : List String} {path : Path} {answer : Unit} :
    claimName names path = .ok answer ↔ path.leaf ∉ names := by
  unfold claimName
  by_cases taken : path.leaf ∈ names
  · simp [taken]
  · simp [taken]

def Claimable (taken names : List String) : Prop :=
  names.Nodup ∧ ∀ name ∈ names, name ∉ taken

section Claimable

variable {name : String} {taken names : List String}

theorem claimable_nil (taken : List String) : Claimable taken [] :=
  ⟨List.nodup_nil, nofun⟩

theorem claimable_untaken : Claimable [] names ↔ names.Nodup := by
  simp [Claimable]

theorem claimable_cons :
    Claimable taken (name :: names) ↔ name ∉ taken ∧ Claimable (name :: taken) names := by
  constructor
  · intro claims
    obtain ⟨fresh, distinct⟩ := List.nodup_cons.1 claims.1
    obtain ⟨free, apart⟩ := List.forall_mem_cons.1 claims.2
    refine ⟨free, distinct, ?_⟩
    intro other member old
    rcases List.mem_cons.1 old with same | before
    · exact fresh (same ▸ member)
    · exact apart other member before
  · intro claims
    obtain ⟨free, distinct, apart⟩ := claims
    refine ⟨List.nodup_cons.2 ⟨?_, distinct⟩, List.forall_mem_cons.2 ⟨free, ?_⟩⟩
    · intro again
      exact apart name again List.mem_cons_self
    · intro other member old
      exact apart other member (List.mem_cons_of_mem name old)

theorem claimable_append {later : List String} :
    Claimable taken (names ++ later) ↔
      Claimable taken names ∧ Claimable (taken ++ names) later := by
  constructor
  · intro claims
    obtain ⟨distinct, laterDistinct, different⟩ := List.nodup_append.1 claims.1
    obtain ⟨free, laterFree⟩ := List.forall_mem_append.1 claims.2
    refine ⟨⟨distinct, free⟩, laterDistinct, ?_⟩
    intro name member old
    rcases List.mem_append.1 old with before | claimed
    · exact laterFree name member before
    · exact different name claimed name member rfl
  · intro claims
    obtain ⟨⟨distinct, free⟩, laterDistinct, apart⟩ := claims
    refine ⟨List.nodup_append.2 ⟨distinct, laterDistinct, ?_⟩,
      List.forall_mem_append.2 ⟨free, ?_⟩⟩
    · intro claimed member other again same
      exact apart other again (List.mem_append_right taken (same ▸ member))
    · intro other member old
      exact apart other member (List.mem_append_left names old)

theorem claimable_cons_behind :
    Claimable taken (name :: names) ↔ name ∉ taken ∧ Claimable (taken ++ [name]) names := by
  have single : Claimable taken [name] ↔ name ∉ taken := by
    rw [claimable_cons]
    exact and_iff_left (claimable_nil _)
  rw [← single, ← claimable_append, List.singleton_append]

end Claimable

end AddressMap
