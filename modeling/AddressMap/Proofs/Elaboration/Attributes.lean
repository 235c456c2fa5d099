import AddressMap.Proofs.Decl.Attrs
import AddressMap.Proofs.Decl.Validity
import AddressMap.Proofs.Elaboration.Rules

/-!
# Readable attributes

A reader of attributes answers what the declaration gives, unless the text cannot be read. So the
readers that a builder calls all succeed exactly when the attributes are as they have to be.
-/

namespace AddressMap

set_option autoImplicit false

theorem AttrMap.mem_of_get? {attrs : AttrMap} {key text : String}
    (given : attrs.get? key = some text) : (key, text) ∈ attrs.entries := by
  obtain ⟨before, after, entries, -⟩ := List.lookup_eq_some_iff.1 given
  rw [entries]
  exact List.mem_append_right before List.mem_cons_self

namespace Decl

def Reads (decl : Decl) (attr : Attribute) : Prop :=
  ∀ text, decl.get? attr = some text → (attr.read? text).isSome

theorem reads_name (decl : Decl) : decl.Reads .name :=
  fun _ _ => rfl

/-- All entries are understood when all keys are known and all attributes of the kind can be
read. -/
theorem understood_iff {decl : Decl} :
    (∀ entry ∈ decl.attrs.entries, ∃ attr ∈ decl.kind.attributes,
        attr.key = entry.1 ∧ (attr.read? entry.2).isSome) ↔
      (∀ entry ∈ decl.attrs.entries, entry.1 ∈ decl.kind.attributes.map Attribute.key) ∧
        ∀ attr ∈ decl.kind.attributes, decl.Reads attr := by
  constructor
  · intro understood
    constructor
    · intro entry member
      obtain ⟨attr, known, key, -⟩ := understood entry member
      exact List.mem_map.2 ⟨attr, known, key⟩
    · intro attr known text given
      obtain ⟨other, -, key, readable⟩ := understood _ (AttrMap.mem_of_get? given)
      rw [Attribute.key_injective key] at readable
      exact readable
  · intro both entry member
    obtain ⟨keys, reads⟩ := both
    obtain ⟨attr, known, key⟩ := List.mem_map.1 (keys entry member)
    refine ⟨attr, known, key, reads attr known entry.2 ?_⟩
    rw [get?, key]
    exact AttrMap.get?_of_mem member

end Decl

namespace Site

variable {site : Site} {attr : Attribute}

theorem read_attribute?_iff {α : Type} {read? : String → Option α}
    {cause : String → AttributeFault} {value? : Option α} (toValue : α → AttributeValue)
    (reads : ∀ text, attr.read? text = (read? text).map toValue) :
    site.readAttribute? attr read? cause = .ok value? ↔
      site.decl.Reads attr ∧ value? = (site.decl.get? attr).bind read? := by
  rw [read_attribute?_eq_ok]
  unfold Decl.Reads
  cases given : site.decl.get? attr with
  | none => cases value? <;> simp
  | some text =>
      simp only [Option.some.injEq, forall_eq', reads, Option.isSome_map, Option.map_some,
        Option.bind_some]
      cases read? text <;> cases value? <;> simp [eq_comm]

theorem number?_iff (attr : Attribute) (numeric : attr.isNumber = true) {number? : Option Nat} :
    site.number? attr = .ok number? ↔
      site.decl.Reads attr ∧ number? = site.decl.number? attr :=
  read_attribute?_iff .number (Attribute.read?_of_number numeric)

theorem positive?_iff (attr : Attribute) (numeric : attr.isNumber = true) {number? : Option Nat} :
    site.positive? attr = .ok number? ↔
      site.decl.Reads attr ∧ number? = site.decl.number? attr ∧
        site.decl.number? attr ≠ some 0 := by
  rw [positive?_eq_ok, number?_iff attr numeric, and_assoc]
  apply and_congr_right
  intro _
  apply and_congr_right
  intro same
  rw [same]

theorem exists_header_iff {name : String} {above : Context} :
    (∃ header, site.header name above = .ok header) ↔
      site.decl.Reads .readOnly ∧ site.decl.Reads .writeOnly ∧ site.decl.Reads .format ∧
        ¬ (site.decl.truth? .readOnly = some true ∧ site.decl.truth? .writeOnly = some true) := by
  have readOnly {truth? : Option Bool} : site.truth? .readOnly = .ok truth? ↔
      site.decl.Reads .readOnly ∧ truth? = site.decl.truth? .readOnly :=
    read_attribute?_iff .truth fun _ => rfl
  have writeOnly {truth? : Option Bool} : site.truth? .writeOnly = .ok truth? ↔
      site.decl.Reads .writeOnly ∧ truth? = site.decl.truth? .writeOnly :=
    read_attribute?_iff .truth fun _ => rfl
  have format {format? : Option Format} : site.format? = .ok format? ↔
      site.decl.Reads .format ∧ format? = (site.decl.get? .format).bind Format.ofKeyword? :=
    read_attribute?_iff .format fun _ => rfl
  have inherits (parent : Access) (readOnly? writeOnly? : Option Bool) :
      (∃ access, parent.inherit? readOnly? writeOnly? = some access) ↔
        ¬ (readOnly? = some true ∧ writeOnly? = some true) := by
    rcases readOnly? with - | - | - <;> rcases writeOnly? with - | - | - <;>
      simp [Access.inherit?]
  rw [← inherits above.access]
  constructor
  · intro headed
    obtain ⟨header, headed⟩ := headed
    obtain ⟨_, _, _, reads, writes, formats, access, -⟩ := header_eq_ok.1 headed
    obtain ⟨readsFirst, rfl⟩ := readOnly.1 reads
    obtain ⟨readsSecond, rfl⟩ := writeOnly.1 writes
    exact ⟨readsFirst, readsSecond, (format.1 formats).1, header.access, access⟩
  · intro all
    obtain ⟨reads, writes, formats, access, inherited⟩ := all
    let given? := (site.decl.get? .format).bind Format.ofKeyword?
    let header : Header :=
      ⟨name, site.path, site.decl.description, access, given?.getD above.format⟩
    refine ⟨header, header_eq_ok.2 ⟨_, _, given?, readOnly.2 ⟨reads, rfl⟩,
      writeOnly.2 ⟨writes, rfl⟩, format.2 ⟨formats, rfl⟩, inherited, rfl, rfl, rfl, rfl⟩⟩

end Site

namespace Decl

variable {decl : Decl} {above : Context}

/-- The attributes are as they have to be when every reader of them succeeds and none that is
required is missing. -/
theorem attributed_iff (path : Path) (name : String) (above : Context) :
    decl.Attributed ↔
      Site.checkKeys ⟨decl, path⟩ = .ok () ∧
        (∃ header, Site.header ⟨decl, path⟩ name above = .ok header) ∧
        (∀ attr ∈ decl.kind.ownAttributes, decl.Reads attr) ∧
        ∀ attr ∈ decl.kind.required, (decl.get? attr).isSome := by
  have all : (∀ attr ∈ decl.kind.attributes, decl.Reads attr) ↔
      (decl.Reads .readOnly ∧ decl.Reads .writeOnly ∧ decl.Reads .format) ∧
        ∀ attr ∈ decl.kind.ownAttributes, decl.Reads attr := by
    simp [Kind.attributes, reads_name, and_assoc]
  rw [Site.check_keys_eq_ok, Site.exists_header_iff]
  constructor
  · intro attributed
    obtain ⟨keys, reads⟩ := understood_iff.1 attributed.understood
    obtain ⟨⟨readOnly, writeOnly, format⟩, own⟩ := all.1 reads
    exact ⟨keys, ⟨readOnly, writeOnly, format, attributed.unrestricted⟩, own, attributed.given⟩
  · intro read
    obtain ⟨keys, ⟨readOnly, writeOnly, format, unrestricted⟩, own, given⟩ := read
    refine ⟨understood_iff.2 ⟨keys, all.2 ⟨⟨readOnly, writeOnly, format⟩, own⟩⟩, given,
      unrestricted⟩

theorem attributed_iff_titled (path : Path) (above : Context) {others : List Attribute}
    (required : decl.kind.required = .name :: others) :
    decl.Attributed ↔
      (∃ header, Site.Titled ⟨decl, path⟩ above header) ∧
        (∀ attr ∈ decl.kind.ownAttributes, decl.Reads attr) ∧
        ∀ attr ∈ others, (decl.get? attr).isSome := by
  constructor
  · intro attributed
    have given := attributed.given
    rw [required] at given
    obtain ⟨named, given⟩ := List.forall_mem_cons.1 given
    obtain ⟨name, named⟩ := Option.isSome_iff_exists.1 named
    obtain ⟨keys, ⟨header, headed⟩, reads, -⟩ := (attributed_iff path name above).1 attributed
    exact ⟨⟨header, Site.titled_of_name keys (Site.name_eq_ok.2 named) headed⟩, reads, given⟩
  · intro read
    obtain ⟨⟨header, titled⟩, reads, given⟩ := read
    refine (attributed_iff path header.name above).2
      ⟨titled.keys, ⟨header, titled.header⟩, reads, ?_⟩
    rw [required]
    refine List.forall_mem_cons.2 ⟨?_, given⟩
    exact Option.isSome_iff_exists.2 ⟨_, titled.name⟩

end Decl

end AddressMap
