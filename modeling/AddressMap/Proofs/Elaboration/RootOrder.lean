import AddressMap.Proofs.Elaboration.Soundness
import Mathlib.Data.List.Perm.Basic

/-!
# The order of roots

Each component is built from its own declaration alone, and a memory map asks the catalog only for
components by their names. So the roots of a design may be declared in any order.
-/

namespace AddressMap

set_option autoImplicit false

section Named

variable {α : Type} {key : α → String} {list other : List α} {name : String}

theorem find?_eq_some_of_distinct (distinct : (list.map key).Nodup) {entry : α} :
    list.find? (key · == name) = some entry ↔ entry ∈ list ∧ key entry = name := by
  constructor
  · intro found
    have named := List.find?_some found
    exact ⟨List.mem_of_find?_eq_some found, beq_iff_eq.1 named⟩
  · intro both
    obtain ⟨member, named⟩ := both
    cases found : list.find? (key · == name) with
    | none =>
        have unnamed := List.find?_eq_none.1 found entry member
        exact absurd (beq_iff_eq.2 named) unnamed
    | some first =>
        have namedFirst := List.find?_some found
        have same : key first = key entry := (beq_iff_eq.1 namedFirst).trans named.symm
        rw [List.inj_on_of_nodup_map distinct (List.mem_of_find?_eq_some found) member same]

theorem find?_of_perm (perm : list.Perm other) (distinct : (list.map key).Nodup) :
    list.find? (key · == name) = other.find? (key · == name) := by
  have distinctOther : (other.map key).Nodup := ((perm.map key).nodup_iff).1 distinct
  apply Option.ext
  intro entry
  rw [find?_eq_some_of_distinct distinct, find?_eq_some_of_distinct distinctOther, perm.mem_iff]

theorem zip_eq_filter_map {β ε : Type} {build : α → Except ε β} {results : List β}
    (built : List.Forall₂ (fun entry result => build entry = .ok result) list results) :
    list.zip results = list.filterMap fun entry => (build entry).toOption.map (Prod.mk entry) := by
  induction built with
  | nil => rfl
  | @cons entry result _ _ made _ ih =>
      rw [List.zip_cons_cons, ih, List.filterMap_cons, made]
      rfl

end Named

theorem Catalog.get?_of_perm {catalog other : Catalog}
    (perm : catalog.components.Perm other.components)
    (distinct : (catalog.components.map (·.header.name)).Nodup) (name : String) :
    catalog.get? name = other.get? name :=
  find?_of_perm perm distinct

/-- A memory map is built alike from catalogs that answer alike. -/
theorem MemoryMap.of_decl_congr {catalog other : Catalog}
    (same : ∀ name, catalog.get? name = other.get? name) :
    MemoryMap.ofDecl catalog = MemoryMap.ofDecl other := by
  have required : catalog.require = other.require := by
    funext path name
    simp only [Catalog.require, same]
  have families : Instance.family catalog = Instance.family other := by
    unfold Instance.family Instance.ofDecl
    rw [required]
  funext defaults decl
  unfold MemoryMap.ofDecl
  rw [families]

namespace Design

variable {defaults : MapDefaults} {decls others : List Decl} {first second : Design}

/-- The designs answer alike for every name, and hold the same components and memory maps, each in
the order of their declarations. -/
structure Alike (decls others : List Decl) (first second : Design) : Prop where
  component? : ∀ name, first.component? name = second.component? name
  memoryMap? : ∀ name, first.memoryMap? name = second.memoryMap? name
  components : first.components.Perm second.components
  memoryMaps : first.memoryMaps.Perm second.memoryMaps
  componentsAsDeclared : ((decls.filter (·.kind = .component)).zip first.components).Perm
    ((others.filter (·.kind = .component)).zip second.components)
  memoryMapsAsDeclared : ((decls.filter (·.kind = .memoryMap)).zip first.memoryMaps).Perm
    ((others.filter (·.kind = .memoryMap)).zip second.memoryMaps)

theorem distinct_names (built : Design.ofDecls defaults decls = .ok first) :
    (first.components.map (·.header.name)).Nodup ∧
      (first.memoryMaps.map (·.header.name)).Nodup := by
  have well := well_formed_of_built built
  have distinct := well.distinct
  rw [root_names_eq] at distinct
  obtain ⟨components, maps, -⟩ := List.nodup_append.1 distinct
  constructor
  · rwa [List.map_congr_left fun component member => ?_] at components
    rw [(well.components component member).path, Path.leaf_root]
  · rwa [List.map_congr_left fun map member => ?_] at maps
    rw [(well.memoryMaps map member).path, Path.leaf_root]

theorem exists_alike_of_perm (perm : decls.Perm others)
    (built : Design.ofDecls defaults decls = .ok first) :
    ∃ second, Design.ofDecls defaults others = .ok second ∧ Alike decls others first second := by
  have rule := of_decls_eq_ok.1 built
  obtain ⟨distinctComponents, distinctMaps⟩ := distinct_names built
  obtain ⟨components, eachComponent, permComponents⟩ :=
    List.perm_comp_forall₂ (perm.filter (·.kind = .component)).symm rule.components
  obtain ⟨maps, eachMap, permMaps⟩ :=
    List.perm_comp_forall₂ (perm.filter (·.kind = .memoryMap)).symm rule.memoryMaps
  have catalogs (name : String) :
      Catalog.get? ⟨first.components⟩ name = Catalog.get? ⟨components⟩ name :=
    Catalog.get?_of_perm permComponents.symm distinctComponents name
  have eachMapOther := eachMap
  rw [MemoryMap.of_decl_congr catalogs] at eachMapOther
  let second : Design := ⟨components, maps, ⟨components⟩⟩
  have ruleOther : second.Rule defaults others := by
    refine ⟨fun decl member => rule.roots decl (perm.mem_iff.2 member), eachComponent,
      eachMapOther, ?_, rfl⟩
    have names : first.rootNames.Perm second.rootNames := by
      rw [root_names_eq, root_names_eq]
      exact (permComponents.symm.map _).append (permMaps.symm.map _)
    exact names.nodup_iff.1 rule.distinct
  refine ⟨second, of_decls_eq_ok.2 ruleOther, ?_⟩
  constructor
  · intro name
    rw [component?, rule.catalog]
    exact catalogs name
  · intro name
    exact find?_of_perm permMaps.symm distinctMaps
  · exact permComponents.symm
  · exact permMaps.symm
  · rw [zip_eq_filter_map rule.components, zip_eq_filter_map eachComponent]
    exact (perm.filter _).filterMap _
  · rw [zip_eq_filter_map rule.memoryMaps, zip_eq_filter_map eachMap]
    exact (perm.filter _).filterMap _

/-- The order in which the roots are declared neither decides whether there is a design of them nor
what it answers for a name, and only orders what it holds. -/
theorem built_alike_in_any_order (perm : decls.Perm others) :
    ((∃ design, Design.ofDecls defaults decls = .ok design) ↔
        ∃ design, Design.ofDecls defaults others = .ok design) ∧
      ∀ first second, Design.ofDecls defaults decls = .ok first →
        Design.ofDecls defaults others = .ok second → Alike decls others first second := by
  refine ⟨⟨?_, ?_⟩, ?_⟩
  · intro built
    obtain ⟨design, built⟩ := built
    obtain ⟨other, builtOther, -⟩ := exists_alike_of_perm perm built
    exact ⟨other, builtOther⟩
  · intro built
    obtain ⟨design, built⟩ := built
    obtain ⟨other, builtOther, -⟩ := exists_alike_of_perm perm.symm built
    exact ⟨other, builtOther⟩
  · intro first second built builtOther
    obtain ⟨other, again, alike⟩ := exists_alike_of_perm perm built
    cases builtOther.symm.trans again
    exact alike

theorem sample_built_alike_in_reverse :
    ∃ first second, Design.ofDecls {} sampleDecls = .ok first ∧
      Design.ofDecls {} sampleDecls.reverse = .ok second ∧
      first.roots.map Element.name = ["timer", "bus"] ∧
      second.roots.map Element.name = ["timer", "bus"] ∧
      Alike sampleDecls sampleDecls.reverse first second := by
  have perm : sampleDecls.Perm sampleDecls.reverse := (List.reverse_perm _).symm
  obtain ⟨either, alike⟩ := built_alike_in_any_order perm
  have names : (Design.ofDecls {} sampleDecls).map (·.roots.map Element.name) =
      .ok ["timer", "bus"] := by decide +kernel
  have namesOther : (Design.ofDecls {} sampleDecls.reverse).map (·.roots.map Element.name) =
      .ok ["timer", "bus"] := by decide +kernel
  obtain ⟨first, built, roots⟩ := exists_of_map_eq_ok names
  obtain ⟨second, builtOther⟩ := either.1 ⟨first, built⟩
  rw [builtOther] at namesOther
  exact ⟨first, second, built, builtOther, roots, Except.ok.inj namesOther,
    alike first second built builtOther⟩

end Design

end AddressMap
