import AddressMap.Proofs.Elaboration.Revising
import AddressMap.Proofs.Elaboration.RootOrder

/-!
# Maps around exchanged components

A memory map asks of a component its name and how many bytes it has, and looks at nothing inside. So
components can be exchanged for others of the same names and lengths: every map keeps its layout.
-/

namespace AddressMap

set_option autoImplicit false

/-- What is left of a component when only its name and its number of bytes are known. One that is too
large to be bound stays so. -/
def Component.shell (component : Component) : Component where
  header := ⟨component.header.name, Path.root component.header.name, [], .readWrite, .bits⟩
  width := 8
  size := component.byteSize?.getD (maxAddress + 1)
  layout := {}

namespace Component

variable {component other : Component}

theorem byte_size?_shell (component : Component) :
    component.shell.byteSize? = component.byteSize? := by
  have bytes : component.shell.wordBytes = 1 := Nat.div_self (Nat.succ_pos 7)
  have words : component.shell.size = component.byteSize?.getD (maxAddress + 1) := rfl
  rw [byteSize?, bytes, words, boundedProduct?, Nat.mul_one]
  cases sized : component.byteSize? with
  | none => exact if_neg (Nat.not_succ_le_self maxAddress)
  | some size =>
      have bounded : size ≤ maxAddress := by
        simp only [byteSize?, boundedProduct?, Option.ite_none_right_eq_some] at sized
        exact Option.some.inj sized.2 ▸ sized.1
      exact if_pos bounded

theorem shell_eq (name : component.header.name = other.header.name)
    (size : component.byteSize? = other.byteSize?) : component.shell = other.shell := by
  unfold shell
  rw [name, size]

end Component

theorem Catalog.name_of_get? {catalog : Catalog} {name : String} {component : Component}
    (found : catalog.get? name = some component) : component.header.name = name := by
  have same := List.find?_some found
  exact beq_iff_eq.1 same

def Revision.none : Revision where
  decl := id
  context := id
  header := id
  kind _ := rfl
  children _ := (List.map_id _).symm
  get? _ _ _ := rfl
  keys _ entry member := ⟨entry, member, rfl⟩
  outermost := rfl
  name _ := rfl
  path _ := rfl
  handed _ := rfl
  headed _ _ _ _ headed := headed

def MemoryMap.shelled (map : MemoryMap) : MemoryMap :=
  Revision.none.onMap Component.shell map

namespace MemoryMap

/-- Nothing but the shells of its components matters to a map. -/
theorem shelled_of_decl {components : List Component} {defaults : MapDefaults} {decl : Decl}
    {map : MemoryMap} (built : MemoryMap.ofDecl ⟨components⟩ defaults decl = .ok map) :
    MemoryMap.ofDecl ⟨components.map Component.shell⟩ defaults decl = .ok map.shelled := by
  have exchanges : Revision.Exchanges Component.shell ⟨components⟩
      ⟨components.map Component.shell⟩ := by
    apply Revision.exchanges_of_map _ Component.byte_size?_shell components
    exact fun component => rfl
  exact Revision.none.map_of_decl exchanges built

end MemoryMap

namespace Design

variable {defaults : MapDefaults} {decls others : List Decl} {first second : Design}
  {name : String}

/-- A component with this name is declared. -/
def Declares (decls : List Decl) (name : String) : Prop :=
  ∃ decl ∈ decls, decl.kind = .component ∧ decl.name? = some name

theorem declares_iff :
    Declares decls name ↔ some name ∈ (decls.filter (·.kind = .component)).map Decl.name? := by
  simp only [Declares, List.mem_map, List.mem_filter, decide_eq_true_eq, and_assoc]

theorem exists_component_iff (built : Design.ofDecls defaults decls = .ok first) :
    (∃ component, first.component? name = some component) ↔ Declares decls name := by
  have rule := of_decls_eq_ok.1 built
  have named {decl : Decl} {component : Component}
      (made : Component.ofDecl decl = .ok component) : decl.name? = some component.header.name :=
    (Component.of_decl_eq_ok.1 made).titled.name
  rw [component?, rule.catalog]
  constructor
  · intro found
    obtain ⟨component, found⟩ := found
    have same := Catalog.name_of_get? found
    obtain ⟨decl, declared, made⟩ :=
      exists_related_of_mem rule.components (List.mem_of_find?_eq_some found)
    obtain ⟨member, kind⟩ := List.mem_filter.1 declared
    exact ⟨decl, member, of_decide_eq_true kind, same ▸ named made⟩
  · intro declares
    obtain ⟨decl, member, kind, stated⟩ := declares
    have declared : decl ∈ decls.filter (·.kind = .component) := by
      rw [List.mem_filter, decide_eq_true_eq]
      exact ⟨member, kind⟩
    obtain ⟨component, known, made⟩ := exists_related_of_mem rule.components.flip declared
    have same := Option.some.inj ((named made).symm.trans stated)
    have found : (Catalog.get? ⟨first.components⟩ name).isSome = true :=
      List.find?_isSome.2 ⟨component, known, beq_iff_eq.2 same⟩
    exact Option.isSome_iff_exists.1 found

theorem shells_eq (built : Design.ofDecls defaults decls = .ok first)
    (builtOther : Design.ofDecls defaults others = .ok second)
    (names : ∀ name, Declares decls name ↔ Declares others name)
    (sizes : ∀ name component other, first.component? name = some component →
      second.component? name = some other → component.byteSize? = other.byteSize?) (name : String) :
    Catalog.get? ⟨first.components.map Component.shell⟩ name =
      Catalog.get? ⟨second.components.map Component.shell⟩ name := by
  have shells {design : Design} {decls : List Decl}
      (built : Design.ofDecls defaults decls = .ok design) :
      Catalog.get? ⟨design.components.map Component.shell⟩ name =
        (design.component? name).map Component.shell := by
    rw [component?, (of_decls_eq_ok.1 built).catalog, Catalog.get?, Catalog.get?, List.find?_map]
    rfl
  have either : (∃ component, first.component? name = some component) ↔
      ∃ component, second.component? name = some component :=
    (exists_component_iff built).trans ((names name).trans (exists_component_iff builtOther).symm)
  rw [shells built, shells builtOther]
  cases found : first.component? name with
  | none =>
      cases foundOther : second.component? name with
      | none => rfl
      | some other =>
          obtain ⟨component, known⟩ := either.2 ⟨other, foundOther⟩
          cases found.symm.trans known
  | some component =>
      obtain ⟨other, known⟩ := either.1 ⟨component, found⟩
      have named := Catalog.name_of_get? found
      have namedOther := Catalog.name_of_get? known
      rw [known]
      exact congrArg some (Component.shell_eq (named.trans namedOther.symm)
        (sizes name component other found known))

/-- Seen from outside, the maps are built from the shells of the components alone. -/
theorem maps_outside (built : Design.ofDecls defaults decls = .ok first) :
    List.Forall₂
      (fun decl map => MemoryMap.ofDecl ⟨first.components.map Component.shell⟩ defaults decl =
        .ok map) (decls.filter (·.kind = .memoryMap)) (first.memoryMaps.map MemoryMap.shelled) := by
  rw [List.forall₂_map_right_iff]
  exact (of_decls_eq_ok.1 built).memoryMaps.imp fun decl map made => MemoryMap.shelled_of_decl made

theorem memory_map?_shelled (design : Design) (name : String) :
    (design.memoryMap? name).map MemoryMap.shelled =
      (design.memoryMaps.map MemoryMap.shelled).find? (·.header.name == name) := by
  rw [List.find?_map]
  rfl

/-- From outside the maps of the two designs are the same, one by one and under each name, and in
the same order if they are declared in one. -/
structure SameOutside (decls others : List Decl) (first second : Design) : Prop where
  memoryMaps : (first.memoryMaps.map MemoryMap.shelled).Perm
    (second.memoryMaps.map MemoryMap.shelled)
  memoryMap? : ∀ name,
    (first.memoryMap? name).map MemoryMap.shelled = (second.memoryMap? name).map MemoryMap.shelled
  inOrder : decls.filter (·.kind = .memoryMap) = others.filter (·.kind = .memoryMap) →
    first.memoryMaps.map MemoryMap.shelled = second.memoryMaps.map MemoryMap.shelled

/-- Memory maps keep their layouts when components are exchanged for others of the same names and
lengths, whatever these are made of. -/
theorem maps_depend_on_lengths
    (maps : (decls.filter (·.kind = .memoryMap)).Perm (others.filter (·.kind = .memoryMap)))
    (names : ∀ name, Declares decls name ↔ Declares others name)
    (built : Design.ofDecls defaults decls = .ok first)
    (builtOther : Design.ofDecls defaults others = .ok second)
    (sizes : ∀ name component other, first.component? name = some component →
      second.component? name = some other → component.byteSize? = other.byteSize?) :
    SameOutside decls others first second := by
  obtain ⟨-, distinct⟩ := distinct_names built
  have outside := maps_outside built
  have outsideOther := maps_outside builtOther
  rw [← MemoryMap.of_decl_congr (shells_eq built builtOther names sizes)] at outsideOther
  have unique : Relator.RightUnique fun decl map =>
      MemoryMap.ofDecl ⟨first.components.map Component.shell⟩ defaults decl = .ok map := by
    intro decl one another made madeAgain
    exact Except.ok.inj (made.symm.trans madeAgain)
  have shelled : (first.memoryMaps.map MemoryMap.shelled).Perm
      (second.memoryMaps.map MemoryMap.shelled) := by
    obtain ⟨reordered, each, perm⟩ := List.perm_comp_forall₂ maps.symm outside
    rw [← unique.forall₂ each outsideOther]
    exact perm.symm
  constructor
  case memoryMaps => exact shelled
  case memoryMap? =>
    intro name
    have distinctShelled :
        ((first.memoryMaps.map MemoryMap.shelled).map (·.header.name)).Nodup := by
      rw [List.map_map]
      exact distinct
    rw [memory_map?_shelled, memory_map?_shelled]
    exact find?_of_perm shelled distinctShelled
  case inOrder =>
    intro same
    rw [← same] at outsideOther
    exact unique.forall₂ outside outsideOther

/-- The sample, with a timer of as many bytes that holds nothing. -/
def hollowDecls : List Decl :=
  [sampleDecls[0],
    { kind := .component
      attrs := .ofList [("name", "timer"), ("width", "8"), ("size", "32")] }]

def allOfLength (decls : List Decl) (size : Nat) : Bool :=
  match Design.ofDecls {} decls with
  | .ok design => design.components.all (·.byteSize? == some size)
  | .error _ => false

theorem byte_size_of_all {size : Nat} (all : allOfLength decls size = true)
    (built : Design.ofDecls {} decls = .ok first) {component : Component}
    (found : first.component? name = some component) : component.byteSize? = some size := by
  rw [component?, (of_decls_eq_ok.1 built).catalog] at found
  rw [allOfLength, built] at all
  exact beq_iff_eq.1 (List.all_eq_true.1 all component (List.mem_of_find?_eq_some found))

theorem map_of_sample_kept_around_hollow :
    ∃ first second, Design.ofDecls {} sampleDecls = .ok first ∧
      Design.ofDecls {} hollowDecls = .ok second ∧
      SameOutside sampleDecls hollowDecls first second := by
  obtain ⟨first, built⟩ :=
    @exists_eq_ok_of_is_ok _ _ (Design.ofDecls {} sampleDecls) (by decide +kernel)
  obtain ⟨second, builtOther⟩ :=
    @exists_eq_ok_of_is_ok _ _ (Design.ofDecls {} hollowDecls) (by decide +kernel)
  have sampleNames : (sampleDecls.filter (·.kind = .component)).map Decl.name? =
      [some "timer"] := by decide +kernel
  have hollowNames : (hollowDecls.filter (·.kind = .component)).map Decl.name? =
      [some "timer"] := by decide +kernel
  have sampleLengths : allOfLength sampleDecls 32 = true := by decide +kernel
  have hollowLengths : allOfLength hollowDecls 32 = true := by decide +kernel
  refine ⟨first, second, built, builtOther,
    maps_depend_on_lengths (.refl _) ?names built builtOther ?sizes⟩
  case names =>
    intro name
    rw [declares_iff, declares_iff, sampleNames, hollowNames]
  case sizes =>
    intro name component other found foundOther
    have length := byte_size_of_all sampleLengths built found
    exact length.trans (byte_size_of_all hollowLengths builtOther foundOther).symm

end Design

end AddressMap
