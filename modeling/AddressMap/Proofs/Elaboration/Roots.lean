import AddressMap.Elaboration.Design
import AddressMap.Proofs.Elaboration.Rules
import Mathlib.Data.List.Nodup

/-!
# The rule of designs

A list of declarations becomes a design exactly when all are roots, each component and each memory
map is built by its rule, the maps from the catalog of all components, and no two roots share a
name. The components and the maps are in the order of their declarations.
-/

namespace AddressMap

set_option autoImplicit false

namespace Component

theorem leaf_of_built {decl : Decl} {component : Component}
    (built : Component.ofDecl decl = .ok component) :
    component.header.path.leaf = component.header.name := by
  have titled := (of_decl_eq_ok.1 built).titled
  rw [Site.path_of_header titled.header, Path.leaf_root]
  exact Site.label_of_titled titled

end Component

namespace Catalog

theorem add_eq_ok {catalog next : Catalog} {component : Component} :
    catalog.add component = .ok next ↔
      component.header.name ∉ catalog.components.map (·.header.name) ∧
        next = ⟨catalog.components ++ [component]⟩ := by
  unfold add
  split
  next other found =>
    have member := List.mem_of_find?_eq_some found
    have same := List.find?_some found
    rw [beq_iff_eq] at same
    constructor
    · exact fun accepted => by contradiction
    · rintro ⟨free, -⟩
      exact absurd (List.mem_map.2 ⟨other, member, same⟩) free
  next absent =>
    have free : component.header.name ∉ catalog.components.map (·.header.name) := by
      intro taken
      obtain ⟨other, member, same⟩ := List.mem_map.1 taken
      have differs := List.find?_eq_none.1 absent other member
      exact absurd (beq_iff_eq.2 same) differs
    simp only [Except.ok.injEq, free, not_false_eq_true, true_and, eq_comm]

end Catalog

namespace Design

variable {design next : Design} {decl : Decl} {decls : List Decl} {defaults : MapDefaults}

theorem root_names_eq (design : Design) :
    design.rootNames = design.components.map (·.header.path.leaf) ++
      design.memoryMaps.map (·.header.path.leaf) := by
  simp only [rootNames, roots, List.map_append, List.map_map]
  rfl

theorem add_all_cons_eq_ok {add : Design → Decl → Build Design} {index : Nat} :
    addAll add design index (decl :: decls) = .ok next ↔
      ∃ first, add design decl = .ok first ∧ addAll add first (index + 1) decls = .ok next := by
  simp only [addAll, bind_eq_ok, map_error_eq_ok]

def ofComponents (components : List Component) : Design :=
  ⟨components, [], ⟨components⟩⟩

def Named (components : List Component) : Prop :=
  ∀ component ∈ components, component.header.path.leaf = component.header.name

theorem named_append {components : List Component} {component : Component}
    (named : Named components) (built : Component.ofDecl decl = .ok component) :
    Named (components ++ [component]) := by
  intro other member
  rcases List.mem_append.1 member with before | new
  · exact named other before
  · rw [List.mem_singleton.1 new]
    exact Component.leaf_of_built built

theorem file_component_eq_ok {components : List Component} {component : Component}
    {catalog : Catalog} (named : Named (components ++ [component])) :
    Catalog.add ⟨components⟩ component = .ok catalog ↔
      component.header.path.leaf ∉ components.map (·.header.path.leaf) ∧
        catalog = ⟨components ++ [component]⟩ := by
  obtain ⟨before, new⟩ := List.forall_mem_append.1 named
  rw [Catalog.add_eq_ok, List.map_congr_left before, new component (List.mem_singleton_self _)]

theorem add_component_eq_ok {components : List Component} (named : Named components) :
    (ofComponents components).addComponent decl = .ok next ↔
      (decl.kind = .memoryMap ∧ next = ofComponents components) ∨
        (decl.kind = .component ∧ ∃ component, Component.ofDecl decl = .ok component ∧
          component.header.path.leaf ∉ components.map (·.header.path.leaf) ∧
          next = ofComponents (components ++ [component])) := by
  have names : (ofComponents components).rootNames = components.map (·.header.path.leaf) := by
    rw [root_names_eq]
    exact List.append_nil _
  unfold addComponent
  split
  next kind =>
    simp only [bind_eq_ok, claim_name_eq_ok, kind, names]
    constructor
    · rintro ⟨component, built, -, free, catalog, filed, given⟩
      obtain ⟨-, rfl⟩ := (file_component_eq_ok (named_append named built)).1 filed
      exact .inr ⟨trivial, component, built, free, (Except.ok.inj given).symm⟩
    · rintro (⟨other, -⟩ | ⟨-, component, built, free, rfl⟩)
      · contradiction
      · have filed := (file_component_eq_ok (named_append named built)).2 ⟨free, rfl⟩
        exact ⟨component, built, (), free, _, filed, rfl⟩
  next kind => simp [kind, eq_comm]
  next notComponent notMap =>
    constructor
    · exact fun accepted => by contradiction
    · rintro (⟨map, -⟩ | ⟨component, -⟩)
      · exact absurd map notMap
      · exact absurd component notComponent

theorem add_memory_map_eq_ok :
    addMemoryMap defaults design decl = .ok next ↔
      (decl.kind ≠ .memoryMap ∧ next = design) ∨
        (decl.kind = .memoryMap ∧
          ∃ map, MemoryMap.ofDecl design.catalog defaults decl = .ok map ∧
            map.header.path.leaf ∉ design.rootNames ∧
            next = { design with memoryMaps := design.memoryMaps ++ [map] }) := by
  unfold addMemoryMap
  split
  next kind =>
    simp only [bind_eq_ok, claim_name_eq_ok, kind]
    constructor
    · rintro ⟨map, built, ⟨⟩, free, given⟩
      exact .inr ⟨trivial, map, built, free, (Except.ok.inj given).symm⟩
    · rintro (⟨other, -⟩ | ⟨-, map, built, free, rfl⟩)
      · contradiction
      · exact ⟨map, built, (), free, rfl⟩
  next notMap =>
    constructor
    · intro given
      exact .inl ⟨notMap, (Except.ok.inj given).symm⟩
    · rintro (⟨-, rfl⟩ | ⟨map, -⟩)
      · rfl
      · exact absurd map notMap

theorem add_components_eq_ok {components : List Component} {index : Nat}
    (named : Named components) :
    addAll addComponent (ofComponents components) index decls = .ok next ↔
      (∀ decl ∈ decls, decl.kind.isRoot) ∧
        ∃ added, List.Forall₂ (fun decl component => Component.ofDecl decl = .ok component)
            (decls.filter (·.kind = .component)) added ∧
          Claimable (components.map (·.header.path.leaf)) (added.map (·.header.path.leaf)) ∧
          next = ofComponents (components ++ added) := by
  induction decls generalizing components index with
  | nil =>
      constructor
      · intro given
        cases given
        exact ⟨nofun, [], .nil, claimable_nil _, by rw [List.append_nil]⟩
      · rintro ⟨-, added, built, -, rfl⟩
        cases built
        rw [List.append_nil]
        rfl
  | cons decl rest ih =>
      rw [add_all_cons_eq_ok]
      constructor
      · rintro ⟨first, adding, later⟩
        rcases (add_component_eq_ok named).1 adding with ⟨kind, rfl⟩ |
          ⟨kind, component, built, free, rfl⟩
        · obtain ⟨roots, added, others, claims, given⟩ := (ih named).1 later
          refine ⟨List.forall_mem_cons.2 ⟨by rw [kind]; rfl, roots⟩, added, ?_, claims, given⟩
          rwa [List.filter_cons_of_neg (by simp [kind])]
        · obtain ⟨roots, added, others, claims, rfl⟩ := (ih (named_append named built)).1 later
          rw [List.map_append] at claims
          refine ⟨List.forall_mem_cons.2 ⟨by rw [kind]; rfl, roots⟩, component :: added, ?_,
            claimable_cons_behind.2 ⟨free, claims⟩, by simp⟩
          rw [List.filter_cons_of_pos (by simp [kind])]
          exact .cons built others
      · rintro ⟨roots, added, built, claims, rfl⟩
        obtain ⟨root, rootsBehind⟩ := List.forall_mem_cons.1 roots
        by_cases kind : decl.kind = .component
        · rw [List.filter_cons_of_pos (by simp [kind])] at built
          cases built with
          | @cons _ component _ others first later =>
              obtain ⟨free, laterClaims⟩ := claimable_cons_behind.1 claims
              have step := (add_component_eq_ok named).2
                (.inr ⟨kind, component, first, free, rfl⟩)
              refine ⟨_, step, (ih (named_append named first)).2 ⟨rootsBehind, others, later, ?_,
                by simp⟩⟩
              rw [List.map_append]
              exact laterClaims
        · have map : decl.kind = .memoryMap := by
            cases other : decl.kind <;> simp_all [Kind.isRoot]
          rw [List.filter_cons_of_neg (by simp [kind])] at built
          exact ⟨_, (add_component_eq_ok named).2 (.inl ⟨map, rfl⟩),
            (ih named).2 ⟨rootsBehind, added, built, claims, rfl⟩⟩

theorem root_names_behind (design : Design) (map : MemoryMap) :
    { design with memoryMaps := design.memoryMaps ++ [map] : Design }.rootNames =
      design.rootNames ++ [map.header.path.leaf] := by
  rw [root_names_eq, root_names_eq, List.map_append, List.append_assoc]
  rfl

theorem add_memory_maps_eq_ok {index : Nat} :
    addAll (addMemoryMap defaults) design index decls = .ok next ↔
      ∃ added, List.Forall₂
          (fun decl map => MemoryMap.ofDecl design.catalog defaults decl = .ok map)
          (decls.filter (·.kind = .memoryMap)) added ∧
        Claimable design.rootNames (added.map (·.header.path.leaf)) ∧
        next = { design with memoryMaps := design.memoryMaps ++ added } := by
  induction decls generalizing design index with
  | nil =>
      constructor
      · intro given
        cases given
        exact ⟨[], .nil, claimable_nil _, by rw [List.append_nil]⟩
      · rintro ⟨added, built, -, rfl⟩
        cases built
        rw [List.append_nil]
        rfl
  | cons decl rest ih =>
      rw [add_all_cons_eq_ok]
      constructor
      · rintro ⟨first, adding, later⟩
        rcases add_memory_map_eq_ok.1 adding with ⟨kind, rfl⟩ | ⟨kind, map, built, free, rfl⟩
        · obtain ⟨added, others, claims, given⟩ := ih.1 later
          refine ⟨added, ?_, claims, given⟩
          rwa [List.filter_cons_of_neg (by simp [kind])]
        · obtain ⟨added, others, claims, rfl⟩ := ih.1 later
          rw [root_names_behind] at claims
          refine ⟨map :: added, ?_, claimable_cons_behind.2 ⟨free, claims⟩, by simp⟩
          rw [List.filter_cons_of_pos (by simp [kind])]
          exact .cons built others
      · rintro ⟨added, built, claims, rfl⟩
        by_cases kind : decl.kind = .memoryMap
        · rw [List.filter_cons_of_pos (by simp [kind])] at built
          cases built with
          | @cons _ map _ others first later =>
              obtain ⟨free, laterClaims⟩ := claimable_cons_behind.1 claims
              have step := add_memory_map_eq_ok.2
                (.inr ⟨kind, map, first, free, rfl⟩)
              refine ⟨_, step, ih.2 ⟨others, later, ?_, by simp⟩⟩
              rw [root_names_behind]
              exact laterClaims
        · rw [List.filter_cons_of_neg (by simp [kind])] at built
          exact ⟨_, add_memory_map_eq_ok.2 (.inl ⟨kind, rfl⟩),
            ih.2 ⟨added, built, claims, rfl⟩⟩

structure Rule (defaults : MapDefaults) (decls : List Decl) (design : Design) : Prop where
  roots : ∀ decl ∈ decls, decl.kind.isRoot
  components : List.Forall₂ (fun decl component => Component.ofDecl decl = .ok component)
    (decls.filter (·.kind = .component)) design.components
  memoryMaps : List.Forall₂
    (fun decl map => MemoryMap.ofDecl ⟨design.components⟩ defaults decl = .ok map)
    (decls.filter (·.kind = .memoryMap)) design.memoryMaps
  distinct : design.rootNames.Nodup
  catalog : design.catalog = ⟨design.components⟩

theorem of_decls_eq_ok :
    Design.ofDecls defaults decls = .ok design ↔ design.Rule defaults decls := by
  have fresh : Named [] := nofun
  have names (components : List Component) (maps : List MemoryMap) :
      (rootNames ⟨components, maps, ⟨components⟩⟩).Nodup ↔
        Claimable [] (components.map (·.header.path.leaf)) ∧
          Claimable (ofComponents components).rootNames (maps.map (·.header.path.leaf)) := by
    rw [← claimable_untaken, root_names_eq, root_names_eq, claimable_append]
    simp [ofComponents]
  show (addAll addComponent (ofComponents []) 0 decls >>= _) = _ ↔ _
  simp only [bind_eq_ok, add_memory_maps_eq_ok, add_components_eq_ok fresh]
  constructor
  · rintro ⟨-, ⟨roots, components, filed, different, rfl⟩, maps, built, claims, rfl⟩
    exact ⟨roots, filed, built, (names components maps).2 ⟨different, claims⟩, rfl⟩
  · obtain ⟨components, maps, catalog⟩ := design
    rintro ⟨roots, filed, built, distinct, same⟩
    dsimp only at same
    subst same
    obtain ⟨different, claims⟩ := (names components maps).1 distinct
    exact ⟨ofComponents components, ⟨roots, components, filed, different, rfl⟩, maps, built,
      claims, rfl⟩

/-- A component with an array of registers and a map with an array of instances of it. The second
register leaves a gap below it in each frame. -/
def sampleDecls : List Decl :=
  [{ kind := .memoryMap
     attrs := .ofList [("name", "bus"), ("readOnly", "yes")]
     children :=
      [{ kind := .instanceArray
         attrs := .ofList [("count", "2"), ("offset", "0x100")]
         children := [{ kind := .componentInstance, attrs := .ofList [("name", "timer")] }] }] },
    { kind := .component
      attrs := .ofList [("name", "timer"), ("width", "32")]
      description := ["Counts down."]
      children :=
       [{ kind := .register
          attrs := .ofList [("name", "control")]
          children :=
           [{ kind := .field
              attrs := .ofList [("name", "mode"), ("size", "2")]
              children :=
               [{ kind := .enumValue, attrs := .ofList [("name", "once")] },
                { kind := .enumValue, attrs := .ofList [("name", "periodic")] }] },
            { kind := .fieldArray
              attrs := .ofList [("name", "enable"), ("count", "3"), ("offset", "4")]
              children := [{ kind := .field, attrs := .ofList [("name", "lane")] }] }] },
        { kind := .registerArray
          attrs := .ofList [("count", "2"), ("framesize", "2")]
          children :=
           [{ kind := .register
              attrs := .ofList [("name", "reload"), ("offset", "1"), ("reset", "0xff")] }] }] }]

end Design

end AddressMap
