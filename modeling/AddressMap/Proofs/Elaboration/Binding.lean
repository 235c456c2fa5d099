import AddressMap.Proofs.Elaboration.Fidelity
import AddressMap.Proofs.Elaboration.Inheritance
import AddressMap.Proofs.Elaboration.RootOrder

/-!
# How instances are bound

While components are added, the catalog holds them under the names of the roots so far, so it has
never a reason of its own to refuse one. In a design that is built each name is that of one root,
and each instance is bound to the component that its declaration asks for, with as much room as the
component has bytes.
-/

namespace AddressMap

set_option autoImplicit false

namespace Catalog

theorem get?_eq_some {catalog : Catalog}
    (distinct : (catalog.components.map (·.header.name)).Nodup) {name : String}
    {component : Component} :
    catalog.get? name = some component ↔
      component ∈ catalog.components ∧ component.header.name = name :=
  find?_eq_some_of_distinct distinct

end Catalog

theorem Component.byte_size_le {component : Component} {size : Nat}
    (sized : component.byteSize? = some size) : size ≤ maxAddress := by
  simp only [byteSize?, boundedProduct?, Option.ite_none_right_eq_some, Option.some.injEq] at sized
  obtain ⟨bounded, rfl⟩ := sized
  exact bounded

namespace Design

variable {defaults : MapDefaults} {decls : List Decl} {design : Design}

theorem named_of_built {components : List Component}
    (built : List.Forall₂ (fun decl component => Component.ofDecl decl = .ok component) decls
      components) : Named components := by
  induction built with
  | nil => exact nofun
  | cons first _ ih => exact List.forall_mem_cons.2 ⟨Component.leaf_of_built first, ih⟩

theorem catalog_names_of_components_added {index : Nat}
    (added : addAll addComponent {} index decls = .ok design) :
    design.catalog.components.map (·.header.name) = design.rootNames := by
  have fresh : Named [] := nofun
  obtain ⟨-, components, built, -, rfl⟩ := (add_components_eq_ok fresh).1 added
  rw [root_names_eq]
  show components.map _ = components.map _ ++ []
  rw [List.append_nil, List.map_congr_left (named_of_built built)]

/-- A component whose name no root has is never refused by the catalog. -/
theorem exists_catalog_of_claimed {index : Nat}
    (added : addAll addComponent {} index decls = .ok design) {decl : Decl} {component : Component}
    (built : Component.ofDecl decl = .ok component)
    (claimed : claimName design.rootNames component.header.path = .ok ()) :
    ∃ catalog, design.catalog.add component = .ok catalog := by
  rw [claim_name_eq_ok, Component.leaf_of_built built,
    ← catalog_names_of_components_added added] at claimed
  exact ⟨_, Catalog.add_eq_ok.2 ⟨claimed, rfl⟩⟩

structure Seated (design : Design) (placed : Instance) : Prop where
  exists_seat : ∃ container ∈ design.elements, ∃ layout, container.layout? = some layout ∧
    ∃ seat ∈ layout.items, seat.item = .componentInstance placed
  size : ∀ container ∈ design.elements, ∀ layout, container.layout? = some layout →
    ∀ seat ∈ layout.items, seat.item = .componentInstance placed →
      seat.size = placed.component.size * placed.component.width / 8
  bounded : placed.component.size * placed.component.width / 8 ≤ maxAddress

/-- Names lead to the roots that have them, and instances are bound by name. -/
structure Bound (decls : List Decl) (design : Design) : Prop where
  distinct : (design.roots.map Element.name).Nodup
  component? : ∀ name component, design.component? name = some component ↔
    component ∈ design.components ∧ component.header.name = name
  memoryMap? : ∀ name map, design.memoryMap? name = some map ↔
    map ∈ design.memoryMaps ∧ map.header.name = name
  declared : ∀ placed, .componentInstance placed ∈ design.elements →
    ∃ around decl, StemsFrom decls design.roots around decl (.componentInstance placed)
  asked : ∀ around decl placed,
    StemsFrom decls design.roots around decl (.componentInstance placed) →
      placed.componentName = (decl.get? .componentName).getD placed.header.name
  bound : ∀ placed, .componentInstance placed ∈ design.elements →
    placed.component ∈ design.components ∧ placed.component.header.name = placed.componentName
  seated : ∀ placed, .componentInstance placed ∈ design.elements → design.Seated placed

theorem exists_seat_of_stems_from (built : Design.ofDecls defaults decls = .ok design)
    {around : List Decl} {decl : Decl} {placed : Instance}
    (stems : StemsFrom decls design.roots around decl (.componentInstance placed)) :
    ∃ container ∈ design.elements, ∃ layout, container.layout? = some layout ∧
      ∃ seat ∈ layout.items, seat.item = .componentInstance placed := by
  cases stems with
  | root member present named =>
      rcases List.mem_append.1 present with first | later
      · obtain ⟨component, -, same⟩ := List.mem_map.1 first
        contradiction
      · obtain ⟨map, -, same⟩ := List.mem_map.1 later
        contradiction
  | @inside _ _ _ container _ stems member present named =>
      have known := (becomes_of_stems_from built stems).1
      cases holds : container.layout? with
      | some layout =>
          rw [Element.children_of_layout? holds] at present
          obtain ⟨seat, seated, same⟩ := List.mem_map.1 present
          exact ⟨container, known, layout, holds, seat, seated, same⟩
      | none =>
          -- Without a layout only fields have children, and these are named values.
          cases container with
          | field element =>
              obtain ⟨value, -, same⟩ := List.mem_map.1 present
              contradiction
          | enumValue element | componentInstance element => contradiction
          | component element | registerArray element | register element | fieldArray element
          | memoryMap element | instanceArray element => contradiction

theorem seated_of_built (built : Design.ofDecls defaults decls = .ok design) {placed : Instance}
    (member : .componentInstance placed ∈ design.elements) : design.Seated placed := by
  have well := well_formed_of_built built
  constructor
  case exists_seat =>
    obtain ⟨around, decl, stems⟩ := exists_stems_from built _ member
    exact exists_seat_of_stems_from built stems
  case size =>
    intro container known layout holds seat seated same
    have takes := ((consistent_of_built built container known).seated layout holds seat seated).2
    rw [same] at takes
    exact (Option.some.inj takes).symm
  case bounded =>
    obtain ⟨_, _, instanceWell⟩ := well_formed_in_of_mem_elements well member
    have known := List.mem_of_find?_eq_some instanceWell.bound
    rw [← Component.byte_size_eq_some (well.components _ known).width instanceWell.sized]
    exact Component.byte_size_le instanceWell.sized

theorem bound_of_built (built : Design.ofDecls defaults decls = .ok design) :
    Bound decls design := by
  have well := well_formed_of_built built
  obtain ⟨distinctComponents, distinctMaps⟩ := distinct_names built
  constructor
  case distinct => exact root_names_distinct well
  case component? =>
    intro name component
    rw [component?, well.catalog]
    exact Catalog.get?_eq_some distinctComponents
  case memoryMap? => exact fun name map => find?_eq_some_of_distinct distinctMaps
  case declared => exact fun placed member => exists_stems_from built _ member
  case asked =>
    intro around decl placed stems
    obtain ⟨-, above, -, becomes⟩ := becomes_of_stems_from built stems
    exact becomes.here.asks _ rfl
  case bound =>
    intro placed member
    obtain ⟨_, _, instanceWell⟩ := well_formed_in_of_mem_elements well member
    exact (Catalog.get?_eq_some distinctComponents).1 instanceWell.bound
  case seated => exact fun placed member => seated_of_built built member

/-- In a design instances are bound to what they ask for, in whatever order the roots are declared.
While components are added, the catalog holds them under the names of the roots so far, and refuses
no component whose name is none of these. -/
theorem instances_bound_by_name (defaults : MapDefaults) :
    (∀ decls design, Design.ofDecls defaults decls = .ok design → Bound decls design) ∧
      ∀ before design, addAll addComponent {} 0 before = .ok design →
        design.catalog.components.map (·.header.name) = design.rootNames ∧
          ∀ decl component, Component.ofDecl decl = .ok component →
            claimName design.rootNames component.header.path = .ok () →
              ∃ catalog, design.catalog.add component = .ok catalog := by
  constructor
  · exact fun decls design built => bound_of_built built
  · intro before design added
    refine ⟨catalog_names_of_components_added added, ?_⟩
    exact fun decl component built claimed => exists_catalog_of_claimed added built claimed

def gaugeDecl : Decl where
  kind := .component
  attrs := .ofList [("name", "gauge"), ("width", "8")]

theorem instances_of_sample_bound_by_name :
    (∃ design, Design.ofDecls {} sampleDecls = .ok design ∧ Bound sampleDecls design ∧
      design.elements.filterMap Element.componentName? = ["timer"] ∧
      (design.component? "timer").map Component.byteSize? = some (some 32)) ∧
    ∃ design, addAll addComponent {} 0 [sampleDecls[1]] = .ok design ∧
      design.catalog.components.map (·.header.name) = ["timer"] ∧
      ∃ component, Component.ofDecl gaugeDecl = .ok component ∧
        ∃ catalog, design.catalog.add component = .ok catalog := by
  obtain ⟨bound, filed⟩ := instances_bound_by_name {}
  constructor
  · have asked : (Design.ofDecls {} sampleDecls).map (fun design =>
        (design.elements.filterMap Element.componentName?,
          (design.component? "timer").map Component.byteSize?)) =
        .ok (["timer"], some (some 32)) := by decide +kernel
    obtain ⟨design, built, same⟩ := exists_of_map_eq_ok asked
    obtain ⟨names, length⟩ := Prod.mk.inj same
    exact ⟨design, built, bound _ _ built, names, length⟩
  · have roots : (addAll addComponent {} 0 [sampleDecls[1]]).map Design.rootNames =
        .ok ["timer"] := by decide +kernel
    have gauge : (Component.ofDecl gaugeDecl).map (·.header.path) =
        .ok (Path.root "gauge") := by decide +kernel
    obtain ⟨design, added, names⟩ := exists_of_map_eq_ok roots
    obtain ⟨component, made, path⟩ := exists_of_map_eq_ok gauge
    obtain ⟨files, admitted⟩ := filed _ design added
    refine ⟨design, added, files.trans names, component, made, admitted _ component made ?_⟩
    rw [names, path]
    rfl

end Design

end AddressMap
