import AddressMap.Proofs.Elaboration.ErrorPaths
import AddressMap.Proofs.Elaboration.Roots

/-!
# The root that fails

A design fails at the first root that cannot be added, components before memory maps. The error is
reported at this root or inside it, with its number, and the roots that are added before it are a
design of their own.
-/

namespace AddressMap

set_option autoImplicit false

open Decl

namespace Design

section AddAll

variable {add : Design → Decl → Build Design} {design next : Design}
  {decls before after : List Decl} {decl : Decl} {index other number : Nat} {error : BuildError}

theorem add_all_append :
    addAll add design index (before ++ after) = (do
      let reached ← addAll add design index before
      addAll add reached (index + before.length) after) := by
  induction before generalizing design index with
  | nil => rfl
  | cons decl rest ih =>
      simp only [List.cons_append, addAll, ih, bind_assoc, List.length_cons]
      rw [show index + 1 + rest.length = index + (rest.length + 1) by omega]

/-- Behind roots that are added, one that cannot be added is reported with its number. -/
theorem add_all_of_refused {reached : Design}
    (passed : addAll add design index before = .ok reached)
    (refused : add reached decl = .error error) :
    addAll add design index (before ++ decl :: after) =
      .error ⟨index + before.length, error⟩ := by
  rw [add_all_append, passed]
  show (add reached decl).mapError _ >>= _ = _
  rw [refused]
  rfl

theorem refused_of_add_all (failed : addAll add design index decls = .error ⟨number, error⟩) :
    ∃ before decl after reached, decls = before ++ decl :: after ∧
      number = index + before.length ∧ addAll add design index before = .ok reached ∧
        add reached decl = .error error := by
  induction decls generalizing design index with
  | nil => contradiction
  | cons decl rest ih =>
      cases step : add design decl with
      | error found =>
          simp only [addAll, step] at failed
          cases failed
          exact ⟨[], decl, rest, design, rfl, rfl, rfl, step⟩
      | ok first =>
          simp only [addAll, step] at failed
          obtain ⟨before, refused, after, reached, rfl, rfl, passed, failing⟩ := ih failed
          refine ⟨decl :: before, refused, after, reached, rfl, ?_, ?_, failing⟩
          · rw [List.length_cons]
            omega
          · exact add_all_cons_eq_ok.2 ⟨first, step, passed⟩

/-- Roots that a pass leaves as they are can be left out. -/
theorem add_all_filter {keep : Decl → Bool}
    (skips : ∀ design decl, keep decl = false → add design decl = .ok design) :
    addAll add design index decls = .ok next ↔
      addAll add design other (decls.filter keep) = .ok next := by
  induction decls generalizing design index other with
  | nil => rfl
  | cons decl rest ih =>
      cases kept : keep decl with
      | true =>
          rw [List.filter_cons_of_pos kept, add_all_cons_eq_ok, add_all_cons_eq_ok]
          exact exists_congr fun first => and_congr_right fun _ => ih
      | false =>
          rw [List.filter_cons_of_neg (by simp [kept]), add_all_cons_eq_ok]
          constructor
          · intro added
            obtain ⟨first, step, later⟩ := added
            rw [skips design decl kept] at step
            cases step
            exact ih.1 later
          · exact fun later => ⟨design, skips design decl kept, ih.2 later⟩

theorem add_all_of_skipped {keep : Decl → Bool}
    (skips : ∀ design decl, keep decl = false → add design decl = .ok design)
    (none : ∀ decl ∈ decls, keep decl = false) : addAll add design index decls = .ok design := by
  apply (@add_all_filter _ _ _ _ _ 0 _ skips).2
  rw [List.filter_eq_nil_iff.2 (by simpa using none)]
  rfl

end AddAll

variable {defaults : MapDefaults} {decls : List Decl} {decl : Decl} {design : Design} {index : Nat}
  {error : BuildError}

theorem fails_at_add_component (design : Design) (decl : Decl) :
    FailsAt (Spells .empty decl) (design.addComponent decl) := by
  have here := spells_label .empty decl
  unfold addComponent
  split
  · apply FailsAt.bind (Component.fails_at decl)
    intro component built
    have path : component.header.path = Path.root decl.label :=
      Site.path_of_header (Component.of_decl_eq_ok.1 built).titled.header
    rw [path]
    apply FailsAt.bind (fails_at_claim_name here _)
    intro _ _
    apply FailsAt.bind
    · unfold Catalog.add
      split
      · rw [path]
        exact fails_at_error here _
      · exact fails_at_ok _
    · exact fun catalog _ => fails_at_ok _
  · exact fails_at_ok _
  · exact fails_at_error here _

theorem fails_at_add_memory_map (design : Design) (decl : Decl) :
    FailsAt (Spells .empty decl) (addMemoryMap defaults design decl) := by
  have here := spells_label .empty decl
  unfold addMemoryMap
  split
  · apply FailsAt.bind (MemoryMap.fails_at design.catalog defaults decl)
    intro map built
    have path : map.header.path = Path.root decl.label :=
      Site.path_of_header (MemoryMap.of_decl_eq_ok.1 built).titled.header
    rw [path]
    apply FailsAt.bind (fails_at_claim_name here _)
    exact fun _ _ => fails_at_ok _
  · exact fails_at_ok _

theorem components_skip (design : Design) (decl : Decl)
    (map : decide (decl.kind ≠ .memoryMap) = false) : design.addComponent decl = .ok design := by
  have kind : decl.kind = .memoryMap := by simpa using map
  unfold addComponent
  rw [kind]

theorem memory_maps_skip (design : Design) (decl : Decl)
    (other : decide (decl.kind = .memoryMap) = false) :
    addMemoryMap defaults design decl = .ok design :=
  add_memory_map_eq_ok.2 (.inl ⟨by simpa using other, rfl⟩)

/-- The roots that are added before the one with this number: those before it that are not memory
maps and, before a memory map, the other memory maps before it and everything behind it that is
none. -/
def rootsBefore (decls : List Decl) (index : Nat) (decl : Decl) : List Decl :=
  if decl.kind = .memoryMap then
    decls.take index ++ (decls.drop index).filter (·.kind ≠ .memoryMap)
  else (decls.take index).filter (·.kind ≠ .memoryMap)

/-- The error is that of this root, which is the first to fail. -/
structure FailsFirst (defaults : MapDefaults) (decls : List Decl) (index : Nat)
    (error : BuildError) (decl : Decl) : Prop where
  declared : decls[index]? = some decl
  path : Spells .empty decl error.path
  before : ∃ design, Design.ofDecls defaults (rootsBefore decls index decl) = .ok design
  failed : Design.ofDecls defaults (rootsBefore decls index decl ++ [decl]) =
    .error ⟨(rootsBefore decls index decl).length, error⟩

/-- A component fails behind the components before it. -/
theorem fails_first_of_component
    (failed : addAll addComponent {} 0 decls = .error ⟨index, error⟩) :
    ∃ decl, FailsFirst defaults decls index error decl := by
  obtain ⟨before, decl, after, reached, rfl, rfl, passed, refused⟩ := refused_of_add_all failed
  rw [Nat.zero_add]
  have other : decl.kind ≠ .memoryMap := by
    intro map
    rw [components_skip reached decl (by simp [map])] at refused
    contradiction
  have earlier : rootsBefore (before ++ decl :: after) before.length decl =
      before.filter (·.kind ≠ .memoryMap) := by
    rw [rootsBefore, if_neg other, List.take_left]
  have components : addAll addComponent {} 0 (before.filter (·.kind ≠ .memoryMap)) = .ok reached :=
    (add_all_filter components_skip).1 passed
  have maps : addAll (addMemoryMap defaults) reached 0 (before.filter (·.kind ≠ .memoryMap)) =
      .ok reached := by
    apply add_all_of_skipped memory_maps_skip
    intro skipped member
    simpa using (List.mem_filter.1 member).2
  refine ⟨decl, ?_⟩
  constructor
  case declared => simp
  case path => exact fails_at_add_component reached decl error refused
  case before =>
    rw [earlier]
    exact ⟨reached, bind_eq_ok.2 ⟨reached, components, maps⟩⟩
  case failed =>
    have failing := @add_all_of_refused _ _ _ [] _ _ _ _ components refused
    rw [Nat.zero_add] at failing
    rw [earlier]
    exact bind_eq_error.2 (.inl failing)

/-- A memory map fails behind all components and the memory maps before it. -/
theorem fails_first_of_memory_map {started : Design}
    (added : addAll addComponent {} 0 decls = .ok started)
    (failed : addAll (addMemoryMap defaults) started 0 decls = .error ⟨index, error⟩) :
    ∃ decl, FailsFirst defaults decls index error decl := by
  obtain ⟨before, decl, after, reached, rfl, rfl, passed, refused⟩ := refused_of_add_all failed
  rw [Nat.zero_add]
  have map : decl.kind = .memoryMap := by
    by_contra other
    rw [memory_maps_skip reached decl (by simp [other])] at refused
    contradiction
  have earlier : rootsBefore (before ++ decl :: after) before.length decl =
      before ++ after.filter (·.kind ≠ .memoryMap) := by
    rw [rootsBefore, if_pos map, List.take_left, List.drop_left,
      List.filter_cons_of_neg (by simp [map])]
  -- The pass for components finds the same ones, since the root that fails is none.
  have components (last : List Decl) (none : last.filter (·.kind ≠ .memoryMap) = []) :
      addAll addComponent {} 0 (before ++ after.filter (·.kind ≠ .memoryMap) ++ last) =
        .ok started := by
    apply (@add_all_filter _ _ _ _ _ 0 _ components_skip).2
    have same : (before ++ after.filter (·.kind ≠ .memoryMap) ++ last).filter
        (·.kind ≠ .memoryMap) = (before ++ decl :: after).filter (·.kind ≠ .memoryMap) := by
      rw [List.filter_append, List.filter_append, List.filter_append, none, List.append_nil,
        List.filter_filter, List.filter_cons_of_neg (by simp [map])]
      simp
    rw [same]
    exact (add_all_filter components_skip).1 added
  have maps : addAll (addMemoryMap defaults) started 0
      (before ++ after.filter (·.kind ≠ .memoryMap)) = .ok reached := by
    rw [add_all_append, passed]
    apply add_all_of_skipped memory_maps_skip
    intro skipped member
    simpa using (List.mem_filter.1 member).2
  refine ⟨decl, ?_⟩
  constructor
  case declared => simp
  case path => exact fails_at_add_memory_map reached decl error refused
  case before =>
    have componentsAlone := components [] rfl
    rw [List.append_nil] at componentsAlone
    rw [earlier]
    exact ⟨reached, bind_eq_ok.2 ⟨started, componentsAlone, maps⟩⟩
  case failed =>
    have failing := @add_all_of_refused _ _ _ [] _ _ _ _ maps refused
    rw [Nat.zero_add] at failing
    rw [earlier]
    exact bind_eq_error.2 (.inr ⟨started, components [decl] (by simp [map]), failing⟩)

/-- The path of an error leads from the root with the reported number to a declaration inside it,
and this root is the first to fail, components before memory maps. -/
theorem error_points_at_cause (failed : Design.ofDecls defaults decls = .error ⟨index, error⟩) :
    ∃ decl, FailsFirst defaults decls index error decl := by
  rcases bind_eq_error.1 failed with component | ⟨started, added, map⟩
  · exact fails_first_of_component component
  · exact fails_first_of_memory_map added map

/-- The value does not fit in its field. The array around it goes by the name of its template. -/
def misfitDecls : List Decl :=
  [{ kind := .memoryMap, attrs := .ofList [("name", "bus")] },
    { kind := .component
      attrs := .ofList [("name", "timer"), ("width", "8")]
      children :=
       [{ kind := .registerArray
          attrs := .ofList [("count", "2")]
          children :=
           [{ kind := .register
              attrs := .ofList [("name", "lane")]
              children :=
               [{ kind := .field
                  attrs := .ofList [("name", "mode")]
                  children :=
                   [{ kind := .enumValue
                      attrs := .ofList [("name", "fast"), ("value", "2")] }] }] }] }] }]

theorem misfit_points_at_cause :
    ∃ decl, FailsFirst {} misfitDecls 1
      ⟨⟨["timer", "lane", "lane", "mode", "fast"]⟩, .fieldRange (.value 2 1)⟩ decl := by
  apply error_points_at_cause
  decide +kernel

end Design

end AddressMap
