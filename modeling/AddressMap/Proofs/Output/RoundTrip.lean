import AddressMap.Proofs.Decl.Json
import AddressMap.Proofs.Elaboration.Rebuilding
import AddressMap.Proofs.Elaboration.Soundness
import AddressMap.Proofs.Output.Sinks

/-!
# Frozen texts are a fixed point

The texts of the frozen roots of a design are read as declarations of that design, with whatever
defaults it is built, and it is frozen as the same texts again.
-/

namespace AddressMap

set_option autoImplicit false

namespace Element

def frozenText (element : Element) : String :=
  element.freeze.pretty ++ "\n"

theorem render_text_explicit (root : Element) :
    renderText .explicit root = .ok root.frozenText := by
  have text : String.join (Frozen.pieces root) = root.frozenText := by
    rw [Frozen.pieces, String.join_append]
    rfl
  rw [render_text_eq, ← text]
  rfl

/-- Every level of elements opens one object and one array. -/
theorem fits_freeze {element : Element} {depth : Nat} (enough : 2 * element.rank + 2 ≤ depth) :
    element.freeze.FitsIn depth := by
  induction element using induction_on_children generalizing depth with
  | step element ih =>
      obtain ⟨room, rfl⟩ := Nat.exists_eq_add_of_le' (Nat.le_trans (Nat.le_add_left 2 _) enough)
      intro child member
      rw [children_freeze] at member
      obtain ⟨inner, inside, rfl⟩ := List.mem_map.1 member
      have lower := rank_lt_of_mem_children inside
      exact ih inner inside (by omega)

theorem rank_le (element : Element) : element.rank ≤ 5 := by
  cases element <;> simp [rank]

theorem of_json_frozen_text (element : Element) :
    Decl.ofJson? element.frozenText = some element.freeze := by
  have bound := element.rank_le
  have enough : 2 * element.rank + 2 ≤ maxNesting := by
    rw [maxNesting]
    omega
  exact Decl.of_json_pretty (fits_freeze enough)

end Element

namespace Design

theorem render_roots (design : Design) :
    design.roots.mapM (renderText .explicit) = .ok (design.roots.map Element.frozenText) := by
  have each : renderText .explicit = fun root => pure root.frozenText := by
    funext root
    exact root.render_text_explicit
  rw [each, List.mapM_pure]
  rfl

theorem read_roots (design : Design) :
    (design.roots.map Element.frozenText).mapM Decl.ofJson? =
      some (design.roots.map Element.freeze) := by
  have each : (fun root : Element => Decl.ofJson? root.frozenText) =
      fun root => pure root.freeze := by
    funext root
    exact root.of_json_frozen_text
  rw [List.mapM_map]
  show design.roots.mapM (fun root => Decl.ofJson? root.frozenText) = _
  rw [each, List.mapM_pure]
  rfl

/-- The frozen texts of what was built are read and built as the same with any defaults, and this
has the same frozen texts. -/
theorem frozen_texts_rebuild {defaults : MapDefaults} {decls : List Decl} {design : Design}
    (baseBounded : defaults.base ≤ maxAddress)
    (built : Design.ofDecls defaults decls = .ok design) :
    ∃ texts frozen,
      design.roots.mapM (renderText .explicit) = .ok texts ∧
      texts.mapM Decl.ofJson? = some frozen ∧
      ∀ other : MapDefaults, ∃ rebuilt,
        Design.ofDecls other frozen = .ok rebuilt ∧
        rebuilt.components = design.components ∧
        rebuilt.memoryMaps = design.memoryMaps ∧
        rebuilt.roots.mapM (renderText .explicit) = .ok texts := by
  have well := well_formed_of_built built
  have bounded : ∀ map ∈ design.memoryMaps, map.base ≤ maxAddress := by
    intro map member
    obtain ⟨decl, -, made⟩ := exists_related_of_mem (of_decls_eq_ok.1 built).memoryMaps member
    exact MemoryMap.base_bounded_of_built baseBounded made
  refine ⟨design.roots.map Element.frozenText, design.roots.map Element.freeze,
    render_roots design, read_roots design, ?_⟩
  intro other
  exact ⟨design, of_decls_freeze other well bounded, rfl, rfl, render_roots design⟩

theorem frozen_texts_of_sample_rebuild : ∃ design texts frozen rebuilt,
    Design.ofDecls {} sampleDecls = .ok design ∧
      design.roots.map Element.name = ["timer", "bus"] ∧
      design.roots.mapM (renderText .explicit) = .ok texts ∧
      texts.mapM Decl.ofJson? = some frozen ∧
      Design.ofDecls { base := 0x4000, busWidth := 64 } frozen = .ok rebuilt ∧
      rebuilt.components = design.components ∧ rebuilt.memoryMaps = design.memoryMaps ∧
      rebuilt.memoryMaps.map MemoryMap.base = [0x80000000] := by
  have sample : (Design.ofDecls {} sampleDecls).map (fun design =>
      (design.roots.map Element.name, design.memoryMaps.map MemoryMap.base)) =
      .ok (["timer", "bus"], [0x80000000]) := by decide +kernel
  obtain ⟨design, built, same⟩ := exists_of_map_eq_ok sample
  obtain ⟨names, bases⟩ := Prod.mk.inj same
  obtain ⟨texts, frozen, rendered, parsed, rebuilds⟩ := frozen_texts_rebuild (by decide) built
  obtain ⟨rebuilt, again, components, memoryMaps, -⟩ := rebuilds { base := 0x4000, busWidth := 64 }
  exact ⟨design, texts, frozen, rebuilt, built, names, rendered, parsed, again, components,
    memoryMaps, memoryMaps ▸ bases⟩

end Design

end AddressMap
