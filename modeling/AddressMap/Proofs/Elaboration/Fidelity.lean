import AddressMap.Proofs.Elaboration.Making
import AddressMap.Proofs.Elaboration.Soundness
import AddressMap.Proofs.Element.Consistency

/-!
# Elements keep what their declarations give

Each attribute that a declaration gives is one that its kind has, and the element holds exactly the
value that the text spells: nothing that is inferred, inherited or chosen by a placer takes its
place. The offset that an element holds is the start of its place in the container. What is not
given is worked out so that all elements of a design are consistent.
-/

namespace AddressMap

set_option autoImplicit false

theorem Access.stated_of_inherit? {parent access : Access} {readOnly? writeOnly? : Option Bool}
    (inherited : parent.inherit? readOnly? writeOnly? = some access) :
    (∀ stated, readOnly? = some stated → access.isReadOnly = stated) ∧
      ∀ stated, writeOnly? = some stated → access.isWriteOnly = stated := by
  rcases readOnly? with - | - | - <;> rcases writeOnly? with - | - | - <;> cases parent <;>
    cases inherited <;> decide

namespace Element

variable {above : Context} {decl : Decl} {element : Element}

/-- An element upholds every attribute of its kind: the name, the two restrictions, the format, and
those of the kind alone. -/
theorem upholds_of_made (made : element.Made above decl) :
    ∀ attr ∈ decl.kind.attributes, element.Upholds decl attr := by
  obtain ⟨readOnly?, writeOnly?, format?, readOnly, writeOnly, format, inherited, -, -, -,
    formats⟩ := Site.header_eq_ok.1 made.header
  obtain ⟨reads, writes⟩ := Access.stated_of_inherit? inherited
  apply List.forall_mem_append.2 ⟨?common, made.own⟩
  case common =>
    refine List.forall_mem_cons.2 ⟨made.name, List.forall_mem_cons.2 ⟨?_,
      List.forall_mem_cons.2 ⟨?_, List.forall_mem_singleton.2 ?_⟩⟩⟩
    · refine upholds_of_read .truth (Site.truth?_eq_ok.1 readOnly) (fun _ => rfl) ?_
      intro stated given
      exact congrArg (fun value => some (AttributeValue.truth value)) (reads stated given)
    · refine upholds_of_read .truth (Site.truth?_eq_ok.1 writeOnly) (fun _ => rfl) ?_
      intro stated given
      exact congrArg (fun value => some (AttributeValue.truth value)) (writes stated given)
    · refine upholds_of_read .format (Site.format?_eq_ok.1 format) (fun _ => rfl) ?_
      intro stated given
      rw [given] at formats
      exact congrArg (fun value => some (AttributeValue.format value)) formats

/-- Every key that is given is one of the kind, and the element holds what its text spells. -/
structure Faithful (decl : Decl) (element : Element) : Prop where
  kind : element.kind = decl.kind
  given : ∀ entry ∈ decl.attrs.entries, ∃ attr ∈ decl.kind.attributes, attr.key = entry.1 ∧
    ∃ value, attr.read? entry.2 = some value ∧ element.value? attr = some value

theorem faithful_of_made (made : element.Made above decl) : Faithful decl element := by
  refine ⟨made.kind, fun entry member => ?_⟩
  obtain ⟨attr, known, key⟩ := List.mem_map.1 (made.keys entry member)
  have given : decl.get? attr = some entry.2 := by
    rw [Decl.get?, key]
    exact AttrMap.get?_of_mem member
  exact ⟨attr, known, key, upholds_of_made made attr known entry.2 given⟩

end Element

namespace Design

variable {defaults : MapDefaults} {decls : List Decl} {design : Design}

theorem consistent_of_built (built : Design.ofDecls defaults decls = .ok design) :
    ∀ element ∈ design.elements, element.Consistent := by
  have well := well_formed_of_built built
  intro element member
  obtain ⟨wordWidth, wellIn⟩ := well_formed_in_of_mem_elements well member
  have words : ∀ component ∈ design.components, IsWordWidth component.width :=
    fun component known => (well.components component known).width
  exact Element.consistent_of_well_formed words wellIn

/-- Every declaration becomes one element, of its kind, that holds the value of each attribute that
is given, and no attribute is given that the kind does not have. Each element stands in its
container at the offset that it holds. -/
theorem given_attributes_kept (built : Design.ofDecls defaults decls = .ok design) :
    BecomeEach (fun _ => Element.Faithful) {} decls design.roots ∧
      ∀ element ∈ design.elements, ∀ layout, element.layout? = some layout →
        ∀ placed ∈ layout.items, placed.item.offset? = some placed.start := by
  constructor
  · exact (become_each_of_built built).imp fun _ _ _ => Element.faithful_of_made
  · intro element member layout holds placed inside
    exact ((consistent_of_built built element member).seated layout holds placed inside).1

theorem given_attributes_of_sample_kept :
    ∃ design, Design.ofDecls {} sampleDecls = .ok design ∧
      design.elements.filterMap Element.offset? = [0, 0, 0, 1, 4, 0, 4, 1, 256, 0] ∧
      BecomeEach (fun _ => Element.Faithful) {} sampleDecls design.roots ∧
      ∀ element ∈ design.elements, ∀ layout, element.layout? = some layout →
        ∀ placed ∈ layout.items, placed.item.offset? = some placed.start := by
  have offsets : (Design.ofDecls {} sampleDecls).map (·.elements.filterMap Element.offset?) =
      .ok [0, 0, 0, 1, 4, 0, 4, 1, 256, 0] := by decide +kernel
  obtain ⟨design, built, same⟩ := exists_of_map_eq_ok offsets
  exact ⟨design, built, same, given_attributes_kept built⟩

end Design

end AddressMap
