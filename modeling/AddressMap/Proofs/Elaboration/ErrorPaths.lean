import AddressMap.Proofs.Elaboration.Blame

/-!
# Errors and declarations

A path spells a declaration when it leads through the declarations around it, each called by its
name or, without one, by its kind. An array without a name may also go by the name of its template.
Every error of a builder is reported at a path that spells the declaration or one inside it, whether
the declaration itself is at fault or its container could not place it.
-/

namespace AddressMap

set_option autoImplicit false

namespace Decl

/-- The declaration can go by this name in the path of an error. -/
def Called (decl : Decl) (name : String) : Prop :=
  name = decl.label ∨
    decl.name? = none ∧ decl.kind.isArray ∧
      ∃ template, decl.children = [template] ∧ template.name? = some name

/-- The path leads from a container to the declaration or to one inside it. -/
inductive Spells : Path → Decl → Path → Prop where
  | here {container : Path} {decl : Decl} {name : String} (called : decl.Called name) :
      Spells container decl (container.child name)
  | inside {container path : Path} {decl child : Decl} {name : String}
      (called : decl.Called name) (member : child ∈ decl.children)
      (deeper : Spells (container.child name) child path) : Spells container decl path

def SpellsAmong (container : Path) (decls : List Decl) (path : Path) : Prop :=
  ∃ decl ∈ decls, Spells container decl path

variable {decl child : Decl} {decls : List Decl} {container path : Path} {name : String}

theorem called_label (decl : Decl) : decl.Called decl.label :=
  .inl rfl

theorem spells_label (container : Path) (decl : Decl) :
    Spells container decl (decl.siteIn container).path :=
  .here decl.called_label

theorem spells_of_among (called : decl.Called name) (path : Path)
    (among : SpellsAmong (container.child name) decl.children path) :
    Spells container decl path := by
  obtain ⟨child, member, deeper⟩ := among
  exact .inside called member deeper

theorem spells_among_head (path : Path) (spells : Spells container decl path) :
    SpellsAmong container (decl :: decls) path :=
  ⟨decl, List.mem_cons_self, spells⟩

theorem spells_among_tail (path : Path) (among : SpellsAmong container decls path) :
    SpellsAmong container (decl :: decls) path := by
  obtain ⟨other, member, spells⟩ := among
  exact ⟨other, List.mem_cons_of_mem decl member, spells⟩

end Decl

open Decl

namespace Family

variable {α : Type} [Placeable α] {family : Family α} {container : Path} {above : Context}
  {decl : Decl}

structure Blames (family : Family α) : Prop where
  arrays : family.arrayKind.isArray
  fails : ∀ container above decl, FailsAt (Spells container decl)
    (family.ofDecl container above decl)
  path : ∀ container above decl candidate, family.ofDecl container above decl = .ok candidate →
    candidate.path = container.child decl.label

omit [Placeable α] in
theorem fails_at_template (family : Family α) (container : Path) (decl : Decl) :
    FailsAt (Spells container decl) (family.template (decl.siteIn container)) := by
  unfold Family.template
  split
  next template only =>
    split
    · exact fails_at_ok _
    · apply Site.fails_at_refuse_child
      have member : template ∈ decl.children := List.mem_of_mem_head? (congrArg List.head? only)
      exact .inside decl.called_label member (spells_label _ template)
  · exact Site.fails_at_fail (spells_label container decl) _

theorem called_of_array {template : Decl} {name : String} (kind : decl.kind.isArray)
    (children : decl.children = [template])
    (named : (decl.name? <|> template.name?) = some name) : decl.Called name := by
  cases own : decl.name? with
  | some stated =>
      rw [own] at named
      cases named
      exact .inl (by rw [label, own]; rfl)
  | none =>
      rw [own] at named
      exact .inr ⟨own, kind, template, children, named⟩

namespace Blames

variable (blames : family.Blames)

include blames

theorem fails_at_array (kind : decl.kind = family.arrayKind) :
    FailsAt (Spells container decl) (family.arrayOfDecl container above decl) := by
  have array : decl.kind.isArray := kind ▸ blames.arrays
  apply FailsAt.bind (family.fails_at_template container decl)
  intro template only
  obtain ⟨children, -⟩ := template_eq_ok.1 only
  apply FailsAt.bind (Site.fails_at_named_after (spells_label container decl) container template)
  intro site named
  -- From here on the array goes by its own name or by that of its template.
  obtain ⟨name, stated, rfl⟩ := Site.named_after_eq_ok.1 named
  have called : decl.Called name := called_of_array array children stated
  have here : Spells container decl (Site.mk decl (container.child name)).path := .here called
  have member : template ∈ decl.children := List.mem_of_mem_head? (congrArg List.head? children)
  have inner : ∀ path, Spells (container.child name) template path → Spells container decl path :=
    fun path deeper => .inside called member deeper
  apply FailsAt.bind (Site.fails_at_check_keys here)
  intro _ _
  apply FailsAt.bind (Site.fails_at_array_shape here)
  intro shape _
  apply FailsAt.bind (Site.fails_at_header here _ above)
  intro header _
  apply FailsAt.bind ((blames.fails _ _ template).imp inner)
  intro candidate built
  have framed : ∀ other ∈ [candidate], Spells container decl other.path := by
    intro other present
    rw [List.mem_singleton.1 present, blames.path _ _ _ _ built]
    exact inner _ (spells_label _ template)
  apply FailsAt.bind (fails_at_arrange framed)
  intro arranged _
  apply FailsAt.bind (fails_at_settled_layout here arranged _)
  intro frame _
  apply FailsAt.bind (Site.fails_at_array_size here shape _)
  exact fun size _ => fails_at_ok _

theorem fails_at_entry {site : Site} :
    FailsAt (Spells site.path decl) (family.entryOfDecl site above decl) := by
  unfold entryOfDecl
  split
  · apply FailsAt.bind (blames.fails _ _ decl)
    exact fun candidate _ => fails_at_ok _
  · split
    next kind =>
      apply FailsAt.bind (blames.fails_at_array kind)
      exact fun candidate _ => fails_at_ok _
    · exact Site.fails_at_refuse_child (spells_label site.path decl)

theorem spells_of_entry {site : Site} {candidate : Candidate (Entry α)}
    (built : family.entryOfDecl site above decl = .ok candidate) :
    Spells site.path decl candidate.path := by
  rcases entry_of_decl_eq_ok.1 built with ⟨-, inner, made, rfl⟩ | ⟨-, kind, inner, made, rfl⟩
  · show Spells site.path decl inner.path
    rw [blames.path _ _ _ _ made]
    exact spells_label site.path decl
  · obtain ⟨parts, rule, rfl⟩ := array_of_decl_eq_ok.1 made
    have array : decl.kind.isArray := kind ▸ blames.arrays
    have path : parts.header.path = site.path.child parts.name := Site.path_of_header rule.header
    show Spells site.path decl parts.header.path
    rw [path]
    exact .here (called_of_array array rule.children rule.name)

theorem fails_at_entries {site : Site} (names : List String) (decls : List Decl) :
    FailsAt (SpellsAmong site.path decls) (family.entriesOfDecls site above names decls) := by
  induction decls generalizing names with
  | nil => exact fails_at_ok _
  | cons decl rest ih =>
      apply FailsAt.bind (blames.fails_at_entry.imp spells_among_head)
      intro candidate built
      have here : SpellsAmong site.path (decl :: rest) candidate.path :=
        spells_among_head _ (blames.spells_of_entry built)
      apply FailsAt.bind (fails_at_claim_name here names)
      intro _ _
      apply FailsAt.bind ((ih _).imp spells_among_tail)
      exact fun others _ => fails_at_ok _

/-- The children of a container are built at paths that spell them, and so are their errors. -/
theorem fails_at_children (container : Path) (decl : Decl) (above : Context) :
    FailsAt (Spells container decl) (family.children (decl.siteIn container) above) ∧
      ∀ candidates, family.children (decl.siteIn container) above = .ok candidates →
        ∀ candidate ∈ candidates, Spells container decl candidate.path := by
  have inside := @spells_of_among decl container _ decl.called_label
  constructor
  · exact (blames.fails_at_entries [] decl.children).imp inside
  · intro candidates built candidate member
    obtain ⟨child, present, made⟩ := exists_related_of_mem (children_eq_ok.1 built).1 member
    exact inside _ ⟨child, present, blames.spells_of_entry made⟩

end Blames

end Family

namespace EnumValue

variable {field : Site} {size : Nat} {above : Context} {names : List String}
  {largest? : Option Nat}

theorem fails_at_number {within : Path → Prop} {site : Site} (here : within site.path) :
    FailsAt within (EnumValue.number site largest?) := by
  apply FailsAt.bind (Site.fails_at_number? here .value)
  intro stated? _
  split
  · exact fails_at_ok _
  · split
    · exact fails_at_ok _
    · exact Site.fails_at_fail here _

theorem fails_at (decl : Decl) :
    FailsAt (Spells field.path decl) (EnumValue.ofDecl field size above names largest? decl) := by
  have here := spells_label field.path decl
  unfold EnumValue.ofDecl
  split
  · exact Site.fails_at_refuse_child here
  · apply Site.fails_at_keys_and_name here
    intro name
    apply FailsAt.bind (fails_at_claim_name here names)
    intro _ _
    apply FailsAt.bind (fails_at_number here)
    intro value _
    split
    · apply FailsAt.bind (Site.fails_at_header here name above)
      exact fun header _ => fails_at_ok _
    · exact Site.fails_at_fail here _

theorem fails_at_all (decls : List Decl) :
    FailsAt (SpellsAmong field.path decls)
      (EnumValue.ofDecls field size above names largest? decls) := by
  induction decls generalizing names largest? with
  | nil => exact fails_at_ok _
  | cons decl rest ih =>
      apply FailsAt.bind ((fails_at decl).imp spells_among_head)
      intro value _
      apply FailsAt.bind (ih.imp spells_among_tail)
      exact fun others _ => fails_at_ok _

end EnumValue

theorem Field.blames : Field.family.Blames := by
  constructor
  case arrays => rfl
  case fails =>
    intro container above decl
    have here := spells_label container decl
    apply Site.fails_at_keys_and_name here
    intro name
    apply FailsAt.bind (Site.fails_at_number? here .offset)
    intro offset? _
    apply FailsAt.bind (Site.fails_at_positive? here .size)
    intro size? _
    apply FailsAt.bind (Site.fails_at_header here name above)
    intro header _
    apply FailsAt.bind
      ((EnumValue.fails_at_all decl.children).imp (spells_of_among decl.called_label))
    exact fun values _ => fails_at_ok _
  case path =>
    intro container above decl candidate built
    exact Site.path_of_header (Field.of_decl_eq_ok.1 built).titled.header

namespace Register

variable {within : Path → Prop} {site : Site}

theorem path_overlap_as_range (error : BuildError) : (overlapAsRange error).path = error.path := by
  unfold overlapAsRange
  split <;> rfl

theorem fails_at_check_size (here : within site.path) :
    FailsAt within (Register.checkSize site) := by
  apply FailsAt.bind (Site.fails_at_number? here .size)
  intro size? _
  split
  · split
    · exact fails_at_ok _
    · exact Site.fails_at_fail here _
  · exact fails_at_ok _

theorem fails_at_stated_width (here : within site.path) (wordWidth : Nat) :
    FailsAt within (Register.statedWidth site wordWidth) := by
  apply FailsAt.bind (Site.fails_at_number? here .width)
  intro width? _
  split
  · exact fails_at_ok _
  · split
    · exact fails_at_ok _
    · exact Site.fails_at_fail here _

theorem fails_at_stated_reset (here : within site.path) (width : Nat) :
    FailsAt within (Register.statedReset site width) := by
  apply FailsAt.bind (Site.fails_at_number? here .reset)
  intro reset? _
  dsimp only
  split
  · exact fails_at_ok _
  · exact Site.fails_at_fail here _

/-- Fields that do not fit are reported as such, and fields that cannot be sized are the fault of
the register. -/
theorem fails_at_arrange_fields {path : Path} {candidates : List (Candidate (Entry Field))}
    (here : within path) (inside : ∀ candidate ∈ candidates, within candidate.path) (width : Nat) :
    FailsAt within (Register.arrangeFields path width candidates) := by
  apply FailsAt.bind ((fails_at_arrange inside).map_error path_overlap_as_range)
  intro space arranging
  split
  next outside found =>
    obtain ⟨-, -, arranged⟩ := arranged_of_arrange (map_error_eq_ok.1 arranging)
    obtain ⟨placed, perm, stands⟩ := arranged.stands
    have member := perm.mem_iff.2 (List.mem_of_find?_eq_some found)
    obtain ⟨candidate, present, standing⟩ := exists_related_of_mem stands member
    apply fails_at_error
    show within (Placeable.header outside.item).path
    rw [standing.item, Sited.header_move_to]
    exact inside candidate present
  · exact fails_at_settled_layout here space _

theorem blames (wordWidth : Nat) : (Register.family wordWidth).Blames := by
  constructor
  case arrays => rfl
  case fails =>
    intro container above decl
    have here := spells_label container decl
    apply Site.fails_at_keys_and_name here
    intro name
    apply FailsAt.bind (Site.fails_at_number? here .offset)
    intro offset? _
    apply FailsAt.bind (fails_at_check_size here)
    intro _ _
    apply FailsAt.bind (fails_at_stated_width here wordWidth)
    intro width _
    apply FailsAt.bind (fails_at_stated_reset here width)
    intro reset _
    apply FailsAt.bind (Site.fails_at_header here name above)
    intro header _
    obtain ⟨fails, paths⟩ := Field.blames.fails_at_children container decl header.context
    apply FailsAt.bind fails
    intro candidates built
    apply FailsAt.bind (fails_at_arrange_fields here (paths candidates built) width)
    exact fun layout _ => fails_at_ok _
  case path =>
    intro container above decl candidate built
    exact Site.path_of_header (Register.of_decl_eq_ok.1 built).titled.header

end Register

theorem Instance.blames (catalog : Catalog) : (Instance.family catalog).Blames := by
  constructor
  case arrays => rfl
  case fails =>
    intro container above decl
    have here := spells_label container decl
    apply Site.fails_at_keys_and_name here
    intro name
    apply FailsAt.bind (Site.fails_at_number? here .offset)
    intro offset? _
    apply FailsAt.bind (Site.fails_at_header here name above)
    intro header _
    apply FailsAt.bind (fails_at_require here catalog _)
    intro component _
    split
    · exact Site.fails_at_fail here _
    · exact fails_at_ok _
  case path =>
    intro container above decl candidate built
    exact Site.path_of_header (Instance.of_decl_eq_ok.1 built).titled.header

section Roots

variable {decl : Decl}

theorem fails_at_root_site (decl : Decl) (kind : Kind) :
    FailsAt (Spells .empty decl) (decl.rootSite kind) := by
  unfold rootSite
  dsimp only
  split
  · exact fails_at_ok _
  · exact Site.fails_at_fail (spells_label .empty decl) _

theorem fails_at_root_layout {α β : Type} [Placeable α] {family : Family α}
    (blames : family.Blames) (placer : Placer) (above : Context) (next : Layout (Entry α) → β) :
    FailsAt (Spells .empty decl) (do
      let candidates ← family.children ⟨decl, Path.root decl.label⟩ above
      let arranged ← arrange { placer, resizer := .linear } candidates
      let declared? ← Site.number? ⟨decl, Path.root decl.label⟩ .size
      let layout ← settledLayout (Path.root decl.label) arranged declared?
      .ok (next layout)) := by
  have here := spells_label .empty decl
  obtain ⟨fails, paths⟩ := blames.fails_at_children .empty decl above
  apply FailsAt.bind fails
  intro candidates built
  apply FailsAt.bind (fails_at_arrange (paths candidates built))
  intro arranged _
  apply FailsAt.bind (Site.fails_at_number? here .size)
  intro declared? _
  apply FailsAt.bind (fails_at_settled_layout here arranged declared?)
  exact fun layout _ => fails_at_ok _

theorem Component.fails_at_stated_width {within : Path → Prop} {site : Site}
    (here : within site.path) : FailsAt within (Component.statedWidth site) := by
  apply FailsAt.bind (Site.fails_at_number? here .width)
  intro width? _
  split
  · exact Site.fails_at_fail here _
  · exact Site.fails_at_check_word_width here _

theorem Component.fails_at (decl : Decl) :
    FailsAt (Spells .empty decl) (Component.ofDecl decl) := by
  have here := spells_label .empty decl
  apply FailsAt.bind (fails_at_root_site decl .component)
  intro site root
  obtain ⟨-, rfl⟩ := Decl.root_site_eq_ok.1 root
  apply Site.fails_at_keys_and_name here
  intro name
  apply FailsAt.bind (Component.fails_at_stated_width here)
  intro width _
  apply FailsAt.bind (Site.fails_at_header here name {})
  intro header _
  exact fails_at_root_layout (Register.blames width) .linear header.context _

theorem MemoryMap.fails_at (catalog : Catalog) (defaults : MapDefaults) (decl : Decl) :
    FailsAt (Spells .empty decl) (MemoryMap.ofDecl catalog defaults decl) := by
  have here := spells_label .empty decl
  apply FailsAt.bind (fails_at_root_site decl .memoryMap)
  intro site root
  obtain ⟨-, rfl⟩ := Decl.root_site_eq_ok.1 root
  apply Site.fails_at_keys_and_name here
  intro name
  apply FailsAt.bind (Site.fails_at_number? here .base)
  intro base? _
  apply FailsAt.bind (Site.fails_at_number? here .width)
  intro width? _
  apply FailsAt.bind (Site.fails_at_check_word_width here _)
  intro width _
  apply FailsAt.bind (Site.fails_at_header here name {})
  intro header _
  exact fails_at_root_layout (Instance.blames catalog) .aligned header.context _

end Roots

end AddressMap
