import AddressMap.Proofs.Elaboration.Attributes
import AddressMap.Proofs.Elaboration.Candidates
import AddressMap.Proofs.Elaboration.Making
import AddressMap.Proofs.Elaboration.Shapes

/-!
# Families that validity decides

A family is decided when it builds exactly its valid declarations, and what it builds asks for the
place that the declaration says. Then its arrays, entries and layouts are decided as well, for all
families at once.
-/

namespace AddressMap

set_option autoImplicit false

theorem exists_forall₂_iff {α β : Type} {related : α → β → Prop} {list : List α} :
    (∃ results, List.Forall₂ related list results) ↔
      ∀ entry ∈ list, ∃ result, related entry result := by
  induction list with
  | nil => exact ⟨fun _ => nofun, fun _ => ⟨[], .nil⟩⟩
  | cons entry rest ih =>
      rw [List.forall_mem_cons, ← ih]
      constructor
      · intro all
        obtain ⟨results, all⟩ := all
        cases all with
        | cons first others => exact ⟨⟨_, first⟩, _, others⟩
      · intro both
        obtain ⟨⟨result, first⟩, results, others⟩ := both
        exact ⟨result :: results, .cons first others⟩

/-- The element goes by the name, and asks for the place, that the declaration says. -/
structure Decl.Requests {α : Type} [Placeable α] (decl : Decl) (candidate : Candidate α) :
    Prop where
  name : decl.elementName? = some candidate.path.leaf
  shape : candidate.shape = decl.request

structure Decl.ValidInside (wordWidth : Nat) (decl : Decl) : Prop where
  valid : ∀ child ∈ decl.children,
    decl.kind.admits child.kind ∧ child.ValidThroughout wordWidth
  distinct : (decl.children.map elementName?).Nodup

namespace Kind

variable {kind : Kind}

theorem own_attributes_of_array (array : kind.isArray = true) :
    kind.ownAttributes = [.offset, .count, .framesize, .size] := by
  cases kind <;> first | rfl | contradiction

theorem required_of_array (array : kind.isArray = true) : kind.required = [.count] := by
  cases kind <;> first | rfl | contradiction

theorem placer_of_array (array : kind.isArray = true) : kind.placer = .aligned := by
  cases kind <;> first | rfl | contradiction

theorem space_unit_of_array (array : kind.isArray = true) : kind.spaceUnit?.isSome := by
  cases kind <;> first | rfl | contradiction

end Kind

theorem Decl.limit?_of_array {decl : Decl} (array : decl.kind.isArray = true) (wordWidth : Nat) :
    decl.limit? wordWidth = some ((decl.number? .framesize).getD maxPowerOfTwo) := by
  unfold Decl.limit?
  split <;> simp_all [Kind.isArray]

theorem Decl.valid_node_of_array_iff {decl template : Decl} {wordWidth : Nat}
    (array : decl.kind.isArray = true) (children : decl.children = [template]) :
    decl.ValidNode wordWidth ↔
      decl.kind.admits template.kind = true ∧ decl.Attributed ∧ decl.number? .count ≠ some 0 ∧
        (∃ layout, FirstFits .aligned [template.request] layout ∧
          layout.top ≤ (decl.number? .framesize).getD maxPowerOfTwo) ∧
        decl.length ≤ maxAddress ∧ ∀ size, decl.number? .size = some size → size = decl.length := by
  constructor
  · intro node
    obtain ⟨layout, fits, below⟩ := node.roomy.children (Kind.space_unit_of_array array)
    rw [children, Kind.placer_of_array array] at fits
    refine ⟨node.nested.admitted template ?_, node.attributed, node.inBounds.array array,
      ⟨layout, fits, below _ (limit?_of_array array wordWidth)⟩, node.roomy.frames array⟩
    rw [children]
    exact List.mem_singleton_self _
  · intro asked
    obtain ⟨admitted, attributed, nonzero, ⟨layout, fits, below⟩, frames⟩ := asked
    have other {kind : Kind} (single : kind.isArray = false) : decl.kind ≠ kind := by
      rintro rfl
      rw [array] at single
      contradiction
    refine ⟨⟨?_, fun _ => ⟨template, children⟩⟩, attributed, ⟨?_, fun _ => nonzero, ?_, ?_⟩, ?_,
      ⟨fun _ => ⟨layout, ?_, ?_⟩, fun _ => frames⟩⟩
    · rw [children]
      exact fun child member => List.mem_singleton.1 member ▸ admitted
    · exact fun same => absurd same (other rfl)
    · exact fun same => absurd same (other rfl)
    · exact fun same => absurd same (other rfl)
    · rw [children]
      exact List.nodup_singleton _
    · rw [children, Kind.placer_of_array array]
      exact fits
    · rw [limit?_of_array array]
      intro limit same
      exact Option.some.inj same ▸ below

section Settle

variable {α : Type} {space : Space α} {path : Path} {declared? : Option Nat}

/-- A frame can be settled when the stated size, or else a power of two, covers what is inside. -/
theorem exists_settled_aligned_iff (resizer : space.resizer = .aligned) :
    (∃ layout, settledLayout path space declared? = .ok layout) ↔
      space.layout.top ≤ declared?.getD maxPowerOfTwo := by
  simp only [settled_layout_eq_ok, Space.Settles]
  cases declared? with
  | some declared => simp
  | none =>
      rw [Option.getD_none, ← least_power_of_two_le_max_power]
      simp only [resizer, Resizer.extent]
      split
      next empty =>
        have small : leastPowerOfTwo space.layout.top ≤ maxPowerOfTwo := by
          rw [empty]
          decide
        simp [small]
      next occupied =>
        split
        next small => simp [small]
        next large => simp [large]

theorem exists_settled_linear_iff (resizer : space.resizer = .linear) :
    (∃ layout, settledLayout path space declared? = .ok layout) ↔
      ∀ declared, declared? = some declared → space.layout.top ≤ declared := by
  simp only [settled_layout_eq_ok, Space.Settles]
  cases declared? with
  | some declared => simp
  | none => simp [resizer, Resizer.extent]

end Settle

/-- Alone in a frame, a template without an offset goes to the start. -/
theorem top_of_first_fits_template {α : Type} {candidate : Candidate α} {layout : Layout α}
    (plain : candidate.placer? = none) (fits : FirstFits .aligned [candidate] layout) :
    layout.top = candidate.offset?.getD 0 + candidate.size := by
  have others := fits.others
  rw [List.flatMap_singleton, List.flatMap_singleton] at others
  cases offset : candidate.offset? with
  | some start =>
      rw [Candidate.fixed_of_some offset, Candidate.waiting_of_some _ offset] at others
      cases others
      exact Nat.max_eq_left (Nat.zero_le _)
  | none =>
      rw [Candidate.fixed_of_none offset, Candidate.waiting_of_none _ offset, plain] at others
      cases others with
      | @next _ _ _ _ _ start accepts least none =>
          cases none
          have bounded := least.1.bounded
          have atStart : Layout.FitsAt {} ⟨candidate.item, candidate.size, .aligned⟩ 0 := by
            refine ⟨Nat.dvd_zero _, ?_, nofun⟩
            dsimp only at bounded ⊢
            omega
          obtain rfl : start = 0 := Nat.le_zero.1 (least.2 atStart)
          exact Nat.max_eq_left (Nat.zero_le _)

namespace Decl.Requests

variable {α : Type} [Placeable α] {decl : Decl} {candidate : Candidate α}

theorem offset (requests : decl.Requests candidate) :
    candidate.offset? = decl.number? .offset :=
  congrArg Candidate.offset? requests.shape

theorem size (requests : decl.Requests candidate) : candidate.size = decl.length :=
  congrArg Candidate.size requests.shape

theorem placer (requests : decl.Requests candidate) :
    candidate.placer? = if decl.kind.isArray then some .aligned else none :=
  congrArg Candidate.placer? requests.shape

end Decl.Requests

theorem Decl.number?_of_reads {decl : Decl} {attr : Attribute} (numeric : attr.isNumber = true)
    (reads : decl.Reads attr) (given : (decl.get? attr).isSome) :
    (decl.number? attr).isSome := by
  obtain ⟨text, given⟩ := Option.isSome_iff_exists.1 given
  have readable := reads text given
  rw [Attribute.read?_of_number numeric, Option.isSome_map] at readable
  rw [Decl.number?, given]
  exact readable

theorem Decl.get?_is_some_of_number? {decl : Decl} {attr : Attribute} {number : Nat}
    (stated : decl.number? attr = some number) : (decl.get? attr).isSome := by
  obtain ⟨text, given, -⟩ := Option.bind_eq_some_iff.1 stated
  rw [given]
  rfl

theorem Site.array_shape_iff {site : Site} {shape : ArrayShape} :
    site.arrayShape = .ok shape ↔
      (∀ attr ∈ [Attribute.offset, .count, .framesize, .size], site.decl.Reads attr) ∧
        site.decl.number? .count ≠ some 0 ∧ some shape.count = site.decl.number? .count ∧
        shape.offset? = site.decl.number? .offset ∧
        shape.framesize? = site.decl.number? .framesize ∧
        shape.size? = site.decl.number? .size := by
  rw [array_shape_eq_ok, positive?_iff .count rfl, number?_iff .offset rfl,
    number?_iff .framesize rfl, number?_iff .size rfl]
  simp only [List.forall_mem_cons]
  constructor
  · intro shaped
    obtain ⟨⟨count, counted, nonzero⟩, ⟨offset, stated⟩, ⟨framesize, framed⟩, size, sized⟩ := shaped
    exact ⟨⟨offset, count, framesize, size, nofun⟩, nonzero, counted, stated, framed, sized⟩
  · intro read
    obtain ⟨⟨offset, count, framesize, size, -⟩, nonzero, counted, stated, framed, sized⟩ := read
    exact ⟨⟨count, counted, nonzero⟩, ⟨offset, stated⟩, ⟨framesize, framed⟩, size, sized⟩

namespace Family

variable {α : Type} [Placeable α] {family : Family α} {wordWidth : Nat} {container : Path}
  {site : Site} {above : Context} {decl : Decl}

/-- Declarations of the family are built exactly when they are valid, and what is built asks for the
place that its declaration says. -/
structure Decides (family : Family α) (wordWidth : Nat) : Prop where
  array : family.arrayKind.isArray = true
  single : family.kind.isArray = false
  template : ∀ kind, family.arrayKind.admits kind = true ↔ kind = family.kind
  named : .name ∈ family.kind.required
  builds : ∀ container above decl, decl.kind = family.kind → decl.Bare →
    ((∃ candidate, family.ofDecl container above decl = .ok candidate) ↔
      decl.ValidThroughout wordWidth)
  requests : ∀ container above decl candidate, decl.kind = family.kind →
    family.ofDecl container above decl = .ok candidate → decl.Requests candidate
  occupied : ∀ site above decl candidate,
    family.entryOfDecl site above decl = .ok candidate → 0 < candidate.size

namespace Decides

section Array

variable {template : Decl} {inner : Candidate α} {space : Space α}

/-- The frame of a template can be arranged and settled just when there is room for it. -/
theorem exists_frame_iff {path : Path} {framesize? : Option Nat}
    (requests : template.Requests inner) (positive : 0 < inner.size) :
    (∃ space frame, arrange { placer := .aligned, resizer := .aligned } [inner] = .ok space ∧
        settledLayout path space framesize? = .ok frame) ↔
      ∃ layout, FirstFits .aligned [template.request] layout ∧
        layout.top ≤ framesize?.getD maxPowerOfTwo := by
  have occupied : ∀ candidate ∈ [inner], 0 < candidate.size :=
    List.forall_mem_singleton.2 positive
  have shapes : [inner].map Candidate.shape = [template.request] := by
    rw [List.map_singleton, requests.shape]
  rw [← shapes]
  refine Iff.trans ?_ (exists_arranged_iff .aligned (· ≤ framesize?.getD maxPowerOfTwo) occupied)
  apply exists_congr
  intro space
  rw [exists_and_left]
  apply and_congr_right
  intro arranged
  exact exists_settled_aligned_iff (arranged_of_arrange arranged).1

theorem frame_size_eq {path : Path} {frame : Layout α} (children : decl.children = [template])
    (single : template.kind.isArray = false) (requests : template.Requests inner)
    (positive : 0 < inner.size)
    (arranged : arrange { placer := .aligned, resizer := .aligned } [inner] = .ok space)
    (framed : settledLayout path space (decl.number? .framesize) = .ok frame) :
    frame.size = decl.frameLength := by
  have stops : inner.offset?.getD 0 + inner.size = decl.templateEnd := by
    rw [requests.offset, requests.size, Decl.length, single, Decl.templateEnd, children]
    rfl
  have top : space.layout.top = decl.templateEnd := by
    have occupied : ∀ candidate ∈ [inner], 0 < candidate.size :=
      List.forall_mem_singleton.2 positive
    obtain ⟨layout, fits, same⟩ :=
      (exists_arranged_iff .aligned (· = space.layout.top) occupied).1 ⟨space, arranged, rfl⟩
    have plain : inner.shape.placer? = none := by
      show inner.placer? = none
      rw [requests.placer, single]
      rfl
    rw [← same, top_of_first_fits_template plain fits]
    exact stops
  obtain ⟨extent, -, rfl⟩ := settled_layout_eq_ok.1 framed
  have reached : Layout.top { space.layout with extent := some extent } = decl.templateEnd := top
  have nonempty : decl.templateEnd ≠ 0 := by omega
  rw [size_of_frame arranged framed, reached, leastFrame, if_neg nonempty]
  rfl

variable (decides : family.Decides wordWidth)

include decides

theorem size_pos {template : Decl} {inner : Candidate α} (kind : template.kind = family.kind)
    (built : family.ofDecl container above template = .ok inner) : 0 < inner.size :=
  decides.occupied ⟨template, container⟩ above template (inner.map .single)
    (entry_of_decl_eq_ok.2 (.inl ⟨kind, inner, built, rfl⟩))

theorem requests_of_array_rule {parts : ArrayParts α} (kind : decl.kind = family.arrayKind)
    (rule : family.ArrayRule container above decl parts) :
    decl.Requests (parts.candidate.map Entry.array) := by
  obtain ⟨-, -, counted, offset, framesize, size⟩ := Site.array_shape_iff.1 rule.shape
  have requests := decides.requests _ _ _ _ rule.kind rule.inner
  have positive := decides.size_pos rule.kind rule.inner
  have array : decl.kind.isArray = true := kind ▸ decides.array
  have single : parts.template.kind.isArray = false := rule.kind ▸ decides.single
  have framed := rule.frame
  rw [framesize] at framed
  have frame := frame_size_eq rule.children single requests positive rule.space framed
  obtain ⟨product, -, -⟩ := Site.array_size_eq_ok.1 rule.size
  refine ⟨?_, ?_⟩
  · show decl.elementName? = some parts.header.path.leaf
    rw [Site.path_of_header rule.header, ArrayParts.site, Path.leaf_child, ← rule.name,
      Decl.elementName?, rule.children]
    rfl
  · have length : parts.size = decl.length := by
      rw [product, frame, Decl.length, if_pos array]
      congr 1
      exact congrArg (·.getD 0) counted
    show (⟨(), parts.shape.offset?, parts.size, some .aligned⟩ : Candidate Unit) = _
    rw [Decl.request, if_pos array, offset, length]
    rfl

theorem valid_of_array_rule {parts : ArrayParts α} (kind : decl.kind = family.arrayKind)
    (bare : decl.Bare) (rule : family.ArrayRule container above decl parts) :
    decl.ValidThroughout wordWidth := by
  obtain ⟨reads, nonzero, counted, -, framesize, size⟩ := Site.array_shape_iff.1 rule.shape
  have requests := requests_of_array_rule decides kind rule
  have array : decl.kind.isArray = true := kind ▸ decides.array
  have inner := decides.requests _ _ _ _ rule.kind rule.inner
  have inside : ∀ child ∈ decl.children, child.ValidThroughout wordWidth := by
    intro child member
    have only : child = parts.template := by
      rw [rule.children] at member
      exact List.mem_singleton.1 member
    subst only
    exact (decides.builds _ _ _ rule.kind (bare.child member)).1 ⟨_, rule.inner⟩
  apply Decl.valid_throughout_iff.2
  refine ⟨(Decl.valid_node_of_array_iff array rule.children).2 ⟨?_, ?_, nonzero, ?_, ?_⟩, inside⟩
  · rw [kind]
    exact (decides.template _).2 rule.kind
  · apply (Decl.attributed_iff (container.child parts.name) parts.name above).2
    refine ⟨rule.keys, ⟨_, rule.header⟩, ?_, ?_⟩
    · rw [Kind.own_attributes_of_array array]
      exact reads
    · rw [Kind.required_of_array array]
      intro attr required
      rw [List.mem_singleton.1 required]
      exact Decl.get?_is_some_of_number? counted.symm
  · have framed := rule.frame
    rw [framesize] at framed
    exact (exists_frame_iff inner (decides.size_pos rule.kind rule.inner)).1
      ⟨parts.space, parts.frame, rule.space, framed⟩
  · obtain ⟨-, bounded, agrees⟩ := Site.array_size_eq_ok.1 rule.size
    have length : parts.size = decl.length := requests.size
    rw [← length]
    exact ⟨bounded, fun stated given => agrees stated (size.trans given)⟩

theorem exists_array_name {template : Decl} (kind : template.kind = family.kind)
    (attributed : template.Attributed) : ∃ name, (decl.name? <|> template.name?) = some name := by
  have given := attributed.given .name (kind ▸ decides.named)
  obtain ⟨borrowed, given⟩ := Option.isSome_iff_exists.1 given
  have given : template.name? = some borrowed := given
  rw [given]
  cases decl.name? with
  | none => exact ⟨borrowed, rfl⟩
  | some own => exact ⟨own, rfl⟩

theorem array_of_valid (kind : decl.kind = family.arrayKind)
    (valid : decl.ValidThroughout wordWidth) :
    ∃ candidate, family.arrayOfDecl container above decl = .ok candidate := by
  have array : decl.kind.isArray = true := kind ▸ decides.array
  obtain ⟨node, inside⟩ := Decl.valid_throughout_iff.1 valid
  obtain ⟨template, children⟩ := node.nested.template array
  obtain ⟨admitted, attributed, nonzero, room, bounded, agrees⟩ :=
    (Decl.valid_node_of_array_iff array children).1 node
  have templateKind : template.kind = family.kind := by
    apply (decides.template _).1
    rwa [← kind]
  have templateValid : template.ValidThroughout wordWidth := by
    apply inside
    rw [children]
    exact List.mem_singleton_self _
  have templateNode := (Decl.valid_throughout_iff.1 templateValid).1
  obtain ⟨name, named⟩ : ∃ name, (decl.name? <|> template.name?) = some name :=
    exists_array_name decides templateKind templateNode.attributed
  let site : Site := ⟨decl, container.child name⟩
  obtain ⟨keys, ⟨header, headed⟩, reads, required⟩ :=
    (Decl.attributed_iff site.path name above).1 attributed
  rw [Kind.own_attributes_of_array array] at reads
  rw [Kind.required_of_array array] at required
  obtain ⟨count, counted⟩ := Option.isSome_iff_exists.1 <|
    Decl.number?_of_reads rfl (reads .count (by simp)) (required .count (by simp))
  let shape : ArrayShape :=
    ⟨count, decl.number? .offset, decl.number? .framesize, decl.number? .size⟩
  have shaped : site.arrayShape = .ok shape :=
    Site.array_shape_iff.2 ⟨reads, nonzero, counted.symm, rfl, rfl, rfl⟩
  obtain ⟨inner, built⟩ := (decides.builds (container.child name) header.context template
    templateKind templateValid.bare).2 templateValid
  have requests := decides.requests _ _ _ _ templateKind built
  have positive := decides.size_pos templateKind built
  obtain ⟨space, frame, arranged, framed⟩ :=
    (@exists_frame_iff _ _ _ _ (container.child name) _ requests positive).2 room
  have size := frame_size_eq children (templateKind ▸ decides.single) requests positive arranged
    framed
  have length : frame.size * count = decl.length := by
    rw [size, Decl.length, if_pos array, counted]
    rfl
  rw [← length] at bounded agrees
  have sized : site.arraySize shape frame.size = .ok (frame.size * count) :=
    Site.array_size_eq_ok.2 ⟨rfl, bounded, agrees⟩
  let parts : ArrayParts α :=
    ⟨template, name, shape, header, inner, space, frame, frame.size * count⟩
  have rule : family.ArrayRule container above decl parts :=
    ⟨children, templateKind, named, keys, shaped, headed, built, arranged, framed, sized⟩
  exact ⟨_, array_of_decl_eq_ok.2 ⟨parts, rule, rfl⟩⟩

end Array

variable (decides : family.Decides wordWidth)

include decides

theorem exists_entry_iff (bare : decl.Bare) :
    (∃ candidate, family.entryOfDecl site above decl = .ok candidate) ↔
      (decl.kind = family.kind ∨ decl.kind = family.arrayKind) ∧
        decl.ValidThroughout wordWidth := by
  constructor
  · intro built
    obtain ⟨candidate, built⟩ := built
    rcases entry_of_decl_eq_ok.1 built with ⟨kind, inner, made, -⟩ | ⟨-, kind, inner, made, -⟩
    · exact ⟨.inl kind, (decides.builds _ _ _ kind bare).1 ⟨inner, made⟩⟩
    · obtain ⟨parts, rule, -⟩ := array_of_decl_eq_ok.1 made
      exact ⟨.inr kind, valid_of_array_rule decides kind bare rule⟩
  · intro both
    obtain ⟨kind | kind, valid⟩ := both
    · obtain ⟨inner, made⟩ := (decides.builds site.path above decl kind bare).2 valid
      exact ⟨_, entry_of_decl_eq_ok.2 (.inl ⟨kind, inner, made, rfl⟩)⟩
    · have other : decl.kind ≠ family.kind := by
        intro same
        have single := decides.single
        rw [← same, kind, decides.array] at single
        contradiction
      obtain ⟨inner, made⟩ := array_of_valid decides kind valid
      exact ⟨_, entry_of_decl_eq_ok.2 (.inr ⟨other, kind, inner, made, rfl⟩)⟩

theorem requests_of_entry {candidate : Candidate (Entry α)}
    (built : family.entryOfDecl site above decl = .ok candidate) : decl.Requests candidate := by
  rcases entry_of_decl_eq_ok.1 built with ⟨kind, inner, made, rfl⟩ | ⟨-, kind, inner, made, rfl⟩
  · have requests := decides.requests _ _ _ _ kind made
    exact ⟨requests.name, requests.shape⟩
  · obtain ⟨parts, rule, rfl⟩ := array_of_decl_eq_ok.1 made
    exact requests_of_array_rule decides kind rule

theorem requests_of_children {candidates : List (Candidate (Entry α))}
    (built : family.children site above = .ok candidates) :
    site.decl.children.map Decl.request = candidates.map Candidate.shape := by
  rw [← List.forall₂_eq_eq_eq, List.forall₂_map_left_iff, List.forall₂_map_right_iff]
  exact (children_eq_ok.1 built).1.imp fun decl candidate made =>
    (requests_of_entry decides made).shape.symm

theorem exists_children_iff (bare : site.decl.Bare)
    (admits : ∀ kind, site.decl.kind.admits kind = true ↔
      kind = family.kind ∨ kind = family.arrayKind) :
    (∃ candidates, family.children site above = .ok candidates) ↔
      site.decl.ValidInside wordWidth := by
  have names {candidates : List (Candidate (Entry α))}
      (built : List.Forall₂
        (fun decl candidate => family.entryOfDecl site above decl = .ok candidate)
        site.decl.children candidates) :
      (site.decl.children.map Decl.elementName?).Nodup ↔
        (candidates.map fun candidate => candidate.path.leaf).Nodup := by
    have same : site.decl.children.map Decl.elementName? =
        (candidates.map fun candidate => candidate.path.leaf).map some := by
      rw [List.map_map, ← List.forall₂_eq_eq_eq, List.forall₂_map_left_iff,
        List.forall₂_map_right_iff]
      exact built.imp fun decl candidate made => (requests_of_entry decides made).name
    rw [same]
    exact List.nodup_map_iff (Option.some_injective _)
  have entries : (∀ child ∈ site.decl.children,
      ∃ candidate, family.entryOfDecl site above child = .ok candidate) ↔
        ∀ child ∈ site.decl.children,
          site.decl.kind.admits child.kind ∧ child.ValidThroughout wordWidth := by
    apply forall₂_congr
    intro child member
    rw [exists_entry_iff decides (bare.child member), admits]
  rw [← exists_forall₂_iff] at entries
  constructor
  · intro built
    obtain ⟨candidates, built⟩ := built
    obtain ⟨each, distinct⟩ := children_eq_ok.1 built
    exact ⟨entries.1 ⟨candidates, each⟩, (names each).2 distinct⟩
  · intro inside
    obtain ⟨candidates, each⟩ := entries.2 inside.valid
    exact ⟨candidates, children_eq_ok.2 ⟨each, (names each).1 inside.distinct⟩⟩

/-- The children of a container can be built and arranged just when they are valid, differ by their
names, and have room. -/
theorem exists_space_iff {placer : Placer} (good : Nat → Prop) (bare : site.decl.Bare)
    (admits : ∀ kind, site.decl.kind.admits kind = true ↔
      kind = family.kind ∨ kind = family.arrayKind) :
    (∃ candidates, family.children site above = .ok candidates ∧
        ∃ space, arrange { placer, resizer := .linear } candidates = .ok space ∧
          good space.layout.top) ↔
      site.decl.ValidInside wordWidth ∧
        ∃ layout, FirstFits placer (site.decl.children.map Decl.request) layout ∧
          good layout.top := by
  have room {candidates : List (Candidate (Entry α))}
      (built : family.children site above = .ok candidates) :
      (∃ space, arrange { placer, resizer := .linear } candidates = .ok space ∧
          good space.layout.top) ↔
        ∃ layout, FirstFits placer (site.decl.children.map Decl.request) layout ∧
          good layout.top := by
    rw [requests_of_children decides built]
    apply exists_arranged_iff
    intro candidate member
    obtain ⟨decl, -, made⟩ := exists_related_of_mem (children_eq_ok.1 built).1 member
    exact decides.occupied _ _ _ _ made
  rw [← exists_children_iff decides bare admits]
  constructor
  · intro arranged
    obtain ⟨candidates, built, arranged⟩ := arranged
    exact ⟨⟨candidates, built⟩, (room built).1 arranged⟩
  · intro both
    obtain ⟨⟨candidates, built⟩, fits⟩ := both
    exact ⟨candidates, built, (room built).2 fits⟩

end Decides

end Family

end AddressMap
