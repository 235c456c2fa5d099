import AddressMap.Proofs.Elaboration.Roots
import AddressMap.Proofs.Element.WellFormed

/-!
# What is built is well-formed

Each builder answers a well-formed element. A family yields well-formed elements when its own
builder does; its arrays, its entries and the layouts of them follow from that alone, for all three
families at once.
-/

namespace AddressMap

set_option autoImplicit false

theorem Layout.top_le {α : Type} {layout : Layout α} {bound : Nat}
    (bounded : ∀ placed ∈ layout.items, placed.stop ≤ bound) : layout.top ≤ bound := by
  unfold Layout.top
  revert bounded
  induction layout.items with
  | nil => exact fun _ => Nat.zero_le bound
  | cons head rest ih =>
      intro bounded
      rw [List.foldr_cons]
      have first := bounded head List.mem_cons_self
      have others := ih fun placed later => bounded placed (List.mem_cons_of_mem head later)
      omega

theorem Resizer.extent_le_max_address {resizer : Resizer} {occupied extent : Nat}
    (bounded : occupied ≤ maxAddress) (answered : resizer.extent occupied = .ok extent) :
    extent ≤ maxAddress := by
  cases resizer with
  | manual => exact Except.ok.inj answered ▸ bounded
  | linear => exact Except.ok.inj answered ▸ bounded
  | aligned =>
      have small : maxPowerOfTwo ≤ maxAddress := by decide
      simp only [Resizer.extent] at answered
      split at answered
      · cases answered
        exact Nat.zero_le _
      · split at answered
        · cases answered
          omega
        · contradiction

namespace Layout

variable {α : Type} [Placeable α] [Sited α] {candidates : List (Candidate α)} {layout : Layout α}
  {good : α → Prop}

theorem seats_of_arranged (arranged : Arranged candidates layout)
    (moved : ∀ element start, good element → good (Placeable.moveTo element start))
    (built : ∀ candidate ∈ candidates,
      good candidate.item ∧ candidate.size = Sited.size candidate.item)
    (distinct : (candidates.map fun candidate => candidate.path.leaf).Nodup) :
    layout.Seats good := by
  obtain ⟨placed, perm, stands⟩ := arranged.stands
  have source : ∀ entry ∈ layout.items, ∃ candidate ∈ candidates, candidate.StandsAs entry := by
    intro entry member
    obtain ⟨candidate, present, found⟩ := exists_related_of_mem stands (perm.mem_iff.2 member)
    exact ⟨candidate, present, found⟩
  refine ⟨arranged.valid, fun entry member => ?_, ?_, fun entry member => ?_⟩
  · obtain ⟨candidate, present, found⟩ := source entry member
    rw [found.item, found.size, (built candidate present).2]
    simp
  · have names : (candidates.map fun candidate => candidate.path.leaf) =
        placed.map fun entry => (Placeable.header entry.item).path.leaf := by
      rw [← List.forall₂_eq_eq_eq, List.forall₂_map_left_iff, List.forall₂_map_right_iff]
      refine stands.imp fun candidate entry found => ?_
      rw [found.item, Sited.header_move_to]
      rfl
    rw [names] at distinct
    exact ((perm.map _).nodup_iff).1 distinct
  · obtain ⟨candidate, present, found⟩ := source entry member
    rw [found.item]
    exact moved _ _ (built candidate present).1

theorem holds_of_settled {path : Path} {space : Space α} {declared? : Option Nat}
    (seats : space.layout.Seats good)
    (declared : ∀ extent, declared? = some extent → extent ≤ maxAddress)
    (settled : settledLayout path space declared? = .ok layout) :
    layout.Holds good ∧ ∀ extent, declared? = some extent → layout.size = extent := by
  obtain ⟨extent, settles, rfl⟩ := settled_layout_eq_ok.1 settled
  have bounded : extent ≤ maxAddress := by
    cases declared? with
    | some stated =>
        obtain ⟨-, rfl⟩ := settles
        exact declared stated rfl
    | none => exact Resizer.extent_le_max_address (top_le seats.valid.bounded) settles
  refine ⟨⟨⟨⟨seats.valid.ordered, seats.valid.bounded, seats.valid.apart⟩, seats.sited,
    seats.distinct, seats.good⟩, rfl, Space.top_le_of_settles settles, bounded⟩, ?_⟩
  intro stated same
  subst same
  exact settles.2.symm

end Layout

section Family

variable {α : Type} [Placeable α] [Sited α] {family : Family α} {good : Path → α → Prop}

/-- The family builds good elements of the size that they say they have, and to place an element
does not change whether it is good. -/
structure Family.Yields (family : Family α) (good : Path → α → Prop) : Prop where
  moved : ∀ container element start,
    good container element → good container (Placeable.moveTo element start)
  built : ∀ container above decl candidate,
    family.ofDecl container above decl = .ok candidate →
      good container candidate.item ∧ candidate.size = Sited.size candidate.item

namespace Family.Yields

theorem moved_entry (yields : family.Yields good) (container : Path) (entry : Entry α)
    (start : Nat) (well : entry.WellFormed good container) :
    (Placeable.moveTo entry start).WellFormed good container := by
  cases entry with
  | single element => exact yields.moved container element start well
  | array elements =>
      exact ⟨well.path, well.repeated, well.countBounded, well.template, well.frame,
        well.framesize, well.size, well.bounded⟩

theorem well_formed_of_array_rule (yields : family.Yields good) {container : Path}
    {above : Context} {decl : Decl} {parts : ArrayParts α}
    (rule : family.ArrayRule container above decl parts) :
    parts.candidate.item.WellFormed good container := by
  have path : parts.header.path = container.child parts.name := Site.path_of_header rule.header
  have name : parts.header.name = parts.name := Site.name_of_header rule.header
  obtain ⟨counted, -, framesized, -⟩ := Site.array_shape_eq_ok.1 rule.shape
  obtain ⟨counts, nonzero⟩ := Site.positive?_eq_ok.1 counted
  obtain ⟨size, bounded, -⟩ := Site.array_size_eq_ok.1 rule.size
  obtain ⟨inner, sized⟩ := yields.built _ _ _ _ rule.inner
  obtain ⟨-, -, arranged⟩ := arranged_of_arrange rule.space
  have seats : parts.space.layout.Seats (good (container.child parts.name)) := by
    refine Layout.seats_of_arranged arranged (yields.moved _) ?_ ?_
    · exact List.forall_mem_singleton.2 ⟨inner, sized⟩
    · exact List.nodup_singleton _
  have declared : ∀ extent, parts.shape.framesize? = some extent → extent ≤ maxAddress := by
    intro extent stated
    rw [stated] at framesized
    exact Site.le_max_address_of_number? framesized
  obtain ⟨holds, -⟩ := Layout.holds_of_settled seats declared rule.frame
  refine ⟨?_, Nat.pos_of_ne_zero fun zero => nonzero (congrArg some zero),
    Site.le_max_address_of_number? counts, ?_, ?_, rfl, size, bounded⟩
  · exact path.trans (congrArg container.child name.symm)
  · obtain ⟨placed, perm, stands⟩ := arranged.stands
    obtain ⟨extent, -, frame⟩ := settled_layout_eq_ok.1 rule.frame
    cases stands with
    | @cons _ only _ _ found none =>
        cases none
        refine ⟨only, ?_⟩
        show parts.frame.items = [only]
        rw [frame]
        exact (List.singleton_perm.1 perm).symm
  · show parts.frame.Holds (good parts.header.path)
    rw [path]
    exact holds

theorem well_formed_of_entry (yields : family.Yields good) {container : Site} {above : Context}
    {decl : Decl} {candidate : Candidate (Entry α)}
    (built : family.entryOfDecl container above decl = .ok candidate) :
    candidate.item.WellFormed good container.path ∧
      candidate.size = Sited.size candidate.item := by
  rcases entry_of_decl_eq_ok.1 built with ⟨-, inner, single, rfl⟩ | ⟨-, -, inner, array, rfl⟩
  · exact yields.built _ _ _ _ single
  · obtain ⟨parts, rule, rfl⟩ := array_of_decl_eq_ok.1 array
    exact ⟨well_formed_of_array_rule yields rule, rfl⟩

/-- The children of a container seat a well-formed layout. -/
theorem seats_of_children (yields : family.Yields good) {container : Site} {above : Context}
    {candidates : List (Candidate (Entry α))} {placer : Placer} {resizer : Resizer}
    {space : Space (Entry α)}
    (built : family.children container above = .ok candidates)
    (arranged : arrange { placer, resizer } candidates = .ok space) :
    space.layout.Seats (Entry.WellFormed good container.path) := by
  obtain ⟨each, distinct⟩ := children_eq_ok.1 built
  obtain ⟨-, -, holds⟩ := arranged_of_arrange arranged
  refine Layout.seats_of_arranged holds (moved_entry yields _) (fun candidate member => ?_) distinct
  obtain ⟨decl, -, made⟩ := exists_related_of_mem each member
  exact well_formed_of_entry yields made

theorem holds_of_layout_rule (yields : family.Yields good) {placer : Placer} {site : Site}
    {above : Context} {layout : Layout (Entry α)}
    (rule : family.LayoutRule placer site above layout) :
    layout.Holds (Entry.WellFormed good site.path) := by
  obtain ⟨candidates, space, declared?, built, arranged, declared, settled⟩ := rule.arranged
  have seats := seats_of_children yields built arranged
  refine (Layout.holds_of_settled seats (fun extent stated => ?_) settled).1
  rw [stated] at declared
  exact Site.le_max_address_of_number? declared

end Family.Yields

end Family

namespace EnumValue

theorem next?_bounded {largest? : Option Nat} {number : Nat}
    (next : next? largest? = some number) : number ≤ maxAddress := by
  cases largest? with
  | none => exact Option.some.inj next ▸ Nat.zero_le _
  | some largest =>
      simp only [next?, boundedSum?, Option.ite_none_right_eq_some, Option.some.injEq] at next
      omega

theorem well_formed_of_rule {field : Site} {size : Nat} {above : Context} {names : List String}
    {largest? : Option Nat} {decl : Decl} {value : EnumValue}
    (rule : Rule field size above names largest? decl value) :
    value.WellFormed size field.path := by
  refine ⟨Site.path_of_titled rule.titled, rule.fits, ?_⟩
  obtain ⟨stated?, read, chosen⟩ := number_eq_ok.1 rule.number
  cases stated? with
  | some stated =>
      rw [← Option.some.inj chosen]
      exact Site.le_max_address_of_number? read
  | none => exact next?_bounded chosen

theorem well_formed_of_decls {field : Site} {size : Nat} {above : Context} {names : List String}
    {largest? : Option Nat} {decls : List Decl} {values : List EnumValue}
    (built : EnumValue.ofDecls field size above names largest? decls = .ok values) :
    (∀ value ∈ values, value.WellFormed size field.path) ∧
      Claimable names (values.map (·.header.name)) := by
  induction decls generalizing names largest? values with
  | nil =>
      cases built
      exact ⟨nofun, claimable_nil names⟩
  | cons decl rest ih =>
      obtain ⟨value, others, rule, later, rfl⟩ := of_decls_cons_eq_ok.1 built
      have well := well_formed_of_rule rule
      obtain ⟨wells, claims⟩ := ih later
      rw [well.path, Path.leaf_child] at claims
      exact ⟨List.forall_mem_cons.2 ⟨well, wells⟩, claimable_cons.2 ⟨rule.free, claims⟩⟩

end EnumValue

theorem Field.yields : Field.family.Yields Field.WellFormed := by
  constructor
  · exact fun _ _ _ well =>
      ⟨well.path, well.positive, well.bounded, well.values, well.distinct⟩
  · intro container above decl candidate built
    have rule := Field.of_decl_eq_ok.1 built
    have path := Site.path_of_header rule.titled.header
    obtain ⟨size?, read, size⟩ := rule.size
    obtain ⟨number, nonzero⟩ := Site.positive?_eq_ok.1 read
    obtain ⟨values, claims⟩ := EnumValue.well_formed_of_decls rule.values
    have distinct := claimable_untaken.1 claims
    have same : candidate.item.size = candidate.size := rule.plain.2.1
    refine ⟨⟨Site.path_of_titled rule.titled, ?_, ?_, ?_, distinct⟩, same.symm⟩
    · rw [same, ← size]
      cases size? with
      | none => exact Nat.one_pos
      | some stated => exact Nat.pos_of_ne_zero fun zero => nonzero (congrArg some zero)
    · rw [same, ← size]
      cases size? with
      | none => decide
      | some stated => exact Site.le_max_address_of_number? number
    · rw [same, path]
      exact values

theorem Register.yields {wordWidth : Nat} (word : IsWordWidth wordWidth) :
    (Register.family wordWidth).Yields (Register.WellFormed wordWidth) := by
  constructor
  · exact fun _ _ _ well =>
      ⟨well.path, well.positive, well.inWord, well.fits, well.resetBounded, well.layout, well.width⟩
  · intro container above decl candidate built
    have rule := Register.of_decl_eq_ok.1 built
    have path := Site.path_of_header rule.titled.header
    obtain ⟨width?, -, width, stated⟩ := Register.stated_width_eq_ok.1 rule.width
    obtain ⟨reset?, read, reset, fits⟩ := Register.stated_reset_eq_ok.1 rule.reset
    obtain ⟨fields, children, arranging⟩ := rule.fields
    obtain ⟨space, arranged, -, settled⟩ := Register.arrange_fields_eq_ok.1 arranging
    have inWord : 1 ≤ candidate.item.width ∧ candidate.item.width ≤ wordWidth := by
      have positive : 8 ≤ wordWidth := word.1
      rw [← width]
      cases width? with
      | none => exact ⟨Nat.le_trans (by decide) positive, Nat.le_refl _⟩
      | some number => exact stated number rfl
    have bounded : ∀ extent, some candidate.item.width = some extent → extent ≤ maxAddress := by
      rintro _ ⟨⟩
      have small : wordWidthBound ≤ maxAddress := by decide
      have wordBound := word.2.2
      omega
    have resetBounded : candidate.item.reset ≤ maxAddress := by
      cases reset? with
      | none => exact reset ▸ Nat.zero_le _
      | some number => exact reset ▸ Site.le_max_address_of_number? read
    have seats := Field.yields.seats_of_children children arranged
    obtain ⟨holds, size⟩ := Layout.holds_of_settled seats bounded settled
    refine ⟨⟨Site.path_of_titled rule.titled, inWord.1, inWord.2, fits, resetBounded, ?_, ?_⟩,
      rule.plain.2.1⟩
    · rw [path]
      exact holds
    · exact (size _ rfl).symm

theorem Component.well_formed_of_built {decl : Decl} {component : Component}
    (built : Component.ofDecl decl = .ok component) : component.WellFormed := by
  have rule := Component.of_decl_eq_ok.1 built
  have path := Site.path_of_header rule.titled.header
  obtain ⟨-, checked⟩ := Component.stated_width_eq_ok.1 rule.width
  obtain ⟨word, -⟩ := Site.check_word_width_eq_ok.1 checked
  refine ⟨Site.path_of_titled_root rule.titled, word, ?_, rule.size⟩
  rw [path]
  exact (Register.yields word).holds_of_layout_rule rule.layout

theorem Instance.yields (catalog : Catalog) :
    (Instance.family catalog).Yields (Instance.WellFormed catalog) := by
  constructor
  · exact fun _ _ _ well => ⟨well.path, well.bound, well.sized⟩
  · intro container above decl candidate built
    have rule := Instance.of_decl_eq_ok.1 built
    have sized : candidate.size = Sited.size candidate.item := by
      show candidate.size = candidate.item.byteSize?.getD 0
      rw [rule.size, Option.getD_some]
    exact ⟨⟨Site.path_of_titled rule.titled, rule.bound, sized ▸ rule.size⟩, sized⟩

theorem MemoryMap.well_formed_of_built {catalog : Catalog} {defaults : MapDefaults} {decl : Decl}
    {map : MemoryMap} (built : MemoryMap.ofDecl catalog defaults decl = .ok map) :
    map.WellFormed catalog := by
  have rule := MemoryMap.of_decl_eq_ok.1 built
  have path := Site.path_of_header rule.titled.header
  obtain ⟨width?, -, checked⟩ := rule.width
  obtain ⟨word, same⟩ := Site.check_word_width_eq_ok.1 checked
  refine ⟨Site.path_of_titled_root rule.titled, same ▸ word, ?_, rule.size⟩
  rw [path]
  exact (Instance.yields catalog).holds_of_layout_rule rule.layout

theorem MemoryMap.base_bounded_of_built {catalog : Catalog} {defaults : MapDefaults} {decl : Decl}
    {map : MemoryMap} (bounded : defaults.base ≤ maxAddress)
    (built : MemoryMap.ofDecl catalog defaults decl = .ok map) : map.base ≤ maxAddress := by
  have rule := MemoryMap.of_decl_eq_ok.1 built
  obtain ⟨base?, read, base⟩ := rule.base
  cases base? with
  | none => exact base ▸ bounded
  | some stated => exact base ▸ Site.le_max_address_of_number? read

/-- Every design is well-formed. -/
theorem Design.well_formed_of_built {defaults : MapDefaults} {decls : List Decl} {design : Design}
    (built : Design.ofDecls defaults decls = .ok design) : design.WellFormed := by
  have rule := Design.of_decls_eq_ok.1 built
  refine ⟨fun component member => ?_, fun map member => ?_, rule.distinct, rule.catalog⟩
  · obtain ⟨decl, -, made⟩ := exists_related_of_mem rule.components member
    exact Component.well_formed_of_built made
  · obtain ⟨decl, -, made⟩ := exists_related_of_mem rule.memoryMaps member
    exact MemoryMap.well_formed_of_built made

end AddressMap
