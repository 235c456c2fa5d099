import AddressMap.Proofs.Elaboration.Candidates
import AddressMap.Proofs.Elaboration.Offering

/-!
# One more child

A child without an offset that is declared behind all others is placed last, in a gap that the
others leave. So it moves none of them, and a container that has it is no shorter than without it.
-/

namespace AddressMap

set_option autoImplicit false

def Decl.append (decl child : Decl) : Decl :=
  decl.withChildren (decl.children ++ [child])

theorem Site.header_unique {site : Site} {above : Context} {first second : Header}
    (titled : site.Titled above first) (again : site.Titled above second) : first = second := by
  have names : first.name = second.name :=
    Option.some.inj (titled.name.symm.trans again.name)
  have headed := titled.header
  rw [names] at headed
  exact Except.ok.inj (headed.symm.trans again.header)

namespace Family

variable {α : Type} [Placeable α] {family : Family α} {site : Site} {above : Context}
  {child : Decl}

/-- The second layout holds every child as the first does, and besides only what the declaration
builds. -/
structure Gains (family : Family α) (site : Site) (above : Context) (child : Decl)
    (before after : Layout (Entry α)) : Prop where
  added : ∃ candidate start, family.entryOfDecl site above child = .ok candidate ∧
    after.items = Layout.insertByStart
      ⟨Placeable.moveTo candidate.item start, start, candidate.size⟩ before.items
  size : before.size ≤ after.size

theorem entries_append {decls : List Decl} {candidates all : List (Candidate (Entry α))}
    (built : List.Forall₂
      (fun decl candidate => family.entryOfDecl site above decl = .ok candidate) decls candidates)
    (builtAll : List.Forall₂
      (fun decl candidate => family.entryOfDecl site above decl = .ok candidate)
      (decls ++ [child]) all) :
    ∃ candidate, family.entryOfDecl site above child = .ok candidate ∧
      all = candidates ++ [candidate] := by
  induction built generalizing all with
  | nil =>
      cases builtAll with
      | cons made none =>
          cases none
          exact ⟨_, made, rfl⟩
  | @cons decl candidate decls candidates made _ ih =>
      cases builtAll with
      | cons again others =>
          obtain ⟨last, madeLast, rfl⟩ := ih others
          cases made.symm.trans again
          exact ⟨last, madeLast, rfl⟩

/-- The layouts of a container without and with one more child that waits behind the others. -/
theorem gains_of_settled {placer : Placer} {candidates all : List (Candidate (Entry α))}
    {space next : Space (Entry α)} {path : Path} {declared? : Option Nat}
    {before after : Layout (Entry α)} (reads : family.ReadsOffset) (unplaced : child.isUnplaced)
    (built : family.children site above = .ok candidates)
    (builtAll : family.children ⟨site.decl.append child, site.path⟩ above = .ok all)
    (arranged : arrange { placer, resizer := .linear } candidates = .ok space)
    (arrangedAll : arrange { placer, resizer := .linear } all = .ok next)
    (settled : settledLayout path space declared? = .ok before)
    (settledAll : settledLayout path next declared? = .ok after) :
    family.Gains site above child before after := by
  have eachOfAll := (children_eq_ok.1 builtAll).1.imp fun decl candidate made =>
    (entry_of_decl_congr rfl).1 made
  obtain ⟨candidate, made, rfl⟩ := entries_append (children_eq_ok.1 built).1 eachOfAll
  have unstated : candidate.offset? = none := by
    rw [reads.is_unplaced made] at unplaced
    exact Option.isNone_iff_eq_none.1 unplaced
  obtain ⟨start, inserted⟩ := arrange_behind unstated arranged arrangedAll
  obtain ⟨extent, settles, rfl⟩ := settled_layout_eq_ok.1 settled
  obtain ⟨last, settlesAll, rfl⟩ := settled_layout_eq_ok.1 settledAll
  refine ⟨⟨candidate, start, made, by rw [inserted]; rfl⟩, ?_⟩
  show extent ≤ last
  cases declared? with
  | some declared =>
      obtain ⟨-, rfl⟩ := settles
      obtain ⟨-, rfl⟩ := settlesAll
      exact Nat.le_refl _
  | none =>
      have linear := (arranged_of_arrange arranged).1
      have linearAll := (arranged_of_arrange arrangedAll).1
      simp only [Space.Settles, linear, linearAll, Resizer.extent] at settles settlesAll
      cases settles
      cases settlesAll
      rw [inserted, Layout.top_insert]
      exact Nat.le_max_right _ _

theorem gains_of_layout_rule {placer : Placer} {before after : Layout (Entry α)}
    (reads : family.ReadsOffset) (unplaced : child.isUnplaced)
    (rule : family.LayoutRule placer site above before)
    (ruleAll : family.LayoutRule placer ⟨site.decl.append child, site.path⟩ above after) :
    family.Gains site above child before after := by
  obtain ⟨candidates, space, declared?, built, arranged, declared, settled⟩ := rule.arranged
  obtain ⟨all, next, other?, builtAll, arrangedAll, declaredAll, settledAll⟩ := ruleAll.arranged
  cases declared.symm.trans ((Site.number?_with_children .size).symm.trans declaredAll)
  exact gains_of_settled reads unplaced built builtAll arranged arrangedAll settled settledAll

end Family

variable {decl child : Decl}

theorem Component.gains_of_built {component extended : Component} (unplaced : child.isUnplaced)
    (built : Component.ofDecl decl = .ok component)
    (builtMore : Component.ofDecl (decl.append child) = .ok extended) :
    (Register.family component.width).Gains ⟨decl, component.header.path⟩
        component.header.context child component.layout extended.layout ∧
      component.size ≤ extended.size ∧
      extended = { component with size := extended.size, layout := extended.layout } := by
  have rule := Component.of_decl_eq_ok.1 built
  have ruleMore := Component.of_decl_eq_ok.1 builtMore
  have header : extended.header = component.header :=
    Site.header_unique (Site.titled_with_children.1 ruleMore.titled) rule.titled
  have width : extended.width = component.width := by
    have first := (Component.stated_width_eq_ok.1 rule.width).1
    have second := (Component.stated_width_eq_ok.1 ruleMore.width).1
    have same := second.symm.trans ((Site.number?_with_children .width).trans first)
    exact Option.some.inj (Except.ok.inj same)
  have layout := ruleMore.layout
  rw [header, width] at layout
  rw [Site.path_of_header rule.titled.header]
  have gains := Family.gains_of_layout_rule (Register.reads_offset _) unplaced rule.layout layout
  refine ⟨gains, ?_, ?_⟩
  · rw [rule.size, ruleMore.size]
    exact gains.size
  · rw [← header, ← width]

theorem MemoryMap.gains_of_built {catalog : Catalog} {defaults : MapDefaults}
    {map extended : MemoryMap} (unplaced : child.isUnplaced)
    (built : MemoryMap.ofDecl catalog defaults decl = .ok map)
    (builtMore : MemoryMap.ofDecl catalog defaults (decl.append child) = .ok extended) :
    (Instance.family catalog).Gains ⟨decl, map.header.path⟩ map.header.context child map.layout
        extended.layout ∧
      map.size ≤ extended.size ∧
      extended = { map with size := extended.size, layout := extended.layout } := by
  have rule := MemoryMap.of_decl_eq_ok.1 built
  have ruleMore := MemoryMap.of_decl_eq_ok.1 builtMore
  have header : extended.header = map.header :=
    Site.header_unique (Site.titled_with_children.1 ruleMore.titled) rule.titled
  have base : extended.base = map.base := by
    obtain ⟨first?, read, first⟩ := rule.base
    obtain ⟨second?, readMore, second⟩ := ruleMore.base
    cases readMore.symm.trans ((Site.number?_with_children .base).trans read)
    exact second.symm.trans first
  have width : extended.width = map.width := by
    obtain ⟨first?, read, first⟩ := rule.width
    obtain ⟨second?, readMore, second⟩ := ruleMore.width
    cases readMore.symm.trans ((Site.number?_with_children .width).trans read)
    rw [← (Site.check_word_width_eq_ok.1 first).2, ← (Site.check_word_width_eq_ok.1 second).2]
  have layout := ruleMore.layout
  rw [header] at layout
  rw [Site.path_of_header rule.titled.header]
  have gains := Family.gains_of_layout_rule (Instance.reads_offset _) unplaced rule.layout layout
  refine ⟨gains, ?_, ?_⟩
  · rw [rule.size, ruleMore.size]
    exact gains.size
  · rw [← header, ← base, ← width]

theorem Register.gains_of_built {wordWidth : Nat} {container : Path} {above : Context}
    {candidate extended : Candidate Register} (unplaced : child.isUnplaced)
    (built : Register.ofDecl wordWidth container above decl = .ok candidate)
    (builtMore : Register.ofDecl wordWidth container above (decl.append child) = .ok extended) :
    Field.family.Gains (decl.siteIn container) candidate.item.header.context child
        candidate.item.layout extended.item.layout ∧
      extended = { candidate with
        item := { candidate.item with layout := extended.item.layout } } := by
  have rule := Register.of_decl_eq_ok.1 built
  have ruleMore := Register.of_decl_eq_ok.1 builtMore
  let site := decl.siteIn container
  have number (attr : Attribute) :
      (Decl.siteIn (decl.append child) container).number? attr = site.number? attr :=
    Site.number?_with_children attr
  have header : extended.item.header = candidate.item.header :=
    Site.header_unique (Site.titled_with_children.1 ruleMore.titled) rule.titled
  have offset : extended.offset? = candidate.offset? :=
    Except.ok.inj (ruleMore.offset.symm.trans ((number .offset).trans rule.offset))
  have width : extended.item.width = candidate.item.width := by
    obtain ⟨first?, read, first, -⟩ := Register.stated_width_eq_ok.1 rule.width
    obtain ⟨second?, readMore, second, -⟩ := Register.stated_width_eq_ok.1 ruleMore.width
    cases readMore.symm.trans ((number .width).trans read)
    exact second.symm.trans first
  have reset : extended.item.reset = candidate.item.reset := by
    obtain ⟨first?, read, first, -⟩ := Register.stated_reset_eq_ok.1 rule.reset
    obtain ⟨second?, readMore, second, -⟩ := Register.stated_reset_eq_ok.1 ruleMore.reset
    cases readMore.symm.trans ((number .reset).trans read)
    exact second.symm.trans first
  obtain ⟨fields, children, arranging⟩ := rule.fields
  obtain ⟨all, childrenMore, arrangingMore⟩ := ruleMore.fields
  obtain ⟨space, arranged, -, settled⟩ := Register.arrange_fields_eq_ok.1 arranging
  obtain ⟨next, arrangedMore, -, settledMore⟩ := Register.arrange_fields_eq_ok.1 arrangingMore
  rw [header] at childrenMore
  rw [width] at settledMore
  refine ⟨Family.gains_of_settled Field.reads_offset unplaced children childrenMore arranged
    arrangedMore settled settledMore, ?_⟩
  obtain ⟨start, size, placer⟩ := rule.plain
  obtain ⟨startMore, sizeMore, placerMore⟩ := ruleMore.plain
  obtain ⟨⟨_, _, _, _, _⟩, _, _, _⟩ := candidate
  obtain ⟨⟨_, _, _, _, _⟩, _, _, _⟩ := extended
  dsimp only at header offset width reset start size placer startMore sizeMore placerMore
  subst header offset width reset start size placer startMore sizeMore placerMore
  rfl

/-- A child without an offset that is declared behind all others of a component, a register or a
memory map moves none of them, and nothing else changes but a size that may grow. -/
theorem Decl.children_kept_before_unplaced (unplaced : child.isUnplaced) :
    (∀ component extended, Component.ofDecl decl = .ok component →
      Component.ofDecl (decl.append child) = .ok extended →
        (Register.family component.width).Gains ⟨decl, component.header.path⟩
            component.header.context child component.layout extended.layout ∧
          component.size ≤ extended.size ∧
          extended = { component with size := extended.size, layout := extended.layout }) ∧
      (∀ wordWidth container above candidate extended,
        Register.ofDecl wordWidth container above decl = .ok candidate →
        Register.ofDecl wordWidth container above (decl.append child) = .ok extended →
          Field.family.Gains (decl.siteIn container) candidate.item.header.context child
              candidate.item.layout extended.item.layout ∧
            extended = { candidate with
              item := { candidate.item with layout := extended.item.layout } }) ∧
      ∀ catalog defaults map extended, MemoryMap.ofDecl catalog defaults decl = .ok map →
        MemoryMap.ofDecl catalog defaults (decl.append child) = .ok extended →
          (Instance.family catalog).Gains ⟨decl, map.header.path⟩ map.header.context child
              map.layout extended.layout ∧
            map.size ≤ extended.size ∧
            extended = { map with size := extended.size, layout := extended.layout } := by
  refine ⟨fun component extended => ?_, fun wordWidth container above candidate extended => ?_,
    fun catalog defaults map extended => ?_⟩
  · exact Component.gains_of_built unplaced
  · exact Register.gains_of_built unplaced
  · exact MemoryMap.gains_of_built unplaced

namespace Decl

def gappedRegister : Decl where
  kind := .register
  attrs := .ofList [("name", "control")]
  children := [{ kind := .field, attrs := .ofList [("name", "mode"), ("offset", "4")] }]

def narrowField : Decl where
  kind := .field
  attrs := .ofList [("name", "enable"), ("size", "3")]

def componentOfGapped : Decl where
  kind := .component
  attrs := .ofList [("name", "timer"), ("width", "32")]
  children := [gappedRegister]

def reloadRegisters : Decl where
  kind := .registerArray
  attrs := .ofList [("count", "2")]
  children := [{ kind := .register, attrs := .ofList [("name", "reload")] }]

def emptyComponent : Component where
  header := ⟨"none", Path.root "none", [], .readWrite, .bits⟩
  width := 32
  size := 0
  layout := { extent := some 0 }

def mapOfNone : Decl where
  kind := .memoryMap
  attrs := .ofList [("name", "bus")]
  children := [{ kind := .componentInstance, attrs := .ofList [("name", "none")] }]

def otherNone : Decl where
  kind := .componentInstance
  attrs := .ofList [("name", "other"), ("extern", "none")]

theorem samples_kept_before_unplaced :
    (∃ component extended, Component.ofDecl componentOfGapped = .ok component ∧
      Component.ofDecl (componentOfGapped.append reloadRegisters) = .ok extended ∧
      (Register.family component.width).Gains ⟨componentOfGapped, component.header.path⟩
        component.header.context reloadRegisters component.layout extended.layout) ∧
      (∃ candidate extended, Register.ofDecl 32 (Path.root "timer") {} gappedRegister =
          .ok candidate ∧
        Register.ofDecl 32 (Path.root "timer") {} (gappedRegister.append narrowField) =
          .ok extended ∧
        Field.family.Gains (gappedRegister.siteIn (Path.root "timer"))
          candidate.item.header.context narrowField candidate.item.layout extended.item.layout) ∧
      ∃ map extended, MemoryMap.ofDecl ⟨[emptyComponent]⟩ {} mapOfNone = .ok map ∧
        MemoryMap.ofDecl ⟨[emptyComponent]⟩ {} (mapOfNone.append otherNone) = .ok extended ∧
        (Instance.family ⟨[emptyComponent]⟩).Gains ⟨mapOfNone, map.header.path⟩
          map.header.context otherNone map.layout extended.layout := by
  refine ⟨?_, ?_, ?_⟩
  · obtain ⟨component, built⟩ : ∃ component, Component.ofDecl componentOfGapped = .ok component :=
      exists_eq_ok_of_is_ok (by decide +kernel)
    obtain ⟨extended, builtMore⟩ : ∃ extended,
        Component.ofDecl (componentOfGapped.append reloadRegisters) = .ok extended :=
      exists_eq_ok_of_is_ok (by decide +kernel)
    have kept := (children_kept_before_unplaced (by rfl)).1 _ _ built builtMore
    exact ⟨component, extended, built, builtMore, kept.1⟩
  · obtain ⟨candidate, built⟩ : ∃ candidate,
        Register.ofDecl 32 (Path.root "timer") {} gappedRegister = .ok candidate :=
      exists_eq_ok_of_is_ok (by decide +kernel)
    obtain ⟨extended, builtMore⟩ : ∃ extended,
        Register.ofDecl 32 (Path.root "timer") {} (gappedRegister.append narrowField) =
          .ok extended :=
      exists_eq_ok_of_is_ok (by decide +kernel)
    have kept := (children_kept_before_unplaced (by rfl)).2.1 _ _ _ _ _ built builtMore
    exact ⟨candidate, extended, built, builtMore, kept.1⟩
  · obtain ⟨map, built⟩ : ∃ map,
        MemoryMap.ofDecl ⟨[emptyComponent]⟩ {} mapOfNone = .ok map :=
      exists_eq_ok_of_is_ok (by decide +kernel)
    obtain ⟨extended, builtMore⟩ : ∃ extended,
        MemoryMap.ofDecl ⟨[emptyComponent]⟩ {} (mapOfNone.append otherNone) = .ok extended :=
      exists_eq_ok_of_is_ok (by decide +kernel)
    have kept := (children_kept_before_unplaced (by rfl)).2.2 _ _ _ _ built builtMore
    exact ⟨map, extended, built, builtMore, kept.1⟩

end Decl

end AddressMap
