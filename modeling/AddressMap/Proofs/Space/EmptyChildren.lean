import AddressMap.Proofs.Space.FirstFit

/-!
# Empty children

An empty child occupies nothing, yet the gaps of a layout end where it starts: a child that waits is
not placed across it. The main statement says when that is without consequence. Empty children never
change where the others go just when each one with a stated start stands at an end of the address
space, or inside or at an end of a child that occupies something.
-/

namespace AddressMap

set_option autoImplicit false

namespace Layout

variable {α : Type} {layout : Layout α}

def Touched (layout : Layout α) (address : Nat) : Prop :=
  address = 0 ∨ address = maxAddress ∨
    ∃ placed ∈ layout.items, 0 < placed.size ∧ placed.start ≤ address ∧ address ≤ placed.stop

/-- No empty child stands in the open. -/
def Unbroken (layout : Layout α) : Prop :=
  ∀ empty ∈ layout.items, empty.size = 0 → layout.Touched empty.start

instance (layout : Layout α) (address : Nat) : Decidable (layout.Touched address) :=
  inferInstanceAs (Decidable (_ ∨ _ ∨ ∃ placed ∈ layout.items, _))

instance (layout : Layout α) : Decidable layout.Unbroken :=
  inferInstanceAs (Decidable (∀ empty ∈ layout.items, _))

def solid (layout : Layout α) : Layout α :=
  { layout with items := layout.items.filter fun placed => 0 < placed.size }

@[simp]
theorem mem_solid {placed : Placed α} :
    placed ∈ layout.solid.items ↔ placed ∈ layout.items ∧ 0 < placed.size := by
  simp [solid]

theorem valid_solid (valid : layout.Valid) : layout.solid.Valid where
  ordered := valid.ordered.filter _
  bounded placed member := valid.bounded placed (mem_solid.1 member).1
  apart := valid.apart.filter _

theorem insert_by_start_of_lt {placed : Placed α} {items : List (Placed α)}
    (first : ∀ entry ∈ items, placed.start < entry.start) :
    insertByStart placed items = placed :: items := by
  cases items with
  | nil => rfl
  | cons head rest =>
      have later : ¬ head.start ≤ placed.start := Nat.not_le.2 (first head List.mem_cons_self)
      rw [insertByStart, if_neg later]

theorem filter_insert_by_start {placed : Placed α} {items : List (Placed α)}
    (ordered : InOrder items) (keep : Placed α → Bool) (kept : keep placed = true) :
    (insertByStart placed items).filter keep = insertByStart placed (items.filter keep) := by
  induction items with
  | nil => simp [insertByStart, kept]
  | cons head rest ih =>
      obtain ⟨below, restOrdered⟩ := List.pairwise_cons.1 ordered
      by_cases early : head.start ≤ placed.start
      · rw [insertByStart, if_pos early, List.filter_cons, List.filter_cons, ih restOrdered]
        split
        · rw [insertByStart, if_pos early]
        · rfl
      · have first : ∀ entry ∈ (head :: rest).filter keep, placed.start < entry.start := by
          intro entry member
          rcases List.mem_cons.1 (List.mem_filter.1 member).1 with rfl | later
          · omega
          · have start := below entry later
            omega
        rw [insert_by_start_of_lt first, insertByStart, if_neg early, List.filter_cons_of_pos kept]

theorem filter_insert_by_start_of_dropped {placed : Placed α} (items : List (Placed α))
    (keep : Placed α → Bool) (dropped : keep placed = false) :
    (insertByStart placed items).filter keep = items.filter keep := by
  have refused : ¬ keep placed = true := by simp [dropped]
  induction items with
  | nil => exact List.filter_cons_of_neg refused
  | cons head rest ih =>
      rw [insertByStart]
      split
      · rw [List.filter_cons, List.filter_cons, ih]
      · exact List.filter_cons_of_neg refused

theorem solid_insert {placed : Placed α} (valid : layout.Valid) (positive : 0 < placed.size) :
    (layout.insert placed).solid = layout.solid.insert placed := by
  have items := filter_insert_by_start valid.ordered (fun entry => decide (0 < entry.size))
    (decide_eq_true positive)
  simp only [solid, insert, items]

theorem solid_insert_of_empty {placed : Placed α} (zero : placed.size = 0) :
    (layout.insert placed).solid = layout.solid := by
  have items := filter_insert_by_start_of_dropped layout.items
    (fun entry => decide (0 < entry.size)) (decide_eq_false (Nat.not_lt.2 (Nat.le_of_eq zero)))
  simp only [solid, insert, items]

theorem touched_insert {address : Nat} (touched : layout.Touched address) (placed : Placed α) :
    (layout.insert placed).Touched address := by
  rcases touched with bottom | top | ⟨other, member, positive, touches⟩
  · exact .inl bottom
  · exact .inr (.inl top)
  · exact .inr (.inr ⟨other, mem_insert_by_start.2 (.inr member), positive, touches⟩)

theorem unbroken_insert (unbroken : layout.Unbroken) {placed : Placed α}
    (touched : placed.size = 0 → layout.Touched placed.start) :
    (layout.insert placed).Unbroken := by
  intro empty member zero
  rcases mem_insert_by_start.1 member with rfl | old
  · exact touched_insert (touched zero) empty
  · exact touched_insert (unbroken empty old zero) placed

def Accepts (layout : Layout α) (placed : Placed α) : Prop :=
  placed.stop ≤ maxAddress ∧ ∀ entry ∈ layout.items, placed.Apart entry

theorem accepts_solid {placed : Placed α} :
    layout.solid.Accepts placed ↔ layout.Accepts placed := by
  constructor
  · rintro ⟨bounded, free⟩
    refine ⟨bounded, fun entry member => ?_⟩
    by_cases occupied : 0 < entry.size
    · exact free entry (mem_solid.2 ⟨member, occupied⟩)
    · exact .inr (.inl (by omega))
  · rintro ⟨bounded, free⟩
    exact ⟨bounded, fun entry member => free entry (mem_solid.1 member).1⟩

section Fit

variable {child : Pending α}

theorem fits_at_solid (start : Nat) :
    layout.solid.FitsAt child start ↔ layout.FitsAt child start := by
  constructor
  · rintro ⟨admits, bounded, free⟩
    have room : layout.Accepts ⟨child.item, start, child.size⟩ := accepts_solid.1 ⟨bounded, free⟩
    exact ⟨admits, room.1, room.2⟩
  · rintro ⟨admits, bounded, free⟩
    have room : layout.solid.Accepts ⟨child.item, start, child.size⟩ :=
      accepts_solid.2 ⟨bounded, free⟩
    exact ⟨admits, room.1, room.2⟩

theorem clear_of_unbroken (unbroken : layout.Unbroken) (positive : 0 < child.size) {start : Nat}
    (fits : layout.FitsAt child start) : layout.Clear start (start + child.size) := by
  have occupied : ∀ placed ∈ layout.solid.items, 0 < placed.size :=
    fun placed member => (mem_solid.1 member).2
  have clear := clear_of_none_empty occupied positive ((fits_at_solid start).2 fits)
  have bounded := fits.bounded
  intro placed member
  by_cases some : 0 < placed.size
  · exact clear placed (mem_solid.2 ⟨member, some⟩)
  · have stop : placed.stop = placed.start := by
      unfold Placed.stop
      omega
    rcases unbroken placed member (by omega) with bottom | top | ⟨other, present, more, touches⟩
    · omega
    · omega
    · have side := clear other (mem_solid.2 ⟨present, more⟩)
      omega

theorem clear_of_single (single : child.size = 1) {start : Nat}
    (fits : layout.FitsAt child start) : layout.Clear start (start + child.size) := by
  intro placed member
  have apart := fits.free placed member
  simp only [Placed.Apart, Placed.stop] at apart ⊢
  omega

/-- The first gap starts at the bottom or where a child that occupies something ends. -/
theorem first_gap_touched {items : List (Placed α)} {cursor : Nat}
    (inside : ∀ placed ∈ items, placed ∈ layout.items) (touched : layout.Touched cursor) :
    ∃ gap rest, freeGapsFrom cursor items = gap :: rest ∧ layout.Touched gap.start := by
  induction items generalizing cursor with
  | nil => exact ⟨_, [], rfl, touched⟩
  | cons head rest ih =>
      simp only [freeGapsFrom]
      split
      next room => exact ⟨_, _, rfl, touched⟩
      next adjacent =>
        apply ih fun placed member => inside placed (List.mem_cons_of_mem head member)
        by_cases covered : head.stop ≤ cursor
        · rw [Nat.max_eq_left covered]
          exact touched
        · have occupied : 0 < head.size := by
            unfold Placed.stop at covered
            omega
          rw [Nat.max_eq_right (by omega)]
          exact .inr (.inr ⟨head, inside head List.mem_cons_self, occupied,
            Nat.le_add_right _ _, Nat.le_refl _⟩)

theorem choose_of_empty {placer : Placer} {gap : Gap} (chooses : placer ≠ .manual)
    (proper : gap.start ≤ gap.stop) : placer.choose 0 gap = .ok (some gap.start) := by
  cases placer with
  | manual => exact absurd rfl chooses
  | linear => rfl
  | aligned =>
      have anywhere : alignment? 0 = some 1 := by decide
      have unmoved : roundUp gap.start 1 = gap.start := by simp [roundUp]
      simp only [Placer.choose, anywhere, unmoved, Nat.add_zero, if_pos proper]

theorem fit_of_empty (valid : layout.Valid) (zero : child.size = 0)
    (chooses : child.placer ≠ .manual) :
    ∃ start ≤ maxAddress, layout.Touched start ∧
      layout.fit child.item child.size child.placer =
        .ok (layout.insert ⟨child.item, start, child.size⟩) := by
  have bottom : layout.Touched 0 := .inl rfl
  obtain ⟨gap, rest, gaps, touched⟩ := first_gap_touched (fun _ member => member) bottom
  have listed : gap ∈ layout.freeGaps := by
    rw [freeGaps, gaps]
    exact List.mem_cons_self
  have bounds := free_gaps_from_bounded (Nat.zero_le _) valid.bounded listed
  have chosen := choose_of_empty chooses bounds.1
  refine ⟨gap.start, Nat.le_trans bounds.1 bounds.2, touched, ?_⟩
  simp only [fit, freeGaps, gaps, firstFit, zero, chosen, bind, Except.bind]

end Fit

section Solid

variable {child : Pending α}

/-- Where no empty child stands inside a range that would fit, a child that occupies something is
placed, or not, as if there were no empty children. -/
theorem fit_solid (valid : layout.Valid) (positive : 0 < child.size)
    (clear : ∀ start, layout.FitsAt child start → layout.Clear start (start + child.size)) :
    (∃ start, IsLeast {start | layout.FitsAt child start} start ∧
        layout.fit child.item child.size child.placer =
          .ok (layout.insert ⟨child.item, start, child.size⟩) ∧
        layout.solid.fit child.item child.size child.placer =
          .ok (layout.insert ⟨child.item, start, child.size⟩).solid) ∨
      (∃ error, layout.fit child.item child.size child.placer = .error error) ∧
        ∃ error, layout.solid.fit child.item child.size child.placer = .error error := by
  by_cases refuses : child.placer.Refuses child.size
  · exact .inr ⟨fit_of_refuses refuses, fit_of_refuses refuses⟩
  · have occupied : ∀ placed ∈ layout.solid.items, 0 < placed.size :=
      fun placed member => (mem_solid.1 member).2
    have bareFit := fit_is_least (valid_solid valid) positive refuses
      fun start fits => clear_of_none_empty occupied positive fits
    simp only [fits_at_solid] at bareFit
    rcases fit_is_least valid positive refuses clear with
      ⟨start, least, fitted⟩ | ⟨nowhere, failed⟩
    · rcases bareFit with ⟨other, otherLeast, otherFitted⟩ | ⟨otherNowhere, -⟩
      · obtain rfl := least.unique otherLeast
        rw [← solid_insert valid positive] at otherFitted
        exact .inl ⟨start, least, fitted, otherFitted⟩
      · exact absurd least.1 (otherNowhere start)
    · rcases bareFit with ⟨other, otherLeast, -⟩ | ⟨-, otherFailed⟩
      · exact absurd otherLeast.1 (nowhere other)
      · exact .inr ⟨failed, otherFailed⟩

/-- In an unbroken layout the pass places the children that occupy something as it does without any
empty child. -/
theorem fit_all_solid (valid : layout.Valid) (unbroken : layout.Unbroken)
    {pending : List (Pending α)} (chooses : ∀ child ∈ pending, child.placer ≠ .manual) :
    (layout.fitAll pending).1.solid =
        (layout.solid.fitAll (pending.filter fun child => 0 < child.size)).1 ∧
      (layout.fitAll pending).2.map Unplaced.child =
        (layout.solid.fitAll (pending.filter fun child => 0 < child.size)).2.map
          Unplaced.child := by
  induction pending generalizing layout with
  | nil => exact ⟨rfl, rfl⟩
  | cons child rest ih =>
      obtain ⟨choice, restChooses⟩ := List.forall_mem_cons.1 chooses
      by_cases positive : 0 < child.size
      · rw [List.filter_cons, if_pos (decide_eq_true positive)]
        simp only [fitAll]
        rcases fit_solid valid positive fun _ fits => clear_of_unbroken unbroken positive fits with
          ⟨start, least, fitted, bareFitted⟩ | ⟨⟨error, failed⟩, bareError, bareFailed⟩
        · rw [fitted, bareFitted]
          apply ih _ _ restChooses
          · exact valid_insert valid least.1.bounded least.1.free
          · exact unbroken_insert unbroken fun zero => absurd zero (Nat.ne_of_gt positive)
        · rw [failed, bareFailed]
          exact ⟨rfl, rfl⟩
      · have zero : child.size = 0 := by omega
        obtain ⟨start, bounded, touched, fitted⟩ := fit_of_empty valid zero choice
        let placed : Placed α := ⟨child.item, start, child.size⟩
        have ends : placed.stop ≤ maxAddress := by
          simp only [Placed.stop, placed]
          omega
        have inserted : (layout.insert placed).Valid :=
          valid_insert valid ends fun _ _ => .inl zero
        have bare : (layout.insert placed).solid = layout.solid := solid_insert_of_empty zero
        rw [List.filter_cons_of_neg (by simp [zero]), ← bare]
        simp only [fitAll, fitted]
        exact ih inserted (unbroken_insert unbroken fun _ => touched) restChooses

end Solid

section Broken

theorem fit_all_append {first rest : List (Pending α)} {next : Layout α}
    (placed : layout.fitAll first = (next, none)) :
    layout.fitAll (first ++ rest) = next.fitAll rest := by
  induction first generalizing layout with
  | nil =>
      cases placed
      rfl
  | cons child others ih =>
      simp only [fitAll, List.cons_append] at placed ⊢
      cases fitted : layout.fit child.item child.size child.placer with
      | ok after =>
          rw [fitted] at placed
          exact ih placed
      | error error =>
          rw [fitted] at placed
          cases placed

def FilledBelow (layout : Layout α) (bound : Nat) : Prop :=
  ∀ address < bound, ∃ placed ∈ layout.items, placed.start ≤ address ∧ address < placed.stop

theorem is_least_of_filled {child : Pending α} {bound : Nat} (positive : 0 < child.size)
    (fits : layout.FitsAt child bound) (filled : layout.FilledBelow bound) :
    IsLeast {start | layout.FitsAt child start} bound := by
  refine ⟨fits, fun start other => Nat.le_of_not_lt fun below => ?_⟩
  obtain ⟨placed, member, holds⟩ := filled start below
  have apart := other.free placed member
  simp only [Placed.Apart, Placed.stop] at apart holds
  omega

def filler (item : α) (size : Nat) : Pending α :=
  ⟨item, size, .linear⟩

theorem filler_accepted (item : α) (size : Nat) :
    ¬ (filler item size).placer.Refuses (filler item size).size :=
  id

theorem fit_filler_solid (valid : layout.Valid) {item : α} {size start : Nat}
    (positive : 0 < size)
    (least : IsLeast {start | layout.FitsAt (filler item size) start} start) :
    layout.solid.fit item size .linear = .ok (layout.insert ⟨item, start, size⟩).solid := by
  have occupied : ∀ placed ∈ layout.solid.items, 0 < placed.size :=
    fun placed member => (mem_solid.1 member).2
  have bareLeast : IsLeast {start | layout.solid.FitsAt (filler item size) start} start := by
    simp only [fits_at_solid]
    exact least
  have clear (start : Nat) (fits : layout.solid.FitsAt (filler item size) start) :=
    clear_of_none_empty occupied positive fits
  have placed : 0 < (⟨item, start, size⟩ : Placed α).size := positive
  rw [solid_insert valid placed]
  exact fit_eq_of_is_least (valid_solid valid) positive (filler_accepted item size) clear bareLeast

theorem fit_single (valid : layout.Valid) (item : α) {address : Nat}
    (bounded : address < maxAddress) (filled : layout.FilledBelow address)
    (free : ∀ placed ∈ layout.items, placed.start ≤ address → placed.stop ≤ address) :
    let next := layout.insert ⟨item, address, 1⟩
    layout.fit item 1 .linear = .ok next ∧ layout.solid.fit item 1 .linear = .ok next.solid ∧
      next.Valid ∧ next.FilledBelow (address + 1) := by
  have fits : layout.FitsAt (filler item 1) address := by
    refine ⟨trivial, bounded, fun placed member => ?_⟩
    have apart := free placed member
    simp only [Placed.Apart, Placed.stop, filler] at apart ⊢
    omega
  have least := is_least_of_filled Nat.one_pos fits filled
  have clear (start : Nat) (other : layout.FitsAt (filler item 1) start) :=
    clear_of_single rfl other
  refine ⟨fit_eq_of_is_least valid Nat.one_pos (filler_accepted item 1) clear least,
    fit_filler_solid valid Nat.one_pos least, valid_insert valid fits.bounded fits.free, ?_⟩
  intro lower below
  by_cases here : lower = address
  · subst here
    exact ⟨_, mem_insert_by_start.2 (.inl rfl), Nat.le_refl _, Nat.lt_succ_self _⟩
  · obtain ⟨placed, member, holds⟩ := filled lower (by omega)
    exact ⟨placed, mem_insert_by_start.2 (.inr member), holds⟩

/-- What stands before and after some children of one address each are placed. They leave an empty
child in the open there, and fill all below the bound. -/
structure FilledTo (layout : Layout α) (empty : Placed α) (bound count : Nat) (next : Layout α) :
    Prop where
  whole : layout.fitAll (List.replicate count (filler empty.item 1)) = (next, none)
  bare : layout.solid.fitAll (List.replicate count (filler empty.item 1)) = (next.solid, none)
  valid : next.Valid
  member : empty ∈ next.items
  exposed : ¬ next.Touched empty.start
  filled : next.FilledBelow bound

/-- Below an empty child in the open, the layout can be filled up to any bound. -/
theorem exists_filled (valid : layout.Valid) {empty : Placed α} (member : empty ∈ layout.items)
    (exposed : ¬ layout.Touched empty.start) {bound : Nat} (below : bound < empty.start) :
    ∃ count next, layout.FilledTo empty bound count next := by
  induction bound with
  | zero => exact ⟨0, layout, rfl, rfl, valid, member, exposed, nofun⟩
  | succ bound ih =>
      obtain ⟨count, next, reached⟩ := ih (by omega)
      by_cases taken : ∃ placed ∈ next.items, placed.start ≤ bound ∧ bound < placed.stop
      · refine ⟨count, next, reached.whole, reached.bare, reached.valid, reached.member,
          reached.exposed, fun address lower => ?_⟩
        by_cases here : address = bound
        · exact here ▸ taken
        · exact reached.filled address (by omega)
      · have ends : empty.start ≤ maxAddress :=
          Nat.le_trans (Nat.le_add_right _ _) (valid.bounded empty member)
        have free : ∀ placed ∈ next.items, placed.start ≤ bound → placed.stop ≤ bound :=
          fun placed present starts =>
            Nat.le_of_not_lt fun reaches => taken ⟨placed, present, starts, reaches⟩
        obtain ⟨whole, bare, valid, filled⟩ :=
          fit_single reached.valid empty.item (by omega) reached.filled free
        refine ⟨count + 1, next.insert ⟨empty.item, bound, 1⟩, ?_, ?_, valid,
          mem_insert_by_start.2 (.inr reached.member), ?_, filled⟩
        · rw [List.replicate_succ', fit_all_append reached.whole]
          simp only [fitAll, filler, whole]
        · rw [List.replicate_succ', fit_all_append reached.bare]
          simp only [fitAll, filler, bare]
        · rintro (bottom | top | ⟨placed, present, positive, touches⟩)
          · exact reached.exposed (.inl bottom)
          · exact reached.exposed (.inr (.inl top))
          · rcases mem_insert_by_start.1 present with rfl | old
            · simp only [Placed.stop] at touches
              omega
            · exact reached.exposed (.inr (.inr ⟨placed, old, positive, touches⟩))

/-- Across an empty child in the open, with all below it full, a child of two addresses goes only
where the empty one is left out. -/
theorem pair_across_differs {next : Layout α} (valid : next.Valid) {empty : Placed α}
    (member : empty ∈ next.items) (zero : empty.size = 0) (exposed : ¬ next.Touched empty.start)
    {bound : Nat} (start : empty.start = bound + 1) (filled : next.FilledBelow bound) :
    (next.fitAll [filler empty.item 2]).1.solid ≠ (next.solid.fitAll [filler empty.item 2]).1 := by
  have ends : empty.start < maxAddress := by
    have bounded := valid.bounded empty member
    have inner : empty.start ≠ maxAddress := fun top => exposed (.inr (.inl top))
    simp only [Placed.stop] at bounded
    omega
  have away : ∀ placed ∈ next.items, 0 < placed.size → placed.start ≤ empty.start →
      ¬ empty.start ≤ placed.stop :=
    fun placed present positive before behind =>
      exposed (.inr (.inr ⟨placed, present, positive, before, behind⟩))
  let across : Placed α := ⟨empty.item, bound, 2⟩
  have absent : across ∉ next.items := by
    intro present
    have apart := away across present Nat.two_pos
    simp only [across, Placed.stop] at apart
    omega
  have fits : next.FitsAt (filler empty.item 2) bound := by
    refine ⟨trivial, by simp only [filler]; omega, fun placed present => ?_⟩
    have apart := away placed present
    simp only [Placed.Apart, Placed.stop, filler] at apart ⊢
    omega
  have bare := fit_filler_solid valid Nat.two_pos (is_least_of_filled Nat.two_pos fits filled)
  intro same
  simp only [fitAll, filler, bare] at same
  have placed : across ∈ (next.insert across).solid.items :=
    mem_solid.2 ⟨mem_insert_by_start.2 (.inl rfl), Nat.two_pos⟩
  rw [← same] at placed
  rcases fit_is_least_clear valid Nat.two_pos (filler_accepted empty.item 2) with
    ⟨other, least, fitted⟩ | ⟨-, error, failed⟩
  · simp only [filler] at fitted
    rw [fitted] at placed
    rcases mem_insert_by_start.1 (mem_solid.1 placed).1 with here | old
    · -- A start that the pass answers leaves the empty child on one side.
      have side := least.1.2 empty member
      have moved : bound = other := congrArg Placed.start here
      simp only [Placed.stop, filler] at side
      omega
    · exact absent old
  · simp only [filler] at failed
    rw [failed] at placed
    exact absent (mem_solid.1 placed).1

theorem exists_pass_differs (valid : layout.Valid) {empty : Placed α}
    (member : empty ∈ layout.items) (zero : empty.size = 0)
    (exposed : ¬ layout.Touched empty.start) :
    ∃ pending : List (Pending α),
      (∀ child ∈ pending, ∃ size, 0 < size ∧ child = filler empty.item size) ∧
        (layout.fitAll pending).1.solid ≠ (layout.solid.fitAll pending).1 := by
  obtain ⟨bound, start⟩ : ∃ bound, empty.start = bound + 1 :=
    Nat.exists_eq_succ_of_ne_zero fun bottom => exposed (.inl bottom)
  have lower : bound < empty.start := by omega
  obtain ⟨count, next, reached⟩ := exists_filled valid member exposed lower
  refine ⟨List.replicate count (filler empty.item 1) ++ [filler empty.item 2], ?_, ?_⟩
  · intro child present
    rcases List.mem_append.1 present with single | double
    · exact ⟨1, Nat.one_pos, (List.mem_replicate.1 single).2⟩
    · exact ⟨2, Nat.two_pos, List.mem_singleton.1 double⟩
  · rw [fit_all_append reached.whole, fit_all_append reached.bare]
    exact pair_across_differs reached.valid reached.member zero reached.exposed start
      reached.filled

/-- Empty children are without influence on the pass just where none of them stands in the open. -/
theorem unbroken_iff_fit_all_solid (valid : layout.Valid) :
    layout.Unbroken ↔
      ∀ pending : List (Pending α), (∀ child ∈ pending, child.placer ≠ .manual) →
        (layout.fitAll pending).1.solid =
          (layout.solid.fitAll (pending.filter fun child => 0 < child.size)).1 := by
  constructor
  · exact fun unbroken pending chooses => (fit_all_solid valid unbroken chooses).1
  · intro same empty member zero
    by_contra exposed
    obtain ⟨pending, fillers, differs⟩ := exists_pass_differs valid member zero exposed
    apply differs
    have whole : pending.filter (fun child => 0 < child.size) = pending := by
      apply List.filter_eq_self.2
      intro child present
      obtain ⟨size, positive, rfl⟩ := fillers child present
      exact decide_eq_true positive
    have linear : ∀ child ∈ pending, child.placer ≠ .manual := by
      intro child present
      obtain ⟨size, -, rfl⟩ := fillers child present
      exact nofun
    have agree := same pending linear
    rw [whole] at agree
    exact agree

end Broken

end Layout

/-- A child as it is offered to a space. Without a placer of its own it gets the space's. -/
structure Offer (α : Type) where
  item : α
  start? : Option Nat
  size : Nat
  placer? : Option Placer := none
deriving DecidableEq, Repr

namespace Offer

variable {α : Type}

def operation (offer : Offer α) : Operation α :=
  match offer.placer? with
  | none => .offer offer.item offer.start? offer.size
  | some placer => .offerWith placer offer.item offer.start? offer.size

def placedAt (offer : Offer α) (start : Nat) : Placed α :=
  ⟨offer.item, start, offer.size⟩

def waiting (placer : Placer) (offer : Offer α) : List (Pending α) :=
  if offer.start?.isSome then [] else [⟨offer.item, offer.size, offer.placer?.getD placer⟩]

theorem filter_waiting (placer : Placer) (offers : List (Offer α)) :
    (offers.flatMap (waiting placer)).filter (fun child => 0 < child.size) =
      (offers.filter fun offer => 0 < offer.size).flatMap (waiting placer) := by
  induction offers with
  | nil => rfl
  | cons offer rest ih =>
      rw [List.flatMap_cons, List.filter_append, ih, List.filter_cons]
      by_cases positive : 0 < offer.size
      · rw [if_pos (decide_eq_true positive), List.flatMap_cons]
        unfold waiting
        split <;> simp [positive]
      · rw [if_neg (by simpa using positive)]
        unfold waiting
        split <;> simp [positive]

def ofPending (child : Pending α) : Offer α :=
  ⟨child.item, none, child.size, some child.placer⟩

theorem waiting_of_pending (placer : Placer) (pending : List (Pending α)) :
    (pending.map ofPending).flatMap (waiting placer) = pending := by
  rw [List.flatMap_map]
  exact List.flatMap_singleton' pending

theorem waiting_of_stated (placer : Placer) {offers : List (Offer α)}
    (stated : ∀ offer ∈ offers, offer.start?.isSome) : offers.flatMap (waiting placer) = [] := by
  apply List.flatMap_eq_nil_iff.2
  intro offer member
  rw [waiting, if_pos (stated offer member)]

theorem filter_stated_append {stated : List (Offer α)}
    (fixed : ∀ offer ∈ stated, offer.start?.isSome) (pending : List (Pending α)) :
    (stated ++ pending.map ofPending).filter (·.start?.isSome) = stated := by
  have none : (pending.map ofPending).filter (·.start?.isSome) = [] := by
    apply List.filter_eq_nil_iff.2
    intro offer member
    obtain ⟨child, -, rfl⟩ := List.mem_map.1 member
    exact Bool.false_ne_true
  rw [List.filter_append, none, List.append_nil, List.filter_eq_self.2 fixed]

end Offer

namespace Layout

variable {α : Type} {layout : Layout α}

/-- The layout with an offer that states its start, if there is room for it. -/
def take (layout : Layout α) (offer : Offer α) : Layout α :=
  match offer.start? with
  | none => layout
  | some start => (layout.placeAt offer.item start offer.size).toOption.getD layout

theorem take_eq (layout : Layout α) {offer : Offer α} {start : Nat}
    (stated : offer.start? = some start) :
    layout.Accepts (offer.placedAt start) ∧
        layout.take offer = layout.insert (offer.placedAt start) ∨
      ¬ layout.Accepts (offer.placedAt start) ∧ layout.take offer = layout := by
  simp only [take, stated]
  cases answer : layout.placeAt offer.item start offer.size with
  | ok next =>
      obtain ⟨bounded, free, rfl⟩ := place_at_eq_ok.1 answer
      exact .inl ⟨⟨bounded, free⟩, rfl⟩
  | error error =>
      refine .inr ⟨fun room => ?_, rfl⟩
      have taken := place_at_eq_ok.2 ⟨room.1, room.2, rfl⟩
      rw [Offer.placedAt, answer] at taken
      contradiction

theorem take_of_unstated {offer : Offer α} (unstated : offer.start? = none) :
    layout.take offer = layout := by
  simp only [take, unstated]

theorem valid_take (valid : layout.Valid) (offer : Offer α) : (layout.take offer).Valid := by
  cases stated : offer.start? with
  | none => rwa [take_of_unstated stated]
  | some start =>
      rcases take_eq layout stated with ⟨accepts, taken⟩ | ⟨-, unchanged⟩
      · rw [taken]
        exact valid_insert valid accepts.1 accepts.2
      · rwa [unchanged]

theorem solid_take (valid : layout.Valid) {offer : Offer α} (positive : 0 < offer.size) :
    (layout.take offer).solid = layout.solid.take offer := by
  cases stated : offer.start? with
  | none => rw [take_of_unstated stated, take_of_unstated stated]
  | some start =>
      rcases take_eq layout stated with ⟨accepts, taken⟩ | ⟨refuses, unchanged⟩
      · rcases take_eq layout.solid stated with ⟨-, bareTaken⟩ | ⟨bareRefuses, -⟩
        · rw [taken, bareTaken]
          exact solid_insert valid positive
        · exact absurd (accepts_solid.2 accepts) bareRefuses
      · rcases take_eq layout.solid stated with ⟨bareAccepts, -⟩ | ⟨-, bareUnchanged⟩
        · exact absurd (accepts_solid.1 bareAccepts) refuses
        · rw [unchanged, bareUnchanged]

theorem solid_take_of_empty {offer : Offer α} (zero : offer.size = 0) :
    (layout.take offer).solid = layout.solid := by
  cases stated : offer.start? with
  | none => rw [take_of_unstated stated]
  | some start =>
      rcases take_eq layout stated with ⟨-, taken⟩ | ⟨-, unchanged⟩
      · rw [taken]
        exact solid_insert_of_empty zero
      · rw [unchanged]

def takeEach (layout : Layout α) (offers : List (Offer α)) : Layout α :=
  offers.foldl take layout

theorem valid_take_each (valid : layout.Valid) (offers : List (Offer α)) :
    (layout.takeEach offers).Valid := by
  induction offers generalizing layout with
  | nil => exact valid
  | cons offer rest ih => exact ih (valid_take valid offer)

theorem solid_take_each (valid : layout.Valid) (offers : List (Offer α)) :
    (layout.takeEach offers).solid =
      layout.solid.takeEach (offers.filter fun offer => 0 < offer.size) := by
  induction offers generalizing layout with
  | nil => rfl
  | cons offer rest ih =>
      have later := ih (valid_take valid offer)
      rw [List.filter_cons]
      by_cases positive : 0 < offer.size
      · rw [if_pos (decide_eq_true positive)]
        rw [solid_take valid positive] at later
        exact later
      · rw [if_neg (by simpa using positive)]
        rw [solid_take_of_empty (by omega)] at later
        exact later

theorem take_each_stated (offers : List (Offer α)) :
    layout.takeEach offers = layout.takeEach (offers.filter (·.start?.isSome)) := by
  induction offers generalizing layout with
  | nil => rfl
  | cons offer rest ih =>
      rw [List.filter_cons]
      split
      · exact ih
      next waits =>
        have unchanged : layout.take offer = layout := take_of_unstated (by simpa using waits)
        show (layout.take offer).takeEach rest = _
        rw [unchanged]
        exact ih

end Layout

namespace Space

variable {α : Type} {space : Space α}

/-- The space behind offers, of which some may be refused. -/
def offerEach (space : Space α) (offers : List (Offer α)) : Space α :=
  space.run (offers.map Offer.operation)

theorem perform_offer (space : Space α) (offer : Offer α) :
    (space.perform offer.operation).1 =
      { space with
        layout := space.layout.take offer
        pending := space.pending ++ offer.waiting space.placer } := by
  have answered : (space.perform offer.operation).1 = (space.answer (space.offerWith
      (offer.placer?.getD space.placer) offer.item offer.start? offer.size)).1 := by
    unfold Offer.operation
    cases offer.placer? <;> rfl
  rw [answered]
  cases stated : offer.start? with
  | none => simp [offerWith, answer, Layout.take, Offer.waiting, stated]
  | some start =>
      cases placed : space.layout.placeAt offer.item start offer.size <;>
        simp [offerWith, answer, Layout.take, Offer.waiting, stated, placed, bind, Except.bind,
          Except.toOption]

theorem offer_each_eq (space : Space α) (offers : List (Offer α)) :
    space.offerEach offers =
      { space with
        layout := space.layout.takeEach offers
        pending := space.pending ++ offers.flatMap (Offer.waiting space.placer) } := by
  induction offers generalizing space with
  | nil => simp [offerEach, run, Layout.takeEach]
  | cons offer rest ih =>
      have first := perform_offer space offer
      have later := ih (space.perform offer.operation).1
      rw [first] at later
      show (space.perform offer.operation).1.offerEach rest = _
      rw [first, later, List.flatMap_cons, List.append_assoc]
      rfl

/-- Behind the offers, the pass puts each child that occupies something where it stands if the empty
ones are not offered, and fails at the same child if it does. -/
def AgreesWithoutEmpty (space : Space α) (offers : List (Offer α)) : Prop :=
  let whole := (space.offerEach offers).placePending
  let bare := (space.offerEach (offers.filter fun offer => 0 < offer.size)).placePending
  whole.1.layout.solid = bare.1.layout ∧
    whole.2.map Unplaced.child = bare.2.map Unplaced.child

instance [DecidableEq α] (space : Space α) (offers : List (Offer α)) :
    Decidable (space.AgreesWithoutEmpty offers) :=
  inferInstanceAs (Decidable (_ ∧ _))

theorem agrees_iff (placer : Placer) (resizer : Resizer) (offers : List (Offer α)) :
    let layout := ({} : Layout α).takeEach offers
    let pending := offers.flatMap (Offer.waiting placer)
    let bare := layout.solid.fitAll (pending.filter fun child => 0 < child.size)
    AgreesWithoutEmpty { placer, resizer } offers ↔
      (layout.fitAll pending).1.solid = bare.1 ∧
        (layout.fitAll pending).2.map Unplaced.child = bare.2.map Unplaced.child := by
  intro layout pending bare
  have fresh : ({} : Layout α).Valid := Layout.valid_of_no_items rfl
  have solid : layout.solid = _ := Layout.solid_take_each fresh offers
  simp only [AgreesWithoutEmpty, offer_each_eq, placePending, List.nil_append, bare, pending,
    Offer.filter_waiting, solid]
  rfl

/-- Suppose that these are the offers that state a start. However others are offered among them, to
be placed by the linear or the aligned placer, the empty ones have no influence on where those that
occupy something go: this holds just when no empty child of the stated ones stands in the open. -/
theorem empty_children_without_influence_iff (placer : Placer) (resizer : Resizer)
    (stated : List (Offer α)) (fixed : ∀ offer ∈ stated, offer.start?.isSome) :
    (Space.offerEach { placer, resizer } stated).layout.Unbroken ↔
      ∀ offers : List (Offer α), offers.filter (·.start?.isSome) = stated →
        (∀ offer ∈ offers, offer.start? = none → offer.placer?.getD placer ≠ .manual) →
          AgreesWithoutEmpty { placer, resizer } offers := by
  have valid : (({} : Layout α).takeEach stated).Valid :=
    Layout.valid_take_each (Layout.valid_of_no_items rfl) stated
  rw [offer_each_eq]
  constructor
  · rintro unbroken offers rfl chooses
    rw [← Layout.take_each_stated] at unbroken valid
    apply (agrees_iff placer resizer offers).2
    apply Layout.fit_all_solid valid unbroken
    intro child member
    obtain ⟨offer, present, waits⟩ := List.mem_flatMap.1 member
    unfold Offer.waiting at waits
    split at waits
    · exact absurd waits List.not_mem_nil
    next unstated =>
      rw [List.mem_singleton.1 waits]
      exact chooses offer present (by simpa using unstated)
  · intro agrees
    apply (Layout.unbroken_iff_fit_all_solid valid).2
    intro pending chooses
    have others := Offer.filter_stated_append fixed pending
    have agree := (agrees_iff placer resizer _).1 (agrees _ others ?_)
    · rw [Layout.take_each_stated, others, List.flatMap_append, Offer.waiting_of_stated _ fixed,
        Offer.waiting_of_pending, List.nil_append] at agree
      exact agree.1
    · intro offer member unstated
      rcases List.mem_append.1 member with before | behind
      · have known := fixed offer before
        rw [unstated] at known
        contradiction
      · obtain ⟨child, present, rfl⟩ := List.mem_map.1 behind
        exact chooses child present

/-- An empty child at the end of another one is no obstacle. -/
theorem empty_child_of_sample_without_influence :
    AgreesWithoutEmpty { placer := .linear, resizer := .linear }
      [⟨"b", none, 3, none⟩, ⟨"a", some 4, 4, none⟩, ⟨"z", some 8, 0, none⟩,
        ⟨"y", none, 0, none⟩, ⟨"c", none, 9, some .aligned⟩] := by
  refine (empty_children_without_influence_iff .linear .linear
    [⟨"a", some 4, 4, none⟩, ⟨"z", some 8, 0, none⟩] ?_).1 ?_ _ ?_ ?_
  · decide
  · decide
  · decide
  · decide

/-- An empty child that is put into the open at four keeps a child of eight from the bottom. -/
theorem empty_child_in_the_open_moves_another :
    let fresh : Space String := { placer := .linear, resizer := .linear }
    let offers : List (Offer String) := [⟨"empty", some 4, 0, none⟩, ⟨"block", none, 8, none⟩]
    (fresh.offerEach offers).placePending =
        ({ fresh with layout := { items := [⟨"empty", 4, 0⟩, ⟨"block", 4, 8⟩] } }, none) ∧
      (fresh.offerEach (offers.filter fun offer => 0 < offer.size)).placePending =
        ({ fresh with layout := { items := [⟨"block", 0, 8⟩] } }, none) ∧
      ¬ fresh.AgreesWithoutEmpty offers := by
  decide

end Space

end AddressMap
