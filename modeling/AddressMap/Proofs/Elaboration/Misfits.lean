import AddressMap.Proofs.Elaboration.Completeness
import AddressMap.Proofs.Elaboration.ErrorPaths
import AddressMap.Proofs.Elaboration.Unplaced

/-!
# Fields without a place

A register that is in order but for the places of its fields is refused with an error of range that
names the first field that meets an earlier one or else the lowest one that ends beyond the width.
Only fields whose places are no ranges of addresses are refused before that, as fields without an
offset. The main statement says so exactly.
-/

namespace AddressMap

set_option autoImplicit false

theorem eq_error_of_map_eq_error {ε α β : Type} {result : Except ε α} {f : α → β} {error : ε}
    (failed : result.map f = .error error) : result = .error error := by
  cases result with
  | error refusal => exact congrArg Except.error (Except.error.inj failed)
  | ok value => contradiction

structure Layout.LowestBeyond {α : Type} (layout : Layout α) (bound : Nat) (placed : Placed α) :
    Prop where
  member : placed ∈ layout.items
  beyond : bound < placed.stop
  lowest : ∀ other ∈ layout.items, bound < other.stop → placed.start ≤ other.start

theorem Layout.lowest_beyond_of_find? {α : Type} {layout : Layout α} {bound : Nat}
    {placed : Placed α} (ordered : InOrder layout.items)
    (found : layout.items.find? (fun placed => bound < placed.stop) = some placed) :
    layout.LowestBeyond bound placed := by
  obtain ⟨beyond, before, after, split, within⟩ := List.find?_eq_some_iff_append.1 found
  refine ⟨List.mem_of_find?_eq_some found, of_decide_eq_true beyond, fun other member past => ?_⟩
  rw [split] at member ordered
  rcases List.mem_append.1 member with early | late
  · have inside := within other early
    simp only [past, decide_true, Bool.not_true, Bool.false_eq_true] at inside
  · rcases List.mem_cons.1 late with rfl | later
    · exact Nat.le_refl _
    · exact (List.pairwise_cons.1 (List.pairwise_append.1 ordered).2.1).1 other later

namespace Register

open Candidate

variable {wordWidth width : Nat} {container path : Path} {above : Context} {decl : Decl}
  {fields before : List (Candidate (Entry Field))} {failed : Candidate (Entry Field)}
  {error : BuildError}

/-- All about the register is in order, and its children are built under different names. What is
left is to arrange them in so many bits. -/
structure Prepared (wordWidth : Nat) (site : Site) (above : Context) (width : Nat)
    (fields : List (Candidate (Entry Field))) : Prop where
  children : ∃ header, site.Titled above header ∧
    Field.family.children site header.context = .ok fields
  offset : ∃ offset?, site.number? .offset = .ok offset?
  single : checkSize site = .ok ()
  stated : statedWidth site wordWidth = .ok width
  reset : ∃ reset, statedReset site width = .ok reset

/-- The error is one of range. It names the first field whose stated bits meet those of an earlier
one or, if there is none, the lowest that ends beyond the width. -/
structure ReportsMisfit (width : Nat) (fields : List (Candidate (Entry Field)))
    (error : BuildError) : Prop where
  range : ∃ cause, error.fault = .fieldRange cause
  collision : ∀ before failed, FirstBlamed Collides fields before failed →
    error.path = failed.path
  outside : Blameless Collides fields → ∃ space placed,
    arrange { placer := .linear, resizer := .linear } fields = .ok space ∧
      space.layout.LowestBeyond width placed ∧ error.path = placed.item.header.path

/-- The first field that cannot be given its stated place, if there is one, ends at an address. If
there is none, all the others find room among the addresses. -/
def Addressable (fields : List (Candidate (Entry Field))) : Prop :=
  (∀ before failed, FirstBlamed Trespasses fields before failed → ¬ failed.Overflows) ∧
    (Blameless Trespasses fields → Blameless (Stranded .linear fields) fields)

theorem arrange_fields_of_error
    (prepared : Prepared wordWidth (decl.siteIn container) above width fields)
    (failed : Register.ofDecl wordWidth container above decl = .error error) :
    arrangeFields (decl.siteIn container).path width fields = .error error := by
  obtain ⟨⟨header, titled, built⟩, ⟨offset?, offset⟩, single, stated, ⟨reset, resets⟩⟩ := prepared
  unfold Register.ofDecl at failed
  simp only [titled.keys, Site.name_of_titled titled, offset, single, stated, resets, titled.header,
    built, bind, Except.bind] at failed
  split at failed
  next refusal refused => rwa [Except.error.inj failed] at refused
  next => contradiction

theorem arrange_fields_of_refused
    (refused : arrange { placer := .linear, resizer := .linear } fields = .error error) :
    arrangeFields path width fields = .error (overlapAsRange error) := by
  simp only [arrangeFields, refused, Except.mapError, bind, Except.bind]

/-- Fields that all have a place are refused for the lowest that ends beyond the width. -/
theorem error_of_arranged {space : Space (Entry Field)}
    (arranged : arrange { placer := .linear, resizer := .linear } fields = .ok space)
    (failed : arrangeFields path width fields = .error error) :
    ∃ placed cause, space.layout.LowestBeyond width placed ∧
      error = ⟨placed.item.header.path, .fieldRange cause⟩ := by
  have ordered := (arranged_of_arrange arranged).2.2.valid.ordered
  unfold arrangeFields at failed
  simp only [arranged, Except.mapError, bind, Except.bind] at failed
  split at failed
  next placed found =>
    exact ⟨placed, _, Layout.lowest_beyond_of_find? ordered found, (Except.error.inj failed).symm⟩
  next absent =>
    -- Fields within the width are settled in it.
    have within : space.layout.top ≤ width := by
      apply Layout.top_le
      intro placed member
      exact Nat.not_lt.1 fun past => List.find?_eq_none.1 absent placed member (decide_eq_true past)
    obtain ⟨layout, settled⟩ :=
      (@exists_settled_linear_iff _ space path (some width) (arranged_of_arrange arranged).1).2
        fun declared same => Option.some.inj same ▸ within
    rw [settled] at failed
    contradiction

theorem first_collider_of_trespasser (first : FirstBlamed Trespasses fields before failed)
    (within : ¬ failed.Overflows) : FirstBlamed Collides fields before failed :=
  first.narrow (fun _ _ => .inr) (first.blamed.resolve_left within)

/-- A field that cannot be given its stated place is reported as the claim of others to its bits,
unless it ends at no address. -/
theorem error_of_first_trespasser (first : FirstBlamed Trespasses fields before failed)
    (refused : arrangeFields path width fields = .error error) :
    error.path = failed.path ∧
      (failed.Overflows → ∃ cause, error.fault = .unresolvableOffset cause) ∧
      (¬ failed.Overflows → ∃ cause, error.fault = .fieldRange cause) := by
  obtain ⟨fault, stopped, past, within⟩ := arrange_of_first_trespasser first
  rw [arrange_fields_of_refused stopped] at refused
  cases refused
  refine ⟨path_overlap_as_range _, fun overflows => ?_, fun inside => ?_⟩
  · obtain ⟨cause, rfl⟩ := past overflows
    exact ⟨cause, rfl⟩
  · obtain ⟨start, size, blockerStart, blockerSize, rfl⟩ := within inside
    exact ⟨_, rfl⟩

theorem error_of_first_stranded (innocent : Blameless Trespasses fields)
    (first : FirstBlamed (Stranded .linear fields) fields before failed)
    (refused : arrangeFields path width fields = .error error) :
    ∃ cause, error = ⟨failed.path, .unresolvableOffset cause⟩ := by
  obtain ⟨cause, stopped⟩ := arrange_of_first_stranded (blameless_iff_takes.1 innocent) first
  rw [arrange_fields_of_refused stopped] at refused
  cases refused
  exact ⟨cause, rfl⟩

theorem reports_misfit_of_addressable (addressable : Addressable fields)
    (refused : arrangeFields path width fields = .error error) :
    ReportsMisfit width fields error := by
  obtain ⟨ends, rooms⟩ := addressable
  rcases blameless_or_first_blamed Trespasses fields with innocent | ⟨before, failed, first⟩
  · have apart : Blameless Collides fields := innocent.imp fun _ _ => .inr
    obtain ⟨space, arranged⟩ :=
      arrange_of_blameless (blameless_iff_takes.1 innocent) (rooms innocent)
    obtain ⟨placed, cause, lowest, rfl⟩ := error_of_arranged arranged refused
    exact ⟨⟨cause, rfl⟩, fun before failed first => absurd apart first.not_blameless,
      fun _ => ⟨space, placed, arranged, lowest, rfl⟩⟩
  · have within := ends before failed first
    have collider := first_collider_of_trespasser first within
    obtain ⟨path, -, range⟩ := error_of_first_trespasser first refused
    refine ⟨range within, fun earlier other second => ?_,
      fun apart => absurd apart collider.not_blameless⟩
    rw [path, (collider.unique second).2]

/-- Otherwise the error is that of a field without an offset. -/
theorem unresolvable_of_not_addressable (unaddressable : ¬ Addressable fields)
    (refused : arrangeFields path width fields = .error error) :
    ∃ cause, error.fault = .unresolvableOffset cause := by
  rcases blameless_or_first_blamed Trespasses fields with innocent | ⟨before, failed, first⟩
  · have guilty : ¬ Blameless (Stranded .linear fields) fields := fun whole =>
      unaddressable ⟨fun _ _ first => absurd innocent first.not_blameless, fun _ => whole⟩
    obtain ⟨before, failed, first⟩ := (blameless_or_first_blamed _ _).resolve_left guilty
    obtain ⟨cause, rfl⟩ := error_of_first_stranded innocent first refused
    exact ⟨cause, rfl⟩
  · have past : failed.Overflows := by
      by_contra within
      have ends : ∀ before failed, FirstBlamed Trespasses fields before failed →
          ¬ failed.Overflows := by
        intro earlier other second
        rw [← (first.unique second).2]
        exact within
      exact unaddressable ⟨ends, fun innocent => absurd innocent first.not_blameless⟩
    exact (error_of_first_trespasser first refused).2.1 past

/-- Where a register that is in order fails at the places of its fields, the error is one of range
that names the field to blame exactly if no field is refused for a place that is no range of
addresses. Such a field is reported as one without an offset. -/
theorem misfit_reported_iff
    (prepared : Prepared wordWidth (decl.siteIn container) above width fields)
    (failed : Register.ofDecl wordWidth container above decl = .error error) :
    (ReportsMisfit width fields error ↔ Addressable fields) ∧
      (¬ Addressable fields → ∃ cause, error.fault = .unresolvableOffset cause) := by
  have refused := arrange_fields_of_error prepared failed
  have otherwise (unaddressable : ¬ Addressable fields) :=
    unresolvable_of_not_addressable unaddressable refused
  refine ⟨⟨fun reported => ?_, fun addressable => ?_⟩, otherwise⟩
  · by_contra unaddressable
    obtain ⟨cause, range⟩ := reported.range
    obtain ⟨other, unresolved⟩ := otherwise unaddressable
    rw [range] at unresolved
    contradiction
  · exact reports_misfit_of_addressable addressable refused

def nibbles (fields : List (String × String)) : Decl where
  kind := .register
  attrs := .ofList [("name", "ctrl"), ("width", "8")]
  children := fields.map fun field =>
    { kind := .field, attrs := .ofList [("name", field.1), ("offset", field.2), ("size", "4")] }

def timer : Path := Path.root "timer"

theorem nibbles_prepared {fields : List (String × String)}
    (succeeds : (Field.family.children ((nibbles fields).siteIn timer) {}).isOk) :
    ∃ candidates, Prepared 32 ((nibbles fields).siteIn timer) {} 8 candidates := by
  obtain ⟨candidates, built⟩ := exists_eq_ok_of_is_ok succeeds
  -- What the register holds does not matter to its attributes.
  let site := (nibbles []).siteIn timer
  let header : Header := ⟨"ctrl", site.path, [], .readWrite, .bits⟩
  have titled : site.Titled {} header :=
    ⟨by decide +kernel, by decide +kernel, by decide +kernel⟩
  have offset : site.number? .offset = .ok none := by decide +kernel
  have single : checkSize site = .ok () := by decide +kernel
  have stated : statedWidth site 32 = .ok 8 := by decide +kernel
  have reset : statedReset site 8 = .ok 0 := by decide +kernel
  exact ⟨candidates, ⟨header, ⟨titled.keys, titled.name, titled.header⟩, built⟩, ⟨_, offset⟩,
    single, stated, ⟨_, reset⟩⟩

/-- The second of two fields that meet is to blame. -/
theorem crossing_nibbles_reported :
    ∃ candidates, Prepared 32 ((nibbles [("low", "0"), ("high", "2")]).siteIn timer) {} 8
        candidates ∧
      ReportsMisfit 8 candidates ⟨⟨["timer", "ctrl", "high"]⟩, .fieldRange (.overlap 2 6 0 4)⟩ := by
  obtain ⟨candidates, prepared⟩ := @nibbles_prepared [("low", "0"), ("high", "2")]
    (by decide +kernel)
  have failed := @eq_error_of_map_eq_error _ _ _
    (Register.ofDecl 32 timer {} (nibbles [("low", "0"), ("high", "2")])) (fun _ => ())
    ⟨⟨["timer", "ctrl", "high"]⟩, .fieldRange (.overlap 2 6 0 4)⟩ (by decide +kernel)
  obtain ⟨reported, otherwise⟩ := misfit_reported_iff prepared failed
  refine ⟨candidates, prepared, reported.2 ?_⟩
  by_contra unaddressable
  obtain ⟨cause, unresolved⟩ := otherwise unaddressable
  contradiction

/-- A field at the last addresses is in no register of eight bits, but it is reported as a field
without an offset. -/
theorem nibble_behind_last_address_unreported :
    ¬ ∀ wordWidth container above decl width fields error,
      Prepared wordWidth (decl.siteIn container) above width fields →
        Register.ofDecl wordWidth container above decl = .error error →
          ReportsMisfit width fields error := by
  intro all
  obtain ⟨candidates, prepared⟩ := @nibbles_prepared [("last", "0xfffffffffffffffe")]
    (by decide +kernel)
  have failed := @eq_error_of_map_eq_error _ _ _
    (Register.ofDecl 32 timer {} (nibbles [("last", "0xfffffffffffffffe")])) (fun _ => ())
    ⟨⟨["timer", "ctrl", "last"]⟩, .unresolvableOffset (.overflow 0xfffffffffffffffe 4)⟩
    (by decide +kernel)
  obtain ⟨cause, range⟩ := (all _ _ _ _ _ _ _ prepared failed).range
  contradiction

end Register

end AddressMap
