import AddressMap.Proofs.Elaboration.Offering
import AddressMap.Proofs.Elaboration.Rules
import AddressMap.Proofs.Element.WellFormed

/-!
# Where errors are reported

`FailsAt` says where an error can be reported, if there is one. Readers report at their site, and an
arrangement reports at the candidate that could not be placed.
-/

namespace AddressMap

set_option autoImplicit false

/-- Whatever error is reported, its path is such a path. -/
def FailsAt {α : Type} (within : Path → Prop) (result : Build α) : Prop :=
  ∀ error, result = .error error → within error.path

section FailsAt

variable {α β : Type} {within wider : Path → Prop} {path : Path}

theorem fails_at_ok (value : α) : FailsAt within (.ok value) :=
  nofun

theorem fails_at_error (here : within path) (fault : Fault) :
    FailsAt within (.error ⟨path, fault⟩ : Build α) := by
  intro error reported
  cases reported
  exact here

theorem FailsAt.imp {result : Build α} (weaker : ∀ path, within path → wider path)
    (fails : FailsAt within result) : FailsAt wider result :=
  fun error reported => weaker error.path (fails error reported)

theorem FailsAt.bind {first : Build α} {next : α → Build β} (fails : FailsAt within first)
    (later : ∀ value, first = .ok value → FailsAt within (next value)) :
    FailsAt within (first >>= next) := by
  intro error reported
  rcases bind_eq_error.1 reported with stopped | ⟨value, passed, stopped⟩
  · exact fails error stopped
  · exact later value passed error stopped

theorem FailsAt.map_error {result : Build α} {f : BuildError → BuildError}
    (kept : ∀ error, (f error).path = error.path) (fails : FailsAt within result) :
    FailsAt within (result.mapError f) := by
  intro error reported
  cases result with
  | error found =>
      cases reported
      rw [kept]
      exact fails found rfl
  | ok value => contradiction

theorem fails_at_claim_name (here : within path) (names : List String) :
    FailsAt within (claimName names path) := by
  unfold claimName
  split
  · exact fails_at_error here _
  · exact fails_at_ok _

theorem fails_at_settled_layout (here : within path) (space : Space α) (declared? : Option Nat) :
    FailsAt within (settledLayout path space declared?) := by
  unfold settledLayout
  split
  · exact fails_at_ok _
  · exact fails_at_error here _

theorem fails_at_require (here : within path) (catalog : Catalog) (name : String) :
    FailsAt within (catalog.require path name) := by
  unfold Catalog.require
  split
  · exact fails_at_ok _
  · exact fails_at_error here _

end FailsAt

namespace Site

variable {α : Type} {within : Path → Prop} {site : Site} (here : within site.path)

include here

theorem fails_at_fail (fault : Fault) : FailsAt within (site.fail fault : Build α) :=
  fails_at_error here fault

theorem fails_at_check_keys : FailsAt within site.checkKeys := by
  unfold checkKeys
  dsimp only
  split
  · exact fails_at_fail here _
  · exact fails_at_ok _

theorem fails_at_read_attribute? (attr : Attribute) (read? : String → Option α)
    (cause : String → AttributeFault) : FailsAt within (site.readAttribute? attr read? cause) := by
  unfold readAttribute?
  split
  · exact fails_at_ok _
  · split
    · exact fails_at_ok _
    · exact fails_at_fail here _

theorem fails_at_number? (attr : Attribute) : FailsAt within (site.number? attr) :=
  fails_at_read_attribute? here attr _ _

theorem fails_at_positive? (attr : Attribute) : FailsAt within (site.positive? attr) := by
  apply FailsAt.bind (fails_at_number? here attr)
  intro number? _
  split
  · exact fails_at_fail here _
  · exact fails_at_ok _

theorem fails_at_name : FailsAt within site.name := by
  unfold Site.name
  split
  · exact fails_at_ok _
  · exact fails_at_fail here _

theorem fails_at_keys_and_name {next : String → Build α}
    (later : ∀ name, FailsAt within (next name)) :
    FailsAt within (do
      site.checkKeys
      let name ← site.name
      next name) := by
  apply FailsAt.bind (fails_at_check_keys here)
  intro _ _
  apply FailsAt.bind (fails_at_name here)
  exact fun name _ => later name

theorem fails_at_header (name : String) (above : Context) :
    FailsAt within (site.header name above) := by
  apply FailsAt.bind (fails_at_read_attribute? here .readOnly _ _)
  intro readOnly? _
  apply FailsAt.bind (fails_at_read_attribute? here .writeOnly _ _)
  intro writeOnly? _
  split
  · exact fails_at_fail here _
  · apply FailsAt.bind (fails_at_read_attribute? here .format _ _)
    exact fun format? _ => fails_at_ok _

theorem fails_at_check_word_width (width : Nat) : FailsAt within (site.checkWordWidth width) := by
  unfold checkWordWidth
  split
  · exact fails_at_ok _
  · exact fails_at_fail here _

theorem fails_at_array_shape : FailsAt within site.arrayShape := by
  apply FailsAt.bind (fails_at_positive? here .count)
  intro count? _
  cases count? with
  | none => exact (fails_at_fail here _).bind fun count given => absurd given fail_ne_ok
  | some count =>
      show FailsAt within (site.number? .offset >>= _)
      apply FailsAt.bind (fails_at_number? here .offset)
      intro offset? _
      apply FailsAt.bind (fails_at_number? here .framesize)
      intro framesize? _
      apply FailsAt.bind (fails_at_number? here .size)
      exact fun size? _ => fails_at_ok _

theorem fails_at_named_after (container : Path) (template : Decl) :
    FailsAt within (site.namedAfter container template) := by
  unfold namedAfter
  split
  · exact fails_at_ok _
  · exact fails_at_fail here _

theorem fails_at_array_size (shape : ArrayShape) (framesize : Nat) :
    FailsAt within (site.arraySize shape framesize) := by
  unfold arraySize
  split
  · exact fails_at_fail here _
  · split
    · exact fails_at_ok _
    · split
      · exact fails_at_ok _
      · exact fails_at_fail here _

omit here in
theorem fails_at_refuse_child {container : Site} {child : Decl}
    (here : within (child.siteIn container.path).path) :
    FailsAt within (container.refuseChild child : Build α) := by
  unfold refuseChild
  dsimp only
  split
  · split
    · exact fails_at_fail here _
    · exact fails_at_fail here _
  · exact fails_at_fail here _

end Site

section Arrange

variable {α : Type} [Placeable α] {within : Path → Prop} {space : Space α}
  {candidates : List (Candidate α)}

omit [Placeable α] in
theorem mem_of_fit_all {layout reached : Layout α} {pending : List (Pending α)}
    {unplaced : Unplaced α} (stopped : layout.fitAll pending = (reached, some unplaced)) :
    unplaced.child ∈ pending := by
  induction pending generalizing layout with
  | nil => cases stopped
  | cons child rest ih =>
      rw [Layout.fitAll] at stopped
      split at stopped
      · exact List.mem_cons_of_mem child (ih stopped)
      · cases stopped
        exact List.mem_cons_self

theorem fails_at_offer_all (here : ∀ candidate ∈ candidates, within candidate.path) :
    FailsAt within (offerAll space candidates) := by
  induction candidates generalizing space with
  | nil => exact fails_at_ok _
  | cons candidate rest ih =>
      obtain ⟨first, others⟩ := List.forall_mem_cons.1 here
      apply FailsAt.bind
      · unfold Candidate.offerTo
        split
        · exact fails_at_ok _
        · exact fails_at_error first _
      · exact fun next _ => ih others

/-- An arrangement fails at a candidate that could not be placed. -/
theorem fails_at_arrange {placer : Placer} {resizer : Resizer}
    (here : ∀ candidate ∈ candidates, within candidate.path) :
    FailsAt within (arrange { placer, resizer } candidates) := by
  apply FailsAt.bind (fails_at_offer_all here)
  intro offered offering
  have waiting : offered.pending = candidates.flatMap (Candidate.waiting placer) := by
    obtain ⟨-, rfl⟩ := offer_all_eq_ok.1 offering
    exact List.nil_append _
  split
  · exact fails_at_ok _
  next reached unplaced stopped =>
    have member : unplaced.child ∈ offered.pending :=
      mem_of_fit_all (Prod.ext rfl (Prod.mk.inj stopped).2)
    -- Only candidates wait, and they wait as what they are.
    rw [waiting] at member
    obtain ⟨candidate, present, found⟩ := List.mem_flatMap.1 member
    obtain ⟨-, same⟩ := Candidate.mem_waiting.1 found
    apply fails_at_error
    rw [same]
    exact here candidate present

end Arrange

end AddressMap
