import AddressMap.Element.Visit
import AddressMap.Proofs.Element.Descent
import AddressMap.Proofs.Element.Values
import AddressMap.Proofs.Space.Validity
import Mathlib.Data.List.Perm.Basic

/-!
# What a visit comes to

A survey is a visitor that notes the elements of the kinds it handles and goes on to all that is
next: the component of an instance, if it follows instances, and the children, in either direction.
A survey that handles all kinds it comes to notes every element once, each before what is next to
it. Any other survey ends at the first element that it does not handle, with all elements before
that one noted.
-/

namespace AddressMap

set_option autoImplicit false

namespace Element

def bound? : Element → Option Element
  | componentInstance placed => some (component placed.component)
  | _ => none

/-- Elements that stand in a component, or are one. -/
def isBlock : Element → Bool
  | component _ | registerArray _ | register _ | fieldArray _ | field _ | enumValue _ => true
  | memoryMap _ | instanceArray _ | componentInstance _ => false

theorem is_block_of_mem_children {element child : Element} (block : element.isBlock = true)
    (member : child ∈ element.children) : child.isBlock = true := by
  cases element with
  | component element | register element =>
      obtain ⟨⟨entry, _, _⟩, _, rfl⟩ := mem_elements member
      cases entry <;> rfl
  | registerArray element | fieldArray element =>
      obtain ⟨placed, _, rfl⟩ := mem_elements member
      rfl
  | field element =>
      obtain ⟨value, _, rfl⟩ := List.mem_map.1 member
      rfl
  | enumValue element => exact absurd member List.not_mem_nil
  | memoryMap element | instanceArray element | componentInstance element => cases block

/-- Nothing inside a component is bound to another. -/
theorem bound?_of_mem_component {outer : Component} {inner : Element}
    (member : inner ∈ (component outer).preorder) : inner.bound? = none := by
  have block : inner.isBlock = true :=
    forall_mem_preorder (fun _ holds _ => is_block_of_mem_children holds) rfl inner member
  cases inner <;> first | rfl | cases block

def reach (element : Element) : Nat :=
  if element.isBlock then element.rank else element.rank + 6

theorem fold_congr {β : Type} {step other : Element → List β → β} {element : Element}
    (same : ∀ inner ∈ element.preorder, step inner = other inner) :
    element.fold step = element.fold other := by
  induction element using induction_on_children with
  | step element ih =>
      have children : element.children.map (fold step) = element.children.map (fold other) := by
        apply List.map_congr_left
        intro child member
        apply ih child member
        intro inner inside
        exact same inner (mem_preorder_of_child member inside)
      rw [fold_eq, fold_eq, children, same element (mem_preorder_self element)]

end Element

namespace Visit

variable {σ α β : Type} {visit : Visit σ α} {state after : σ}

theorem run_bind_of_ok {answer : α} (further : α → Visit σ β)
    (here : visit.run state = (.ok answer, after)) :
    (visit >>= further).run state = (further answer).run after := by
  rw [ExceptT.run_bind]
  simp only [bind, StateT.bind, here]

theorem run_bind_of_error {error : VisitError} (further : α → Visit σ β)
    (here : visit.run state = (.error error, after)) :
    (visit >>= further).run state = (.error error, after) := by
  rw [ExceptT.run_bind]
  simp only [bind, StateT.bind, here]
  rfl

end Visit

theorem Visitor.visit_binding?_eq {σ ο : Type} (visitor : Visitor σ ο) (element : Element) :
    visitor.visitBinding? element = element.bound?.map visitor.visit := by
  cases element with
  | componentInstance placed =>
      apply congrArg some
      have same : ∀ inner ∈ (Element.component placed.component).preorder,
          visitor.step (fun _ => none) inner = visitor.step visitor.visitBinding? inner := by
        intro inner member
        have unbound := Element.bound?_of_mem_component member
        funext children
        cases inner <;> first | rfl | cases unbound
      exact Element.fold_congr same
  | _ => rfl

/-- A visitor that notes the elements of some kinds and goes on to what is next to them. -/
structure Survey where
  handles : Kind → Bool
  /-- Whether to go on from an instance to its component. -/
  follows : Bool
  /-- Whether to take children from the last to the first. -/
  reversed : Bool

namespace Survey

variable {α β : Type} (survey : Survey)

def handle (element : Element) (ways : Ways (List Element) Unit) : Visit (List Element) Unit := do
  modify (· ++ [element])
  if survey.follows then
    ways.binding?.getD (pure ())
  let _ ← if survey.reversed then ways.reversed else ways.children
  pure ()

def visitor : Visitor (List Element) Unit where
  handler? kind := if survey.handles kind then some survey.handle else none

def traversal : Traversal (List Element) Unit (List Element) where
  visitor := survey.visitor
  finish _ := get

def run (root : Element) : Except VisitError (List Element) × List Element :=
  (survey.traversal.run root).run []

def bound? (element : Element) : Option Element :=
  if survey.follows then element.bound? else none

def directed (children : List α) : List α :=
  if survey.reversed then children.reverse else children

def next (element : Element) : List Element :=
  (survey.bound? element).toList ++ survey.directed element.children

theorem directed_map (f : α → β) (children : List α) :
    survey.directed (children.map f) = (survey.directed children).map f := by
  unfold directed
  split
  · exact List.map_reverse.symm
  · rfl

theorem directed_perm (children : List α) : (survey.directed children).Perm children := by
  unfold directed
  split
  · exact List.reverse_perm children
  · exact List.Perm.refl children

theorem reach_lt_of_mem_next {element later : Element} (member : later ∈ survey.next element) :
    later.reach < element.reach := by
  rcases List.mem_append.1 member with bound | below
  · unfold bound? at bound
    split at bound
    · cases element with
      | componentInstance placed =>
          obtain rfl := List.mem_singleton.1 bound
          exact Nat.lt_succ_self 5
      | _ => cases bound
    · cases bound
  · have child : later ∈ element.children :=
      (survey.directed_perm element.children).mem_iff.1 below
    have lower := Element.rank_lt_of_mem_children child
    cases block : element.isBlock with
    | true =>
        have inside := Element.is_block_of_mem_children block child
        simpa only [Element.reach, block, inside, if_true] using lower
    | false =>
        simp only [Element.reach, block]
        split <;> simp only [Bool.false_eq_true, if_false] <;> omega

/-- Induction over an element and all that a survey goes on to. -/
theorem induction_on_next {motive : Element → Prop}
    (step : ∀ element, (∀ later ∈ survey.next element, motive later) → motive element)
    (element : Element) : motive element := by
  apply step
  intro later member
  exact induction_on_next step later
termination_by element.reach
decreasing_by exact survey.reach_lt_of_mem_next member

def listWith (bound : Element → List Element) : Element → List Element :=
  Element.fold fun element below => element :: (bound element ++ (survey.directed below).flatten)

/-- All elements in reach, each before those that are next to it. -/
def listing : Element → List Element :=
  survey.listWith fun element =>
    (survey.bound? element).toList.flatMap (survey.listWith fun _ => [])

theorem list_with_eq (bound : Element → List Element) (element : Element) :
    survey.listWith bound element =
      element :: (bound element ++
        (survey.directed element.children).flatMap (survey.listWith bound)) := by
  rw [List.flatMap_def, ← directed_map]
  exact Element.fold_eq _ element

theorem list_bound (element : Element) :
    (survey.bound? element).toList.flatMap (survey.listWith fun _ => []) =
      (survey.bound? element).toList.flatMap survey.listing := by
  unfold bound?
  split
  · cases element with
    | componentInstance placed =>
        have alone : survey.listWith (fun _ => []) (.component placed.component) =
            survey.listing (.component placed.component) := by
          unfold listing listWith
          apply Element.fold_congr
          intro inner member
          simp [bound?, Element.bound?_of_mem_component member]
        simp only [Element.bound?, Option.toList_some, List.flatMap_singleton, alone]
    | _ => simp only [Element.bound?, Option.toList_none, List.flatMap_nil]
  · simp only [Option.toList_none, List.flatMap_nil]

theorem listing_eq (element : Element) :
    survey.listing element = element :: (survey.next element).flatMap survey.listing := by
  rw [next, List.flatMap_append, ← list_bound]
  exact survey.list_with_eq _ element

theorem list_with_perm (bound : Element → List Element) (element : Element) :
    (survey.listWith bound element).Perm
      (element.preorder.flatMap fun inner => inner :: bound inner) := by
  induction element using Element.induction_on_children with
  | step element ih =>
      rw [list_with_eq, Element.preorder_eq, List.flatMap_cons, List.cons_append,
        List.flatMap_assoc]
      apply List.Perm.cons
      apply List.Perm.append_left
      have anyWay := (survey.directed_perm element.children).flatMap_right (survey.listWith bound)
      exact anyWay.trans (List.Perm.flatMap_left element.children ih)

/-- Every element inside is listed once, and so is the component of every instance. -/
theorem listing_perm (element : Element) :
    (survey.listing element).Perm
      (element.preorder.flatMap fun inner =>
        inner :: (survey.bound? inner).toList.flatMap Element.preorder) := by
  have alone : ∀ outer, (survey.listWith (fun _ => []) outer).Perm outer.preorder := by
    intro outer
    have perm := survey.list_with_perm (fun _ => []) outer
    rwa [List.flatMap_singleton'] at perm
  apply (survey.list_with_perm _ element).trans
  apply List.Perm.flatMap_left
  intro inner _
  apply List.Perm.cons
  exact List.Perm.flatMap_left _ fun outer _ => alone outer

/-- The survey handles all elements inside, and inside the components of instances that it
follows. -/
def HandlesAll (root : Element) : Prop :=
  ∀ inner ∈ root.preorder, survey.handles inner.kind = true ∧
    ∀ outer, survey.bound? inner = some outer →
      ∀ deeper ∈ outer.preorder, survey.handles deeper.kind = true

theorem handles_all_iff {root : Element} :
    survey.HandlesAll root ↔
      ∀ inner ∈ survey.listing root, survey.handles inner.kind = true := by
  simp only [(survey.listing_perm root).mem_iff, List.mem_flatMap, List.mem_cons,
    Option.mem_toList]
  constructor
  · intro handled inner listed
    obtain ⟨holder, member, rfl | ⟨outer, bound, inside⟩⟩ := listed
    · exact (handled inner member).1
    · exact (handled holder member).2 outer bound inner inside
  · intro handled inner member
    refine ⟨handled inner ⟨inner, member, Or.inl rfl⟩, ?_⟩
    intro outer bound deeper inside
    exact handled deeper ⟨inner, member, Or.inr ⟨outer, bound, inside⟩⟩

theorem cut_append {listed more before after : List α} {inner : α}
    (cut : listed ++ more = before ++ inner :: after) :
    (∃ later, listed = before ++ inner :: later) ∨
      ∃ later, before = listed ++ later ∧ more = later ++ inner :: after := by
  rcases List.append_eq_append_iff.1 cut with ⟨later, first, second⟩ | ⟨later, first, second⟩
  · exact Or.inr ⟨later, first, second⟩
  · cases later with
    | nil => exact Or.inr ⟨[], by simpa using first.symm, second.symm⟩
    | cons head tail =>
        obtain ⟨rfl, _⟩ := List.cons.inj second
        exact Or.inl ⟨tail, first⟩

/-- The visit comes to these elements, if it handles them, and to no other. -/
structure ComesTo (visit : Visit (List Element) α) (listed : List Element) : Prop where
  succeeds : (∀ inner ∈ listed, survey.handles inner.kind = true) → ∀ noted,
    ∃ answer, visit.run noted = (.ok answer, noted ++ listed)
  stops : ∀ before inner after, listed = before ++ inner :: after →
    (∀ earlier ∈ before, survey.handles earlier.kind = true) →
    survey.handles inner.kind = false → ∀ noted,
    visit.run noted = (.error (.unhandled inner.kind inner.path), noted ++ before)

namespace ComesTo

variable {survey} {visit : Visit (List Element) α} {further : α → Visit (List Element) β}
  {listed more : List Element}

theorem done (answer : α) : survey.ComesTo (pure answer) [] := by
  constructor
  · intro _ noted
    exact ⟨answer, by rw [List.append_nil]; rfl⟩
  · intro before inner after cut
    exact absurd cut.symm (List.append_ne_nil_of_right_ne_nil before (List.cons_ne_nil _ _))

theorem bind (first : survey.ComesTo visit listed)
    (second : ∀ answer, survey.ComesTo (further answer) more) :
    survey.ComesTo (visit >>= further) (listed ++ more) := by
  constructor
  · intro handled noted
    obtain ⟨handledFirst, handledSecond⟩ := List.forall_mem_append.1 handled
    obtain ⟨answer, here⟩ := first.succeeds handledFirst noted
    obtain ⟨last, there⟩ := (second answer).succeeds handledSecond (noted ++ listed)
    refine ⟨last, ?_⟩
    rw [Visit.run_bind_of_ok further here, there, List.append_assoc]
  · intro before inner after cut handled unhandled noted
    rcases cut_append cut with ⟨later, rfl⟩ | ⟨later, rfl, rfl⟩
    · exact Visit.run_bind_of_error further
        (first.stops before inner later rfl handled unhandled noted)
    · obtain ⟨handledFirst, handledSecond⟩ := List.forall_mem_append.1 handled
      obtain ⟨answer, here⟩ := first.succeeds handledFirst noted
      have there := (second answer).stops later inner after rfl handledSecond unhandled
      rw [Visit.run_bind_of_ok further here, there, List.append_assoc]

theorem note {element : Element} (handled : survey.handles element.kind = true) :
    survey.ComesTo (modify (· ++ [element])) [element] := by
  constructor
  · intro _ noted
    exact ⟨(), rfl⟩
  · intro before inner after cut _ unhandled
    have same : inner ∈ [element] := cut ▸ List.mem_append_right before List.mem_cons_self
    rw [List.mem_singleton.1 same, handled] at unhandled
    cases unhandled

theorem refuse {element : Element} (unhandled : survey.handles element.kind = false) :
    survey.ComesTo (throw (.unhandled element.kind element.path) : Visit (List Element) α)
      (element :: listed) := by
  constructor
  · intro handled
    have known := handled element List.mem_cons_self
    rw [unhandled] at known
    cases known
  · intro before inner after cut handled _ noted
    cases before with
    | nil =>
        obtain ⟨rfl, _⟩ := List.cons.inj cut
        rw [List.append_nil]
        rfl
    | cons first rest =>
        obtain ⟨rfl, _⟩ := List.cons.inj cut
        have known := handled element List.mem_cons_self
        rw [unhandled] at known
        cases known

theorem each {elements : List Element} {way : Element → Visit (List Element) Unit}
    {listing : Element → List Element}
    (all : ∀ element ∈ elements, survey.ComesTo (way element) (listing element)) :
    survey.ComesTo (visitEach (elements.map way)) (elements.flatMap listing) := by
  induction elements with
  | nil => exact done []
  | cons first rest ih =>
      obtain ⟨here, there⟩ := List.forall_mem_cons.1 all
      apply here.bind
      intro answer
      have further := (ih there).bind fun answers => done (answer :: answers)
      rwa [List.append_nil] at further

theorem perhaps {element? : Option Element} {way : Element → Visit (List Element) Unit}
    {listing : Element → List Element}
    (all : ∀ element ∈ element?.toList, survey.ComesTo (way element) (listing element)) :
    survey.ComesTo ((element?.map way).getD (pure ())) (element?.toList.flatMap listing) := by
  cases element? with
  | none => exact done ()
  | some element =>
      have here := all element List.mem_cons_self
      simpa using here

end ComesTo

theorem visit_of_unhandled {element : Element} (unhandled : survey.handles element.kind = false) :
    survey.visitor.visit element = throw (.unhandled element.kind element.path) := by
  rw [Visitor.visit_eq]
  simp only [Visitor.step, visitor, unhandled, Bool.false_eq_true, if_false]

/-- A survey notes an element that it handles and goes on to what is next. -/
theorem visit_of_handled {element : Element} (handled : survey.handles element.kind = true) :
    survey.visitor.visit element = (do
      modify (· ++ [element])
      ((survey.bound? element).map survey.visitor.visit).getD (pure ())
      let _ ← visitEach ((survey.directed element.children).map survey.visitor.visit)
      pure ()) := by
  have children := survey.directed_map survey.visitor.visit element.children
  rw [Visitor.visit_eq, ← children]
  simp only [Visitor.step, visitor, handled, if_true, handle, Visitor.visit_binding?_eq]
  unfold directed bound?
  cases survey.follows <;> cases survey.reversed <;> rfl

theorem comes_to_listing (element : Element) :
    survey.ComesTo (survey.visitor.visit element) (survey.listing element) := by
  induction element using survey.induction_on_next with
  | step element ih =>
      rw [listing_eq]
      cases handled : survey.handles element.kind with
      | false =>
          rw [visit_of_unhandled survey handled]
          exact ComesTo.refuse handled
      | true =>
          obtain ⟨bound, directed⟩ := List.forall_mem_append.1 ih
          have rest := (ComesTo.each directed).bind fun _ => ComesTo.done ()
          rw [List.append_nil] at rest
          have onwards := (ComesTo.perhaps bound).bind fun _ => rest
          rw [visit_of_handled survey handled, next, List.flatMap_append]
          exact (ComesTo.note handled).bind fun _ => onwards

theorem listing_eq_preorder (stays : survey.follows = false) (forward : survey.reversed = false)
    (element : Element) : survey.listing element = element.preorder := by
  induction element using Element.induction_on_children with
  | step element ih =>
      have inside : survey.next element = element.children := by
        simp [next, bound?, directed, stays, forward]
      rw [listing_eq, Element.preorder_eq, inside]
      apply congrArg (element :: ·)
      exact List.flatMap_congr ih

theorem run_eq (root : Element) :
    survey.run root =
      match (survey.visitor.visit root).run [] with
      | (.ok _, noted) => (.ok noted, noted)
      | (.error error, noted) => (.error error, noted) := by
  have begun : survey.traversal.run root = survey.visitor.visit root >>= fun _ => get := rfl
  unfold run
  rw [begun]
  cases here : (survey.visitor.visit root).run [] with
  | mk outcome noted =>
      cases outcome with
      | ok answer => exact Visit.run_bind_of_ok _ here
      | error error => exact Visit.run_bind_of_error _ here

theorem run_of_handles_all {root : Element} (handled : survey.HandlesAll root) :
    survey.run root = (.ok (survey.listing root), survey.listing root) := by
  have reached := survey.handles_all_iff.1 handled
  obtain ⟨answer, here⟩ := (survey.comes_to_listing root).succeeds reached []
  rw [run_eq, here]
  rfl

/-- Otherwise there is a first element in the listing that the survey does not handle. -/
theorem run_of_not_handles_all {root : Element} (unhandled : ¬ survey.HandlesAll root) :
    ∃ before inner after, survey.listing root = before ++ inner :: after ∧
      (∀ earlier ∈ before, survey.handles earlier.kind = true) ∧
      survey.handles inner.kind = false ∧
      survey.run root = (.error (.unhandled inner.kind inner.path), before) := by
  rw [handles_all_iff] at unhandled
  cases first : (survey.listing root).find? fun inner => !survey.handles inner.kind with
  | none =>
      have reached := List.find?_eq_none.1 first
      exact absurd (fun inner listed => by simpa using reached inner listed) unhandled
  | some inner =>
      obtain ⟨refused, before, after, cut, earlier⟩ := List.find?_eq_some_iff_append.1 first
      have handled : ∀ one ∈ before, survey.handles one.kind = true := by simpa using earlier
      have refused : survey.handles inner.kind = false := by simpa using refused
      have here := (survey.comes_to_listing root).stops before inner after cut handled refused []
      refine ⟨before, inner, after, cut, handled, refused, ?_⟩
      rw [run_eq, here]
      rfl

/-- A listing that has every element once, before what is next to it. -/
structure Orders (listing : Element → List Element) : Prop where
  /-- Without instances to follow, from the first child to the last, it is the one of the tree. -/
  plain : survey.follows = false → survey.reversed = false →
    ∀ element, listing element = element.preorder
  preorder : ∀ element, listing element = element :: (survey.next element).flatMap listing
  complete : ∀ element, (listing element).Perm
    (element.preorder.flatMap fun inner =>
      inner :: (survey.bound? inner).toList.flatMap Element.preorder)
  /-- Children that are laid out are next in address order, or in the opposite order. -/
  laidOut : ∀ (element : Element) (layout : Layout Element), element.layout? = some layout →
    layout.Valid → Layout.InOrder layout.items ∧ survey.next element =
      (survey.bound? element).toList ++ survey.directed (layout.items.map (·.item))
  /-- Named values are next as they are declared, or in the opposite order. -/
  declared : ∀ field, survey.next (.field field) =
    survey.directed (field.values.map Element.enumValue)

theorem orders_listing : survey.Orders survey.listing where
  plain := survey.listing_eq_preorder
  preorder := survey.listing_eq
  complete := survey.listing_perm
  laidOut element layout holds valid := by
    refine ⟨valid.ordered, ?_⟩
    rw [next, Element.children_of_layout? holds]
  declared field := by
    unfold next bound?
    split <;> rfl

/-- A survey succeeds exactly when it handles all that it comes to, and then has noted all of it in
order. Otherwise it ends at the first element of that order that it does not handle, with those
before noted. -/
theorem notes_in_order_until_unhandled (survey : Survey) (root : Element) :
    survey.Orders survey.listing ∧
      ((∃ answer, (survey.run root).1 = .ok answer) ↔ survey.HandlesAll root) ∧
      (survey.HandlesAll root →
        survey.run root = (.ok (survey.listing root), survey.listing root)) ∧
      (¬ survey.HandlesAll root →
        ∃ before inner after, survey.listing root = before ++ inner :: after ∧
          (∀ earlier ∈ before, survey.handles earlier.kind = true) ∧
          survey.handles inner.kind = false ∧
          survey.run root = (.error (.unhandled inner.kind inner.path), before)) := by
  refine ⟨survey.orders_listing, ?_, survey.run_of_handles_all, survey.run_of_not_handles_all⟩
  constructor
  · intro ⟨answer, succeeds⟩
    by_contra unhandled
    obtain ⟨_, _, _, _, _, _, ended⟩ := survey.run_of_not_handles_all unhandled
    rw [ended] at succeeds
    cases succeeds
  · intro handled
    exact ⟨_, congrArg Prod.fst (survey.run_of_handles_all handled)⟩

def sampleField (name : String) (offset : Nat) : Field where
  header := ⟨name, ⟨["CTRL", name]⟩, [], .readWrite, .bits⟩
  offset := offset
  size := 1
  values := [⟨⟨"ON", ⟨["CTRL", name, "ON"]⟩, [], .readWrite, .bits⟩, 1⟩]

def sampleRegister : Register where
  header := ⟨"CTRL", ⟨["CTRL"]⟩, [], .readWrite, .bits⟩
  offset := 0
  width := 2
  reset := 0
  layout := ⟨[⟨.single (sampleField "EN" 0), 0, 1⟩, ⟨.single (sampleField "MODE" 1), 1, 1⟩], some 2⟩

/-- Backwards, the last field comes first, and its value ends the survey. -/
example :
    ({ handles := (· != .enumValue), follows := false, reversed := true } : Survey).run
        (.register sampleRegister) =
      (.error (.unhandled .enumValue ⟨["CTRL", "MODE", "ON"]⟩),
        [.register sampleRegister, .field (sampleField "MODE" 1)]) := by
  rfl

end Survey

end AddressMap
