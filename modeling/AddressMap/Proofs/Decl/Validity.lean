import AddressMap.Proofs.Decl.Nesting
import AddressMap.Proofs.Elaboration.Offering
import AddressMap.Proofs.Element.Values

/-!
# Valid components

What the declaration of a component has to satisfy, stated for each declaration inside on its own
and without a word about how elements are built: which kinds stand where, which attributes are given
and what they spell, which numbers are in bounds, which names differ, and what finds room.
-/

namespace AddressMap

set_option autoImplicit false

/-- The layout in which the candidates with an offset stand where they state, and each of the others
has been given, in turn, the least place that is left. -/
structure FirstFits {α : Type} (placer : Placer) (candidates : List (Candidate α))
    (layout : Layout α) : Prop where
  stated : ({} : Layout α).Takes (candidates.flatMap Candidate.fixed)
  others : Layout.Allocates (({} : Layout α).insertEach (candidates.flatMap Candidate.fixed))
    (candidates.flatMap (Candidate.waiting placer)) layout none

namespace Kind

/-- The attributes that have to be given. An array may go by the name of its template. -/
def required : Kind → List Attribute
  | component => [.name, .width]
  | registerArray | fieldArray | instanceArray => [.count]
  | _ => [.name]

def placer : Kind → Placer
  | registerArray | fieldArray | instanceArray | memoryMap => .aligned
  | _ => .linear

end Kind

namespace Decl

def number? (decl : Decl) (attr : Attribute) : Option Nat :=
  (decl.get? attr).bind readNumeral?

def truth? (decl : Decl) (attr : Attribute) : Option Bool :=
  (decl.get? attr).bind readTruth?

def wordWidth (decl : Decl) : Nat :=
  (decl.number? .width).getD 0

def usedBits (wordWidth : Nat) (decl : Decl) : Nat :=
  (decl.number? .width).getD wordWidth

def fieldBits (decl : Decl) : Nat :=
  (decl.number? .size).getD 1

/-- The number of a named value behind others with these numbers: the stated one, or one past the
largest so far, or zero. -/
def enumNumber (before : List Nat) (decl : Decl) : Nat :=
  (decl.number? .value).getD (before.max?.elim 0 (· + 1))

def enumNumbers (before : List Nat) : List Decl → List Nat
  | [] => []
  | decl :: rest =>
      decl.enumNumber before :: enumNumbers (decl.enumNumber before :: before) rest

/-- The name, or that of the template, which an array without a name borrows. -/
def elementName? (decl : Decl) : Option String :=
  decl.name? <|> decl.children.head?.bind name?

def singleLength (decl : Decl) : Nat :=
  match decl.kind with
  | .register => 1
  | _ => decl.fieldBits

def templateEnd (decl : Decl) : Nat :=
  match decl.children with
  | [template] => (template.number? .offset).getD 0 + template.singleLength
  | _ => 0

/-- The length of each frame of an array: the stated one, or the least power of two that covers the
template. -/
def frameLength (decl : Decl) : Nat :=
  (decl.number? .framesize).getD (leastPowerOfTwo decl.templateEnd)

def length (decl : Decl) : Nat :=
  if decl.kind.isArray then decl.frameLength * (decl.number? .count).getD 0 else decl.singleLength

/-- The place that the element asks for. Arrays without an offset are aligned. -/
def request (decl : Decl) : Candidate Unit where
  item := ()
  offset? := decl.number? .offset
  size := decl.length
  placer? := if decl.kind.isArray then some .aligned else none

/-- Where the children have to end. A frame that is not stated has to become a power of two. -/
def limit? (wordWidth : Nat) (decl : Decl) : Option Nat :=
  match decl.kind with
  | .register => some (decl.usedBits wordWidth)
  | .registerArray | .fieldArray | .instanceArray =>
      some ((decl.number? .framesize).getD maxPowerOfTwo)
  | _ => decl.number? .size

/-- The kinds inside are such as the kind may hold, and an array holds one template. -/
structure Nested (decl : Decl) : Prop where
  admitted : ∀ child ∈ decl.children, decl.kind.admits child.kind
  template : decl.kind.isArray → ∃ template, decl.children = [template]

/-- Every attribute is one of the kind and can be read, none that is required is missing, and not
both reading and writing are forbidden. -/
structure Attributed (decl : Decl) : Prop where
  understood : ∀ entry ∈ decl.attrs.entries, ∃ attr ∈ decl.kind.attributes,
    attr.key = entry.1 ∧ (attr.read? entry.2).isSome
  given : ∀ attr ∈ decl.kind.required, (decl.get? attr).isSome
  unrestricted : ¬ (decl.truth? .readOnly = some true ∧ decl.truth? .writeOnly = some true)

structure InBounds (wordWidth : Nat) (decl : Decl) : Prop where
  component : decl.kind = .component →
    wordWidth.isPowerOfTwo ∧ 8 ≤ wordWidth ∧ wordWidth ≤ 2 ^ 31
  array : decl.kind.isArray → decl.number? .count ≠ some 0
  register : decl.kind = .register →
    (1 ≤ decl.usedBits wordWidth ∧ decl.usedBits wordWidth ≤ wordWidth) ∧
      (∀ size, decl.number? .size = some size → size = 1) ∧
      (decl.number? .reset).getD 0 < 2 ^ decl.usedBits wordWidth
  field : decl.kind = .field → 1 ≤ decl.fieldBits ∧
    ∀ number ∈ enumNumbers [] decl.children, number ≤ maxAddress ∧ number < 2 ^ decl.fieldBits

/-- There is room for the children, and all frames of an array are as long as it states. -/
structure Roomy (wordWidth : Nat) (decl : Decl) : Prop where
  children : decl.kind.spaceUnit?.isSome →
    ∃ layout, FirstFits decl.kind.placer (decl.children.map request) layout ∧
      ∀ limit, decl.limit? wordWidth = some limit → layout.top ≤ limit
  frames : decl.kind.isArray →
    decl.length ≤ maxAddress ∧ ∀ size, decl.number? .size = some size → size = decl.length

/-- What is asked of each declaration inside a component of this word width. -/
structure ValidNode (wordWidth : Nat) (decl : Decl) : Prop where
  nested : decl.Nested
  attributed : decl.Attributed
  inBounds : decl.InBounds wordWidth
  distinct : (decl.children.map elementName?).Nodup
  roomy : decl.Roomy wordWidth

def ValidThroughout (wordWidth : Nat) (decl : Decl) : Prop :=
  ∀ inner, Inside inner decl → inner.ValidNode wordWidth

/-- A component that is valid down to the last declaration inside. -/
structure Valid (decl : Decl) : Prop where
  kind : decl.kind = .component
  throughout : decl.ValidThroughout decl.wordWidth

/-- Nothing is declared inside kinds that hold nothing. -/
def Bare (decl : Decl) : Prop :=
  ∀ inner, Inside inner decl → inner.kind.isLeaf → inner.children = []

theorem forall_inside_iff {good : Decl → Prop} {decl : Decl} :
    (∀ inner, Inside inner decl → good inner) ↔
      good decl ∧ ∀ child ∈ decl.children, ∀ inner, Inside inner child → good inner := by
  constructor
  · intro all
    exact ⟨all decl (.self decl), fun child member inner inside =>
      all inner (.deeper member inside)⟩
  · intro all inner inside
    cases inside with
    | self => exact all.1
    | deeper member inside => exact all.2 _ member inner inside

theorem valid_throughout_iff {wordWidth : Nat} {decl : Decl} :
    decl.ValidThroughout wordWidth ↔
      decl.ValidNode wordWidth ∧ ∀ child ∈ decl.children, child.ValidThroughout wordWidth :=
  forall_inside_iff

theorem bare_iff {decl : Decl} :
    decl.Bare ↔ (decl.kind.isLeaf → decl.children = []) ∧ ∀ child ∈ decl.children, child.Bare :=
  forall_inside_iff

theorem Bare.child {decl child : Decl} (bare : decl.Bare) (member : child ∈ decl.children) :
    child.Bare :=
  (bare_iff.1 bare).2 child member

theorem bare_iff_pruned {decl : Decl} : decl.Bare ↔ decl.pruned = decl := by
  refine ⟨pruned_eq_self, fun same => ?_⟩
  induction decl using induction_on_children with
  | step decl ih =>
      refine bare_iff.2 ⟨fun leaf => ?_, fun child member => ih child member ?_⟩
      · have childless := children_pruned_of_leaf leaf
        rwa [same] at childless
      · cases leaf : decl.kind.isLeaf with
        | true =>
            have childless := children_pruned_of_leaf leaf
            rw [same] at childless
            rw [childless] at member
            contradiction
        | false =>
            have children := children_pruned_of_not_leaf leaf
            rw [same] at children
            exact List.map_inj_left.1 (children.symm.trans (List.map_id _).symm) child member

theorem ValidThroughout.bare {wordWidth : Nat} {decl : Decl}
    (valid : decl.ValidThroughout wordWidth) : decl.Bare := by
  intro inner inside leaf
  apply List.eq_nil_iff_forall_not_mem.2
  intro child member
  have admitted := (valid inner inside).nested.admitted child member
  have refused := List.all_eq_true.1 leaf child.kind (by cases child.kind <;> decide)
  rw [admitted] at refused
  contradiction

end Decl

end AddressMap
