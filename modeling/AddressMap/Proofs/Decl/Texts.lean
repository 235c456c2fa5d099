import AddressMap.Proofs.Decl.Json
import AddressMap.Proofs.Json.Nesting
import AddressMap.Proofs.Json.Promising

/-!
# Declarations and their texts

A declaration is read back from its compact text and from its indented text exactly if these nest
no deeper than is allowed. Whatever text a declaration was read from, its own texts nest no deeper
than that one, so they are always read back.
-/

namespace AddressMap

set_option autoImplicit false

open Json Json.Reader

namespace Json

theorem balanced_of_no_brackets {tokens : List Token}
    (plain : ∀ token ∈ tokens, token.isBracket = false) : Balanced tokens ∧ nesting tokens = 0 := by
  induction tokens with
  | nil => exact ⟨balanced_nil, rfl⟩
  | cons token rest ih =>
      obtain ⟨here, behind⟩ := List.forall_mem_cons.1 plain
      obtain ⟨balanced, flat⟩ := ih behind
      obtain ⟨whole, same⟩ := balanced_cons here balanced
      exact ⟨whole, same.trans flat⟩

theorem scanned_compact {tokens later : List Token} {rest : List Char}
    (plain : ∀ token ∈ tokens, token.isPlain = true) (behind : ScannedAs rest later) :
    ScannedAs ((compact tokens).toList ++ rest) (tokens ++ later) := by
  induction tokens with
  | nil => exact behind
  | cons token others ih =>
      obtain ⟨here, further⟩ := List.forall_mem_cons.1 plain
      rw [compact, List.map_cons, String.join_cons, String.toList_append, List.append_assoc]
      exact scanned_plain here (ih further)

end Json

namespace Decl

theorem forall_mem_written_iff {property : Written → Prop} {decl : Decl} :
    (∀ field ∈ decl.written, property field) ↔
      property decl.writtenKind ∧
        (decl.attrs.isEmpty = false → property decl.writtenAttrs) ∧
        (decl.description.isEmpty = false → property decl.writtenDescription) ∧
        (decl.children.isEmpty = false → property decl.writtenChildren) := by
  constructor
  · intro all
    simp only [written, List.forall_mem_append] at all
    obtain ⟨⟨⟨kind, attrs⟩, description⟩, children⟩ := all
    exact ⟨kind _ (Written.mem_listed.2 ⟨rfl, rfl⟩),
      fun present => attrs _ (Written.mem_listed.2 ⟨present, rfl⟩),
      fun present => description _ (Written.mem_listed.2 ⟨present, rfl⟩),
      fun present => children _ (Written.mem_listed.2 ⟨present, rfl⟩)⟩
  · rintro ⟨kind, attrs, description, children⟩
    exact forall_mem_written kind attrs description children

theorem balanced_around_flat {opening closing : Token} {runs : List (List Token)}
    (opens : opening.opens = true) (closes : closing.closes = true)
    (flat : ∀ run ∈ runs, ∀ token ∈ run, token.isBracket = false) :
    Balanced (opening :: (commaSeparated runs ++ [closing])) ∧
      nesting (opening :: (commaSeparated runs ++ [closing])) = 1 := by
  obtain ⟨inner, within⟩ :=
    balanced_intercalate fun run member => (balanced_of_no_brackets (flat run member)).1
  have none : nesting (commaSeparated runs) ≤ 0 :=
    (within 0).2 fun run member => (balanced_of_no_brackets (flat run member)).2.le
  obtain ⟨whole, deeper⟩ := balanced_between opens closes inner
  refine ⟨whole, ?_⟩
  rw [commaSeparated] at none ⊢
  omega

theorem balanced_attrs (attrs : AttrMap) :
    Balanced (attrsTokens attrs) ∧ nesting (attrsTokens attrs) = 1 := by
  apply balanced_around_flat rfl rfl
  intro run member token inside
  simp only [List.map_map, List.mem_map] at member
  obtain ⟨entry, -, rfl⟩ := member
  simp only [Function.comp_apply, List.mem_cons, List.not_mem_nil, or_false] at inside
  rcases inside with rfl | rfl | rfl <;> rfl

theorem balanced_description (paragraphs : List String) :
    Balanced (arrayTokens (paragraphs.map fun text => [.string text])) ∧
      nesting (arrayTokens (paragraphs.map fun text => [.string text])) = 1 := by
  apply balanced_around_flat rfl rfl
  intro run member token inside
  obtain ⟨text, -, rfl⟩ := List.mem_map.1 member
  obtain rfl := List.mem_singleton.1 inside
  rfl

theorem Written.balanced_entry {field : Written} (balanced : Balanced field.tokens) :
    Balanced field.entry ∧ nesting field.entry = nesting field.tokens := by
  obtain ⟨behind, same⟩ := @balanced_cons _ .colon rfl balanced
  obtain ⟨whole, again⟩ := @balanced_cons _ (.string field.name) rfl behind
  exact ⟨whole, again.trans same⟩

/-- The room that a declaration leaves to its fields. -/
theorem fits_in_succ_iff {room : Nat} {decl : Decl} :
    decl.FitsIn (room + 1) ↔
      (decl.attrs.isEmpty = false → 1 ≤ room) ∧ (decl.description.isEmpty = false → 1 ≤ room) ∧
        (decl.children.isEmpty = false →
          1 ≤ room ∧ ∀ child ∈ decl.children, child.FitsIn (room - 1)) := by
  cases room with
  | zero => simp [FitsIn]
  | succ room =>
      cases children : decl.children with
      | nil => simp [FitsIn, children]
      | cons child rest => simp [FitsIn, children]

/-- The tokens of a declaration nest at most so many brackets exactly if it fits in this room. -/
theorem balanced_tokens (decl : Decl) :
    Balanced decl.tokens ∧ ∀ room, nesting decl.tokens ≤ room ↔ decl.FitsIn room := by
  induction decl using induction_on_children with
  | step decl ih =>
      obtain ⟨kind, kindNesting⟩ : Balanced decl.writtenKind.tokens ∧
          nesting decl.writtenKind.tokens = 0 := balanced_cons rfl balanced_nil
      obtain ⟨attrs, attrsNesting⟩ : Balanced decl.writtenAttrs.tokens ∧
          nesting decl.writtenAttrs.tokens = 1 := balanced_attrs decl.attrs
      obtain ⟨description, descriptionNesting⟩ : Balanced decl.writtenDescription.tokens ∧
          nesting decl.writtenDescription.tokens = 1 := balanced_description decl.description
      obtain ⟨separated, inside⟩ :=
        balanced_intercalate (List.forall_mem_map.2 fun child member => (ih child member).1)
      obtain ⟨children, childrenNesting⟩ : Balanced decl.writtenChildren.tokens ∧
          nesting decl.writtenChildren.tokens = _ + 1 := balanced_between rfl rfl separated
      have fields : ∀ field ∈ decl.written, Balanced field.tokens :=
        forall_mem_written kind (fun _ => attrs) (fun _ => description) fun _ => children
      obtain ⟨listed, within⟩ := balanced_intercalate
        (List.forall_mem_map.2 fun field member => (Written.balanced_entry (fields field member)).1)
      obtain ⟨whole, nested⟩ := @balanced_between _ .openObject .closeObject rfl rfl listed
      rw [tokens_eq]
      refine ⟨whole, fun room => ?_⟩
      cases room with
      | zero => simp [nested, FitsIn]
      | succ room =>
          have entries : (∀ field ∈ decl.written, nesting field.entry ≤ room) ↔
              ∀ field ∈ decl.written, nesting field.tokens ≤ room := by
            apply forall₂_congr
            intro field member
            rw [(Written.balanced_entry (fields field member)).2]
          have childrenFit : nesting decl.writtenChildren.tokens ≤ room ↔
              1 ≤ room ∧ ∀ child ∈ decl.children, child.FitsIn (room - 1) := by
            have each : nesting (commaSeparated (decl.children.map tokens)) ≤ room - 1 ↔
                ∀ child ∈ decl.children, child.FitsIn (room - 1) := by
              apply (inside (room - 1)).trans
              rw [List.forall_mem_map]
              exact forall₂_congr fun child member => (ih child member).2 (room - 1)
            rw [← each, childrenNesting]
            omega
          rw [nested, Nat.add_le_add_iff_right, within, List.forall_mem_map, entries,
            forall_mem_written_iff, fits_in_succ_iff, kindNesting, attrsNesting,
            descriptionNesting, childrenFit]
          simp

/-- The declaration has no fields that need another bracket, unless there is room for it, and what
is declared inside is as it is said to be. -/
structure KeepsTo (room : Bool) (inside : List Decl → Prop) (decl : Decl) : Prop where
  attrs : decl.attrs.isEmpty = false → room = true
  description : decl.description.isEmpty = false → room = true
  children : decl.children.isEmpty = false → inside decl.children

def Member.KeepsTo (room : Bool) (inside : List Decl → Prop) : Member → Prop
  | .attrs _ | .description _ => room = true
  | .children found => inside found
  | .kind _ | .unknown => True

section Promised

variable {room : Bool} {inside : List Decl → Prop} {readChildren : Reader (List Decl)}

theorem promises_room {α : Type} {reader : Reader α} :
    (nested room reader).Promises fun _ => room = true := by
  cases room with
  | true => exact promises_of_forall fun _ => rfl
  | false => exact promises_failure

theorem promises_member (promised : readChildren.Promises inside) :
    (readMember room readChildren).Promises (Member.KeepsTo room inside) := by
  refine promises_then fun name => promises_then fun _ => ?_
  split
  · exact promises_map (promises_of_forall fun _ => trivial)
  · exact promises_map promises_room
  · exact promises_map promises_room
  · exact promises_map promised
  · exact promises_then fun _ => promises_pure trivial

theorem mem_of_unique {α : Type} {pick : Member → Option α} {members : List Member} {value : α}
    (unique : unique? pick members = some (some value)) :
    ∃ member ∈ members, pick member = some value := by
  unfold unique? at unique
  split at unique
  · simp at unique
  next found picked =>
    obtain rfl : found = value := by simpa using unique
    apply List.mem_filterMap.1
    rw [picked]
    exact List.mem_singleton_self found
  · contradiction

theorem keeps_to_of_members {members : List Member} {decl : Decl}
    (each : ∀ member ∈ members, member.KeepsTo room inside)
    (made : ofMembers? members = some decl) : decl.KeepsTo room inside := by
  simp only [ofMembers?, Option.bind_eq_bind, Option.bind_eq_some_iff, Option.some.injEq] at made
  obtain ⟨_, -, kind, -, attrs?, attrs, description?, description, children?, children, rfl⟩ := made
  constructor
  case attrs =>
    intro present
    cases attrs? with
    | none => contradiction
    | some found =>
        obtain ⟨member, listed, picked⟩ := mem_of_unique attrs
        cases member <;> cases picked
        exact each _ listed
  case description =>
    intro present
    cases description? with
    | none => contradiction
    | some found =>
        obtain ⟨member, listed, picked⟩ := mem_of_unique description
        cases member <;> cases picked
        exact each _ listed
  case children =>
    intro present
    cases children? with
    | none => contradiction
    | some found =>
        obtain ⟨member, listed, picked⟩ := mem_of_unique children
        cases member <;> cases picked
        exact each _ listed

theorem promises_positional (promised : readChildren.Promises inside) :
    (readPositional room readChildren).Promises (KeepsTo room inside) := by
  refine promises_then fun kind => promises_then fun closed => ?_
  split
  · exact promises_pure ⟨nofun, nofun, nofun⟩
  refine promises_bind promises_room fun attrs fits => promises_then fun closed => ?_
  split
  · exact promises_pure ⟨fun _ => fits, nofun, nofun⟩
  refine promises_then fun description => promises_then fun closed => ?_
  split
  · exact promises_pure ⟨fun _ => fits, fun _ => fits, nofun⟩
  refine promises_bind promised fun children holds => promises_then fun _ => ?_
  exact promises_pure ⟨fun _ => fits, fun _ => fits, fun _ => holds⟩

theorem promises_read_with (promised : readChildren.Promises inside) :
    (readWith room readChildren).Promises (KeepsTo room inside) := by
  refine promises_then fun token => ?_
  split
  · refine promises_bind (promises_separated (promises_member promised)) fun members each => ?_
    cases made : ofMembers? members with
    | none => exact promises_failure
    | some decl => exact promises_pure (keeps_to_of_members each made)
  · exact promises_positional promised
  · exact promises_failure

end Promised

/-- What is read nests no deeper than the reader goes. -/
theorem promises_read (depth : Nat) : (read depth).Promises (FitsIn depth) := by
  induction depth using read.induct with
  | case1 => exact promises_failure
  | case2 =>
      have promised : (read 1).Promises (KeepsTo false fun _ => False) :=
        promises_read_with promises_failure
      intro tokens decl rest found
      obtain ⟨attrs, description, children⟩ := promised tokens decl rest found
      exact ⟨by simpa using attrs, by simpa using description, by simpa using children⟩
  | case3 depth ih =>
      have promised : (read (depth + 2)).Promises
          (KeepsTo true fun children => ∀ child ∈ children, child.FitsIn depth) :=
        promises_read_with (promises_then fun _ => promises_separated ih)
      intro tokens decl rest found child member
      have kept := promised tokens decl rest found
      exact kept.children (List.isEmpty_eq_false_iff_exists_mem.2 ⟨child, member⟩) child member

theorem fits_of_json {decl : Decl} {text : String} (found : ofJson? text = some decl) :
    decl.FitsIn maxNesting := by
  obtain ⟨tokens, -, spelled⟩ := Option.bind_eq_some_iff.1 found
  rw [run?] at spelled
  split at spelled
  next value taken =>
    cases spelled
    exact promises_read maxNesting _ _ _ taken
  · contradiction

theorem scan_compact (decl : Decl) : scan decl.compact = some decl.tokens := by
  have plain : ∀ token ∈ decl.tokens, token.isPlain = true := List.all_eq_true.1 (plain_tokens decl)
  have scanned := scanned_compact plain scanned_nil
  rw [List.append_nil, List.append_nil] at scanned
  exact scan_of_scanned scanned

theorem scan_pretty (decl : Decl) : scan decl.pretty = some decl.tokens := by
  have plain : ∀ token ∈ decl.tokens, token.isPlain = true := List.all_eq_true.1 (plain_tokens decl)
  have scanned := scanned_indented 0 plain scanned_nil
  rw [List.append_nil, List.append_nil] at scanned
  exact scan_of_scanned scanned

/-- A declaration is read back from its own texts exactly if these nest no deeper than is allowed,
and so is every declaration that was read from any text. -/
theorem texts_read_back :
    (∀ decl : Decl,
      (ofJson? decl.compact = some decl ↔ nesting decl.tokens ≤ maxNesting) ∧
        (ofJson? decl.pretty = some decl ↔ nesting decl.tokens ≤ maxNesting)) ∧
      ∀ text decl, ofJson? text = some decl →
        ofJson? decl.compact = some decl ∧ ofJson? decl.pretty = some decl := by
  have own {decl : Decl} (fits : decl.FitsIn maxNesting) :
      ofJson? decl.compact = some decl ∧ ofJson? decl.pretty = some decl :=
    ⟨of_json_of_scanned (scan_compact decl) fits, of_json_of_scanned (scan_pretty decl) fits⟩
  constructor
  · intro decl
    rw [(balanced_tokens decl).2]
    exact ⟨⟨fits_of_json, fun fits => (own fits).1⟩, ⟨fits_of_json, fun fits => (own fits).2⟩⟩
  · intro text decl found
    exact own (fits_of_json found)

/-- A field that is not known, a key that is given twice, escapes, and a child as an array. -/
def sampleText : String :=
  "\x7b\"note\": [1.5e3, \x7b\x7d],\r\n\t\"kind\": \x7b\"field\": null\x7d, " ++
    "\"attrs\": \x7b\"name\": \"A\", \"name\": \"B\\n\\u0001\\\"\"\x7d, " ++
    "\"children\": [[\"enum\", \x7b\"name\": \"\\ud83d\\ude00\"\x7d]]\x7d"

theorem texts_of_sample_read_back :
    ∃ decl, ofJson? sampleText = some decl ∧
      ofJson? decl.compact = some decl ∧ ofJson? decl.pretty = some decl := by
  have accepted : (ofJson? sampleText).isSome = true := by decide +kernel
  obtain ⟨decl, found⟩ := Option.isSome_iff_exists.1 accepted
  exact ⟨decl, found, texts_read_back.2 sampleText decl found⟩

end Decl

end AddressMap
