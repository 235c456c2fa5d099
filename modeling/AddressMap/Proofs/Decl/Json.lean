import AddressMap.Decl.Json
import AddressMap.Proofs.Decl.Attrs
import AddressMap.Proofs.Decl.Nesting
import AddressMap.Proofs.Json.Spelling
import AddressMap.Proofs.Json.Taking

/-!
# Declarations are read as they were written

The reader of declarations takes the tokens of a declaration as that declaration, as long as it does
not nest too deep, and the indented text of a declaration is read as it.
-/

namespace AddressMap

set_option autoImplicit false

open Json Json.Reader

namespace Decl

/-- A field of a declaration, as it is written and as it is read. -/
structure Written where
  name : String
  tokens : List Token
  member : Member

namespace Written

def entry (written : Written) : List Token :=
  .string written.name :: .colon :: written.tokens

def listed (isEmpty : Bool) (written : Written) : List Written :=
  if isEmpty then [] else [written]

theorem field?_eq (isEmpty : Bool) (written : Written) :
    field? written.name isEmpty written.tokens =
      (written.listed isEmpty).map fun field => (field.name, field.tokens) := by
  cases isEmpty <;> rfl

theorem mem_listed {isEmpty : Bool} {field written : Written} :
    field ∈ written.listed isEmpty ↔ isEmpty = false ∧ field = written := by
  cases isEmpty <;> simp [listed]

theorem filter_map_listed {α : Type} (pick : Member → Option α) (isEmpty : Bool)
    (written : Written) :
    ((written.listed isEmpty).map Written.member).filterMap pick =
      if isEmpty then [] else (pick written.member).toList := by
  cases isEmpty with
  | true => rfl
  | false => cases picked : pick written.member <;> simp [listed, picked]

end Written

section Fields

variable (decl : Decl)

def writtenKind : Written :=
  ⟨"kind", [.string decl.kind.keyword], .kind decl.kind⟩

def writtenAttrs : Written :=
  ⟨"attrs", attrsTokens decl.attrs, .attrs decl.attrs⟩

def writtenDescription : Written :=
  ⟨"description", arrayTokens (decl.description.map fun text => [.string text]),
    .description decl.description⟩

def writtenChildren : Written :=
  ⟨"children", arrayTokens (decl.children.map tokens), .children decl.children⟩

def written : List Written :=
  decl.writtenKind.listed false ++ decl.writtenAttrs.listed decl.attrs.isEmpty ++
    decl.writtenDescription.listed decl.description.isEmpty ++
    decl.writtenChildren.listed decl.children.isEmpty

end Fields

theorem children_tokens_eq_map (decls : List Decl) : childrenTokens decls = decls.map tokens := by
  induction decls with
  | nil => rfl
  | cons decl rest ih => rw [childrenTokens, List.map_cons, ih]

theorem tokens_eq (decl : Decl) :
    decl.tokens = .openObject :: (List.intercalate [.comma] (decl.written.map Written.entry) ++
      [.closeObject]) := by
  have fields : decl.tokens =
      objectTokens (decl.written.map fun field => (field.name, field.tokens)) := by
    simp only [written, List.map_append, ← Written.field?_eq]
    obtain ⟨kind, attrs, description, children⟩ := decl
    rw [tokens, children_tokens_eq_map]
    rfl
  rw [fields, objectTokens, commaSeparated, List.map_map]
  rfl

theorem filter_map_written {α : Type} (pick : Member → Option α) (decl : Decl) :
    (decl.written.map Written.member).filterMap pick =
      (pick (.kind decl.kind)).toList ++
        (if decl.attrs.isEmpty then [] else (pick (.attrs decl.attrs)).toList) ++
        (if decl.description.isEmpty then [] else (pick (.description decl.description)).toList) ++
        (if decl.children.isEmpty then [] else (pick (.children decl.children)).toList) := by
  simp only [written, List.map_append, List.filterMap_append, Written.filter_map_listed]
  rfl

theorem forall_mem_written {property : Written → Prop} {decl : Decl}
    (kind : property decl.writtenKind)
    (attrs : decl.attrs.isEmpty = false → property decl.writtenAttrs)
    (description : decl.description.isEmpty = false → property decl.writtenDescription)
    (children : decl.children.isEmpty = false → property decl.writtenChildren) :
    ∀ field ∈ decl.written, property field := by
  intro field member
  simp only [written, List.mem_append, Written.mem_listed] at member
  rcases member with ((⟨-, rfl⟩ | ⟨present, rfl⟩) | ⟨present, rfl⟩) | ⟨present, rfl⟩
  · exact kind
  · exact attrs present
  · exact description present
  · exact children present

theorem of_members_written (decl : Decl) :
    ofMembers? (decl.written.map Written.member) = some decl := by
  have kind : unique? Member.kind? (decl.written.map Written.member) = some (some decl.kind) := by
    rw [unique?, filter_map_written]
    simp [Member.kind?]
  have attrs : unique? Member.attrs? (decl.written.map Written.member) =
      some (if decl.attrs.isEmpty then none else some decl.attrs) := by
    rw [unique?, filter_map_written]
    cases decl.attrs.isEmpty <;> simp [Member.attrs?]
  have description : unique? Member.description? (decl.written.map Written.member) =
      some (if decl.description.isEmpty then none else some decl.description) := by
    rw [unique?, filter_map_written]
    cases decl.description.isEmpty <;> simp [Member.description?]
  have children : unique? Member.children? (decl.written.map Written.member) =
      some (if decl.children.isEmpty then none else some decl.children) := by
    rw [unique?, filter_map_written]
    cases decl.children.isEmpty <;> simp [Member.children?]
  have attrsAgain : (if decl.attrs.isEmpty then none else some decl.attrs).getD .empty =
      decl.attrs := by
    split
    next none => exact (AttrMap.eq_empty_of_is_empty none).symm
    next => rfl
  have descriptionAgain :
      (if decl.description.isEmpty then none else some decl.description).getD [] =
        decl.description := by
    split
    next none => exact (List.isEmpty_iff.1 none).symm
    next => rfl
  have childrenAgain : (if decl.children.isEmpty then none else some decl.children).getD [] =
      decl.children := by
    split
    next none => exact (List.isEmpty_iff.1 none).symm
    next => rfl
  simp only [ofMembers?, kind, attrs, description, children, Option.bind_eq_bind, Option.bind_some,
    attrsAgain, descriptionAgain, childrenAgain]
  cases decl
  rfl

section Taken

variable {room : Bool} {readChildren : Reader (List Decl)} {decl : Decl}

theorem takes_kind (kind : Kind) : (readKind room).Takes [.string kind.keyword] kind := by
  intro rest
  show ((Kind.ofKeyword? kind.keyword).elim failure pure : Reader Kind) rest = _
  rw [Kind.of_keyword_keyword]
  rfl

theorem takes_attrs (attrs : AttrMap) : (readAttrs true).Takes (attrsTokens attrs) attrs := by
  have entry (pair : String × String) : Takes (do
      let key ← string
      expect .colon
      let value ← string
      pure (key, value)) [.string pair.1, .colon, .string pair.2] pair :=
    takes_bind (takes_string pair.1) (takes_bind (takes_expect .colon)
      (takes_bind (takes_string pair.2) (takes_pure pair)))
  have entries := @takes_separated _ .closeObject _ _ _ id (by decide) attrs.entries
    (fun pair _ => entry pair) (fun pair _ => ⟨_, _, rfl, Token.noConfusion⟩)
  have made : Takes (pure (AttrMap.ofList (attrs.entries.map id))) [] attrs := by
    rw [List.map_id, AttrMap.of_list_entries]
    exact takes_pure attrs
  have read : (readAttrs true).Takes _ attrs :=
    takes_bind (takes_expect .openObject) (takes_bind entries made)
  rw [List.append_nil] at read
  rw [attrsTokens, objectTokens, List.map_map]
  exact read

theorem takes_description (paragraphs : List String) :
    (readDescription true).Takes (arrayTokens (paragraphs.map fun text => [.string text]))
      paragraphs := by
  have texts := @takes_separated _ .closeArray _ _ _ id (by decide) paragraphs
    (fun text _ => takes_string text) (fun text _ => ⟨_, _, rfl, Token.noConfusion⟩)
  have read : (readDescription true).Takes _ (paragraphs.map id) :=
    takes_bind (takes_expect .openArray) texts
  rw [List.map_id] at read
  exact read

theorem takes_written_kind :
    (readMember room readChildren).Takes decl.writtenKind.entry decl.writtenKind.member :=
  takes_bind (takes_string "kind") (takes_bind (takes_expect .colon)
    (takes_map Member.kind (takes_kind decl.kind)))

theorem takes_written_attrs :
    (readMember true readChildren).Takes decl.writtenAttrs.entry decl.writtenAttrs.member :=
  takes_bind (takes_string "attrs") (takes_bind (takes_expect .colon)
    (takes_map Member.attrs (takes_attrs decl.attrs)))

theorem takes_written_description :
    (readMember true readChildren).Takes decl.writtenDescription.entry
      decl.writtenDescription.member :=
  takes_bind (takes_string "description") (takes_bind (takes_expect .colon)
    (takes_map Member.description (takes_description decl.description)))

theorem takes_written_children
    (reads : readChildren.Takes decl.writtenChildren.tokens decl.children) :
    (readMember room readChildren).Takes decl.writtenChildren.entry decl.writtenChildren.member :=
  takes_bind (takes_string "children") (takes_bind (takes_expect .colon)
    (takes_map Member.children reads))

theorem takes_read_with (each : ∀ field ∈ decl.written,
    (readMember room readChildren).Takes field.entry field.member) :
    (readWith room readChildren).Takes decl.tokens decl := by
  have members := @takes_separated _ .closeObject _ _ _ _ (by decide) _ each
    (fun field _ => ⟨_, _, rfl, Token.noConfusion⟩)
  have made : Takes ((ofMembers? (decl.written.map Written.member)).elim failure pure) [] decl := by
    rw [of_members_written]
    exact takes_pure decl
  have read : (readWith room readChildren).Takes _ decl :=
    takes_bind (takes_next .openObject) (takes_bind members made)
  rw [tokens_eq]
  rw [List.append_nil] at read
  exact read

end Taken

/-- The text of the declaration nests at most this many objects and arrays. -/
def FitsIn : Nat → Decl → Prop
  | 0, _ => False
  | 1, decl => decl.attrs.isEmpty = true ∧ decl.description.isEmpty = true ∧
      decl.children.isEmpty = true
  | depth + 2, decl => ∀ child ∈ decl.children, child.FitsIn depth

/-- A declaration that fits is read as it was written, whatever follows it. -/
theorem takes_read {depth : Nat} {decl : Decl} (fits : decl.FitsIn depth) :
    (read depth).Takes decl.tokens decl := by
  induction depth using read.induct generalizing decl with
  | case1 => contradiction
  | case2 =>
      obtain ⟨noAttrs, noDescription, noChildren⟩ := fits
      apply takes_read_with
      apply forall_mem_written
      case kind => exact takes_written_kind
      case attrs =>
        intro present
        rw [noAttrs] at present
        contradiction
      case description =>
        intro present
        rw [noDescription] at present
        contradiction
      case children =>
        intro present
        rw [noChildren] at present
        contradiction
  | case3 depth ih =>
      have children := @takes_separated _ .closeArray _ _ _ id (by decide) decl.children
        (fun child member => ih (fits child member))
        (fun child _ => ⟨_, _, tokens_eq child, Token.noConfusion⟩)
      have array : Takes (do
          expect .openArray
          separated .closeArray (Decl.read depth)) _ (decl.children.map id) :=
        takes_bind (takes_expect .openArray) children
      rw [List.map_id] at array
      apply takes_read_with
      apply forall_mem_written
      case kind => exact takes_written_kind
      case attrs => exact fun _ => takes_written_attrs
      case description => exact fun _ => takes_written_description
      case children => exact fun _ => takes_written_children array

theorem plain_comma_separated {runs : List (List Token)}
    (each : ∀ run ∈ runs, run.all Token.isPlain = true) :
    (commaSeparated runs).all Token.isPlain = true := by
  induction runs with
  | nil => rfl
  | cons run others ih =>
      have here := each run List.mem_cons_self
      have behind := ih fun other member => each other (List.mem_cons_of_mem run member)
      cases others with
      | nil =>
          rw [commaSeparated, List.intercalate_singleton]
          exact here
      | cons second later =>
          rw [commaSeparated] at behind ⊢
          rw [List.intercalate_cons_cons, List.all_append, List.all_append, here, behind]
          rfl

theorem plain_between {opening closing : Token} {runs : List (List Token)}
    (brackets : opening.isPlain = true ∧ closing.isPlain = true)
    (each : ∀ run ∈ runs, run.all Token.isPlain = true) :
    (opening :: (commaSeparated runs ++ [closing])).all Token.isPlain = true := by
  rw [List.all_cons, List.all_append, List.all_cons, brackets.1, brackets.2,
    plain_comma_separated each]
  rfl

theorem plain_tokens (decl : Decl) : decl.tokens.all Token.isPlain = true := by
  induction decl using induction_on_children with
  | step decl ih =>
      have fields : ∀ field ∈ decl.written, field.entry.all Token.isPlain = true := by
        apply forall_mem_written
        case kind => rfl
        case attrs =>
          intro _
          apply plain_between ⟨rfl, rfl⟩
          intro run member
          rw [List.map_map] at member
          obtain ⟨entry, -, rfl⟩ := List.mem_map.1 member
          rfl
        case description =>
          intro _
          apply plain_between ⟨rfl, rfl⟩
          intro run member
          obtain ⟨text, -, rfl⟩ := List.mem_map.1 member
          rfl
        case children =>
          intro _
          apply plain_between ⟨rfl, rfl⟩
          intro run member
          obtain ⟨child, inside, rfl⟩ := List.mem_map.1 member
          exact ih child inside
      rw [tokens_eq]
      apply plain_between ⟨rfl, rfl⟩
      intro run member
      obtain ⟨field, listed, rfl⟩ := List.mem_map.1 member
      exact fields field listed

theorem of_json_of_scanned {decl : Decl} {text : String} (scanned : scan text = some decl.tokens)
    (fits : decl.FitsIn maxNesting) : ofJson? text = some decl := by
  have taken := takes_read fits []
  rw [List.append_nil] at taken
  rw [ofJson?, scanned]
  show (read maxNesting).run? decl.tokens = some decl
  rw [run?, taken]

/-- The indented text of a declaration that fits, with a line break at its end, is read as that
declaration. -/
theorem of_json_pretty {decl : Decl} (fits : decl.FitsIn maxNesting) :
    ofJson? (decl.pretty ++ "\n") = some decl := by
  have plain : ∀ token ∈ decl.tokens, token.isPlain = true := List.all_eq_true.1 (plain_tokens decl)
  have scanned := scanned_indented 0 plain (@scanned_blank _ _ '\n' rfl scanned_nil)
  rw [List.append_nil] at scanned
  refine of_json_of_scanned ?_ fits
  apply scan_of_scanned
  rw [String.toList_append]
  exact scanned

end Decl

end AddressMap
