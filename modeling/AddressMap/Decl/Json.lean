import AddressMap.Decl.Basic
import AddressMap.Json.Lexer
import AddressMap.Json.Reader

/-!
# Declarations in JSON

A declaration is written as an object with the fields `kind`, `attrs`, `description` and `children`,
of which empty ones are left out. Reading also takes the fields in any order and with others among
them, which are passed over, and an array of the four values, cut short after any of them. At most
`maxNesting` objects and arrays may stand inside each other, those passed over not counted.
-/

namespace AddressMap

set_option autoImplicit false

open Json

/-- How many objects and arrays a declaration's text may nest. -/
def maxNesting : Nat := 127

namespace Decl

def commaSeparated (entries : List (List Token)) : List Token :=
  List.intercalate [.comma] entries

def objectTokens (members : List (String × List Token)) : List Token :=
  .openObject ::
    commaSeparated (members.map fun member => .string member.1 :: .colon :: member.2) ++
      [.closeObject]

def arrayTokens (items : List (List Token)) : List Token :=
  .openArray :: commaSeparated items ++ [.closeArray]

def attrsTokens (attrs : AttrMap) : List Token :=
  objectTokens (attrs.entries.map fun entry => (entry.1, [.string entry.2]))

def field? (name : String) (isEmpty : Bool) (tokens : List Token) : List (String × List Token) :=
  if isEmpty then [] else [(name, tokens)]

mutual

def tokens : Decl → List Token
  | ⟨kind, attrs, description, children⟩ =>
      objectTokens <|
        ("kind", [.string kind.keyword]) ::
          field? "attrs" attrs.isEmpty (attrsTokens attrs) ++
          field? "description" description.isEmpty
            (arrayTokens (description.map fun text => [.string text])) ++
          field? "children" children.isEmpty (arrayTokens (childrenTokens children))

def childrenTokens : List Decl → List (List Token)
  | [] => []
  | child :: rest => child.tokens :: childrenTokens rest

end

def compact (decl : Decl) : String :=
  Json.compact decl.tokens

def pretty (decl : Decl) : String :=
  Json.indented decl.tokens

open Reader

/-- Reads a value that is an object or an array, if `room` says that one more may be opened. -/
def nested {α : Type} (room : Bool) (reader : Reader α) : Reader α :=
  if room then reader else failure

/-- A kind is written as its keyword, or as an object that maps its keyword to nothing. -/
def readKind (room : Bool) : Reader Kind := do
  match ← next with
  | .string text => (Kind.ofKeyword? text).elim failure pure
  | .openObject => nested room do
      let text ← string
      expect .colon
      expect .null
      expect .closeObject
      (Kind.ofKeyword? text).elim failure pure
  | _ => failure

def readAttrs (room : Bool) : Reader AttrMap := nested room do
  expect .openObject
  let entries ← separated .closeObject do
    let key ← string
    expect .colon
    let value ← string
    pure (key, value)
  pure (AttrMap.ofList entries)

def readDescription (room : Bool) : Reader (List String) := nested room do
  expect .openArray
  separated .closeArray string

inductive Member where
  | kind (kind : Kind)
  | attrs (attrs : AttrMap)
  | description (paragraphs : List String)
  | children (children : List Decl)
  | unknown

namespace Member

def kind? : Member → Option Kind
  | kind value => some value
  | _ => none

def attrs? : Member → Option AttrMap
  | attrs value => some value
  | _ => none

def description? : Member → Option (List String)
  | description value => some value
  | _ => none

def children? : Member → Option (List Decl)
  | children value => some value
  | _ => none

end Member

def readMember (room : Bool) (readChildren : Reader (List Decl)) : Reader Member := do
  let name ← string
  expect .colon
  match name with
  | "kind" => .kind <$> readKind room
  | "attrs" => .attrs <$> readAttrs room
  | "description" => .description <$> readDescription room
  | "children" => .children <$> readChildren
  | _ => do
      skip
      pure .unknown

/-- The value that at most one member holds. A field that is given twice is refused. -/
def unique? {α : Type} (pick : Member → Option α) (members : List Member) : Option (Option α) :=
  match members.filterMap pick with
  | [] => some none
  | [value] => some (some value)
  | _ => none

def ofMembers? (members : List Member) : Option Decl := do
  let kind ← (← unique? Member.kind? members)
  let attrs ← unique? Member.attrs? members
  let description ← unique? Member.description? members
  let children ← unique? Member.children? members
  some ⟨kind, attrs.getD .empty, description.getD [], children.getD []⟩

/-- The values of a declaration that is written as an array, behind its opening bracket. -/
def readPositional (room : Bool) (readChildren : Reader (List Decl)) : Reader Decl := do
  let kind ← readKind room
  if ← closes .closeArray then return { kind }
  let attrs ← readAttrs room
  if ← closes .closeArray then return { kind, attrs }
  let description ← readDescription room
  if ← closes .closeArray then return { kind, attrs, description }
  let children ← readChildren
  expect .closeArray
  return { kind, attrs, description, children }

/-- A declaration, given whether its values may open an object or an array, and how to read its
children. -/
def readWith (room : Bool) (readChildren : Reader (List Decl)) : Reader Decl := do
  match ← next with
  | .openObject => do
      let members ← separated .closeObject (readMember room readChildren)
      (ofMembers? members).elim failure pure
  | .openArray => readPositional room readChildren
  | _ => failure

def read : Nat → Reader Decl
  | 0 => failure
  | 1 => readWith false failure
  | depth + 2 => readWith true do
      expect .openArray
      separated .closeArray (read depth)

def ofJson? (text : String) : Option Decl := do
  let tokens ← scan text
  (read maxNesting).run? tokens

end Decl

end AddressMap
