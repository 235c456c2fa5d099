import AddressMap.Json.Token

/-!
# Reading values from tokens

A reader takes a value off the front of a run of tokens, or fails. `skip` passes over one value of
any shape and depth; `separated` reads the entries of an object or an array.
-/

namespace AddressMap.Json

set_option autoImplicit false

abbrev Reader (α : Type) := StateT (List Token) Option α

namespace Reader

variable {α : Type}

def next : Reader Token := fun tokens =>
  match tokens with
  | [] => none
  | token :: rest => some (token, rest)

def expect (wanted : Token) : Reader Unit := do
  let token ← next
  if token = wanted then pure () else failure

def string : Reader String := do
  match ← next with
  | .string text => pure text
  | _ => failure

/-- Whether a list ends here; otherwise a comma has been taken and another entry follows. -/
def closes (close : Token) : Reader Bool := do
  let token ← next
  if token = close then pure true
  else if token = .comma then pure false
  else failure

/-- One or more entries with commas between them, and the closing token. There are at most as many
entries as the bound has tokens. -/
def separatedFrom (close : Token) (entry : Reader α) : (bound : List Token) → Reader (List α)
  | [] => failure
  | _ :: bound => do
      let first ← entry
      if ← closes close then pure [first]
      else
        let others ← separatedFrom close entry bound
        pure (first :: others)

/-- Entries with commas between them up to the closing token. Each entry takes the token behind it,
so the tokens themselves bound the number of entries. -/
def separated (close : Token) (entry : Reader α) : Reader (List α) := fun tokens =>
  match tokens with
  | [] => none
  | token :: rest =>
      if token = close then some ([], rest) else separatedFrom close entry tokens tokens

inductive Position where
  | value
  | firstItem
  | key
  | firstKey
  | colon
  | afterItem
  | afterMember
deriving DecidableEq, Repr

/-- What surrounds a value that is passed over. -/
inductive Surround where
  | array
  | object
deriving DecidableEq, Repr

def Surround.behind : Surround → Position
  | array => .afterItem
  | object => .afterMember

/-- Passes over tokens until the value that was begun is complete. The surrounds still open are
listed from the innermost out. -/
def skipFrom : List Surround → Position → List Token → Option (List Token)
  | _, _, [] => none
  | surrounds, position, token :: rest =>
      let complete (outer : List Surround) : Option (List Token) :=
        match outer with
        | [] => some rest
        | surround :: _ => skipFrom outer surround.behind rest
      match position, token with
      | .colon, .colon => skipFrom surrounds .value rest
      | .afterItem, .comma => skipFrom surrounds .value rest
      | .afterMember, .comma => skipFrom surrounds .key rest
      | .afterItem, .closeArray | .firstItem, .closeArray => complete surrounds.tail
      | .afterMember, .closeObject | .firstKey, .closeObject => complete surrounds.tail
      | .key, .string _ | .key, .brokenString => skipFrom surrounds .colon rest
      | .firstKey, .string _ | .firstKey, .brokenString => skipFrom surrounds .colon rest
      | .value, .openObject | .firstItem, .openObject =>
          skipFrom (.object :: surrounds) .firstKey rest
      | .value, .openArray | .firstItem, .openArray =>
          skipFrom (.array :: surrounds) .firstItem rest
      | .value, .string _ | .value, .brokenString | .value, .number | .value, .boolean
      | .value, .null | .firstItem, .string _ | .firstItem, .brokenString | .firstItem, .number
      | .firstItem, .boolean | .firstItem, .null => complete surrounds
      | _, _ => none

def skip : Reader Unit := fun tokens =>
  (skipFrom [] .value tokens).map fun rest => ((), rest)

def run? (reader : Reader α) (tokens : List Token) : Option α :=
  match reader tokens with
  | some (value, []) => some value
  | _ => none

end Reader

end AddressMap.Json
