/-!
# Tokens of JSON

JSON text is a run of tokens with blanks between them. A token is spelled by `text`; `compact` and
`indented` spell a run of tokens without blanks and with one line per entry. Numbers and truth
values carry nothing, because no declaration holds one: they can only stand in what is passed over.
-/

namespace AddressMap.Json

set_option autoImplicit false

inductive Token where
  | openObject
  | closeObject
  | openArray
  | closeArray
  | comma
  | colon
  | string (text : String)
  /-- A string that spells half of a surrogate pair, so that no text is its value. -/
  | brokenString
  | number
  | boolean
  | null
deriving DecidableEq, Repr

def hexDigit (value : Nat) : Char :=
  if value < 10 then Char.ofNat ('0'.toNat + value) else Char.ofNat ('a'.toNat + (value - 10))

/-- A character inside a string. The quotation mark, the backslash and the control characters are
escaped, in the short form if they have one. -/
def escape (c : Char) : List Char :=
  match c with
  | '"' => ['\\', '"']
  | '\\' => ['\\', '\\']
  | '\n' => ['\\', 'n']
  | '\r' => ['\\', 'r']
  | '\t' => ['\\', 't']
  | '\x08' => ['\\', 'b']
  | '\x0c' => ['\\', 'f']
  | c =>
      if c.toNat < 0x20 then
        ['\\', 'u', '0', '0', hexDigit (c.toNat / 16), hexDigit (c.toNat % 16)]
      else [c]

def quote (text : String) : String :=
  String.ofList ('"' :: text.toList.flatMap escape ++ ['"'])

namespace Token

def text : Token → String
  | openObject => "\x7b"
  | closeObject => "\x7d"
  | openArray => "["
  | closeArray => "]"
  | comma => ","
  | colon => ":"
  | string text => quote text
  | brokenString => "\"\\ud800\""
  | number => "0"
  | boolean => "true"
  | null => "null"

end Token

def compact (tokens : List Token) : String :=
  String.join (tokens.map Token.text)

def lineBreak (depth : Nat) : String :=
  String.ofList ('\n' :: List.replicate (2 * depth) ' ')

def indentedFrom (depth : Nat) : List Token → List String
  | [] => []
  | token :: rest =>
      match token with
      | .openObject | .openArray =>
          token.text :: lineBreak (depth + 1) :: indentedFrom (depth + 1) rest
      | .closeObject | .closeArray =>
          lineBreak (depth - 1) :: token.text :: indentedFrom (depth - 1) rest
      | .comma => token.text :: lineBreak depth :: indentedFrom depth rest
      | .colon => token.text :: " " :: indentedFrom depth rest
      | _ => token.text :: indentedFrom depth rest

/-- The tokens with one entry a line. Objects and arrays are expected to hold an entry. -/
def indented (tokens : List Token) : String :=
  String.join (indentedFrom 0 tokens)

end AddressMap.Json
