import AddressMap.Json.Token
import AddressMap.Text.Numeral

/-!
# Reading tokens

`scan` splits a text into tokens and refuses what strict JSON refuses: unknown words, numbers with
leading signs or bare points, control characters in strings. A string may spell a character beyond
the basic plane as a pair of surrogate escapes; half a pair makes it a broken string.
-/

namespace AddressMap.Json

set_option autoImplicit false

/-- A character of a string, or the UTF-16 unit that an escape spells. -/
inductive Piece where
  | char (c : Char)
  | unit (code : Nat)
deriving DecidableEq, Repr

def isHighSurrogate (code : Nat) : Bool :=
  decide (0xD800 ≤ code) && decide (code < 0xDC00)

def isLowSurrogate (code : Nat) : Bool :=
  decide (0xDC00 ≤ code) && decide (code < 0xE000)

/-- The characters that the pieces spell, unless half a pair stands alone. -/
def joinPieces : List Piece → Option (List Char)
  | [] => some []
  | .char c :: rest => (c :: ·) <$> joinPieces rest
  | .unit code :: rest =>
      if isHighSurrogate code then
        match rest with
        | .unit low :: rest =>
            if isLowSurrogate low then
              (Char.ofNat (0x10000 + (code - 0xD800) * 0x400 + (low - 0xDC00)) :: ·) <$>
                joinPieces rest
            else none
        | _ => none
      else if isLowSurrogate code then none
      else (Char.ofNat code :: ·) <$> joinPieces rest

def unescape? : Char → Option Char
  | '"' => some '"'
  | '\\' => some '\\'
  | '/' => some '/'
  | 'b' => some '\x08'
  | 'f' => some '\x0c'
  | 'n' => some '\n'
  | 'r' => some '\r'
  | 't' => some '\t'
  | _ => none

/-- The pieces of a string behind its opening mark, and what follows its closing mark. -/
def scanString : List Char → Option (List Piece × List Char)
  | [] => none
  | '"' :: rest => some ([], rest)
  | '\\' :: 'u' :: a :: b :: c :: d :: rest => do
      let code ← readDigits? 16 0 [a, b, c, d]
      let (pieces, rest) ← scanString rest
      some (.unit code :: pieces, rest)
  | '\\' :: c :: rest => do
      let plain ← unescape? c
      let (pieces, rest) ← scanString rest
      some (.char plain :: pieces, rest)
  | c :: rest =>
      if c.toNat < 0x20 || c == '\\' then none
      else do
        let (pieces, rest) ← scanString rest
        some (.char c :: pieces, rest)

def dropDigits? : List Char → Option (List Char)
  | c :: rest => if c.isDigit then some (rest.dropWhile Char.isDigit) else none
  | [] => none

/-- What follows the whole part of a number. Nothing follows a leading zero. -/
def dropWhole? : List Char → Option (List Char)
  | '0' :: rest => some rest
  | chars => dropDigits? chars

def dropFraction? : List Char → Option (List Char)
  | '.' :: rest => dropDigits? rest
  | chars => some chars

def dropExponent? : List Char → Option (List Char)
  | 'e' :: '+' :: rest | 'e' :: '-' :: rest | 'e' :: rest => dropDigits? rest
  | 'E' :: '+' :: rest | 'E' :: '-' :: rest | 'E' :: rest => dropDigits? rest
  | chars => some chars

def dropNumber? (chars : List Char) : Option (List Char) := do
  let afterSign := if chars.head? == some '-' then chars.tail else chars
  let afterWhole ← dropWhole? afterSign
  let afterFraction ← dropFraction? afterWhole
  dropExponent? afterFraction

def scanToken (chars : List Char) : Option (Token × List Char) :=
  match chars with
  | '\x7b' :: rest => some (.openObject, rest)
  | '\x7d' :: rest => some (.closeObject, rest)
  | '[' :: rest => some (.openArray, rest)
  | ']' :: rest => some (.closeArray, rest)
  | ',' :: rest => some (.comma, rest)
  | ':' :: rest => some (.colon, rest)
  | 'n' :: 'u' :: 'l' :: 'l' :: rest => some (.null, rest)
  | 't' :: 'r' :: 'u' :: 'e' :: rest => some (.boolean, rest)
  | 'f' :: 'a' :: 'l' :: 's' :: 'e' :: rest => some (.boolean, rest)
  | '"' :: rest => do
      let (pieces, rest) ← scanString rest
      match joinPieces pieces with
      | some text => some (.string (String.ofList text), rest)
      | none => some (.brokenString, rest)
  | _ => do
      let rest ← dropNumber? chars
      some (.number, rest)

def isJsonBlank (c : Char) : Bool :=
  c == ' ' || c == '\t' || c == '\n' || c == '\r'

/-- The tokens of a text that is shorter than the fuel: each step takes a character or more. -/
def scanFrom : Nat → List Char → Option (List Token)
  | 0, _ => none
  | _ + 1, [] => some []
  | fuel + 1, c :: rest =>
      if isJsonBlank c then scanFrom fuel rest
      else do
        let (token, rest) ← scanToken (c :: rest)
        let tokens ← scanFrom fuel rest
        some (token :: tokens)

def scan (text : String) : Option (List Token) :=
  scanFrom (text.toList.length + 1) text.toList

example : scan "[\"\\ud83d\\ude00\", -1.5e3]" =
    some [.openArray, .string "😀", .comma, .number, .closeArray] := by decide +kernel
example : scan "1." = none ∧ scan "nul" = none ∧ scan "\"\\x\"" = none := by decide +kernel
example : scan "\"\\ud83d\"" = some [.brokenString] := by decide +kernel

end AddressMap.Json
