import AddressMap.Json.Lexer
import Mathlib.Tactic.IntervalCases

/-!
# Spelled tokens are scanned

A text that is written as a string of JSON is scanned as that text. From this follows that a run of
tokens is scanned from its indented spelling.
-/

namespace AddressMap.Json

set_option autoImplicit false

theorem read_hex_digits {code : Nat} (control : code < 0x20) :
    readDigits? 16 0 ['0', '0', hexDigit (code / 16), hexDigit (code % 16)] = some code := by
  interval_cases code <;> decide

def Spells (piece : Piece) (c : Char) : Prop :=
  ∀ pieces, joinPieces (piece :: pieces) = (c :: ·) <$> joinPieces pieces

theorem spells_char (c : Char) : Spells (.char c) c :=
  fun _ => rfl

theorem spells_control {c : Char} (control : c.toNat < 0x20) : Spells (.unit c.toNat) c := by
  intro pieces
  have high : isHighSurrogate c.toNat = false := by
    simp only [isHighSurrogate, Bool.and_eq_false_iff, decide_eq_false_iff_not]
    omega
  have low : isLowSurrogate c.toNat = false := by
    simp only [isLowSurrogate, Bool.and_eq_false_iff, decide_eq_false_iff_not]
    omega
  rw [joinPieces.eq_def]
  dsimp only
  rw [high, low]
  simp [Char.ofNat_toNat]

theorem scan_string_escape (c : Char) (rest : List Char) :
    ∃ piece, Spells piece c ∧ scanString (escape c ++ rest) =
      (scanString rest).map fun answer => (piece :: answer.1, answer.2) := by
  have short (escaped plain : Char) (known : unescape? escaped = some plain)
      (notHex : escaped ≠ 'u') : scanString ('\\' :: escaped :: rest) =
        (scanString rest).map fun answer => (.char plain :: answer.1, answer.2) := by
    rw [scanString.eq_4 escaped rest fun _ _ _ _ _ same => absurd same notHex, known]
    cases scanString rest <;> rfl
  unfold escape
  split
  · exact ⟨_, spells_char _, short '"' '"' rfl (by decide)⟩
  · exact ⟨_, spells_char _, short '\\' '\\' rfl (by decide)⟩
  · exact ⟨_, spells_char _, short 'n' '\n' rfl (by decide)⟩
  · exact ⟨_, spells_char _, short 'r' '\r' rfl (by decide)⟩
  · exact ⟨_, spells_char _, short 't' '\t' rfl (by decide)⟩
  · exact ⟨_, spells_char _, short 'b' '\x08' rfl (by decide)⟩
  · exact ⟨_, spells_char _, short 'f' '\x0c' rfl (by decide)⟩
  next notQuote notBackslash _ _ _ _ _ =>
    split
    next control =>
      refine ⟨_, spells_control control, ?_⟩
      show scanString ('\\' :: 'u' :: '0' :: '0' :: _ :: _ :: rest) = _
      rw [scanString, read_hex_digits control]
      cases scanString rest <;> rfl
    next printable =>
      refine ⟨_, spells_char c, ?_⟩
      show scanString (c :: rest) = _
      rw [scanString.eq_5 c rest notQuote (fun _ _ _ _ _ same => absurd same notBackslash)
        (fun _ _ same => absurd same notBackslash), if_neg]
      · cases scanString rest <;> rfl
      · simp [printable, show c ≠ '\\' from notBackslash]

theorem scan_string_spelled (text rest : List Char) :
    ∃ pieces, scanString (text.flatMap escape ++ '"' :: rest) = some (pieces, rest) ∧
      joinPieces pieces = some text := by
  induction text with
  | nil => exact ⟨[], rfl, rfl⟩
  | cons c others ih =>
      obtain ⟨pieces, scanned, joined⟩ := ih
      obtain ⟨piece, spells, first⟩ := scan_string_escape c (others.flatMap escape ++ '"' :: rest)
      refine ⟨piece :: pieces, ?_, ?_⟩
      · rw [List.flatMap_cons, List.append_assoc, first, scanned]
        rfl
      · rw [spells, joined]
        rfl

theorem scan_token_quote (text : String) (rest : List Char) :
    scanToken ((quote text).toList ++ rest) = some (.string text, rest) := by
  obtain ⟨pieces, scanned, joined⟩ := scan_string_spelled text.toList rest
  have spelled : (quote text).toList ++ rest =
      '"' :: (text.toList.flatMap escape ++ '"' :: rest) := by
    simp [quote]
  rw [spelled]
  simp [scanToken, scanned, joined]

/-- The characters are scanned as these tokens by every fuel that exceeds their number. -/
def ScannedAs (chars : List Char) (tokens : List Token) : Prop :=
  ∀ fuel, chars.length < fuel → scanFrom fuel chars = some tokens

theorem scan_of_scanned {text : String} {tokens : List Token}
    (scanned : ScannedAs text.toList tokens) : scan text = some tokens :=
  scanned _ (Nat.lt_succ_self _)

section Scanned

variable {chars rest : List Char} {tokens : List Token}

theorem scanned_nil : ScannedAs [] [] := by
  intro fuel enough
  cases fuel with
  | zero => contradiction
  | succ fuel => rfl

theorem scanned_blank {c : Char} (blank : isJsonBlank c = true) (later : ScannedAs rest tokens) :
    ScannedAs (c :: rest) tokens := by
  intro fuel enough
  cases fuel with
  | zero => contradiction
  | succ fuel =>
      rw [scanFrom, if_pos blank]
      exact later fuel (Nat.lt_of_succ_lt_succ enough)

theorem scanned_blanks {blanks : List Char} (blank : ∀ c ∈ blanks, isJsonBlank c = true)
    (later : ScannedAs rest tokens) : ScannedAs (blanks ++ rest) tokens := by
  induction blanks with
  | nil => exact later
  | cons c others ih =>
      have inner := ih fun other member => blank other (List.mem_cons_of_mem c member)
      exact scanned_blank (blank c List.mem_cons_self) inner

theorem scanned_token {c : Char} {token : Token} (visible : isJsonBlank c = false)
    (scans : scanToken (c :: chars) = some (token, rest)) (shorter : rest.length ≤ chars.length)
    (later : ScannedAs rest tokens) : ScannedAs (c :: chars) (token :: tokens) := by
  intro fuel enough
  cases fuel with
  | zero => contradiction
  | succ fuel =>
      have remaining : rest.length < fuel := by
        rw [List.length_cons] at enough
        omega
      simp [scanFrom, visible, scans, later fuel remaining]

def Token.isPlain : Token → Bool
  | openObject | closeObject | openArray | closeArray | comma | colon | string _ => true
  | brokenString | number | boolean | null => false

theorem scanned_plain {token : Token} (plain : token.isPlain = true)
    (later : ScannedAs rest tokens) : ScannedAs (token.text.toList ++ rest) (token :: tokens) := by
  cases token with
  | string text =>
      have scans := scan_token_quote text rest
      have spelled : (quote text).toList = '"' :: (text.toList.flatMap escape ++ ['"']) := by
        simp [quote]
      rw [Token.text]
      rw [spelled, List.cons_append] at scans ⊢
      apply scanned_token rfl scans _ later
      rw [List.length_append]
      omega
  | brokenString | number | boolean | null => contradiction
  | _ => exact scanned_token rfl rfl (Nat.le_refl _) later

theorem line_break_blank (depth : Nat) : ∀ c ∈ (lineBreak depth).toList, isJsonBlank c = true := by
  intro c member
  simp only [lineBreak, String.toList_ofList, List.mem_cons, List.mem_replicate] at member
  rcases member with rfl | ⟨-, rfl⟩
  · rfl
  · rfl

/-- The indented spelling of plain tokens is scanned as those tokens. -/
theorem scanned_indented (depth : Nat) {later : List Token}
    (plain : ∀ token ∈ tokens, token.isPlain = true) (behind : ScannedAs rest later) :
    ScannedAs ((String.join (indentedFrom depth tokens)).toList ++ rest) (tokens ++ later) := by
  induction tokens generalizing depth with
  | nil => exact behind
  | cons token others ih =>
      have here := plain token List.mem_cons_self
      have inner (level : Nat) := ih level fun other member =>
        plain other (List.mem_cons_of_mem token member)
      have broken (level : Nat) := scanned_blanks (line_break_blank level) (inner level)
      have spaced := @scanned_blank _ _ ' ' rfl (inner depth)
      cases token with
      | openObject | openArray =>
          simp only [indentedFrom, String.join_cons, String.toList_append, List.append_assoc]
          exact scanned_plain here (broken (depth + 1))
      | closeObject | closeArray =>
          simp only [indentedFrom, String.join_cons, String.toList_append, List.append_assoc]
          exact scanned_blanks (line_break_blank (depth - 1))
            (scanned_plain here (inner (depth - 1)))
      | comma =>
          simp only [indentedFrom, String.join_cons, String.toList_append, List.append_assoc]
          exact scanned_plain here (broken depth)
      | colon =>
          simp only [indentedFrom, String.join_cons, String.toList_append, List.append_assoc]
          exact scanned_plain here spaced
      | _ =>
          simp only [indentedFrom, String.join_cons, String.toList_append, List.append_assoc]
          exact scanned_plain here (inner depth)

end Scanned

end AddressMap.Json
