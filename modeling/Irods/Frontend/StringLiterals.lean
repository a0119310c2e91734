-- SUMMARY: The readers of string literals and what they write into a token.
import Irods.Frontend.Lexer

/-!
# String literals

A literal is copied character by character into the text of a token, its quotes included, and the
positions of the variables in it into a list behind that text. Neither copy looks at the room there
is. Where the source ends before the literal does, the text is left without an end.
-/

namespace RuleParser

open Lexer (Literal isalpha)

/-- The bytes in the text of a token, `MAX_TOKEN_TEXT_LEN` and one. -/
def textRoom : Nat := 1024

/-- The places for the positions of variables and the mark behind them. -/
def varsRoom : Nat := 100

/-- What a reader leaves behind. -/
structure Reading where
  /-- `none` is a text that has no end. -/
  literal : Option Literal
  /-- The bytes written from the start of the token's text on. -/
  written : Nat
  rest : Text

/-- The text is closed, and nothing is written behind it or behind the list of variables. -/
def Reading.Fits (r : Reading) : Prop :=
  (∃ l ∈ r.literal, l.token.vars.length < varsRoom) ∧ r.written ≤ textRoom

instance (r : Reading) : Decidable r.Fits :=
  inferInstanceAs (Decidable ((∃ l ∈ r.literal, l.token.vars.length < varsRoom) ∧ r.written ≤ textRoom))

/-- Every string contains its terminator. -/
def strchr (s : Text) (c : Char) : Bool := c ∈ s || c = '\x00'

/-- What a C string shows of its bytes. -/
def cString (bytes : Text) : Text := bytes.takeWhile (· ≠ '\x00')

/-- The first and the last character are taken off; there has to be one of each. -/
def trimquotes (string : Text) : Option Text :=
  if string.length < 2 then none else some ((string.drop 1).take (string.length - 2))

/-- A character behind the escape character. -/
def unescape (ch : Char) : Char :=
  if ch = 'n' then '\n' else if ch = 't' then '\t' else if ch = 'r' then '\r' else if ch = '0' then '\x00' else ch

/-- The start of a variable is put down, with its position in the text. -/
def variableAt (vars : List Nat) (position : Nat) (ch : Char) (rest : Text) : List Nat :=
  if (ch = '*' ∨ ch = '$') ∧ isalpha rest.head? then vars ++ [position] else vars

inductive Mode where
  | string | escape

section StringBase

variable (literal : Text → List Nat → Literal) (delim : Text) (escape : Char)

/-- The loop of `nextStringBase`; `value` has been written, from the opening quote on. -/
def nextStringBaseLoop : Mode → Text → List Nat → Text → Reading
  | .string, value, _, [] => ⟨none, value.length, []⟩
  | .escape, value, _, [] => ⟨none, value.length + 1, []⟩
  | .string, value, vars, ch :: rest =>
    -- the escape character is written over
    if ch = escape then nextStringBaseLoop .escape value vars rest
    else if strchr delim ch then
      ⟨(trimquotes (cString (value ++ [ch]))).map (literal · vars), value.length + 2, rest⟩
    else nextStringBaseLoop .string (value ++ [ch]) (variableAt vars (value.length - 1) ch rest) rest
  | .escape, value, vars, ch :: rest => nextStringBaseLoop .string (value ++ [unescape ch]) vars rest

/-- The first character is copied, whatever it is. -/
def nextStringBase (s : Text) : Reading := nextStringBaseLoop literal delim escape .string (s.take 1) [] s.tail

end StringBase

def nextString (s : Text) : Reading := nextStringBase .string ['\"'] '\\' s

def nextString2 (s : Text) : Reading := nextStringBase .string ['\''] '\\' s

/-- The loop of `nextStringBase2` for two back quotes; more of them before the end belong to the text. -/
def nextStringBase2Loop : Text → Text → Reading
  | value, [] => ⟨some (.error []), value.length, []⟩
  | value, ch :: rest =>
    if ch = '`' ∧ rest.head? = some '`' then
      let more := rest.tail.takeWhile (· = '`')
      ⟨some (.string (cString (value ++ more)) []), (value ++ more).length + 1, rest.tail.drop more.length⟩
    else nextStringBase2Loop (value ++ [ch]) rest

def nextStringBase2 (s : Text) : Reading := nextStringBase2Loop [] (s.drop 2)

/-- The loop of `nextStringParsed`; the delimiter outside of parentheses is not taken. -/
def nextStringParsedLoop (deliml delimr delim : Text) : Nat → Text → List Nat → Text → Reading
  | _, value, _, [] => ⟨none, value.length, []⟩
  | mode, value, vars, ch :: rest =>
    if strchr deliml ch then nextStringParsedLoop deliml delimr delim (mode + 1) (value ++ [ch]) vars rest
    else if 0 < mode ∧ strchr delimr ch then
      nextStringParsedLoop deliml delimr delim (mode - 1) (value ++ [ch]) vars rest
    else if mode = 0 ∧ strchr delim ch then ⟨some (.string (cString value) vars), value.length + 1, ch :: rest⟩
    else
      nextStringParsedLoop deliml delimr delim mode (value ++ [ch]) (variableAt vars value.length ch rest) rest

def nextStringParsed (s : Text) : Reading := nextStringParsedLoop ['('] [')'] [',', '|', ')'] 0 [] [] s

/-- The literal that begins with one of the three quotes. -/
def readLiteral (quote : Char) (s : Text) : Reading :=
  if quote = '\"' then nextString s
  else if quote = '\'' then nextString2 s
  else if s[1]? = some '`' then nextStringBase2 s
  else nextStringBase .backquoted ['`'] '\\' s

/-- The lexer goes on with the literal; it is the same where the text has no end. -/
def literal (quote : Char) (s : Text) : Literal × Text :=
  ((readLiteral quote s).literal.getD (.error []), (readLiteral quote s).rest)

/-! ## The room a literal needs -/

variable {make : Text → List Nat → Literal} {delim : Text} {escape : Char}

/-- The loop writes a byte for each character it takes, and one for the end. -/
theorem nextStringBaseLoop_written (mode : Mode) (value : Text) (vars : List Nat) (s : Text) :
    (nextStringBaseLoop make delim escape mode value vars s).written +
      (nextStringBaseLoop make delim escape mode value vars s).rest.length ≤ value.length + s.length + 1 := by
  induction s generalizing mode value vars with
  | nil => cases mode <;> simp [nextStringBaseLoop]
  | cons ch rest ih =>
    cases mode with
    | escape =>
      have h := ih .string (value ++ [unescape ch]) vars
      rw [List.length_append, List.length_singleton] at h
      rw [nextStringBaseLoop, List.length_cons]
      omega
    | string =>
      rw [nextStringBaseLoop, List.length_cons]
      split
      · have h := ih .escape value vars
        omega
      split
      · show value.length + 2 + rest.length ≤ value.length + (rest.length + 1) + 1
        omega
      · have h := ih .string (value ++ [ch]) (variableAt vars (value.length - 1) ch rest)
        rw [List.length_append, List.length_singleton] at h
        omega

/-- A literal of at most 1023 characters does not leave the text of its token. -/
theorem nextStringBase_written (s : Text) :
    (nextStringBase make delim escape s).written + (nextStringBase make delim escape s).rest.length ≤ s.length + 1 := by
  have h : (nextStringBase make delim escape s).written +
      (nextStringBase make delim escape s).rest.length ≤ (s.take 1).length + s.tail.length + 1 :=
    nextStringBaseLoop_written .string (s.take 1) [] s.tail
  have hlength : (s.take 1).length + s.tail.length = s.length := by
    rw [List.length_take, List.length_tail]
    omega
  rwa [hlength] at h

example : (nextString "\"a\\\"*x\" b".toList).literal = some (.string "a\"*x".toList [2]) := rfl

end RuleParser
