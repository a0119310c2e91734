-- SUMMARY: The detection of rule syntax against the lexical rules.
import Irods.Base.CString

/-!
# Detecting the syntax of a rule

`isRuleGenSyntax` looks for `##`, which only the old syntax has, outside comments and strings. It takes any
backquote for the start of a double-backquoted string, and the second one can be the first half of its end.
Behind a backslash it goes on by two characters, also where only one is left.
-/

namespace RuleSyntax

/-- What the scanner is in. -/
inductive Mode where
  | code
  | comment
  | single
  | double
  | backquoted
  deriving DecidableEq

/-! ## The code -/

/-- The loop. The text ends at its terminator; `none` is a step that looks at what comes behind it. -/
def scan : Mode → Text → Option Bool
  | _, [] => some true
  | .code, c :: s =>
    if c = '#' ∧ s.head? = some '#' then some false
    else if c = '#' then scan .comment s
    else if c = '\'' then scan .single s
    else if c = '"' then scan .double s
    else if c = '\x60' then scan .backquoted s
    else scan .code s
  | .comment, c :: s => scan (if c = '\n' then .code else .comment) s
  -- the `break` at the terminator leaves the `switch` only, and the loop then steps over it
  | .single, ['\\'] => none
  | .single, '\\' :: _ :: s => scan .single s
  | .single, c :: s => scan (if c = '\'' then .code else .single) s
  | .double, ['\\'] => none
  | .double, '\\' :: _ :: s => scan .double s
  | .double, c :: s => scan (if c = '"' then .code else .double) s
  | .backquoted, '\x60' :: '\x60' :: s => scan .code s
  | .backquoted, _ :: s => scan .backquoted s

def isRuleGenSyntax (expr : Text) : Option Bool := scan .code expr

/-! ## The lexical rules -/

/-- What a text holds, from a mode on. -/
inductive Found where
  /-- `##` outside comments and strings. -/
  | hashes
  /-- A string that breaks off behind a backslash. -/
  | dangling
  /-- Neither. -/
  | nothing
  deriving DecidableEq

/-- The text by the lexical rules: a double-backquoted string is from two backquotes to the next two. -/
def lex : Mode → Text → Found
  | _, [] => .nothing
  | .code, '#' :: '#' :: _ => .hashes
  | .code, '#' :: s => lex .comment s
  | .code, '\'' :: s => lex .single s
  | .code, '"' :: s => lex .double s
  | .code, '\x60' :: '\x60' :: s => lex .backquoted s
  | .code, _ :: s => lex .code s
  | .comment, '\n' :: s => lex .code s
  | .comment, _ :: s => lex .comment s
  | .single, ['\\'] => .dangling
  | .single, '\\' :: _ :: s => lex .single s
  | .single, '\'' :: s => lex .code s
  | .single, _ :: s => lex .single s
  | .double, ['\\'] => .dangling
  | .double, '\\' :: _ :: s => lex .double s
  | .double, '"' :: s => lex .code s
  | .double, _ :: s => lex .double s
  | .backquoted, '\x60' :: '\x60' :: s => lex .code s
  | .backquoted, _ :: s => lex .backquoted s

/-- Outside comments and strings backquotes stand in pairs, and never three in a row. -/
def paired : Mode → Text → Bool
  | _, [] => true
  | .code, '#' :: '#' :: _ => true
  | .code, '#' :: s => paired .comment s
  | .code, '\'' :: s => paired .single s
  | .code, '"' :: s => paired .double s
  | .code, '\x60' :: '\x60' :: s => s.head? ≠ some '\x60' && paired .backquoted s
  | .code, '\x60' :: _ => false
  | .code, _ :: s => paired .code s
  | .comment, '\n' :: s => paired .code s
  | .comment, _ :: s => paired .comment s
  | .single, ['\\'] => true
  | .single, '\\' :: _ :: s => paired .single s
  | .single, '\'' :: s => paired .code s
  | .single, _ :: s => paired .single s
  | .double, ['\\'] => true
  | .double, '\\' :: _ :: s => paired .double s
  | .double, '"' :: s => paired .code s
  | .double, _ :: s => paired .double s
  | .backquoted, '\x60' :: '\x60' :: s => paired .code s
  | .backquoted, _ :: s => paired .backquoted s

/-- What the scanner returns for what a text holds. -/
def Found.result : Found → Option Bool
  | .hashes => some false
  | .dangling => none
  | .nothing => some true

variable {s : Text}

/-- One backquote is a character of a double-backquoted string. -/
theorem scan_backquote (h : s.head? ≠ some '\x60') : scan .backquoted ('\x60' :: s) = scan .backquoted s := by
  cases s with
  | nil => rfl
  | cons c s =>
    have hc : c ≠ '\x60' := fun hc => h (by rw [hc]; rfl)
    simp [scan, hc]

theorem scan_other {c : Char} (hhash : c ≠ '#') (hsingle : c ≠ '\'') (hdouble : c ≠ '"') (hback : c ≠ '\x60') :
    scan .code (c :: s) = scan .code s := by
  simp [scan, hhash, hsingle, hdouble, hback]

/-- Where backquotes stand in pairs the scanner follows the lexical rules. -/
theorem scan_eq_lex (m : Mode) (s : Text) (h : paired m s = true) : scan m s = (lex m s).result := by
  fun_induction lex m s with
  | case3 s hnext ih =>
    have hhead : s.head? ≠ some '#' := by
      cases s with
      | nil => nofun
      | cons c s => exact fun hc => hnext s (by rw [List.head?_cons, Option.some.injEq] at hc; rw [hc])
    rw [← ih (by simpa [paired] using h), scan, if_neg fun hc => hhead hc.2, if_pos rfl]
  | case6 s ih =>
    simp only [paired, Bool.and_eq_true, decide_eq_true_eq] at h
    rw [← ih h.2, ← scan_backquote h.1]
    simp [scan]
  | case7 c s _ hhash hsingle hdouble hpair ih =>
    have hback : c ≠ '\x60' := by
      rintro rfl
      cases s with
      | nil => simp [paired] at h
      | cons d s =>
        have hd : d ≠ '\x60' := fun hd => hpair s rfl (by rw [hd])
        simp [paired, hd] at h
    rw [scan_other hhash hsingle hdouble hback]
    exact ih (by simpa [paired, hback, hhash, hsingle, hdouble] using h)
  | _ => simp_all [scan, paired, Found.result]

/-- The detection looks at nothing behind the terminator, and finds old syntax where `##` stands outside comments
and strings. -/
def Agrees (expr : Text) : Prop := isRuleGenSyntax expr = some (decide (lex .code expr ≠ .hashes))

/-- Where backquotes stand in pairs, that is so unless a string breaks off behind a backslash. -/
theorem agrees_iff {expr : Text} (h : paired .code expr = true) : Agrees expr ↔ lex .code expr ≠ .dangling := by
  rw [Agrees, isRuleGenSyntax, scan_eq_lex .code expr h]
  cases lex .code expr <;> simp [Found.result]

/-- A comment, strings and the separator of the old syntax. -/
theorem agrees_iff_separated : Agrees "f('##', \"\\\"##\") \x60\x60##\x60\x60 # ##\n ## g".toList :=
  (agrees_iff (by decide)).mpr (by decide)

/-- A string that breaks off behind a backslash, and the separator behind a single backquote and behind three. -/
theorem not_agrees :
    isRuleGenSyntax "'\\".toList = none ∧ ¬ Agrees "'\\".toList ∧ ¬ Agrees "\x60MsParam_PI\x60 ## g".toList ∧
      ¬ Agrees "\x60\x60\x60##\x60\x60".toList := by
  refine ⟨by decide, ?_, ?_, ?_⟩ <;> unfold Agrees <;> decide

end RuleSyntax
