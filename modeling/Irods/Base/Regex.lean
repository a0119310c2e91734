-- SUMMARY: Extended regular expressions without alternatives.
import Mathlib.Computability.Language

/-!
# Extended regular expressions

The part of the POSIX syntax with anchors, `.`, `*`, bracket expressions of one character and characters
behind a backslash. A text outside that part has no reading here.
-/

namespace Regex

open scoped Computability

/-- The tokens of an expression. -/
inductive Token where
  | any
  | char (c : Char)
  | star
  | start
  | stop
  deriving DecidableEq

/-- The characters that stand for themselves. -/
def isOrdinary (c : Char) : Bool := !"^.[$()|*+?\x7b\\".toList.contains c

def tokens : List Char → Option (List Token)
  | [] => some []
  | '.' :: e => (tokens e).map (.any :: ·)
  | '*' :: e => (tokens e).map (.star :: ·)
  | '^' :: e => (tokens e).map (.start :: ·)
  | '$' :: e => (tokens e).map (.stop :: ·)
  | '\\' :: c :: e => (tokens e).map (.char c :: ·)
  -- in brackets only a negation and the closing bracket are special in the first place
  | '[' :: c :: ']' :: e => if c = '^' ∨ c = ']' then none else (tokens e).map (.char c :: ·)
  | c :: e => if isOrdinary c then (tokens e).map (.char c :: ·) else none

/-- One character, or any number of such. -/
inductive Item where
  | once (t : Option Char)
  | many (t : Option Char)
  deriving DecidableEq

/-- An expression between its anchors. -/
structure Ere where
  start : Bool
  items : List Item
  stop : Bool
  deriving DecidableEq

def Ere.cons (i : Item) (r : Ere) : Ere := { r with items := i :: r.items }

/-- A star repeats what stands in front of it; the end anchor is the last token. -/
def items : List Token → Option Ere
  | [] => some ⟨false, [], false⟩
  | [.stop] => some ⟨false, [], true⟩
  | .any :: .star :: ts => (items ts).map (.cons (.many none))
  | .char c :: .star :: ts => (items ts).map (.cons (.many (some c)))
  | .any :: ts => (items ts).map (.cons (.once none))
  | .char c :: ts => (items ts).map (.cons (.once (some c)))
  | _ => none

/-- The start anchor is the first token. -/
def regcomp (e : List Char) : Option Ere :=
  match tokens e with
  | some (.start :: ts) => (items ts).map ({ · with start := true })
  | some ts => items ts
  | none => none

/-! ## What an expression matches -/

/-- One character, any if none is named. -/
def one : Option Char → Language Char
  | none => {s | s.length = 1}
  | some c => {[c]}

def Item.lang : Item → Language Char
  | .once t => one t
  | .many t => (one t)∗

def itemsLang (is : List Item) : Language Char := (is.map Item.lang).prod

def Ere.lang (r : Ere) : Language Char :=
  (if r.start then 1 else ⊤) * itemsLang r.items * (if r.stop then 1 else ⊤)

/-- Whether the expression has a reading and that matches the string. -/
def Matches (e s : List Char) : Prop := ∃ r, regcomp e = some r ∧ s ∈ r.lang

theorem mem_any_kstar (s : List Char) : s ∈ (one none)∗ := by
  refine ⟨s.map fun c => [c], (List.flatMap_singleton' s).symm, fun y hy => ?_⟩
  obtain ⟨c, -, rfl⟩ := List.mem_map.mp hy
  rfl

variable {s : List Char} {is : List Item}

theorem mem_many : s ∈ itemsLang (.many none :: is) ↔ ∃ x y, s = x ++ y ∧ y ∈ itemsLang is := by
  constructor
  · rintro ⟨x, -, y, hy, rfl⟩
    exact ⟨x, y, rfl, hy⟩
  · rintro ⟨x, y, rfl, hy⟩
    exact ⟨x, mem_any_kstar x, y, hy, rfl⟩

theorem mem_once {c : Char} : s ∈ itemsLang (.once (some c) :: is) ↔ ∃ y, s = c :: y ∧ y ∈ itemsLang is := by
  constructor
  · rintro ⟨x, rfl, y, hy, rfl⟩
    exact ⟨y, rfl, hy⟩
  · rintro ⟨y, rfl, hy⟩
    exact ⟨[c], rfl, y, hy, rfl⟩

/-- Between anchors the items match the whole string. -/
theorem mem_anchored : s ∈ (Ere.mk true is true).lang ↔ s ∈ itemsLang is := by
  simp [Ere.lang]

end Regex
