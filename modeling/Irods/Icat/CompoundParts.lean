-- SUMMARY: The comparisons of a compound condition.
import Irods.Icat.Comparison
import Irods.Icat.WhereText

/-!
# Parts of a compound condition

A part is an operator and a quoted literal, with whatever the loop leaves behind them. The
operator ends at the first quote of the part, the literal at the last one.
-/

namespace GenQuery

open CString EStateM
open Option (map_map none_or)

variable {op s : Text}

namespace Cond

/-! ## Operators -/

variable {ch : Char}

theorem mem_blankOut {keyword tmpStr : Text} (hch : ch ∉ keyword) (h : ch ∈ tmpStr) :
    ch ∈ blankOut keyword tmpStr := by
  unfold blankOut
  cases hfound : strstr keyword tmpStr with
  | none => exact h
  | some n =>
    obtain ⟨-, ⟨t, ht⟩, -⟩ := strstr_eq_some hfound
    have hsplit : tmpStr = tmpStr.take n ++ (keyword ++ t) := by rw [ht, List.take_append_drop]
    have hrest : tmpStr.drop (n + keyword.length) = t := by rw [← List.drop_drop, ← ht, List.drop_left]
    rw [hsplit, List.mem_append, List.mem_append] at h
    dsimp only
    rw [hrest, List.mem_append, List.mem_append]
    exact h.elim (fun h => .inl (.inl h)) fun h => .inr (h.resolve_left hch)

/-- The check lets no character pass that is no comparison sign and in no keyword. -/
theorem notMem_of_checkCondition (hcheck : checkCondition s = true)
    (hch : ch ∉ "<>=! ".toList ∧ ∀ keyword ∈ keywords, ch ∉ keyword) : ch ∉ s := by
  intro hmem
  have hsigns : ch ∈ s.map fun c => if c = '<' ∨ c = '>' ∨ c = '=' ∨ c = '!' then ' ' else c := by
    refine List.mem_map.mpr ⟨ch, hmem, if_neg ?_⟩
    rintro (rfl | rfl | rfl | rfl) <;> exact hch.1 (by decide)
  have hkept : ∀ {words : List Text} {t : Text}, (∀ w ∈ words, ch ∉ w) → ch ∈ t →
      ch ∈ words.foldl (fun t w => blankOut w t) t := by
    intro words
    induction words with
    | nil => exact fun _ h => h
    | cons w words ih =>
      intro t hwords h
      exact ih (fun w' hw' => hwords w' (List.mem_cons_of_mem _ hw'))
        (mem_blankOut (hwords w List.mem_cons_self) h)
  have hblank := List.all_eq_true.mp hcheck ch (hkept hch.2 hsigns)
  obtain rfl := of_decide_eq_true hblank
  exact hch.1 (by decide)

/-- The operators of comparisons with one literal: the check admits them, and none of the forms that are handled
apart starts with them. -/
structure Operator (op : Text) : Prop where
  ne : op ≠ []
  short : op.length ≤ 10
  checked : checkCondition (' ' :: op) = true
  single  : occurs "parent_of".toList (' ' :: op) = false
  plain   : ∀ word ∈ ["in", "IN", "between", "BETWEEN"].map String.toList, ¬ word <+: op.dropWhile (· = ' ')

namespace Operator

variable (h : Operator op)

include h

theorem notMem (hch : ch ∈ "'|&\x00".toList) : ch ∉ op := by
  have hall : ∀ ch ∈ "'|&\x00".toList, ch ∉ "<>=! ".toList ∧ ∀ keyword ∈ keywords, ch ∉ keyword := by decide
  exact fun hmem => notMem_of_checkCondition h.checked (hall ch hch) (List.mem_cons_of_mem _ hmem)

/-- Nothing that stands behind the operator makes the condition one of the other forms. -/
theorem isComparison (rest : Text) : IsComparison (op ++ '\'' :: rest) := by
  have hblanks : (op ++ '\'' :: rest).takeWhile (· = ' ') = op.takeWhile (· = ' ') := by
    have htake : ∀ s : Text, (s ++ '\'' :: rest).takeWhile (· = ' ') = s.takeWhile (· = ' ') := by
      intro s
      induction s with
      | nil => rfl
      | cons c s ih =>
        rw [List.cons_append, List.takeWhile_cons, List.takeWhile_cons, ih]
    exact htake op
  have hstart (word : Text) (hword : word ∈ ["in", "IN", "between", "BETWEEN"].map String.toList) :
      strstr word (op ++ '\'' :: rest) ≠ some (op.takeWhile (· = ' ')).length := by
    intro hfound
    obtain ⟨-, hpre, -⟩ := strstr_eq_some hfound
    have hdrop : op.drop (op.takeWhile (· = ' ')).length = op.dropWhile (· = ' ') := by
      conv_lhs => rhs; rw [← List.takeWhile_append_dropWhile (p := (· = ' ')) (l := op)]
      rw [List.drop_left]
    rw [List.drop_append_of_le_length (List.takeWhile_prefix _).length_le, hdrop] at hpre
    have hquotes : ∀ w ∈ ["in", "IN", "between", "BETWEEN"].map String.toList, '\'' ∉ w := by decide
    exact h.plain word hword ((prefix_sep (hquotes word hword)).mp hpre)
  have hnot {lower upper : Text} (hlower : lower ∈ ["in", "IN", "between", "BETWEEN"].map String.toList)
      (hupper : upper ∈ ["in", "IN", "between", "BETWEEN"].map String.toList) :
      startsWith lower upper (op ++ '\'' :: rest) = false := by
    simp only [startsWith, hblanks, decide_eq_false_iff_not]
    cases hfind : strstr lower (op ++ '\'' :: rest) with
    | some n => exact fun heq => hstart lower hlower (hfind.trans heq)
    | none => exact hstart upper hupper
  have hquoted : '\'' ∈ op ++ '\'' :: rest := List.mem_append_right _ List.mem_cons_self
  refine ⟨hnot (by decide) (by decide), hnot (by decide) (by decide), fun heq => ?_, fun heq => ?_⟩
  · rw [heq] at hquoted
    exact absurd hquoted (by decide)
  · rw [heq] at hquoted
    exact absurd hquoted (by decide)

end Operator

/-! ## Quotes -/

theorem first_quote (hop : '\'' ∉ op) (rest : Text) :
    (op ++ '\'' :: rest).findIdx? (· = '\'') = some op.length := by
  have hfront : op.findIdx? (· = '\'') = none := by
    rw [List.findIdx?_eq_none_iff]
    intro c hc
    rw [decide_eq_false_iff_not]
    rintro rfl
    exact hop hc
  rw [List.findIdx?_append, hfront, List.findIdx?_cons]
  simp

theorem quotes_open (hop : '\'' ∉ op) {rest : Text} (hrest : '\'' ∉ rest) : quotes (op ++ '\'' :: rest) = none := by
  have hlast : (op ++ '\'' :: rest).reverse.findIdx? (· = '\'') = some rest.length := by
    rw [List.reverse_append, List.reverse_cons, List.append_assoc, List.singleton_append,
      first_quote (by simpa using hrest),
      List.length_reverse]
  simp only [quotes, first_quote hop, hlast]
  rw [if_neg]
  rw [List.length_append, List.length_cons]
  omega

/-- The literal reaches from the first quote to the last one. -/
theorem quotes_closed (hop : '\'' ∉ op) (literal : Text) {behind : Text} (hbehind : '\'' ∉ behind) :
    quotes (op ++ '\'' :: (literal ++ '\'' :: behind)) = some (op.length, op.length + literal.length + 1) := by
  have hlast : (op ++ '\'' :: (literal ++ '\'' :: behind)).reverse.findIdx? (· = '\'') = some behind.length := by
    have hrev : (op ++ '\'' :: (literal ++ '\'' :: behind)).reverse =
        behind.reverse ++ '\'' :: (literal.reverse ++ '\'' :: op.reverse) := by simp
    rw [hrev, first_quote (by simpa using hbehind), List.length_reverse]
  have hlen : (op ++ '\'' :: (literal ++ '\'' :: behind)).length = op.length + literal.length + behind.length + 2 := by
    simp only [List.length_append, List.length_cons]
    omega
  simp only [quotes, first_quote hop, hlast, hlen]
  rw [if_pos (by omega), Option.some.injEq, Prod.mk.injEq]
  exact ⟨rfl, by omega⟩

theorem literal_between (op literal behind : Text) :
    ((op ++ '\'' :: (literal ++ '\'' :: behind)).take (op.length + literal.length + 1)).drop (op.length + 1) =
      literal := by
  have hparts : op ++ '\'' :: (literal ++ '\'' :: behind) = (op ++ ['\'']) ++ (literal ++ '\'' :: behind) := by simp
  have hlen : op.length + literal.length + 1 = (op ++ ['\'']).length + literal.length := by
    simp
    omega
  have hfront : op.length + 1 = (op ++ ['\'']).length := by simp
  rw [hparts, hlen, hfront, List.take_length_add_append, List.take_left, List.drop_left]

/-- A text with a quote, taken apart at its last one. -/
theorem last_quote (h : '\'' ∈ s) : ∃ literal behind, s = literal ++ '\'' :: behind ∧ '\'' ∉ behind := by
  obtain ⟨back, front, hsplit, hback⟩ := List.eq_append_cons_of_mem (List.mem_reverse.mpr h)
  refine ⟨front.reverse, back.reverse, ?_, by simpa using hback⟩
  rw [← List.reverse_reverse s, hsplit]
  simp

/-! ## The condition -/

/-- A comparison with a quoted literal, and the blanks behind it. -/
structure Comparison where
  operator : Text
  literal : Text
  blanks : Text
  admitted : Operator operator
  unquoted : '\'' ∉ literal
  whole    : '\x00' ∉ literal
  blank    : ∀ ch ∈ blanks, ch = ' '

inductive Connective where
  | and
  | or
deriving DecidableEq

def Connective.sign : Connective → Text
  | .and => "&&".toList
  | .or  => "||".toList

def Connective.word : Connective → Text
  | .and => " AND ".toList
  | .or  => " OR ".toList

/-- Comparisons with connectives between them. -/
inductive Compound where
  | one (c : Comparison)
  | more (c : Comparison) (o : Connective) (rest : Compound)

def Comparison.text (c : Comparison) : Text := c.operator ++ '\'' :: (c.literal ++ '\'' :: c.blanks)

namespace Compound

def text : Compound → Text
  | .one c => c.text
  | .more c o rest => c.text ++ (o.sign ++ rest.text)

def literals : Compound → List Text
  | .one c => [c.literal]
  | .more c _ rest => c.literal :: rest.literals

end Compound

/-! ## The next operator -/

variable {o : Connective}

theorem sign_sep (hch : ch ∉ "&|".toList) : ch ∉ o.sign := by
  have hsub : o.sign ⊆ "&|".toList := by cases o <;> decide
  exact fun h => hch (hsub h)

theorem sign_ne (o : Connective) : o.sign ≠ [] := by cases o <;> decide

theorem strstr_none_of_notMem (hand : '&' ∉ s) (hor : '|' ∉ s) : strstr o.sign s = none := by
  rw [strstr_eq_none]
  intro hsub
  cases o with
  | and => exact hand (hsub.subset (show '&' ∈ "&&".toList by decide))
  | or => exact hor (hsub.subset (show '|' ∈ "||".toList by decide))

theorem strstr_blanks (o : Connective) {blanks : Text} (hblank : ∀ ch ∈ blanks, ch = ' ') (t : Text) :
    strstr o.sign (blanks ++ t) = (strstr o.sign t).map (· + blanks.length) := by
  induction blanks with
  | nil => simp
  | cons ch blanks ih =>
    obtain rfl := hblank ch List.mem_cons_self
    have hrest := ih fun ch hch => hblank ch (List.mem_cons_of_mem _ hch)
    have hsep := strstr_sep (R := blanks ++ t) (sign_sep (o := o) (show ' ' ∉ "&|".toList by decide)) (sign_ne o) []
    have hnil : strstr o.sign [] = none := strstr_none_of_notMem (by simp) (by simp)
    rw [List.cons_append, ← List.nil_append (' ' :: (blanks ++ t)), hsep, hnil, none_or, hrest, map_map]
    rfl

/-- A sign behind a comparison is found there unless the literal has one. -/
theorem strstr_comparison (o : Connective) (c : Comparison) (t : Text) : strstr o.sign (c.text ++ t) =
    ((strstr o.sign c.literal).map (· + (c.operator.length + 1))).or
      ((strstr o.sign t).map (· + c.text.length)) := by
  have hquote : '\'' ∉ o.sign := sign_sep (by decide)
  have hop : strstr o.sign c.operator = none :=
    strstr_none_of_notMem (c.admitted.notMem (by decide)) (c.admitted.notMem (by decide))
  have htext : c.text ++ t = c.operator ++ '\'' :: (c.literal ++ '\'' :: (c.blanks ++ t)) := by
    simp [Comparison.text]
  have hlen : c.text.length = c.blanks.length + (c.literal.length + 1) + (c.operator.length + 1) := by
    simp only [Comparison.text, List.length_append, List.length_cons]
    omega
  rw [htext, strstr_sep hquote (sign_ne o), hop, none_or, strstr_sep hquote (sign_ne o),
    strstr_blanks o c.blank, hlen]
  cases strstr o.sign c.literal with
  | some n => rfl
  | none =>
    rw [none_or, Option.map_none, none_or, map_map, map_map]
    refine congrArg (fun f => Option.map f _) (funext fun n => ?_)
    simp only [Function.comp]
    omega

theorem strstr_other (t : Text) :
    strstr Connective.or.sign (Connective.and.sign ++ t) = (strstr Connective.or.sign t).map (· + 2) := by
  have hand : '&' ∉ Connective.or.sign := by decide
  have hnil : strstr Connective.or.sign [] = none := strstr_none_of_notMem (by simp) (by simp)
  have h₁ := strstr_sep (R := '&' :: t) hand (sign_ne .or) []
  have h₂ := strstr_sep (R := t) hand (sign_ne .or) []
  rw [List.nil_append, hnil, none_or] at h₁ h₂
  show strstr Connective.or.sign ('&' :: '&' :: t) = _
  rw [h₁, h₂, map_map]
  rfl

theorem strstr_self (o : Connective) (t : Text) : strstr o.sign (o.sign ++ t) = some 0 := strstr_prefix _ _

theorem nextOperator_eq (s : Text) : nextOperator s =
    ((strstr Connective.or.sign s).map fun n => (n, Connective.or.word)).or
      ((strstr Connective.and.sign s).map fun n => (n, Connective.and.word)) := by
  rw [nextOperator, show "||".toList = Connective.or.sign from rfl]
  cases strstr Connective.or.sign s <;> rfl

/-- Is the connective behind the comparison what the loop finds first? -/
def FindsNext (c : Comparison) : Connective → Compound → Prop
  | .or, _ => strstr Connective.or.sign c.literal = none
  | .and, rest => strstr Connective.or.sign c.literal = none ∧ strstr Connective.and.sign c.literal = none ∧
    strstr Connective.or.sign rest.text = none

variable {c : Comparison} {rest : Compound}

theorem nextOperator_right (h : FindsNext c o rest) :
    nextOperator (Compound.more c o rest).text = some (c.text.length, o.word) := by
  rw [nextOperator_eq, Compound.text]
  cases o with
  | or =>
    rw [strstr_comparison, h, strstr_self]
    simp
  | and =>
    obtain ⟨hor, hand, hrest⟩ := h
    rw [strstr_comparison, hor, strstr_other, hrest, strstr_comparison, hand, strstr_self]
    simp

/-- A wrong place is within the literal, or at an `||` of what comes behind an `&&`. -/
theorem nextOperator_wrong (h : ¬ FindsNext c o rest) :
    (∃ n sep, nextOperator (Compound.more c o rest).text = some (n + (c.operator.length + 1), sep) ∧
      n ≤ c.literal.length) ∨
    (o = .and ∧ ∃ n sep, strstr Connective.or.sign rest.text = some n ∧
      nextOperator (Compound.more c o rest).text = some (n + 2 + c.text.length, sep)) := by
  rw [nextOperator_eq, Compound.text]
  have hwithin {o' : Connective} {n : Nat} (hfound : strstr o'.sign c.literal = some n) : n ≤ c.literal.length :=
    (strstr_eq_some hfound).1
  rw [strstr_comparison .or, strstr_comparison .and]
  cases hor : strstr Connective.or.sign c.literal with
  | some n =>
    exact .inl ⟨n, _, rfl, hwithin hor⟩
  | none =>
    cases o with
    | or => exact absurd hor h
    | and =>
      rw [strstr_other]
      cases hrest : strstr Connective.or.sign rest.text with
      | some n => exact .inr ⟨rfl, n, _, rfl, rfl⟩
      | none =>
        cases hand : strstr Connective.and.sign c.literal with
        | some n => exact .inl ⟨n, _, rfl, hwithin hand⟩
        | none => exact absurd ⟨hor, hand, hrest⟩ h

theorem hasOperator_eq (s : Text) : hasOperator s =
    ((strstr Connective.or.sign s).isSome || (strstr Connective.and.sign s).isSome) := rfl

theorem hasOperator_more (c : Comparison) (o : Connective) (rest : Compound) :
    hasOperator (Compound.more c o rest).text = true := by
  rw [hasOperator_eq, Compound.text, strstr_comparison, strstr_comparison]
  cases o with
  | or =>
    rw [strstr_self]
    cases strstr Connective.or.sign c.literal <;> simp
  | and =>
    rw [strstr_self]
    cases strstr Connective.and.sign c.literal <;> simp

theorem hasOperator_one (c : Comparison) : hasOperator (Compound.one c).text = hasOperator c.literal := by
  have hnil (o : Connective) : strstr o.sign [] = none := strstr_none_of_notMem (by simp) (by simp)
  have htext : (Compound.one c).text = c.text ++ [] := (List.append_nil _).symm
  rw [hasOperator_eq, hasOperator_eq, htext, strstr_comparison, strstr_comparison, hnil, hnil]
  cases strstr Connective.or.sign c.literal <;> cases strstr Connective.and.sign c.literal <;> rfl

end Cond

end GenQuery
