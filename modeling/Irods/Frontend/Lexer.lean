-- SUMMARY: The tokens of the rule language.
import Irods.Base.CString

/-!
# Operators of the lexer

`nextTokenRuleGen` tries the token classes one after another. The operators come after punctuation,
arrows and variables and before everything else; they are looked up in a table, in its order, against
a copy of the next ten characters. The order of the table puts every operator behind the longer ones
it begins, so that the first match is the longest; the copy is too short for one of them and ends
exactly where the boundary of another one is looked at.
-/

open CString

/-! ## Ordered tables -/

namespace PrefixTable

variable {ε α : Type} {key : ε → List α} {ok : ε → Bool} {table : List ε} {s : List α}

/-- No entry begins a later one that is longer. -/
def Ordered (key : ε → List α) (table : List ε) : Prop :=
  table.Pairwise fun a b => key a <+: key b → (key b).length ≤ (key a).length

/-- The first entry that is found in front of a text is the longest one. -/
theorem find?_longest (hordered : Ordered key table) (hok : ∀ e ∈ table, ok e = true → key e <+: s) {e : ε}
    (he : table.find? ok = some e) : ∀ e' ∈ table, ok e' = true → (key e').length ≤ (key e).length := by
  obtain ⟨hoke, front, rest, rfl, hfront⟩ := List.find?_eq_some_iff_append.mp he
  intro e' hmem hoke'
  rw [List.mem_append, List.mem_cons] at hmem
  rcases hmem with hmem | rfl | hmem
  · have := hfront e' hmem
    rw [hoke'] at this
    cases this
  · exact le_rfl
  · obtain ⟨-, hrest, -⟩ := List.pairwise_append.mp hordered
    by_contra hlt
    have hpre : key e <+: key e' := List.prefix_of_prefix_length_le (hok e (by simp) hoke)
      (hok e' (by simp [hmem]) hoke')
      (Nat.le_of_lt (Nat.lt_of_not_le hlt))
    exact hlt (List.rel_of_pairwise_cons hrest hmem hpre)

end PrefixTable

namespace Lexer

/-! ## Operators -/

structure Op where
  string : Text
  arity : Nat
  prec : Nat
deriving DecidableEq

def new_ops : List Op :=
  [⟨"-".toList, 1, 10⟩, ⟨"++".toList, 2, 6⟩, ⟨"+".toList, 2, 6⟩, ⟨"-".toList, 2, 6⟩, ⟨"*".toList, 2, 7⟩,
   ⟨"/".toList, 2, 7⟩, ⟨"&&".toList, 2, 3⟩, ⟨"%%".toList, 2, 2⟩, ⟨"||".toList, 2, 2⟩, ⟨"%".toList, 2, 7⟩,
   ⟨"<=".toList, 2, 5⟩, ⟨">=".toList, 2, 5⟩, ⟨"<".toList, 2, 5⟩, ⟨">".toList, 2, 5⟩, ⟨"==".toList, 2, 4⟩,
   ⟨"!=".toList, 2, 4⟩, ⟨"!".toList, 1, 10⟩, ⟨"like regex".toList, 2, 4⟩, ⟨"not like regex".toList, 2, 4⟩,
   ⟨"like".toList, 2, 4⟩, ⟨"not like".toList, 2, 4⟩, ⟨"^^".toList, 2, 8⟩, ⟨"^".toList, 2, 8⟩,
   ⟨"floor".toList, 1, 10⟩, ⟨"ceiling".toList, 1, 10⟩, ⟨"log".toList, 1, 10⟩, ⟨"exp".toList, 1, 10⟩,
   ⟨"abs".toList, 1, 10⟩, ⟨"=".toList, 2, 1⟩, ⟨"@@".toList, 2, 20⟩]

/-- A letter, in the locale of the server; the character may be missing. -/
def isalpha (c : Option Char) : Bool := c.any Char.isAlpha

def isdigit (c : Option Char) : Bool := c.any Char.isDigit

def isalnum (c : Option Char) : Bool := c.any Char.isAlphanum

/-- The test of the loop over the table, on the copy `op`; behind the copy stands its terminator. -/
def tested (op : Text) (e : Op) : Bool :=
  e.string.isPrefixOf op && (!isalpha e.string.head? || !isalnum op[e.string.length]?)

/-- The operators are looked up in the next ten characters. -/
def findOp (s : Text) : Option Op := new_ops.find? (tested (s.take 10))

/-! ## Tokens -/

inductive NodeType where
  | TK_EOS | N_ERROR | TK_INT | TK_DOUBLE | TK_TEXT | TK_STRING | TK_BACKQUOTED | TK_LOCAL_VAR | TK_SESSION_VAR
  | TK_OP | TK_MISC_OP
deriving DecidableEq

/-- A token; the positions of the variables are those in a string. -/
structure Token where
  type : NodeType
  text : Text
  vars : List Nat := []
deriving DecidableEq

/-- What the readers of string and back-quoted literals come back with. -/
inductive Literal where
  | string (text : Text) (vars : List Nat)
  | backquoted (text : Text) (vars : List Nat)
  | error (text : Text)

def Literal.token : Literal → Token
  | .string text vars => ⟨.TK_STRING, text, vars⟩
  | .backquoted text vars => ⟨.TK_BACKQUOTED, text, vars⟩
  | .error text => ⟨.N_ERROR, text, []⟩

/-- `skipWhitespace` and `skipComments`, as often as there is one of them; the flag is for inside a comment. -/
def skipBlank (rulegen : Bool) : Bool → Text → Text
  | _, [] => []
  | true,  c :: cs => skipBlank rulegen (c ≠ '\n') cs
  | false, c :: cs =>
    if c = ' ' ∨ c = '\t' ∨ c = '\r' ∨ c = '\n' then skipBlank rulegen false cs
    else if c = '#' ∧ ¬(rulegen = false ∧ cs.head? = some '#') then skipBlank rulegen true cs
    else c :: cs

def identChar (c : Char) : Bool := c = '_' || c.isAlphanum

/-- The token classes in front of the operators. -/
def punctuation (rulegen : Bool) : Text → Option (Token × Text)
  | [] => some (⟨.TK_EOS, "EOS".toList, []⟩, [])
  | ch :: cs =>
    if ch ∈ "{}[](),@".toList ∨ (ch = '|' ∧ (rulegen = false ∨ cs.head? ≠ some '|')) ∨ ch = ';' ∨ ch = '?' then
      some (⟨.TK_MISC_OP, [ch], []⟩, cs)
    else if ch = '#' then some (⟨.TK_MISC_OP, "##".toList, []⟩, cs.tail)
    else if (ch = '-' ∨ ch = '=') ∧ cs.head? = some '>' then some (⟨.TK_MISC_OP, [ch, '>'], []⟩, cs.tail)
    else if ch = ':' then
      if rulegen = true ∧ cs.take 2 = "::".toList then some (⟨.TK_MISC_OP, ":::".toList, []⟩, cs.drop 2)
      else some (⟨.TK_MISC_OP, ":".toList, []⟩, cs)
    else if (ch = '*' ∨ ch = '$') ∧ (cs.head? = some '_' ∨ isalpha cs.head?) then
      some (⟨if ch = '*' then .TK_LOCAL_VAR else .TK_SESSION_VAR, ch :: cs.takeWhile identChar, []⟩,
        cs.dropWhile identChar)
    else none

/-- The token classes behind the operators. After a `*` or `$` that begins no variable `ch` is the
character behind it, though the token begins in front of it. -/
def other (literal : Char → Text → Literal × Text) (s : Text) : Token × Text :=
  let ch := if s.head? = some '*' ∨ s.head? = some '$' then s[1]? else s[0]?
  let numeric := s.tail.takeWhile fun c => c.isDigit || c = '.'
  let ident := s.tail.takeWhile identChar
  if isdigit ch ∨ ch = some '.' then
    let text := s.take 1 ++ numeric
    (⟨if '.' ∈ text then .TK_DOUBLE else .TK_INT, text, []⟩, s.drop text.length)
  else if ch = some '_' ∨ isalpha ch ∨ ch = some '~' then
    (⟨.TK_TEXT, s.take 1 ++ ident, []⟩, s.drop (1 + ident.length))
  else
    match ch with
    | some '\"' => ((literal '\"' s).1.token, (literal '\"' s).2)
    | some '\'' => ((literal '\'' s).1.token, (literal '\'' s).2)
    | some '`' => ((literal '`' s).1.token, (literal '`' s).2)
    | _ => (⟨.N_ERROR, [], []⟩, s)

/-- The next token of the input and what is left of it. -/
def nextTokenRuleGen (literal : Char → Text → Literal × Text) (rulegen : Bool) (input : Text) : Token × Text :=
  let s := skipBlank rulegen false input
  match punctuation rulegen s with
  | some found => found
  | none =>
    match findOp s with
    | some e => (⟨.TK_OP, e.string, []⟩, s.drop e.string.length)
    | none => other literal s

/-! ## Longest match -/

/-- An operator stands in front of the input; a word is not followed by a letter or digit. -/
def Matches (s : Text) (e : Op) : Prop := e.string <+: s ∧ (isalpha e.string.head? → ¬ isalnum s[e.string.length]?)

structure Longest (s : Text) (e : Op) : Prop where
  mem : e ∈ new_ops
  found : Matches s e
  longest : ∀ e' ∈ new_ops, Matches s e' → e'.string.length ≤ e.string.length

/-- Where an operator matches and no earlier class applies, the longest one is returned and skipped. -/
def LongestMatch (literal : Char → Text → Literal × Text) (rulegen : Bool) (s : Text) : Prop :=
  (∃ e ∈ new_ops, Matches s e) → punctuation rulegen s = none →
    ∃ e, Longest s e ∧ nextTokenRuleGen literal rulegen s = (⟨.TK_OP, e.string, []⟩, s.drop e.string.length)

def likeRegex : Op := ⟨"like regex".toList, 2, 4⟩

def notLikeRegex : Op := ⟨"not like regex".toList, 2, 4⟩

/-- Eleven characters would show a letter behind `like regex`, and fourteen `not like regex`. -/
def CopySuffices (s : Text) : Prop := (likeRegex.string <+: s → Matches s likeRegex) ∧ ¬ Matches s notLikeRegex

theorem new_ops_ordered : PrefixTable.Ordered Op.string new_ops := by
  unfold PrefixTable.Ordered
  decide +kernel

theorem new_ops_length : ∀ e ∈ new_ops, e.string.length < 10 ∨ e = likeRegex ∨ e = notLikeRegex := by
  decide +kernel

variable {literal : Char → Text → Literal × Text} {rulegen : Bool} {s : Text} {e : Op}

theorem tested_iff (op : Text) (e : Op) : tested op e = true ↔ Matches op e := by
  simp [tested, Matches, List.isPrefixOf_iff_prefix, ← Bool.not_eq_true, imp_iff_not_or]

/-- A shorter operator is seen whole, with the character behind it. -/
theorem matches_take (hlen : e.string.length < 10) : Matches (s.take 10) e ↔ Matches s e := by
  rw [Matches, Matches, List.getElem?_take_of_lt hlen, List.prefix_take_iff]
  exact ⟨fun h => ⟨h.1.1, h.2⟩, fun h => ⟨⟨h.1, hlen.le⟩, h.2⟩⟩

/-- Behind the ten characters of `like regex` stands the end of the copy. -/
theorem matches_take_likeRegex : Matches (s.take 10) likeRegex ↔ likeRegex.string <+: s := by
  have hlen : likeRegex.string.length = 10 := by decide
  have hend : (s.take 10)[likeRegex.string.length]? = none := List.getElem?_take_eq_none hlen.symm.le
  rw [Matches, hend, List.prefix_take_iff]
  exact ⟨fun h => h.1.1, fun h => ⟨⟨h, Nat.le_of_eq hlen⟩, fun _ => by decide⟩⟩

theorem not_matches_take_notLikeRegex : ¬ Matches (s.take 10) notLikeRegex := by
  intro h
  have hle := h.1.length_le
  rw [List.length_take] at hle
  have hlen : notLikeRegex.string.length = 14 := by decide
  omega

/-- On such an input the copy is as good as the input. -/
theorem tested_take (hcopy : CopySuffices s) (he : e ∈ new_ops) : tested (s.take 10) e = true ↔ Matches s e := by
  rw [tested_iff]
  rcases new_ops_length e he with hlen | rfl | rfl
  · exact matches_take hlen
  · rw [matches_take_likeRegex]
    exact ⟨hcopy.1, fun h => h.1⟩
  · exact ⟨fun h => absurd h not_matches_take_notLikeRegex, fun h => absurd h hcopy.2⟩

/-- The first operator of the table that is found is the longest. -/
theorem findOp_longest (hcopy : CopySuffices s) (hmatch : ∃ e ∈ new_ops, Matches s e) :
    ∃ e, findOp s = some e ∧ Longest s e := by
  obtain ⟨e₀, hmem₀, hmatch₀⟩ := hmatch
  cases hfind : findOp s with
  | none =>
    have hnone := List.find?_eq_none.mp hfind e₀ hmem₀
    exact absurd ((tested_take hcopy hmem₀).mpr hmatch₀) hnone
  | some e =>
    have hmem : e ∈ new_ops := List.mem_of_find?_eq_some hfind
    have htested : tested (s.take 10) e = true := List.find?_some hfind
    refine ⟨e, rfl, hmem, (tested_take hcopy hmem).mp htested, fun e' hmem' hmatch' => ?_⟩
    exact PrefixTable.find?_longest new_ops_ordered (fun e he htested => ((tested_take hcopy he).mp htested).1) hfind
      e' hmem' ((tested_take hcopy hmem').mpr hmatch')

/-- No operator begins with a blank or a comment. -/
theorem skipBlank_of_matches (he : e ∈ new_ops) (h : Matches s e) : skipBlank rulegen false s = s := by
  have hfirst : ∀ e ∈ new_ops, e.string.head? ∉ [none, some ' ', some '\t', some '\r', some '\n', some '#'] := by
    decide +kernel
  have hfirst := hfirst e he
  obtain ⟨rest, rfl⟩ := h.1
  cases hstring : e.string with
  | nil => exact absurd (by rw [hstring]; exact List.mem_cons_self) hfirst
  | cons c cs =>
    rw [hstring] at hfirst
    simp only [List.head?_cons, List.mem_cons, List.not_mem_nil, Option.some.injEq, reduceCtorEq, false_or, or_false,
      not_or] at hfirst
    obtain ⟨hspace, htab, hreturn, hnewline, hcomment⟩ := hfirst
    rw [List.cons_append, skipBlank, if_neg (by simp [hspace, htab, hreturn, hnewline]), if_neg (fun h => hcomment h.1)]

variable {input rest : Text}

theorem nextToken_of_findOp (hskip : skipBlank rulegen false input = s) (hpunct : punctuation rulegen s = none)
    (hfind : findOp s = some e) :
    nextTokenRuleGen literal rulegen input = (⟨.TK_OP, e.string, []⟩, s.drop e.string.length) := by
  simp only [nextTokenRuleGen, hskip, hpunct, hfind]

theorem punctuation_type {t : Token} (h : punctuation rulegen s = some (t, rest)) : t.type ≠ .TK_OP := by
  unfold punctuation at h
  split at h
  · cases h
    exact nofun
  split at h
  · cases h
    exact nofun
  split at h
  · cases h
    exact nofun
  split at h
  · cases h
    exact nofun
  split at h
  · split at h
    all_goals
      cases h
      exact nofun
  · split at h
    · split at h
      all_goals
        cases h
        exact nofun
    · cases h

theorem Literal.token_type (l : Literal) : l.token.type ≠ .TK_OP := by
  cases l <;> exact nofun

theorem other_type : (other literal s).1.type ≠ .TK_OP := by
  unfold other
  extract_lets ch numeric ident
  by_cases hnumber : isdigit ch ∨ ch = some '.'
  · rw [if_pos hnumber]
    split <;> exact nofun
  rw [if_neg hnumber]
  by_cases hident : ch = some '_' ∨ isalpha ch ∨ ch = some '~'
  · rw [if_pos hident]
    exact nofun
  rw [if_neg hident]
  clear_value ch
  split
  · exact Literal.token_type _
  · exact Literal.token_type _
  · exact Literal.token_type _
  · exact nofun

/-- An operator comes out of the table only. -/
theorem findOp_of_nextToken {text : Text} (h : nextTokenRuleGen literal rulegen input = (⟨.TK_OP, text, []⟩, rest)) :
    punctuation rulegen (skipBlank rulegen false input) = none ∧
      ∃ e, findOp (skipBlank rulegen false input) = some e ∧ e.string = text := by
  simp only [nextTokenRuleGen] at h
  split at h
  · rename_i found hpunct
    rw [h] at hpunct
    exact absurd rfl (punctuation_type hpunct)
  · rename_i hpunct
    refine ⟨hpunct, ?_⟩
    split at h
    · rename_i e hfind
      exact ⟨e, hfind, congrArg Token.text (Prod.mk.inj h).1⟩
    · have htype : (other literal (skipBlank rulegen false input)).1.type ≠ .TK_OP := other_type
      rw [h] at htype
      exact absurd rfl htype

instance (s : Text) (e : Op) : Decidable (Matches s e) := decidable_of_iff _ (tested_iff s e)

instance (s : Text) : Decidable (CopySuffices s) :=
  inferInstanceAs (Decidable ((likeRegex.string <+: s → Matches s likeRegex) ∧ ¬ Matches s notLikeRegex))

/-- What the copy shows decides. -/
theorem tested_length (he : e ∈ new_ops) (h : tested (s.take 10) e = true) :
    e.string.length < 10 ∨ e = likeRegex := by
  rcases new_ops_length e he with hlen | rfl | rfl
  · exact .inl hlen
  · exact .inr rfl
  · exact absurd ((tested_iff _ _).mp h) not_matches_take_notLikeRegex

theorem longestMatch_of_copySuffices (hcopy : CopySuffices s) : LongestMatch literal rulegen s := by
  rintro ⟨e₀, hmem₀, hmatch₀⟩ hpunct
  obtain ⟨e, hfind, hlongest⟩ := findOp_longest hcopy ⟨e₀, hmem₀, hmatch₀⟩
  exact ⟨e, hlongest, nextToken_of_findOp (skipBlank_of_matches hmem₀ hmatch₀) hpunct hfind⟩

theorem punctuation_of_head {c : Char} (hc : c = 'l' ∨ c = 'n') (cs : Text) : punctuation rulegen (c :: cs) = none := by
  rcases hc with rfl | rfl <;> simp [punctuation]

/-- `like` matches wherever `like regex` begins. -/
theorem matches_like (h : likeRegex.string <+: s) : Matches s ⟨"like".toList, 2, 4⟩ := by
  obtain ⟨rest, rfl⟩ := h
  have hat : (likeRegex.string ++ rest)["like".toList.length]? = some ' ' := rfl
  refine ⟨⟨" regex".toList ++ rest, rfl⟩, fun _ => ?_⟩
  rw [hat]
  decide

theorem copySuffices_of_longestMatch (h : LongestMatch literal rulegen s) : CopySuffices s := by
  have hresult (hmatch : ∃ e ∈ new_ops, Matches s e) (hpunct : punctuation rulegen s = none) :
      ∃ e e', Longest s e ∧ findOp s = some e' ∧ e'.string = e.string := by
    obtain ⟨e, hlongest, hnext⟩ := h hmatch hpunct
    obtain ⟨-, e', hfind, hstring⟩ := findOp_of_nextToken hnext
    rw [skipBlank_of_matches hlongest.mem hlongest.found] at hfind
    exact ⟨e, e', hlongest, hfind, hstring⟩
  constructor
  · -- the copy shows `like regex`, so nothing shorter is returned
    intro hpre
    have hlike := matches_like hpre
    have hpunct : punctuation rulegen s = none := by
      obtain ⟨rest, rfl⟩ := hpre
      exact punctuation_of_head (.inl rfl) _
    obtain ⟨e, e', hlongest, hfind, hstring⟩ := hresult ⟨_, by decide +kernel, hlike⟩ hpunct
    have hmem : e' ∈ new_ops := List.mem_of_find?_eq_some hfind
    have htested : tested (s.take 10) e' = true := List.find?_some hfind
    have hten := PrefixTable.find?_longest new_ops_ordered (fun e _ htested => ((tested_iff _ e).mp htested).1) hfind
      likeRegex (by decide +kernel) ((tested_iff _ _).mpr (matches_take_likeRegex.mpr hpre))
    have hlen : likeRegex.string.length = 10 := by decide
    rcases tested_length hmem htested with hshort | rfl
    · omega
    · have hfound := hlongest.found
      unfold Matches at hfound ⊢
      rwa [hstring]
  · -- nothing the copy shows is that long
    intro hmatch
    have hpunct : punctuation rulegen s = none := by
      obtain ⟨rest, rfl⟩ := hmatch.1
      exact punctuation_of_head (.inr rfl) _
    obtain ⟨e, e', hlongest, hfind, hstring⟩ := hresult ⟨_, by decide +kernel, hmatch⟩ hpunct
    have hmem : e' ∈ new_ops := List.mem_of_find?_eq_some hfind
    have htested : tested (s.take 10) e' = true := List.find?_some hfind
    have hlong := hlongest.longest notLikeRegex (by decide +kernel) hmatch
    have hlen : likeRegex.string.length = 10 := by decide
    have hlen' : notLikeRegex.string.length = 14 := by decide
    rw [← hstring] at hlong
    rcases tested_length hmem htested with hshort | rfl <;> omega

/-- An operator of the table that some input gives. -/
def Produced (literal : Char → Text → Literal × Text) (text : Text) : Prop :=
  ∃ rulegen input rest, nextTokenRuleGen literal rulegen input = (⟨.TK_OP, text, []⟩, rest)

theorem produced_iff (he : e ∈ new_ops) :
    Produced literal e.string ↔ e.string ≠ "@@".toList ∧ e.string ≠ notLikeRegex.string := by
  constructor
  · rintro ⟨rulegen, input, rest, hnext⟩
    obtain ⟨hpunct, e', hfind, hstring⟩ := findOp_of_nextToken hnext
    have htested := (tested_iff _ e').mp (List.find?_some hfind)
    have hpre := List.prefix_take_iff.mp htested.1
    rw [hstring] at hpre
    refine ⟨fun hat => ?_, fun hnot => ?_⟩
    · -- the first character is punctuation
      rw [hat] at hpre
      obtain ⟨more, hmore⟩ := hpre.1
      rw [← hmore] at hpunct
      cases hpunct
    · rw [hnot] at hpre
      exact absurd hpre.2 (by decide)
  · rintro ⟨hat, hnot⟩
    have hplain : ∀ e ∈ new_ops, e.string ≠ "@@".toList → e.string ≠ notLikeRegex.string →
        ((likeRegex.string <+: e.string → Matches e.string likeRegex) ∧ ¬ Matches e.string notLikeRegex) ∧
        Matches e.string e ∧ punctuation true e.string = none := by
      decide +kernel
    obtain ⟨hcopy, hself, hpunct⟩ := hplain e he hat hnot
    have hlong : LongestMatch literal true e.string := longestMatch_of_copySuffices hcopy
    obtain ⟨e', hlongest, hnext⟩ := hlong ⟨e, he, hself⟩ hpunct
    have hsame : e'.string = e.string :=
      hlongest.found.1.eq_of_length_le (hlongest.longest e he hself)
    exact ⟨true, e.string, _, hsame ▸ hnext⟩

/-- Operators are taken by longest match where ten characters are enough to see it; the parser's own
name for application is the only operator that cannot be taken, the negated regular expression left aside. -/
theorem operators_by_longest_match (literal : Char → Text → Literal × Text) :
    (∀ rulegen s, CopySuffices s → LongestMatch literal rulegen s) ∧
    ∀ e ∈ new_ops, e.string ≠ notLikeRegex.string → (Produced literal e.string ↔ e.string ≠ "@@".toList) :=
  ⟨fun _ _ => longestMatch_of_copySuffices, fun _ he hnot => (produced_iff he).trans (and_iff_left hnot)⟩

/-- A reader that takes no literal. -/
def noLiteral (_ : Char) (s : Text) : Literal × Text := (.error [], s)

theorem operators_by_longest_match_le : LongestMatch noLiteral true "<= 3".toList ∧ Produced noLiteral "<=".toList :=
  ⟨(operators_by_longest_match noLiteral).1 true _ (by decide +kernel),
    ((operators_by_longest_match noLiteral).2 ⟨"<=".toList, 2, 5⟩ (by decide +kernel) (by decide)).mpr (by decide)⟩

/-- A word that goes on behind `like regex`, the negated operator, and the one that begins like punctuation. -/
theorem operators_missed : ¬ LongestMatch noLiteral true "like regexp".toList ∧
    ¬ LongestMatch noLiteral true "not like regex *x".toList ∧ ¬ Produced noLiteral "@@".toList ∧
    ¬ Produced noLiteral "not like regex".toList := by
  refine ⟨fun h => ?_, fun h => ?_, fun h => ?_, fun h => ?_⟩
  · exact absurd (copySuffices_of_longestMatch h) (by decide +kernel)
  · exact absurd (copySuffices_of_longestMatch h) (by decide +kernel)
  · exact ((@produced_iff noLiteral ⟨"@@".toList, 2, 20⟩ (by decide +kernel)).mp h).1 rfl
  · exact ((@produced_iff noLiteral notLikeRegex (by decide +kernel)).mp h).2 rfl

example : nextTokenRuleGen noLiteral true " # a comment\n like regexp".toList =
    (⟨.TK_OP, "like regex".toList, []⟩, ['p']) := by
  decide +kernel

end Lexer
