-- SUMMARY: The token queue of the rule parser and what its slots still show.
import Irods.Base.Ring
import Irods.Frontend.StringLiterals

/-!
# The token queue

Tokens are lexed into a ring and handed out from it. The parser goes back by putting an index back,
and keeps pointers into the ring. A slot has room for a short token only; what is written behind it
is undefined. `Position` counts the tokens without wrapping: those handed out, those lexed and those
ever lexed. While the parser stays near the end of what was lexed the queue is the sequence of all
tokens (`Holds`).
-/

namespace RuleParser

open Lexer (NodeType)

/-- A token in the queue. -/
structure Token where
  type : NodeType
  text : Text
  vars : List Nat
  exprloc : Nat
deriving DecidableEq

/-- The slots of the queue. -/
def slots : Nat := 1024

abbrev INC_MOD (x m : Nat) : Nat := Ring.inc m x

abbrev DEC_MOD (x m : Nat) : Nat := Ring.dec m x

/-- The rules in memory, and what of them the lexer has not read. -/
structure Source where
  text : Text
  rest : Text

def Source.exprloc (e : Source) (s : Text) : Nat := e.text.length - s.length

def Source.seekInFile (e : Source) (x : Nat) : Source := { e with rest := e.text.drop x }

def isBlank (c : Char) : Bool := c = ' ' || c = '\t' || c = '\r' || c = '\n'

def Source.skipWhitespace (e : Source) : Source := { e with rest := e.rest.dropWhile isBlank }

structure TokenQueue where
  tokenQueue : Nat → Token
  tqp : Nat
  tqtop : Nat
  tqbot : Nat

/-- The literal that comes next, if none of the classes in front of the literals applies. -/
def literalAt (rulegen : Bool) (s : Text) : Option Reading :=
  if (Lexer.punctuation rulegen s).isSome ∨ (Lexer.findOp s).isSome then none
  else
    let ch := if s.head? = some '*' ∨ s.head? = some '$' then s[1]? else s[0]?
    match ch with
    | some '\"' => some (readLiteral '\"' s)
    | some '\'' => some (readLiteral '\'' s)
    | some '`' => some (readLiteral '`' s)
    | _ => none

/-- Does the next token stay in its slot? Only a literal may have variables. -/
def fitsSlot (rulegen : Bool) (s : Text) (token : Lexer.Token) : Bool :=
  match literalAt rulegen s with
  | some reading => reading.Fits
  | none => token.text.length < textRoom

/-- The next token of the source with its position, and what is left of the source. -/
def lexToken (rulegen : Bool) (e : Source) : Option (Token × Text) :=
  let s := Lexer.skipBlank rulegen false e.rest
  let found := Lexer.nextTokenRuleGen literal rulegen e.rest
  if fitsSlot rulegen s found.1 then some (⟨found.1.type, found.1.text, found.1.vars, e.exprloc s⟩, found.2)
  else none

/-- A token is handed out from the queue or lexed into it; either way it is the slot that is returned. -/
def nextTokenRuleGen (rulegen : Bool) (e : Source) (q : TokenQueue) : Option (Nat × Source × TokenQueue) :=
  if q.tqp ≠ q.tqtop then some (q.tqp, e, { q with tqp := INC_MOD q.tqp slots })
  else
    (lexToken rulegen e).map fun (token, rest) =>
      let tqtop := INC_MOD q.tqtop slots
      (q.tqp, { e with rest },
        { tokenQueue := Function.update q.tokenQueue q.tqp token
          tqp := tqtop
          tqtop
          tqbot := if q.tqbot = tqtop then INC_MOD q.tqbot slots else q.tqbot })

def pushback (token : Token) (q : TokenQueue) : TokenQueue :=
  if token.type = .TK_EOS then q else { q with tqp := DEC_MOD q.tqp slots }

def syncTokenQueue (e : Source) (q : TokenQueue) : Source × TokenQueue :=
  if q.tqp = q.tqtop then (e, q)
  else (e.seekInFile (q.tokenQueue q.tqp).exprloc, { q with tqtop := q.tqp })

def getFPos (e : Source) (q : TokenQueue) : Nat :=
  if q.tqtop = q.tqp then e.exprloc e.rest else (q.tokenQueue q.tqp).exprloc

/-! ## Counting tokens -/

/-- How many tokens are in front of the parser, were lexed, and were lexed before any of them was given up. -/
structure Position where
  read : Nat
  lexed : Nat
  peak : Nat

/-- With an empty queue a token is lexed. -/
def Position.next (n : Position) (empty : Bool) : Position :=
  if empty then ⟨n.lexed + 1, n.lexed + 1, max n.peak (n.lexed + 1)⟩ else { n with read := n.read + 1 }

def Position.back (n : Position) (token : Token) : Position :=
  if token.type = .TK_EOS then n else { n with read := n.read - 1 }

def Position.sync (n : Position) : Position := { n with lexed := n.read }

/-- The queue is the part of a sequence of tokens that lies around the parser. -/
structure Holds (q : TokenQueue) (log : Nat → Token) (n : Position) : Prop where
  tqp : q.tqp = n.read % slots
  tqtop : q.tqtop = n.lexed % slots
  read_le : n.read ≤ n.lexed
  near : n.lexed < n.read + slots
  lexed_le : n.lexed ≤ n.peak
  reach : n.peak ≤ n.read + slots
  shows : Ring.Shows slots q.tokenQueue log n.peak n.lexed

variable {q : TokenQueue} {log : Nat → Token} {n : Position}

theorem Holds.empty_iff (h : Holds q log n) : q.tqp = q.tqtop ↔ n.read = n.lexed := by
  rw [h.tqp, h.tqtop]
  refine ⟨fun heq => ?_, fun heq => by rw [heq]⟩
  rcases Nat.lt_or_eq_of_le h.read_le with hlt | heq
  · exact absurd heq (Ring.mod_ne_mod hlt h.near)
  · exact heq

/-- The slot that is returned holds the token the sequence goes on with. -/
theorem Holds.next (h : Holds q log n) {rulegen : Bool} {e e' : Source} {slot : Nat} {q' : TokenQueue}
    (hcall : nextTokenRuleGen rulegen e q = some (slot, e', q')) :
    ∃ log', Holds q' log' (n.next (decide (q.tqp = q.tqtop))) ∧ (∀ i < n.lexed, log' i = log i) ∧
      n.read < (n.next (decide (q.tqp = q.tqtop))).lexed ∧ slot = n.read % slots ∧
      q'.tokenQueue (n.read % slots) = log' n.read := by
  have hslots : 0 < slots := by decide
  by_cases hempty : q.tqp = q.tqtop
  · have hread : n.read = n.lexed := h.empty_iff.mp hempty
    have htqp : q.tqp = n.lexed % slots := by rw [h.tqp, hread]
    rw [nextTokenRuleGen, if_neg (not_not.mpr hempty)] at hcall
    obtain ⟨⟨token, rest⟩, -, hcall⟩ := Option.map_eq_some_iff.mp hcall
    cases hcall
    rw [Position.next, if_pos (decide_eq_true hempty)]
    refine ⟨Function.update log n.lexed token,
      ⟨?_, ?_, le_rfl, Nat.lt_add_of_pos_right hslots, Nat.le_max_right _ _, ?_, ?_⟩, fun i hi => ?_, ?_, h.tqp, ?_⟩
    · simp only [h.tqtop, Ring.inc_mod hslots]
    · simp only [h.tqtop, Ring.inc_mod hslots]
    · have hle : n.read + slots ≤ n.lexed + 1 + slots := by omega
      exact Nat.max_le.mpr ⟨h.reach.trans hle, Nat.le_add_right _ _⟩
    · simp only [htqp]
      exact h.shows.push _
    · exact Function.update_of_ne hi.ne _ _
    · simp only [hread, Nat.lt_succ_self]
    · simp only [htqp, hread, Function.update_self]
  · have hread : n.read < n.lexed := Nat.lt_of_le_of_ne h.read_le fun heq => hempty (h.empty_iff.mpr heq)
    rw [nextTokenRuleGen, if_pos hempty] at hcall
    cases hcall
    rw [Position.next, if_neg (by simpa using hempty)]
    refine ⟨log, ⟨?_, h.tqtop, hread, ?_, h.lexed_le, ?_, h.shows⟩, fun _ _ => rfl, hread, h.tqp,
      h.shows n.read hread h.reach⟩
    · simp only [h.tqp, Ring.inc_mod hslots]
    · exact h.near.trans_le (Nat.add_le_add_right (Nat.le_succ _) _)
    · exact h.reach.trans (Nat.add_le_add_right (Nat.le_succ _) _)

/-- The token that was handed out is still in reach. -/
theorem Holds.next_near (h : Holds q log n) :
    (n.next (decide (q.tqp = q.tqtop))).read = n.read + 1 ∧
      n.lexed ≤ (n.next (decide (q.tqp = q.tqtop))).lexed ∧
      (n.next (decide (q.tqp = q.tqtop))).lexed < n.read + slots ∧
      (n.next (decide (q.tqp = q.tqtop))).peak ≤ n.read + slots := by
  have hslots : 1 < slots := by decide
  have hreach := h.reach
  by_cases hempty : q.tqp = q.tqtop
  · have hread : n.read = n.lexed := h.empty_iff.mp hempty
    rw [Position.next, if_pos (decide_eq_true hempty)]
    exact ⟨congrArg (· + 1) hread.symm, Nat.le_succ _, by simp only; omega, by simp only; omega⟩
  · rw [Position.next, if_neg (by simpa using hempty)]
    exact ⟨rfl, le_rfl, h.near, hreach⟩

/-- The token that was just handed out is put back. -/
theorem Holds.back (h : Holds q log n) (token : Token) (hread : 0 < n.read) (hnear : n.lexed < n.read - 1 + slots)
    (hreach : n.peak ≤ n.read - 1 + slots) : Holds (pushback token q) log (n.back token) := by
  have hslots : 0 < slots := by decide
  rw [pushback, Position.back]
  split
  · exact h
  · refine ⟨?_, h.tqtop, Nat.le_trans (Nat.sub_le _ _) h.read_le, hnear, h.lexed_le, hreach, h.shows⟩
    obtain ⟨i, hi⟩ : ∃ i, n.read = i + 1 := ⟨n.read - 1, by omega⟩
    simp only [h.tqp, hi, Ring.dec_mod hslots, Nat.add_sub_cancel]

theorem Holds.sync (h : Holds q log n) (e : Source) : Holds (syncTokenQueue e q).2 log n.sync := by
  have hlexed : n.read ≤ n.peak := h.read_le.trans h.lexed_le
  rw [syncTokenQueue]
  split
  · rename_i hempty
    have hread : n.read = n.lexed := h.empty_iff.mp hempty
    exact ⟨h.tqp, by rw [h.tqtop, Position.sync, hread], le_rfl, Nat.lt_add_of_pos_right (by decide), hlexed,
      h.reach, h.shows.truncate h.read_le⟩
  · exact ⟨h.tqp, h.tqp, le_rfl, Nat.lt_add_of_pos_right (by decide), hlexed, h.reach,
      h.shows.truncate h.read_le⟩

/-- The parser goes back to a token that is still in reach. -/
theorem Holds.reset (h : Holds q log n) {i : Nat} (hle : i ≤ n.lexed) (hnear : n.lexed < i + slots)
    (hreach : n.peak ≤ i + slots) :
    Holds { q with tqp := i % slots } log { n with read := i } :=
  ⟨rfl, h.tqtop, hle, hnear, h.lexed_le, hreach, h.shows⟩

theorem Holds.slot (h : Holds q log n) {i : Nat} (hi : i < n.lexed) (hnear : n.peak ≤ i + slots) :
    q.tokenQueue (i % slots) = log i := h.shows i hi hnear

end RuleParser
