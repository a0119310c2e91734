-- SUMMARY: When compound conditions keep their meaning.
import Irods.Icat.CompoundParts

/-!
# The meaning of a compound condition

A compound condition means the text with its comparisons and connectives in their order and
one bind variable for each literal. The loop takes the first `||` it finds anywhere, and an
`&&` only where there is none.
-/

namespace GenQuery

open CString EStateM RuleQuery
open List (append_assoc append_nil length_append map_cons mem_append_right)

variable {c : Comparison} {k rest : Compound} {n : Nat} {op : Text} {s s' s₁ : Cond} {u : Unit}

namespace Cond

/-! ## The text of a comparison -/

/-- What a comparison appends behind its column, piece by piece. -/
def comparisonPieces (op column : Text) : List Text :=
  if occurs "begin_of".toList (' ' :: op) then
    ["=substr(?,1,char_length(".toList, column, "))".toList, " AND char_length(".toList, column, ")>0".toList]
  else [' ' :: op ++ "? ".toList]

def comparisonSql (op column : Text) : Text := (comparisonPieces op column).flatten

theorem rstrcat_lt {dest src : Text} (h : dest.length < maxSQL) : (rstrcat dest src maxSQL).length < maxSQL := by
  rw [rstrcat]
  split
  · exact h
  · rw [length_append]
    omega

theorem appendAll_lt {pieces : List Text} : ∀ {dest : Text}, dest.length < maxSQL →
    (appendAll dest pieces).length < maxSQL := by
  induction pieces with
  | nil => exact fun h => h
  | cons piece pieces ih => exact fun h => ih (rstrcat_lt h)

theorem catWhere_bind {α : Type} (src : Text) (m : Unit → CondM α) (s : Cond) :
    (catWhere src >>= m) s = m () { s with whereSQL := rstrcat s.whereSQL src maxSQL } := rfl

theorem addComparison_run (h : Operator op) (literal : Text) (s : Cond) :
    addComparison (' ' :: op) literal s =
      .ok () { s with whereSQL := appendAll s.whereSQL (comparisonPieces op (lastWord s.whereSQL)) } := by
  have hcheck : ¬ checkCondition (' ' :: op) = false := by rw [h.checked]; decide
  unfold addComparison comparisonPieces
  by_cases hbegin : occurs "begin_of".toList (' ' :: op) = true
  · simp only [if_pos hbegin, if_neg hcheck]
    rw [get_bind]
    simp only [catWhere_bind, appendAll, List.foldl_cons, List.foldl_nil, lastWord]
    rfl
  · have hparent : ¬ occurs "parent_of".toList (' ' :: op) = true := by rw [h.single]; decide
    simp only [if_neg hbegin, if_neg hparent, if_neg hcheck, catWhere_bind, appendAll, List.foldl_cons, List.foldl_nil]
    rfl

/-! ## One part -/

/-- A part whose literal is not closed is refused. -/
theorem insertWhere_open (h : Operator op) {rest : Text} (hrest : '\'' ∉ rest) (s : Cond) :
    insertWhere (op ++ '\'' :: rest) s = .error (.fail CAT_INVALID_ARGUMENT) { s with bindIx := s.bindIx + 1 } := by
  obtain ⟨hin, hbetween, hnull, hnotNull⟩ := h.isComparison rest
  unfold insertWhere
  simp only [hin, hbetween, hnull, hnotNull, Bool.false_eq_true, if_false, false_or,
    quotes_open (h.notMem (by decide)) hrest]
  rfl

variable {behind : Text}

theorem insertWhere_closed_eq (h : Operator op) (literal : Text) (hbehind : '\'' ∉ behind) (s : Cond) :
    insertWhere (op ++ '\'' :: (literal ++ '\'' :: behind)) s =
      if literal.length + 1 + (s.bindIx + 1) > maxSQL + 90 then
        .error (.fail CAT_INVALID_ARGUMENT) { s with bindIx := s.bindIx + 1 }
      else (bindLiteral (op ++ '\'' :: (literal ++ '\'' :: behind)) op.length (op.length + literal.length + 1) >>=
        fun _ => addComparison (' ' :: op) literal) { s with bindIx := s.bindIx + 1 } := by
  obtain ⟨hin, hbetween, hnull, hnotNull⟩ := h.isComparison (literal ++ '\'' :: behind)
  have hop : '\'' ∉ op := h.notMem (by decide)
  have hpos : op.length ≠ 0 := fun heq => h.ne (List.length_eq_zero_iff.mp heq)
  have hsub : op.length + literal.length + 1 - op.length = literal.length + 1 := by omega
  unfold insertWhere
  simp only [hin, hbetween, hnull, hnotNull, Bool.false_eq_true, if_false, false_or, quotes_closed hop literal hbehind,
    literal_between, List.take_left, hsub, if_neg hpos, if_neg (Nat.not_lt.mpr h.short)]
  rw [modify_bind, get_bind]
  split <;> rfl

/-- What a run on a part with a closed literal did. -/
structure Inserted (op literal : Text) (s s' : Cond) : Prop where
  kept   : Kept s s'
  binds  : s'.cllBindVars = s.cllBindVars ++ [(.bindVars, s.bindIx + 1)]
  holds  : Holds s' (s.bindIx + 1) literal
  copied : s'.conditionsForBindIx = s.conditionsForBindIx
  sql    : s'.whereSQL = appendAll s.whereSQL (comparisonPieces op (lastWord s.whereSQL))

theorem bindLiteral_copied (condition : Text) (first second : Nat) :
    OkRel (fun s s' : Cond => s'.conditionsForBindIx = s.conditionsForBindIx) (bindLiteral condition first second) := by
  have htrans (a b c : Cond) (h : b.conditionsForBindIx = a.conditionsForBindIx)
      (h' : c.conditionsForBindIx = b.conditionsForBindIx) : c.conditionsForBindIx = a.conditionsForBindIx := h'.trans h
  refine .bind htrans (.get fun _ => rfl) fun _ => .bind htrans ?_ fun _ =>
    .bind htrans (.modify fun _ => rfl) fun _ => ?_
  · intro s u s' h
    rw [(pokes_ok h).1]
  · intro s u s' h
    rw [push_ok h]

/-- A part with a closed literal is refused, or bound and appended. -/
theorem insertWhere_closed (h : Operator op) (literal : Text) (hbehind : '\'' ∉ behind) (s : Cond) :
    (∃ code s', insertWhere (op ++ '\'' :: (literal ++ '\'' :: behind)) s = .error (.fail code) s') ∨
      ∃ s', insertWhere (op ++ '\'' :: (literal ++ '\'' :: behind)) s = .ok () s' ∧ Inserted op literal s s' := by
  rw [insertWhere_closed_eq h literal hbehind]
  by_cases hlong : literal.length + 1 + (s.bindIx + 1) > maxSQL + 90
  · rw [if_pos hlong]
    exact .inl ⟨_, _, rfl⟩
  rw [if_neg hlong]
  have hliteral := literal_between op literal behind
  have hfits : (s.bindIx + 1) + literal.length + 1 ≤ maxSQL + 100 := by omega
  by_cases hfull : maxBindVars ≤ s.cllBindVars.length + 1
  · obtain ⟨s₁, hrun⟩ := bindLiteral_full (c := { s with bindIx := s.bindIx + 1 }) hliteral hfits hfull
    exact .inl ⟨_, s₁, bind_error.mpr (.inl hrun)⟩
  · obtain ⟨s₁, hrun⟩ := bindLiteral_run (c := { s with bindIx := s.bindIx + 1 }) hliteral hfits (by
      show s.cllBindVars.length + 1 < maxBindVars
      omega)
    obtain ⟨hkept, hbinds, hholds, hwhere⟩ := bindLiteral_ok hrun
    rw [hliteral] at hholds
    have hstart : Kept s { s with bindIx := s.bindIx + 1 } := ⟨List.prefix_rfl, Nat.le_succ _, fun _ _ => rfl⟩
    have hsql (w : Text) : Kept s₁ { s₁ with whereSQL := w } := .of_eq rfl rfl rfl
    have hcopied := (bindLiteral_copied _ _ _).apply hrun
    refine .inr ⟨_, (bind_run hrun).trans (addComparison_run h literal s₁), ?_⟩
    refine ⟨(hstart.trans _ _ _ hkept).trans _ _ _ (hsql _), hbinds, hholds.kept (hsql _), hcopied, ?_⟩
    show appendAll s₁.whereSQL _ = _
    rw [hwhere]

theorem Inserted.lt {literal : Text} (h : Inserted op literal s s') (hs : s.whereSQL.length < maxSQL) :
    s'.whereSQL.length < maxSQL := by
  rw [h.sql]
  exact appendAll_lt hs

theorem insertWhere_comparison (c : Comparison) (s : Cond) :
    (∃ code s', insertWhere c.text s = .error (.fail code) s') ∨
      ∃ s', insertWhere c.text s = .ok () s' ∧ Inserted c.operator c.literal s s' := by
  refine insertWhere_closed c.admitted c.literal (fun hmem => ?_) s
  exact absurd (c.blank _ hmem) (by decide)

/-! ## Compound conditions -/

namespace Compound

/-- The text of the condition: the column in front of every comparison, and the words for the connectives. -/
def sql (column : Text) : Compound → Text
  | .one c => column ++ comparisonSql c.operator (lastWord column)
  | .more c o rest => column ++ (comparisonSql c.operator (lastWord column) ++ (o.word ++ rest.sql column))

/-- Every connective is the operator that is found next, and the last literal has none. -/
def InOrder : Compound → Prop
  | .one c => hasOperator c.literal = false
  | .more c o rest => FindsNext c o rest ∧ rest.InOrder

/-- The copies of all comparisons but the last fit behind `ix` into `conditionsForBind`. -/
def CopiesFit (ix : Nat) : Compound → Prop
  | .one _ => True
  | .more c _ rest => ix + c.text.length + 1 ≤ MAX_NAME_LEN * 2 ∧ rest.CopiesFit (ix + c.text.length + 1)

end Compound

instance decidableFindsNext : (c : Comparison) → (o : Connective) → (rest : Compound) → Decidable (FindsNext c o rest)
  | c, .or, _ => inferInstanceAs (Decidable (strstr Connective.or.sign c.literal = none))
  | c, .and, rest => inferInstanceAs (Decidable (strstr Connective.or.sign c.literal = none ∧
      strstr Connective.and.sign c.literal = none ∧ strstr Connective.or.sign rest.text = none))

instance decidableInOrder : (k : Compound) → Decidable k.InOrder
  | .one c => inferInstanceAs (Decidable (hasOperator c.literal = false))
  | .more _ _ rest => @instDecidableAnd _ _ (decidableFindsNext _ _ _) (decidableInOrder rest)

instance decidableCopiesFit : (ix : Nat) → (k : Compound) → Decidable (k.CopiesFit ix)
  | _, .one _ => inferInstanceAs (Decidable True)
  | ix, .more c _ rest => @instDecidableAnd _ _ (Nat.decLe _ _) (decidableCopiesFit (ix + c.text.length + 1) rest)

section Loop

variable (column : Text)

/-- What the loop does with a part: it goes on as long as an operator is in it. -/
def goOn (fuel : Nat) (part : Text) : CondM Unit :=
  if hasOperator part then compoundLoop column fuel part
  else do
    catWhere column
    insertWhere part

variable {part : Text}

theorem compoundLoop_step {sep : Text} (h : nextOperator part = some (n, sep)) (fuel : Nat) :
    compoundLoop column (fuel + 1) part = (do
      catWhere column
      copyForBind (part.take n)
      insertWhere (part.take n)
      modify fun q => { q with conditionsForBindIx := q.conditionsForBindIx + (part.take n).length + 1 }
      catWhere sep
      goOn column fuel (part.drop (n + 2))) := by
  rw [compoundLoop, h]
  rfl

theorem copyForBind_run (h : s.conditionsForBindIx + part.length + 1 ≤ MAX_NAME_LEN * 2) :
    copyForBind part s = .ok () s := by
  unfold copyForBind
  rw [get_bind, if_neg (by omega)]
  rfl

theorem copyForBind_room (h : copyForBind part s = .ok u s') :
    s' = s ∧ s.conditionsForBindIx + part.length + 1 ≤ MAX_NAME_LEN * 2 := by
  unfold copyForBind at h
  rw [get_bind] at h
  obtain ⟨hroom, h⟩ : ¬ _ ∧ _ := by
    split at h
    · exact absurd h not_throw_ok
    · rename_i hroom
      exact ⟨hroom, h⟩
  exact ⟨(pure_ok.mp h).2.symm, by omega⟩

/-- The text so far ends with a blank, so that the last word is the column's. -/
def EndsBlank (whereSQL : Text) : Prop := ∃ t, whereSQL = t ++ [' ']

theorem lastWord_column {whereSQL : Text} (h : EndsBlank whereSQL) (column : Text) :
    lastWord (whereSQL ++ column) = lastWord column := by
  obtain ⟨t, rfl⟩ := h
  rw [append_assoc, List.singleton_append, lastWord_behind]

/-- The column and a comparison, appended. -/
structure Added (c : Comparison) (s s' : Cond) : Prop where
  kept   : Kept s s'
  binds  : s'.cllBindVars = s.cllBindVars ++ [(.bindVars, s.bindIx + 1)]
  holds  : Holds s' (s.bindIx + 1) c.literal
  copied : s'.conditionsForBindIx = s.conditionsForBindIx
  sql : EndsBlank s.whereSQL →
    (s.whereSQL ++ (column ++ comparisonSql c.operator (lastWord column))).length < maxSQL →
    s'.whereSQL = s.whereSQL ++ (column ++ comparisonSql c.operator (lastWord column))

theorem Added.of_inserted
    (h : Inserted c.operator c.literal { s with whereSQL := rstrcat s.whereSQL column maxSQL } s') :
    Added column c s s' := by
  have hcat : Kept s { s with whereSQL := rstrcat s.whereSQL column maxSQL } := .of_eq rfl rfl rfl
  refine ⟨hcat.trans _ _ _ h.kept, h.binds, h.holds, h.copied, fun hblank hfits => ?_⟩
  rw [← append_assoc] at hfits ⊢
  have hcolumn : (s.whereSQL ++ column).length < maxSQL := by
    rw [length_append] at hfits
    omega
  have hsql : s'.whereSQL = appendAll (rstrcat s.whereSQL column maxSQL)
    (comparisonPieces c.operator (lastWord (rstrcat s.whereSQL column maxSQL))) := h.sql
  rw [rstrcat_fits hcolumn, lastWord_column hblank] at hsql
  rw [hsql]
  exact appendAll_fits hfits

theorem addPart_run (c : Comparison) (s : Cond) :
    (∃ code s', (catWhere column >>= fun _ => insertWhere c.text) s = .error (.fail code) s') ∨
      ∃ s', (catWhere column >>= fun _ => insertWhere c.text) s = .ok () s' ∧ Added column c s s' := by
  rw [catWhere_bind]
  obtain hfail | ⟨s', hrun, hins⟩ := insertWhere_comparison c { s with whereSQL := rstrcat s.whereSQL column maxSQL }
  · exact .inl hfail
  · exact .inr ⟨s', hrun, .of_inserted column hins⟩

/-! ## In order -/

/-- The condition is appended, with a bind variable for each literal. -/
structure Done (k : Compound) (s s' : Cond) : Prop where
  kept  : Kept s s'
  sql   : s'.whereSQL = s.whereSQL ++ k.sql column
  binds : ∃ ixs : List Nat, s'.cllBindVars = s.cllBindVars ++ ixs.map (Buffer.bindVars, ·) ∧
    List.Forall₂ (Holds s') ixs k.literals

def Compound.size : Compound → Nat
  | .one _ => 0
  | .more _ _ rest => rest.size + 1

theorem take_more (c : Comparison) (o : Connective) (rest : Compound) :
    (Compound.more c o rest).text.take c.text.length = c.text := List.take_left

theorem drop_more (c : Comparison) (o : Connective) (rest : Compound) :
    (Compound.more c o rest).text.drop (c.text.length + 2) = rest.text := by
  have hsign : o.sign.length = 2 := by cases o <;> rfl
  rw [Compound.text, ← List.drop_drop, List.drop_left, ← hsign, List.drop_left]

theorem endsBlank_word (t : Text) (o : Connective) : EndsBlank (t ++ o.word) := by
  cases o with
  | and => exact ⟨t ++ " AND".toList, by rw [append_assoc]; rfl⟩
  | or => exact ⟨t ++ " OR".toList, by rw [append_assoc]; rfl⟩

/-- A condition in order that has room fails or is done. -/
theorem goOn_done (k : Compound) : ∀ {fuel : Nat} {s : Cond}, k.InOrder → k.CopiesFit s.conditionsForBindIx →
    EndsBlank s.whereSQL → (s.whereSQL ++ k.sql column).length < maxSQL → k.size ≤ fuel →
    (∃ code s', goOn column fuel k.text s = .error (.fail code) s') ∨
      ∃ s', goOn column fuel k.text s = .ok () s' ∧ Done column k s s' := by
  induction k with
  | one c =>
    intro fuel s hin _ hblank hfits _
    have hrun : goOn column fuel (Compound.one c).text = (catWhere column >>= fun _ => insertWhere c.text) := by
      rw [goOn, hasOperator_one, show hasOperator c.literal = false from hin]
      rfl
    rw [hrun]
    obtain hfail | ⟨s', hok, hadded⟩ := addPart_run column c s
    · exact .inl hfail
    · exact .inr ⟨s', hok, hadded.kept, hadded.sql hblank hfits, [s.bindIx + 1], hadded.binds, .cons hadded.holds .nil⟩
  | more c o rest ih =>
    intro fuel s hin hroom hblank hfits hfuel
    obtain ⟨hnext, hin⟩ := hin
    obtain ⟨hcopy, hroom⟩ := hroom
    obtain ⟨fuel, rfl⟩ : ∃ n, fuel = n + 1 := ⟨fuel - 1, by unfold Compound.size at hfuel; omega⟩
    have hcopied : copyForBind c.text { s with whereSQL := rstrcat s.whereSQL column maxSQL } =
        .ok () { s with whereSQL := rstrcat s.whereSQL column maxSQL } := copyForBind_run hcopy
    rw [goOn, hasOperator_more, if_pos rfl, compoundLoop_step column (nextOperator_right hnext), take_more, drop_more,
      catWhere_bind, bind_run hcopied]
    obtain ⟨code, s', hfail⟩ | ⟨s₁, hok, hadded⟩ := addPart_run column c s
    · rw [catWhere_bind] at hfail
      exact .inl ⟨code, s', bind_error.mpr (.inl hfail)⟩
    rw [catWhere_bind] at hok
    rw [bind_run hok, modify_bind, catWhere_bind]
    have hsql : s.whereSQL ++ (Compound.more c o rest).sql column =
        s.whereSQL ++ (column ++ comparisonSql c.operator (lastWord column)) ++ o.word ++ rest.sql column := by
      simp only [Compound.sql, append_assoc]
    rw [hsql] at hfits
    have hword : (s.whereSQL ++ (column ++ comparisonSql c.operator (lastWord column)) ++ o.word).length < maxSQL := by
      rw [length_append] at hfits
      omega
    have hpart := hadded.sql hblank (by
      rw [length_append] at hword
      omega)
    have hcat : rstrcat s₁.whereSQL o.word maxSQL =
        s.whereSQL ++ (column ++ comparisonSql c.operator (lastWord column)) ++ o.word := by
      rw [hpart, rstrcat_fits hword]
    obtain hfail | ⟨s', hrun, hdone⟩ := ih (s := { s₁ with
        conditionsForBindIx := s₁.conditionsForBindIx + c.text.length + 1
        whereSQL := rstrcat s₁.whereSQL o.word maxSQL })
      hin (by rw [hadded.copied]; exact hroom) (by rw [hcat]; exact endsBlank_word _ o) (by rw [hcat]; exact hfits)
      (Nat.le_of_succ_le_succ hfuel)
    · exact .inl hfail
    · obtain ⟨ixs, hbinds, hholds⟩ := hdone.binds
      have hkept : Kept s₁ { s₁ with conditionsForBindIx := s₁.conditionsForBindIx + c.text.length + 1,
                                     whereSQL := rstrcat s₁.whereSQL o.word maxSQL } := .of_eq rfl rfl rfl
      refine .inr ⟨s', hrun, hadded.kept.trans _ _ _ (hkept.trans _ _ _ hdone.kept), ?_, (s.bindIx + 1) :: ixs, ?_, ?_⟩
      · rw [hdone.sql, hsql]
        exact congrArg (· ++ rest.sql column) hcat
      · rw [hbinds]
        show s₁.cllBindVars ++ _ = _
        rw [hadded.binds, append_assoc]
        rfl
      · exact .cons (hadded.holds.kept (hkept.trans _ _ _ hdone.kept)) hholds

/-! ## Not in order -/

theorem goOn_kept (fuel : Nat) (part : Text) : OkRel Kept (goOn column fuel part) :=
  .ite (compoundLoop_kept column fuel part) (.bind .trans (catWhere_kept column) fun _ => insertWhere_kept part)

/-- A round of the loop that goes on well. -/
theorem compoundLoop_ok {sep : Text} {fuel : Nat} (hnext : nextOperator part = some (n, sep))
    (h : compoundLoop column (fuel + 1) part s = .ok u s') :
    s.conditionsForBindIx + (part.take n).length + 1 ≤ MAX_NAME_LEN * 2 ∧
      ∃ s₁, insertWhere (part.take n) { s with whereSQL := rstrcat s.whereSQL column maxSQL } = .ok () s₁ ∧
        goOn column fuel (part.drop (n + 2))
          { s₁ with conditionsForBindIx := s₁.conditionsForBindIx + (part.take n).length + 1,
                    whereSQL := rstrcat s₁.whereSQL sep maxSQL } = .ok u s' := by
  rw [compoundLoop_step column hnext, catWhere_bind] at h
  obtain ⟨_, s₂, hcopy, h⟩ := bind_ok.mp h
  obtain ⟨rfl, hroom⟩ := copyForBind_room hcopy
  obtain ⟨_, s₁, hins, h⟩ := bind_ok.mp h
  exact ⟨hroom, s₁, hins, h⟩

/-- A literal with a quote in it is bound, so it is none of the condition's. -/
def Broken (k : Compound) (s s' : Cond) : Prop :=
  ∃ i < k.literals.length, ∃ ix literal, '\'' ∈ literal ∧ '\x00' ∉ literal ∧
    s'.cllBindVars[s.cllBindVars.length + i]? = some (.bindVars, ix) ∧ Holds s' ix literal

theorem end_notMem_comparison (c : Comparison) : '\x00' ∉ c.text := by
  have hop : '\x00' ∉ c.operator := c.admitted.notMem (by decide)
  have hblanks : '\x00' ∉ c.blanks := fun hmem => absurd (c.blank _ hmem) (by decide)
  simp [Comparison.text, hop, c.whole, hblanks]

theorem end_notMem (k : Compound) : '\x00' ∉ k.text := by
  induction k with
  | one c => exact end_notMem_comparison c
  | more c o rest ih =>
    have hsign : '\x00' ∉ o.sign := sign_sep (by decide)
    simp [Compound.text, end_notMem_comparison c, hsign, ih]

theorem take_open (op rest : Text) (n : Nat) :
    (op ++ '\'' :: rest).take (n + (op.length + 1)) = op ++ '\'' :: rest.take n := by
  have hparts : op ++ '\'' :: rest = (op ++ ['\'']) ++ rest := by simp
  have hlen : n + (op.length + 1) = (op ++ ['\'']).length + n := by
    simp
    omega
  rw [hparts, hlen, List.take_length_add_append]
  simp

/-- A part cut off within its literal is refused. -/
theorem insertWhere_within (c : Comparison) (behind : Text) (hn : n ≤ c.literal.length) :
    ¬ insertWhere ((c.text ++ behind).take (n + (c.operator.length + 1))) s = .ok u s' := by
  have htext : c.text ++ behind = c.operator ++ '\'' :: (c.literal ++ '\'' :: (c.blanks ++ behind)) := by
    simp [Comparison.text]
  rw [htext, take_open, List.take_append_of_le_length hn,
    insertWhere_open c.admitted fun hmem => c.unquoted (List.mem_of_mem_take hmem)]
  intro h
  cases h

theorem nextOperator_one (h : hasOperator c.literal = true) :
    ∃ n sep, nextOperator c.text = some (n + (c.operator.length + 1), sep) ∧ n ≤ c.literal.length := by
  have hnil (o : Connective) : strstr o.sign [] = none := strstr_none_of_notMem (by simp) (by simp)
  have htext : c.text = c.text ++ [] := (append_nil _).symm
  rw [nextOperator_eq, htext, strstr_comparison, strstr_comparison, hnil, hnil]
  rw [hasOperator_eq] at h
  cases hor : strstr Connective.or.sign c.literal with
  | some n => exact ⟨n, _, rfl, (strstr_eq_some hor).1⟩
  | none =>
    cases hand : strstr Connective.and.sign c.literal with
    | some n => exact ⟨n, _, rfl, (strstr_eq_some hand).1⟩
    | none =>
      rw [hor, hand] at h
      cases h

/-- What stands in front of a sign in a condition has a quote. -/
theorem quote_before (h : strstr Connective.or.sign k.text = some n) : '\'' ∈ k.text.take n := by
  obtain ⟨c, behind, htext⟩ : ∃ (c : Comparison) (behind : Text), k.text = c.text ++ behind := by
    cases k with
    | one c => exact ⟨c, [], (append_nil _).symm⟩
    | more c o rest => exact ⟨c, _, rfl⟩
  have hle : c.operator.length + 1 ≤ n := by
    rw [htext, strstr_comparison] at h
    have hlen : c.operator.length + 1 ≤ c.text.length := by
      simp only [Comparison.text, length_append, List.length_cons]
      omega
    cases hlit : strstr Connective.or.sign c.literal with
    | some m =>
      rw [hlit] at h
      have hm : m + (c.operator.length + 1) = n := Option.some.inj h
      omega
    | none =>
      rw [hlit] at h
      obtain ⟨m, -, hm⟩ := Option.map_eq_some_iff.mp h
      have hm : m + c.text.length = n := hm
      omega
  obtain ⟨m, rfl⟩ : ∃ m, n = m + (c.operator.length + 1) := ⟨n - (c.operator.length + 1), by omega⟩
  have hopen : c.text ++ behind = c.operator ++ '\'' :: (c.literal ++ '\'' :: (c.blanks ++ behind)) := by
    simp [Comparison.text]
  rw [htext, hopen, take_open]
  exact mem_append_right _ List.mem_cons_self

/-- A part with the opening quote of a later literal binds more than its own literal. -/
theorem broken_beyond (column : Text) (hfound : strstr Connective.or.sign rest.text = some n)
    (hins : insertWhere ((Compound.more c .and rest).text.take (n + 2 + c.text.length))
      { s with whereSQL := rstrcat s.whereSQL column maxSQL } = .ok () s₁)
    (hkept : Kept s₁ s') : Broken (.more c .and rest) s s' := by
  have hsign : Connective.and.sign.length = 2 := rfl
  have htake : (Compound.more c .and rest).text.take (n + 2 + c.text.length) =
      c.operator ++ '\'' :: (c.literal ++ '\'' :: (c.blanks ++ (Connective.and.sign ++ rest.text.take n))) := by
    rw [Compound.text, Nat.add_comm, List.take_length_add_append, Nat.add_comm n, ← hsign, List.take_length_add_append]
    simp [Comparison.text]
  have hquote : '\'' ∈ c.blanks ++ (Connective.and.sign ++ rest.text.take n) :=
    mem_append_right _ (mem_append_right _ (quote_before hfound))
  obtain ⟨more, behind, hsplit, hbehind⟩ := last_quote hquote
  have hpart : (Compound.more c .and rest).text.take (n + 2 + c.text.length) =
      c.operator ++ '\'' :: ((c.literal ++ '\'' :: more) ++ '\'' :: behind) := by
    rw [htake, hsplit]
    simp
  have hend : '\x00' ∉ c.literal ++ '\'' :: more := by
    intro hmem
    have hall : '\x00' ∈ (Compound.more c .and rest).text.take (n + 2 + c.text.length) := by
      rw [hpart]
      exact mem_append_right _ (List.mem_cons_of_mem _ (List.mem_append_left _ hmem))
    exact end_notMem _ (List.mem_of_mem_take hall)
  rw [hpart] at hins
  obtain ⟨code, s₂, hfail⟩ | ⟨s₂, hok, hinserted⟩ :=
    insertWhere_closed c.admitted (c.literal ++ '\'' :: more) hbehind
      { s with whereSQL := rstrcat s.whereSQL column maxSQL }
  · rw [hins] at hfail
    cases hfail
  · rw [hins] at hok
    cases hok
    refine ⟨0, Nat.zero_lt_succ _, s.bindIx + 1, c.literal ++ '\'' :: more,
      mem_append_right _ List.mem_cons_self, hend, ?_, hinserted.holds.kept hkept⟩
    obtain ⟨later, hlater⟩ := hkept.binds
    have hbinds : s₁.cllBindVars = s.cllBindVars ++ [(.bindVars, s.bindIx + 1)] := hinserted.binds
    rw [← hlater, hbinds, append_assoc]
    show (s.cllBindVars ++ _)[s.cllBindVars.length]? = _
    rw [List.getElem?_append_right (le_refl _), Nat.sub_self]
    rfl

/-- A run that ends well was in order with room for the copies, or it bound a literal with a quote in it. -/
theorem inOrder_or_broken (k : Compound) : ∀ {fuel : Nat} {s s' : Cond} {u : Unit}, s.whereSQL.length < maxSQL →
    goOn column fuel k.text s = .ok u s' →
    (k.InOrder ∧ k.CopiesFit s.conditionsForBindIx ∧ s'.whereSQL.length < maxSQL) ∨ Broken k s s' := by
  induction k with
  | one c =>
    intro fuel s s' u hs h
    by_cases hop : hasOperator c.literal = true
    · rw [goOn, hasOperator_one, if_pos hop] at h
      cases fuel with
      | zero => exact absurd h not_throw_ok
      | succ fuel =>
        obtain ⟨n, sep, hnext, hn⟩ := nextOperator_one hop
        obtain ⟨-, s₁, hins, -⟩ := compoundLoop_ok column hnext h
        have htext : c.text = c.text ++ [] := (append_nil _).symm
        rw [htext] at hins
        exact absurd hins (insertWhere_within c [] hn)
    · rw [goOn, hasOperator_one, if_neg hop] at h
      obtain ⟨code, s₂, hfail⟩ | ⟨s₂, hok, hinserted⟩ :=
        insertWhere_comparison c { s with whereSQL := rstrcat s.whereSQL column maxSQL }
      · cases h.symm.trans hfail
      · cases h.symm.trans hok
        exact .inl ⟨Bool.eq_false_iff.mpr hop, trivial, hinserted.lt (rstrcat_lt hs)⟩
  | more c o rest ih =>
    intro fuel s s' u hs h
    rw [goOn, hasOperator_more, if_pos rfl] at h
    cases fuel with
    | zero => exact absurd h not_throw_ok
    | succ fuel =>
      by_cases hnext : FindsNext c o rest
      · obtain ⟨hroom, s₁, hins, hrest⟩ := compoundLoop_ok column (nextOperator_right hnext) h
        rw [take_more] at hroom hins hrest
        rw [drop_more] at hrest
        obtain ⟨code, s₂, hfail⟩ | ⟨s₂, hok, hinserted⟩ :=
          insertWhere_comparison c { s with whereSQL := rstrcat s.whereSQL column maxSQL }
        · rw [hins] at hfail
          cases hfail
        rw [hins] at hok
        cases hok
        obtain ⟨hin, hcopies, hlt⟩ | ⟨i, hi, ix, literal, hquote, hend, hbind, hholds⟩ :=
          ih (rstrcat_lt (hinserted.lt (rstrcat_lt hs))) hrest
        · refine .inl ⟨⟨hnext, hin⟩, ⟨hroom, ?_⟩, hlt⟩
          have hcopied : s₁.conditionsForBindIx = s.conditionsForBindIx := hinserted.copied
          rw [← hcopied]
          exact hcopies
        · refine .inr ⟨i + 1, Nat.succ_lt_succ hi, ix, literal, hquote, hend, ?_, hholds⟩
          have hlen : s₁.cllBindVars.length = s.cllBindVars.length + 1 := by
            rw [hinserted.binds, length_append, List.length_singleton]
          rw [← hbind, show s.cllBindVars.length + (i + 1) = s₁.cllBindVars.length + i by omega]
      · obtain ⟨n, sep, hwrong, hn⟩ | ⟨rfl, n, sep, hfound, hwrong⟩ := nextOperator_wrong hnext
        · obtain ⟨-, s₁, hins, -⟩ := compoundLoop_ok column hwrong h
          exact absurd hins (insertWhere_within c _ hn)
        · obtain ⟨-, s₁, hins, hrest⟩ := compoundLoop_ok column hwrong h
          have hlast := (goOn_kept column fuel _).apply hrest
          have hkept : Kept s₁ s' := ⟨hlast.binds, hlast.ix, hlast.mem⟩
          exact .inr (broken_beyond column hfound hins hkept)

end Loop

/-! ## The call -/

/-- What whereSQL becomes: in front of the column stays what was there, and the condition is put in parentheses. -/
def appended (k : Compound) (prevWhereLen : Nat) (s : Cond) : Text :=
  s.whereSQL.take (skipAnd s.whereSQL prevWhereLen) ++
    (" ( ".toList ++ (k.sql (s.whereSQL.drop (skipAnd s.whereSQL prevWhereLen)) ++ " ) ".toList))

/-- The condition is appended with its connectives in order, and a bind variable for each literal. -/
structure Means (k : Compound) (prevWhereLen : Nat) (s s' : Cond) : Prop where
  sql   : s'.whereSQL = appended k prevWhereLen s
  binds : ∃ ps, s'.cllBindVars = s.cllBindVars ++ ps ∧ ps.map s'.deref = k.literals

/-- The call fails, or it appends the condition. -/
structure MeaningKept (k : Compound) (prevWhereLen : Nat) (s : Cond) : Prop where
  within  : ∀ s', handleCompoundCondition k.text prevWhereLen s ≠ .error .overrun s'
  appends : ∀ s', handleCompoundCondition k.text prevWhereLen s = .ok () s' → Means k prevWhereLen s s'

def Fails (k : Compound) (prevWhereLen : Nat) (s : Cond) : Prop :=
  ∃ code s', handleCompoundCondition k.text prevWhereLen s = .error (.fail code) s'

/-- The copies fit into `conditionsForBind`, and the text fits into `whereSQL`. -/
def HasRoom (k : Compound) (prevWhereLen : Nat) (s : Cond) : Prop :=
  k.CopiesFit s.conditionsForBindIx ∧ (appended k prevWhereLen s).length < maxSQL

/-- Behind the opening parenthesis, without the column. -/
def opened (prevWhereLen : Nat) (s : Cond) : Cond :=
  { s with whereSQL := rstrcat (s.whereSQL.take (skipAnd s.whereSQL prevWhereLen)) " ( ".toList maxSQL }

theorem handleCompoundCondition_eq (c : Comparison) (o : Connective) (rest : Compound) (prevWhereLen : Nat) (s : Cond) :
    handleCompoundCondition (Compound.more c o rest).text prevWhereLen s =
      (goOn (s.whereSQL.drop (skipAnd s.whereSQL prevWhereLen)) ((Compound.more c o rest).text.length + 1)
        (Compound.more c o rest).text >>= fun _ => catWhere " ) ".toList) (opened prevWhereLen s) := by
  rw [goOn, hasOperator_more, if_pos rfl]
  rfl

theorem size_le (k : Compound) : k.size ≤ k.text.length := by
  induction k with
  | one c => exact Nat.zero_le _
  | more c o rest ih =>
    have hlen : 1 ≤ c.text.length := by
      simp only [Comparison.text, length_append, List.length_cons]
      omega
    simp only [Compound.size, Compound.text, length_append]
    omega

variable {prevWhereLen : Nat}

/-- Pointers to the literals are read as the literals. -/
theorem deref_literals (k : Compound) : ∀ {ixs : List Nat}, List.Forall₂ (Holds s) ixs k.literals →
    (ixs.map (Buffer.bindVars, ·)).map s.deref = k.literals := by
  induction k with
  | one c =>
    intro ixs h
    obtain ⟨ix, hholds, rfl⟩ : ∃ ix, Holds s ix c.literal ∧ ixs = [ix] := by
      obtain - | ⟨hholds, - | _⟩ := h
      exact ⟨_, hholds, rfl⟩
    simp only [map_cons, List.map_nil, hholds.deref c.whole, Compound.literals]
  | more c o rest ih =>
    intro ixs h
    obtain - | ⟨hholds, hrest⟩ := h
    rw [map_cons, map_cons, hholds.deref c.whole, ih hrest]
    rfl

theorem unquoted_literals (k : Compound) : ∀ literal ∈ k.literals, '\'' ∉ literal := by
  induction k with
  | one c => exact List.forall_mem_singleton.mpr c.unquoted
  | more c o rest ih => exact List.forall_mem_cons.mpr ⟨c.unquoted, ih⟩

variable {o : Connective}

/-- A bind variable with a quote is not the one of a literal. -/
theorem Broken.not_means {s₀ : Cond} (h : Broken k s₀ s₁) (hstart : s₀.cllBindVars = s.cllBindVars)
    (hkept : Kept s₁ s') : ¬ Means k prevWhereLen s s' := by
  rintro ⟨-, ps, hbinds, hliterals⟩
  obtain ⟨i, hi, ix, literal, hquote, hend, hbind, hholds⟩ := h
  obtain ⟨later, hlater⟩ := hkept.binds
  have hlt : s₀.cllBindVars.length + i < s₁.cllBindVars.length := (List.getElem?_eq_some_iff.mp hbind).1
  have hin : s'.cllBindVars[s.cllBindVars.length + i]? = some (.bindVars, ix) := by
    rw [← hlater, List.getElem?_append_left (by rw [← hstart]; exact hlt), ← hstart]
    exact hbind
  rw [hbinds, List.getElem?_append_right (Nat.le_add_right _ _), Nat.add_sub_cancel_left] at hin
  have hderef : k.literals[i]? = some literal := by
    rw [← hliterals, List.getElem?_map, hin, Option.map_some, (hholds.kept hkept).deref hend]
  exact unquoted_literals k literal (List.mem_of_getElem? hderef) hquote

/-- In order and with room, the call fails or appends the condition. -/
theorem meaningKept_of_inOrder (hin : (Compound.more c o rest).InOrder)
    (hroom : HasRoom (.more c o rest) prevWhereLen s) : MeaningKept (.more c o rest) prevWhereLen s := by
  obtain ⟨hcopies, hfits⟩ := hroom
  rw [appended, ← append_assoc, ← append_assoc] at hfits
  have hsql := hfits
  rw [length_append] at hsql
  have hopen : (s.whereSQL.take (skipAnd s.whereSQL prevWhereLen) ++ " ( ".toList).length < maxSQL := by
    rw [length_append] at hsql
    omega
  have hwhere : (opened prevWhereLen s).whereSQL = s.whereSQL.take (skipAnd s.whereSQL prevWhereLen) ++ " ( ".toList :=
    rstrcat_fits hopen
  have hblank : EndsBlank (opened prevWhereLen s).whereSQL := by
    rw [hwhere]
    exact ⟨s.whereSQL.take (skipAnd s.whereSQL prevWhereLen) ++ " (".toList, by rw [append_assoc]; rfl⟩
  obtain ⟨code, s₁, hfail⟩ | ⟨s₁, hok, hdone⟩ := goOn_done (s.whereSQL.drop (skipAnd s.whereSQL prevWhereLen))
    (.more c o rest) (s := opened prevWhereLen s) hin hcopies hblank
    (by rw [hwhere]; omega) (Nat.le_succ_of_le (size_le _))
  · have hrun := (handleCompoundCondition_eq c o rest prevWhereLen s).trans (bind_error.mpr (.inl hfail))
    exact ⟨fun s' h => (nomatch hrun.symm.trans h), fun s' h => (nomatch hrun.symm.trans h)⟩
  · have hrun := (handleCompoundCondition_eq c o rest prevWhereLen s).trans (bind_run hok)
    refine ⟨fun s' h => (nomatch hrun.symm.trans h), fun s' h => ?_⟩
    obtain rfl := (Result.ok.inj (hrun.symm.trans h)).2
    obtain ⟨ixs, hbinds, hholds⟩ := hdone.binds
    refine ⟨?_, ixs.map (Buffer.bindVars, ·), hbinds, ?_⟩
    · show rstrcat s₁.whereSQL " ) ".toList maxSQL = _
      rw [hdone.sql, hwhere, rstrcat_fits hfits, appended, append_assoc, append_assoc]
    · have hclosed : Kept s₁ { s₁ with whereSQL := rstrcat s₁.whereSQL " ) ".toList maxSQL } := .of_eq rfl rfl rfl
      exact deref_literals _ (hholds.imp fun _ _ h => h.kept hclosed)

/-- A call that appends the condition found its connectives in order and had room. -/
theorem inOrder_of_means (hwhere : s.whereSQL.length < maxSQL)
    (hrun : handleCompoundCondition (Compound.more c o rest).text prevWhereLen s = .ok u s')
    (hmeans : Means (.more c o rest) prevWhereLen s s') :
    (Compound.more c o rest).InOrder ∧ HasRoom (.more c o rest) prevWhereLen s := by
  rw [handleCompoundCondition_eq] at hrun
  obtain ⟨_, s₁, hloop, hclose⟩ := bind_ok.mp hrun
  obtain rfl : { s₁ with whereSQL := rstrcat s₁.whereSQL " ) ".toList maxSQL } = s' := (Result.ok.inj hclose).2
  have hopen : (opened prevWhereLen s).whereSQL.length < maxSQL := by
    refine rstrcat_lt (lt_of_le_of_lt ?_ hwhere)
    exact List.length_take_le' _ _
  obtain ⟨hin, hcopies, hlt⟩ | hbroken := inOrder_or_broken _ _ hopen hloop
  · refine ⟨hin, hcopies, ?_⟩
    rw [← hmeans.sql]
    exact rstrcat_lt hlt
  · exact absurd hmeans (hbroken.not_means rfl (.of_eq rfl rfl rfl))

/-- In order and with room, a call fails or keeps the meaning; one that does not fail keeps it only then. -/
theorem meaningKept_iff (c : Comparison) (o : Connective) (rest : Compound) (prevWhereLen : Nat) {s : Cond}
    (hwhere : s.whereSQL.length < maxSQL) :
    ((Compound.more c o rest).InOrder ∧ HasRoom (.more c o rest) prevWhereLen s →
      MeaningKept (.more c o rest) prevWhereLen s) ∧
    (¬ Fails (.more c o rest) prevWhereLen s → (MeaningKept (.more c o rest) prevWhereLen s ↔
      (Compound.more c o rest).InOrder ∧ HasRoom (.more c o rest) prevWhereLen s)) := by
  have hkept (h : (Compound.more c o rest).InOrder ∧ HasRoom (.more c o rest) prevWhereLen s) :
      MeaningKept (.more c o rest) prevWhereLen s := meaningKept_of_inOrder h.1 h.2
  refine ⟨hkept, fun hfails => ⟨fun hmeaning => ?_, hkept⟩⟩
  cases hrun : handleCompoundCondition (Compound.more c o rest).text prevWhereLen s with
  | ok u s' => exact inOrder_of_means hwhere hrun (hmeaning.appends s' hrun)
  | error e s' =>
    cases e with
    | fail code => exact absurd ⟨code, s', hrun⟩ hfails
    | overrun => exact absurd hrun (hmeaning.within s')

theorem operator_equals : Operator "= ".toList := ⟨by decide, by decide, by decide, by decide, by decide⟩

theorem operator_like : Operator "like ".toList := ⟨by decide, by decide, by decide, by decide, by decide⟩

def equals (name : Text) (h : '\'' ∉ name ∧ '\x00' ∉ name) : Comparison :=
  ⟨"= ".toList, name, " ".toList, operator_equals, h.1, h.2, by decide⟩

/-- The data name's column behind what was there. -/
def dataNames : Cond := ⟨"where R_DATA_MAIN.data_name ".toList, [], 0, 0, 0, fun _ _ => '\x00'⟩

def nameA : Comparison := equals "a".toList (by decide)
def nameB : Comparison := equals "b".toList (by decide)
def nameC : Comparison := equals "c && d".toList (by decide)
def likeB : Comparison := ⟨"like ".toList, "b%".toList, [], operator_like, by decide, by decide, by decide⟩

/-- An `&&` in a literal before an OR is not looked for. -/
theorem meaningKept_or_and : MeaningKept (.more nameC .or (.more nameA .and (.one likeB))) 6 dataNames ∧
    appended (.more nameC .or (.more nameA .and (.one likeB))) 6 dataNames =
    ("where  ( R_DATA_MAIN.data_name  = ?  OR " ++
      "R_DATA_MAIN.data_name  = ?  AND R_DATA_MAIN.data_name  like ?  ) ").toList := by
  have hwhere : dataNames.whereSQL.length < maxSQL := by decide +kernel
  have hroom : HasRoom (.more nameC .or (.more nameA .and (.one likeB))) 6 dataNames :=
    ⟨by decide +kernel, by decide +kernel⟩
  have horder : (Compound.more nameC .or (.more nameA .and (.one likeB))).InOrder := by decide +kernel
  exact ⟨(meaningKept_iff nameC .or (.more nameA .and (.one likeB)) 6 hwhere).1 ⟨horder, hroom⟩, by decide +kernel⟩

/-- What a call that ends well made of whereSQL, and the texts its bind variables point to. -/
def outcome (condition : Text) (prevWhereLen : Nat) (s : Cond) : Option (Text × List Text) :=
  match handleCompoundCondition condition prevWhereLen s with
  | .ok _ s'   => some (s'.whereSQL, s'.cllBindVars.map s'.deref)
  | .error _ _ => none

/-- An OR behind an AND is looked for first, and the text from the first literal to the second is bound as one. -/
theorem not_meaningKept_and_or : ¬ MeaningKept (.more nameA .and (.more nameB .or (.one nameA))) 6 dataNames ∧
    (Compound.more nameA .and (.more nameB .or (.one nameA))).text.length < MAX_NAME_LEN * 2 ∧
    outcome (Compound.more nameA .and (.more nameB .or (.one nameA))).text 6 dataNames =
      some (("where  ( R_DATA_MAIN.data_name  = ?  OR R_DATA_MAIN.data_name  = ?  ) ").toList,
        ["a' &&= 'b".toList, "a".toList]) := by
  have houtcome : outcome (Compound.more nameA .and (.more nameB .or (.one nameA))).text 6 dataNames =
      some (("where  ( R_DATA_MAIN.data_name  = ?  OR R_DATA_MAIN.data_name  = ?  ) ").toList,
        ["a' &&= 'b".toList, "a".toList]) := by decide +kernel
  have hmixed : ¬ (Compound.more nameA .and (.more nameB .or (.one nameA))).InOrder := by decide +kernel
  refine ⟨fun hmeaning => ?_, by decide +kernel, houtcome⟩
  unfold outcome at houtcome
  cases hrun : handleCompoundCondition (Compound.more nameA .and (.more nameB .or (.one nameA))).text 6 dataNames with
  | ok u s' => exact hmixed (inOrder_of_means (by decide +kernel) hrun (hmeaning.appends s' hrun)).1
  | error e s' =>
    rw [hrun] at houtcome
    cases houtcome

end Cond

end GenQuery
