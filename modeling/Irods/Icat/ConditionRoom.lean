-- SUMMARY: How much room the conditions of a request need.
import Irods.Base.Spending
import Irods.Icat.BufferUse
import Irods.Icat.CompoundMeaning
import Mathlib.Algebra.Order.Group.Nat
import Mathlib.Algebra.Order.Monoid.Prod

/-!
# Room for conditions

Two static buffers are filled from one condition to the next: `conditionsForBind` with the
parts of compound conditions, and `inStrings` with the strings of IN. What a condition takes
of them depends on its text alone. Nothing looks at the end of `conditionsForBind`, and the
end behind a string of IN is written wherever that is.
-/

namespace GenQuery

open CString EStateM

namespace Cond

/-- What is taken of `conditionsForBind`, and of the strings of IN. -/
def taken (c : Cond) : Nat × Nat := (c.conditionsForBindIx, c.inStrIx)

def room : Nat × Nat := (MAX_NAME_LEN * 2, Buffer.inStringsForIn.size)

/-- The computation takes `n` of the two buffers, and goes past no buffer with what fits. -/
abbrev Takes {α : Type} (fits : Prop) (n : Nat × Nat) (m : CondM α) : Prop :=
  Spends taken room Stop.overrun fits n m

/-! ## insertWhere -/

/-- What the strings of an IN condition take. -/
def inStrings (condition : Text) : Nat :=
  if startsWith "in".toList "IN".toList condition then extent (quotedLens condition) else 0

/-- Something stands in front of the first quote of a comparison, and the ancestors that it
asks for fit into their buffer. -/
def QuotesFit (condition : Text) : Option (Nat × Nat) → Prop
  | none => True
  | some (first, second) =>
    first ≠ 0 ∧ (asksForParents (' ' :: condition.take first) = true →
      extent (cuts ((condition.take second).drop (first + 1) ++ ['\x00']) 0 0) ≤
        Buffer.inStringsForParentOf.size)

/-- What a condition copies besides the strings of IN fits into its buffer. -/
def Fits (condition : Text) : Prop :=
  if startsWith "in".toList "IN".toList condition then True
  else if startsWith "between".toList "BETWEEN".toList condition then
    extent (quotedLens condition) ≤ Buffer.inStringsForBetween.size
  else if condition = isNull ∨ condition = isNotNull then True
  else QuotesFit condition (quotes condition)

instance decidableQuotesFit (condition : Text) : (ends : Option (Nat × Nat)) →
    Decidable (QuotesFit condition ends)
  | none => inferInstanceAs (Decidable True)
  | some _ => inferInstanceAs (Decidable (_ ∧ (_ → _)))

instance decidableFits (condition : Text) : Decidable (Fits condition) := by
  unfold Fits
  infer_instance

variable {c c' : Cond} {condition : Text} {u : Unit}

theorem extent_take_le (k : Nat) (lens : List Nat) : extent (lens.take k) ≤ extent lens := by
  have hsplit : extent (lens.take k) + extent (lens.drop k) = extent lens := by
    unfold extent
    rw [← List.sum_append, ← List.map_append, List.take_append_drop]
  omega

/-- What fits stays inside, wherever it is put. -/
theorem inside_of_fits (hfits : Fits condition)
    (hroom : c.inStrIx + inStrings condition ≤ Buffer.inStringsForIn.size) : Inside condition c := by
  unfold Fits inStrings at *
  unfold Inside
  have hle := fun k lens => extent_take_le k lens
  split
  · rename_i hin
    rw [if_pos hin] at hroom
    have := hle (freeBinds c + 1) (quotedLens condition)
    exact fun _ => by omega
  rename_i hin
  rw [if_neg hin] at hfits
  split
  · rename_i hbetween
    rw [if_pos hbetween] at hfits
    have := hle (freeBinds c + 1) (quotedLens condition)
    exact fun _ => by omega
  rename_i hbetween
  rw [if_neg hbetween] at hfits
  split
  · trivial
  rename_i hnull
  rw [if_neg hnull] at hfits
  intro first second hquotes _
  rw [hquotes] at hfits
  obtain ⟨hfirst, hparents⟩ := hfits
  refine ⟨hfirst, fun hasks _ => ?_⟩
  have := hle (freeBinds c + 1) (cuts ((condition.take second).drop (first + 1) ++ ['\x00']) 0 0)
  have := hparents hasks
  omega

/-! ### What is taken -/

/-- Nothing more is taken. -/
def SameTaken (c c' : Cond) : Prop := taken c' = taken c

theorem SameTaken.refl (c : Cond) : SameTaken c c := rfl

theorem SameTaken.trans (c₁ c₂ c₃ : Cond) (h : SameTaken c₁ c₂) (h' : SameTaken c₂ c₃) :
    SameTaken c₁ c₃ := Eq.trans h' h

theorem catWhere_sameTaken (src : Text) : OkRel SameTaken (catWhere src) := .modify fun _ => rfl

theorem pokes_sameTaken (b : Buffer) (ix : Nat) (s : Text) : OkRel SameTaken (pokes b ix s) := by
  intro c u c' h
  rw [(pokes_ok h).1]
  rfl

theorem push_sameTaken (p : Buffer × Nat) : OkRel SameTaken (push p) := by
  intro c u c' h
  rw [push_ok h]
  rfl

theorem copyBind_sameTaken (b : Buffer) (ix : Nat) (src : Text) (ncopy : Nat) :
    OkRel SameTaken (copyBind b ix src ncopy) := by
  refine .bind .trans (.ite (.pure .refl _) (pokes_sameTaken _ _ _)) fun _ => ?_
  refine .bind .trans ?_ fun _ => push_sameTaken _
  intro c u c' h
  obtain ⟨-, rfl⟩ := poke_ok h
  rfl

theorem sameTaken_respected : Respected SameTaken :=
  ⟨.refl, .trans, catWhere_sameTaken, fun _ => copyBind_sameTaken _⟩

theorem addComparison_sameTaken (tmpStr literal : Text) :
    OkRel SameTaken (addComparison tmpStr literal) := by
  unfold addComparison
  repeat' with_reducible first
    | exact catWhere_sameTaken _
    | exact sameTaken_respected.inClauseForParentOf _
    | exact .get .refl
    | exact .pure .refl _
    | exact .throw _
    | exact .modify fun _ => .refl _
    | refine .bind .trans ?_ (fun _ => ?_)
    | refine .ite ?_ ?_

/-- The copies of IN are put behind each other. -/
theorem copyAll_taken {next : Text} : ∀ {strings : List (Text × Nat)} {nput ix r : Nat} {c c' : Cond},
    copyAll .inStringsForIn next (fun ix => modify fun q => { q with inStrIx := ix }) strings nput ix c =
      .ok r c' → c.inStrIx = ix →
    taken c' = taken c + (0, extent (strings.map Prod.snd)) := by
  intro strings
  induction strings with
  | nil =>
    intro nput ix r c c' h _
    obtain ⟨-, rfl⟩ := pure_ok.mp h
    rfl
  | cons string strings ih =>
    obtain ⟨src, ncopy⟩ := string
    intro nput ix r c c' h hix
    obtain ⟨_, c₁, hcat, h⟩ := bind_ok.mp h
    obtain ⟨_, c₂, hcopy, h⟩ := bind_ok.mp h
    obtain ⟨_, c₃, hsave, h⟩ := bind_ok.mp h
    obtain rfl := modify_ok.mp hsave
    have hsame : taken c₂ = taken c :=
      ((catWhere_sameTaken _).apply hcat).trans _ _ _ ((copyBind_sameTaken _ _ _ _).apply hcopy)
    obtain ⟨hcopied, hstrings⟩ := Prod.mk.inj hsame
    rw [ih h rfl, List.map_cons, extent_cons]
    refine Prod.ext hcopied ?_
    show ix + ncopy + 1 + _ = c.inStrIx + _
    omega

/-- An IN condition takes the room of its strings. -/
theorem in_ok (h : addInClauseToWhereForIn condition c = .ok u c') :
    taken c' = taken c + (0, extent (quotedLens condition)) ∧
      (taken c ≤ room → taken c' ≤ room) := by
  unfold addInClauseToWhereForIn at h
  simp only [quotedLoop_eq] at h
  obtain ⟨_, c₀, hcat, h⟩ := bind_ok.mp h
  rw [get_bind] at h
  obtain ⟨nput, c₃, hloop, h⟩ := bind_ok.mp h
  obtain ⟨_, c₄, hclose, h⟩ := bind_ok.mp h
  have hput : nput ≠ 0 := by
    rintro rfl
    exact not_throw_ok h
  rw [if_neg hput] at h
  obtain ⟨-, rfl⟩ := pure_ok.mp h
  have hsave : Saves fun ix => modify fun q => { q with inStrIx := ix } := fun ix _ => ⟨ix, rfl⟩
  obtain ⟨-, -, -, -, hnput, hfits⟩ := copyAll_ok hsave hloop
  have hbefore : taken c₀ = taken c := (catWhere_sameTaken _).apply hcat
  have hafter : taken c₄ = taken c₃ := (catWhere_sameTaken _).apply hclose
  have htaken : taken c₄ = taken c + (0, extent (quotedLens condition)) := by
    rw [hafter, copyAll_taken hloop rfl, hbefore]
    rfl
  refine ⟨htaken, fun hroom => ?_⟩
  have hne : quotedStrings condition condition 0 none ≠ [] := by
    rintro hnil
    rw [hnil] at hnput
    exact hput (by simpa using hnput)
  obtain ⟨-, hlast⟩ := hfits hne
  rw [htaken, ← hbefore]
  rw [← hbefore] at hroom
  exact ⟨hroom.1, hlast⟩

/-- A literal that is taken has something in front of its quote. -/
theorem insertWhere_front (hcomp : IsComparison condition) (h : insertWhere condition c = .ok u c') :
    ∀ first second, quotes condition = some (first, second) → first ≠ 0 := by
  obtain ⟨hin, hbetween, hnull, hnotNull⟩ := hcomp
  intro first second hquotes
  unfold insertWhere at h
  simp only [hin, hbetween, hnull, hnotNull, Bool.false_eq_true, if_false, false_or, hquotes] at h
  obtain ⟨_, c₁, -, h⟩ := bind_ok.mp h
  obtain ⟨_, c₂, -, h⟩ := bind_ok.mp h
  obtain ⟨-, h⟩ := guard_ok.mp h
  obtain ⟨_, c₃, -, h⟩ := bind_ok.mp h
  obtain ⟨-, h⟩ := guard_ok.mp h
  exact (guard_ok.mp h).1

/-- Copies from the start of a buffer that are all made fit into it. -/
theorem copyAll_extent {b : Buffer} {next : Text} {saveIx : Nat → CondM Unit} (hsave : Saves saveIx)
    {strings : List (Text × Nat)} {nput r : Nat}
    (h : copyAll b next saveIx strings nput 0 c = .ok r c') :
    extent (strings.map Prod.snd) ≤ b.size := by
  obtain ⟨-, -, -, -, -, hfits⟩ := copyAll_ok hsave h
  cases strings with
  | nil => exact Nat.zero_le _
  | cons string strings =>
    have hlast := (hfits (List.cons_ne_nil _ _)).2
    rwa [Nat.zero_add] at hlast

theorem between_ok (h : addBetweenClauseToWhere condition c = .ok u c') :
    extent (quotedLens condition) ≤ Buffer.inStringsForBetween.size := by
  unfold addBetweenClauseToWhere at h
  simp only [quotedLoop_eq] at h
  obtain ⟨_, c₁, -, h⟩ := bind_ok.mp h
  obtain ⟨nput, c₂, hloop, -⟩ := bind_ok.mp h
  exact copyAll_extent pure_saves hloop

theorem parentOf_ok {p : Text} (h : addInClauseToWhereForParentOf p c = .ok u c') :
    extent (cuts (p ++ ['\x00']) 0 0) ≤ Buffer.inStringsForParentOf.size := by
  unfold addInClauseToWhereForParentOf at h
  simp only [parentOfLoop_eq, bind_assoc, pure_bind] at h
  obtain ⟨_, c₁, -, h⟩ := bind_ok.mp h
  obtain ⟨nput, c₂, hloop, -⟩ := bind_ok.mp h
  have hextent := copyAll_extent pure_saves hloop
  rwa [← parentStrings, parentStrings_lens] at hextent

theorem isComparison_of_not (hin : ¬ startsWith "in".toList "IN".toList condition = true)
    (hbetween : ¬ startsWith "between".toList "BETWEEN".toList condition = true)
    (hnull : ¬ (condition = isNull ∨ condition = isNotNull)) : IsComparison condition := by
  rw [not_or] at hnull
  exact ⟨Bool.eq_false_iff.mpr hin, Bool.eq_false_iff.mpr hbetween, hnull⟩

/-- The ancestors that a comparison asks for have been copied. -/
theorem addComparison_parents {tmpStr literal : Text} (h : addComparison tmpStr literal c = .ok u c')
    (hasks : asksForParents tmpStr = true) :
    extent (cuts (literal ++ ['\x00']) 0 0) ≤ Buffer.inStringsForParentOf.size := by
  obtain ⟨hbegin, hparent⟩ := (Bool.and_eq_true _ _).mp hasks
  rw [Bool.not_eq_true'] at hbegin
  unfold addComparison at h
  simp only [hbegin, hparent, Bool.false_eq_true, if_false, if_true] at h
  obtain ⟨_, c₁, -, h⟩ := bind_ok.mp h
  obtain ⟨_, c₂, hparents, -⟩ := bind_ok.mp h
  exact parentOf_ok hparents

/-- What came through did fit, and took the room of its strings. -/
theorem insertWhere_ok (h : insertWhere condition c = .ok u c') :
    Fits condition ∧ taken c' = taken c + (0, inStrings condition) ∧
      (taken c ≤ room → taken c' ≤ room) := by
  have hsame : taken c' = taken c → taken c' = taken c + (0, 0) ∧
      (taken c ≤ room → taken c' ≤ room) := fun hsame => ⟨hsame, fun hroom => hsame ▸ hroom⟩
  have hrun := h
  unfold insertWhere at h
  unfold Fits inStrings
  split at h
  · rename_i hin
    rw [if_pos hin, if_pos hin]
    exact ⟨trivial, in_ok h⟩
  rename_i hin
  rw [if_neg hin, if_neg hin]
  split at h
  · rename_i hbetween
    rw [if_pos hbetween]
    exact ⟨between_ok h, hsame (sameTaken_respected.betweenClause _ _ _ _ h)⟩
  rename_i hbetween
  rw [if_neg hbetween]
  split at h
  · rename_i hnull
    rw [if_pos hnull]
    refine ⟨trivial, hsame (OkRel.apply (R := SameTaken) ?_ h)⟩
    exact .bind .trans (catWhere_sameTaken _) fun _ =>
      .bind .trans (catWhere_sameTaken _) fun _ => catWhere_sameTaken _
  · rename_i hnull
    rw [if_neg hnull]
    have hcomp := isComparison_of_not hin hbetween hnull
    obtain ⟨first, second, c₁, hquotes, hbind, hadd⟩ := insertWhere_steps hcomp hrun
    have hliteral : OkRel SameTaken (bindLiteral condition first second) :=
      .bind .trans (.get .refl) fun _ => .bind .trans (pokes_sameTaken _ _ _) fun _ =>
        .bind .trans (.modify fun _ => rfl) fun _ => push_sameTaken _
    refine ⟨?_, hsame ?_⟩
    · rw [hquotes]
      exact ⟨insertWhere_front hcomp hrun _ _ hquotes, addComparison_parents hadd⟩
    · exact (hliteral.apply hbind).trans _ _ _ ((addComparison_sameTaken _ _).apply hadd)

theorem insertWhere_takes (condition : Text) :
    Takes (Fits condition) (0, inStrings condition) (insertWhere condition) where
  ok h := insertWhere_ok h
  safe hfits c c' hroom h :=
    (insertWhere_overruns condition c).mp ⟨c', h⟩ (inside_of_fits hfits hroom.2)

theorem catWhere_takes (src : Text) : Takes True 0 (catWhere src) := .modify fun _ => rfl

/-! ## Conditions -/

/-- A text that `insertWhere` gets of a condition; all but the last are copied behind each
other. -/
structure Part where
  text : Text
  copied : Bool

def Part.need (p : Part) : Nat × Nat :=
  (if p.copied then p.text.length + 1 else 0, inStrings p.text)

/-- The parts in the order of the loop. -/
def partsOf : Nat → Text → List Part
  | 0, s => [⟨s, false⟩]
  | fuel + 1, s =>
    match nextOperator s with
    | none => [⟨s, false⟩]
    | some (n, _) => ⟨s.take n, true⟩ :: partsOf fuel (s.drop (n + 2))

def insertedParts (condition : Text) : List Part :=
  if RuleQuery.compound condition then partsOf (condition.length + 1) condition
  else [⟨condition, false⟩]

/-- The computation inserts the parts. -/
abbrev Inserts (parts : List Part) (m : CondM Unit) : Prop :=
  Takes (∀ p ∈ parts, Fits p.text) (parts.map Part.need).sum m

theorem inserts_one (condition : Text) : Inserts [⟨condition, false⟩] (insertWhere condition) :=
  (insertWhere_takes condition).congr (by simp) (by simp [Part.need])

/-- A part is copied, inserted, and counted. -/
theorem inserts_copied (part : Text) : Takes (Fits part) (part.length + 1, inStrings part) (do
    copyForBind part
    insertWhere part
    modify fun q => { q with conditionsForBindIx := q.conditionsForBindIx + part.length + 1 }) where
  ok {c u c'} hrun := by
    obtain ⟨_, c₀, hcopy, hrest⟩ := bind_ok.mp hrun
    obtain ⟨hsame, hlen⟩ := copyForBind_room hcopy
    subst hsame
    obtain ⟨_, c₁, hinsert, hcount⟩ := bind_ok.mp hrest
    obtain rfl := modify_ok.mp hcount
    obtain ⟨hfits, htaken, hroom⟩ := insertWhere_ok hinsert
    obtain ⟨hcopied, hstrings⟩ := Prod.mk.inj htaken
    refine ⟨hfits, Prod.ext ?_ hstrings, fun hbefore => ⟨?_, (hroom hbefore).2⟩⟩
    · show c₁.conditionsForBindIx + part.length + 1 = c₀.conditionsForBindIx + (part.length + 1)
      rw [show c₁.conditionsForBindIx = c₀.conditionsForBindIx from hcopied, Nat.add_assoc]
    · show c₁.conditionsForBindIx + part.length + 1 ≤ MAX_NAME_LEN * 2
      rw [show c₁.conditionsForBindIx = c₀.conditionsForBindIx from hcopied]
      exact hlen
  safe hfits c c' hroom h := by
    have hlen : c.conditionsForBindIx + (part.length + 1) ≤ MAX_NAME_LEN * 2 := hroom.1
    have hcopy : copyForBind part c = .ok () c := by
      unfold copyForBind
      rw [get_bind, if_neg (by omega)]
      rfl
    rw [bind_run hcopy] at h
    obtain hinsert | ⟨_, c₁, -, hcount⟩ := bind_error.mp h
    · refine (insertWhere_takes part).safe hfits ?_ hinsert
      exact ⟨show c.conditionsForBindIx + 0 ≤ MAX_NAME_LEN * 2 by omega, hroom.2⟩
    · cases hcount

theorem nextOperator_isSome (s : Text) : (nextOperator s).isSome = hasOperator s := by
  rw [nextOperator_eq, hasOperator_eq]
  cases strstr Connective.or.sign s <;> cases strstr Connective.and.sign s <;> rfl

/-- The loop inserts the parts; it has a turn for each of them. -/
theorem goOn_inserts (column : Text) : ∀ {fuel : Nat} {s : Text}, s.length < fuel →
    Inserts (partsOf fuel s) (goOn column fuel s) := by
  intro fuel
  induction fuel with
  | zero => exact fun hlt => absurd hlt (Nat.not_lt_zero _)
  | succ fuel ih =>
    intro s hlt
    have hsome := nextOperator_isSome s
    unfold goOn partsOf
    cases hnext : nextOperator s with
    | none =>
      rw [hnext] at hsome
      rw [if_neg (by simp [← hsome])]
      exact (catWhere_takes column).before fun _ => inserts_one s
    | some found =>
      obtain ⟨n, sep⟩ := found
      rw [hnext] at hsome
      have hop : hasOperator s = true := hsome.symm
      rw [if_pos hop, compoundLoop_step column hnext]
      have hrest : (s.drop (n + 2)).length < fuel := by
        have hne : s ≠ [] := by
          rintro rfl
          cases hnext
        have hpos := List.length_pos_of_ne_nil hne
        rw [List.length_drop]
        omega
      have hturn := (inserts_copied (s.take n)).bind fun _ =>
        (catWhere_takes sep).before fun _ => ih hrest
      simp only [bind_assoc] at hturn
      refine (catWhere_takes column).before fun _ => hturn.congr ?_ ?_
      · simp
      · simp [Part.need]

theorem handleCompoundCondition_inserts (condition : Text) (prevWhereLen : Nat)
    (hop : hasOperator condition = true) :
    Inserts (partsOf (condition.length + 1) condition)
      (handleCompoundCondition condition prevWhereLen) := by
  have hloop (column : Text) : Inserts (partsOf (condition.length + 1) condition)
      (compoundLoop column (condition.length + 1) condition) := by
    have hgo := goOn_inserts column (Nat.lt_succ_self condition.length)
    rwa [goOn, if_pos hop] at hgo
  exact .get_set (fun _ => rfl) fun c => (catWhere_takes " ( ".toList).before fun _ =>
    (hloop (c.whereSQL.drop (skipAnd c.whereSQL prevWhereLen))).after fun _ =>
      catWhere_takes " ) ".toList

/-- The copy that `compoundConditionSpecified` makes has an end, and the parts fit. -/
def ConditionFits (condition : Text) : Prop :=
  (hasOperator condition = true → condition.length < MAX_NAME_LEN * 2) ∧
    ∀ p ∈ insertedParts condition, Fits p.text

instance (condition : Text) : Decidable (ConditionFits condition) := by
  unfold ConditionFits
  infer_instance

/-- What the condition takes of the two buffers. -/
def need (condition : Text) : Nat × Nat := ((insertedParts condition).map Part.need).sum

theorem insertCondition_takes (condition : Text) (prevWhereLen : Nat) :
    Takes (ConditionFits condition) (need condition) (insertCondition condition prevWhereLen) := by
  unfold insertCondition need
  rw [compoundConditionSpecified_eq]
  by_cases hlong : hasOperator condition = true ∧ condition.length ≥ MAX_NAME_LEN * 2
  · rw [if_pos hlong]
    refine ⟨fun h => ?_, fun hfits => absurd (hfits.1 hlong.1) (Nat.not_lt.mpr hlong.2)⟩
    obtain ⟨_, _, hthrow, -⟩ := bind_ok.mp h
    exact absurd hthrow not_throw_ok
  rw [if_neg hlong, pure_bind]
  have hcopy : hasOperator condition = true → condition.length < MAX_NAME_LEN * 2 :=
    fun hop => Nat.lt_of_not_le fun hle => hlong ⟨hop, hle⟩
  unfold ConditionFits insertedParts
  cases hcompound : RuleQuery.compound condition with
  | true =>
    have hop : hasOperator condition = true := ((Bool.and_eq_true _ _).mp hcompound).1
    exact (handleCompoundCondition_inserts condition prevWhereLen hop).congr
      (and_iff_right hcopy).symm rfl
  | false =>
    exact (inserts_one condition).congr (and_iff_right hcopy).symm rfl

end Cond

/-! ## Requests -/

namespace Query

/-- The computation takes `n` of the two buffers, and goes past no buffer with what fits. -/
abbrev Takes {α : Type} (fits : Prop) (n : Nat × Nat) (m : QueryM α) : Prop :=
  Spends (fun q => q.cond.taken) Cond.room Stop.overrun fits n m

section

variable {α : Type} {m : CondM α} {fits : Prop} {n : Nat × Nat}

theorem onCond_takes (h : Cond.Takes fits n m) : Takes fits n (onCond m) where
  ok hrun := by
    obtain ⟨c, hc, rfl⟩ := onCond_ok.mp hrun
    exact h.ok hc
  safe hfits q q' hroom hrun := by
    unfold onCond at hrun
    cases hc : m q.cond with
    | ok a c =>
      rw [hc] at hrun
      cases hrun
    | error e c =>
      rw [hc] at hrun
      obtain ⟨rfl, -⟩ := Result.error.inj hrun
      exact h.safe hfits hroom hc

end

variable {S : Schema} {session : Session}

theorem addSelectField_takes (table : Table) (column : Column) (selectOption : Nat) :
    Takes True 0 (addSelectField table column selectOption) := by
  unfold addSelectField catSelect catGroupBy
  cases selectFunction selectOption <;>
  repeat' first
    | with_reducible exact .get
    | with_reducible exact .pure _
    | with_reducible refine .before ?_ (fun _ => ?_)
    | with_reducible refine .ite (fun _ => ?_) (fun _ => ?_)
    | exact .modify fun _ => rfl

theorem addSelectFrom_takes (table : Table) : Takes True 0 (addSelectFrom table) := by
  refine .before .get fun _ => .ite (fun _ => ?_) fun _ => .pure _
  refine .before (.modify fun _ => rfl) fun _ => .before (.modify fun _ => rfl) fun _ => ?_
  exact .before (.modify fun _ => rfl) fun _ => .modify fun _ => rfl

theorem addWhereField_takes (table : Table) (column : Column) (cast : Bool) :
    Takes True 0 (addWhereField table column cast) :=
  .of_ok fun q => ⟨(), _, addWhereField_appends table column cast q, rfl⟩

theorem setTable_takes (column : Int) (sel : Bool) (selectOption : Nat) (cast : Bool) :
    Takes True 0 (setTable S column sel selectOption cast) := by
  unfold setTable
  cases lookup S column with
  | none => exact .throw (by simp)
  | some found =>
    refine .before (.modify fun _ => rfl) fun _ => .ite (fun _ => ?_) fun _ => ?_
    · exact .before (addSelectField_takes _ _ _) fun _ =>
        .before (addSelectFrom_takes _) fun _ => .pure _
    · exact .before (addWhereField_takes _ _ _) fun _ => .pure _

theorem checkAudit_takes (column : Int) : Takes True 0 (checkAudit session column) :=
  .ite (fun _ => .throw (by simp)) fun _ => .pure _

theorem selectColumns_takes : ∀ (cols : List (Int × BitVec 32)) (start : Nat),
    Takes True 0 (selectColumns S session start cols)
  | [], _ => .pure _
  | _ :: cols, _ =>
    .before (.before (setTable_takes _ _ _ _) fun _ =>
      .before (checkAudit_takes _) fun _ => .pure _) fun start => selectColumns_takes cols start

theorem addCondition_takes (start : Nat) (inx : Int) (value : Text) :
    Takes (Cond.ConditionFits (castOption value).2) (Cond.need (castOption value).2)
      (addCondition S session start inx value) := by
  rw [addCondition_eq]
  refine .before .get fun _ => .before (setTable_takes _ _ _ _) fun _ => ?_
  exact .after (onCond_takes (Cond.insertCondition_takes _ _)) fun _ =>
    .before (checkAudit_takes _) fun _ => .pure _

/-- The conditions have room behind what is taken already, up to one that is refused before
anything of it is taken. -/
def RoomFor (S : Schema) : Nat × Nat → List (Int × Text) → Prop
  | _, [] => True
  | taken, (inx, value) :: conds =>
    lookup S inx = none ∨
      Cond.ConditionFits (castOption value).2 ∧ taken + Cond.need (castOption value).2 ≤ Cond.room ∧
        (Cond.RefusedFirst (Cond.firstPart (castOption value).2) ∨
          RoomFor S (taken + Cond.need (castOption value).2) conds)

/-- With room the conditions go past no buffer. -/
theorem addConditions_within : ∀ {conds : List (Int × Text)} {start : Nat} {q q' : Query},
    RoomFor S q.cond.taken conds → addConditions S session start conds q ≠ .error .overrun q'
  | [], _, _, _, _ => nofun
  | (inx, value) :: conds, start, q, q', h => by
    intro hrun
    obtain hcond | ⟨start₁, q₁, hcond, hrest⟩ := bind_error.mp hrun
    · rcases h with hnone | ⟨hfits, hroom, -⟩
      · obtain ⟨q₂, hthrow⟩ : ∃ q₂, addCondition S session start inx value q =
            .error (.fail CAT_UNKNOWN_TABLE) q₂ := by
          refine ⟨q, (get_bind _ q).trans (bind_error.mpr (.inl ?_))⟩
          rw [setTable, hnone]
          rfl
        cases hcond.symm.trans hthrow
      · exact (addCondition_takes start inx value).safe hfits hroom hcond
    · rcases h with hnone | ⟨-, -, hrefused | hlater⟩
      · exact addCondition_refused (.inl hnone) hcond
      · exact addCondition_refused (.inr hrefused) hcond
      · rw [← ((addCondition_takes start inx value).ok hcond).2.1] at hlater
        exact addConditions_within hlater hrest

/-- Conditions that are accepted had room. -/
theorem addConditions_room : ∀ {conds : List (Int × Text)} {start st : Nat} {q q' : Query},
    q.cond.taken ≤ Cond.room → addConditions S session start conds q = .ok st q' →
    RoomFor S q.cond.taken conds
  | [], _, _, _, _, _, _ => trivial
  | (inx, value) :: conds, start, _, q, _, hq, h => by
    obtain ⟨start₁, q₁, hcond, hrest⟩ := bind_ok.mp h
    obtain ⟨hfits, htaken, hroom⟩ := (addCondition_takes start inx value).ok hcond
    refine .inr ⟨hfits, ?_, .inr ?_⟩
    · exact htaken ▸ hroom hq
    · exact htaken ▸ addConditions_room (hroom hq) hrest

/-- The buffers are empty when a request begins. -/
theorem start_taken (inp : GenQueryInp) (q : Query) : (start inp q).cond.taken = 0 := rfl

theorem room_pos : 0 ≤ Cond.room := ⟨Nat.zero_le _, Nat.zero_le _⟩

theorem selectColumns_within {inp : GenQueryInp} {q q' : Query} (cols : List (Int × BitVec 32)) :
    selectColumns S session 0 cols (start inp q) ≠ .error .overrun q' :=
  (selectColumns_takes cols 0).safe trivial (show (start inp q).cond.taken + 0 ≤ Cond.room from room_pos)

theorem requestColumns_within {inp : GenQueryInp} {q q' : Query}
    (h : RoomFor S 0 inp.sqlCondInp) :
    requestColumns S session inp (start inp q) ≠ .error .overrun q' := by
  intro hrun
  obtain hcols | ⟨start₁, q₁, hcols, hconds⟩ := bind_error.mp hrun
  · exact selectColumns_within _ hcols
  · have htaken := ((selectColumns_takes _ _).ok hcols).2.1
    rw [start_taken, add_zero] at htaken
    exact addConditions_within (htaken ▸ h) hconds

theorem requestColumns_room {inp : GenQueryInp} {q q' : Query} {st : Nat}
    (h : requestColumns S session inp (start inp q) = .ok st q') : RoomFor S 0 inp.sqlCondInp := by
  obtain ⟨start₁, q₁, hcols, hconds⟩ := bind_ok.mp h
  have htaken := ((selectColumns_takes _ _).ok hcols).2.1
  rw [start_taken, add_zero] at htaken
  exact htaken ▸ addConditions_room (htaken ▸ room_pos) hconds

end Query

end GenQuery
