-- SUMMARY: insertWhere on the cells of tmpStr and of the static buffers.
import Irods.Icat.ParentOf

/-!
# Buffers of a condition

The operator goes to `tmpStr`, the literal to `bindVars`, and the strings of IN, BETWEEN and
`parent_of` to the buffer of their helper. The copy of the operator ends when it meets the
first quote behind its first character, so it does not end for a quote in front. The helpers
write an end behind each string, whether the string was copied or not.
-/

namespace GenQuery

open CString EStateM

namespace Cond

/-! ## The operator -/

def tmpStrSize : Nat := 20

/-- The loop that copies the characters before the first quote to `tmpStr`: `cp1` is where
it reads, and `room` is what is left of `tmpStr`. -/
def operatorLoop (condition : Text) (cpFirstQuote : Nat) : Nat → Nat → Text → CondM Text
  | 0, _, _ => throw .overrun
  | room + 1, cp1, tmpStr =>
    if cp1 > condition.length then throw .overrun
    else
      let tmpStr := tmpStr ++ [condition.getD cp1 '\x00']
      if cp1 + 1 = cpFirstQuote then pure tmpStr else operatorLoop condition cpFirstQuote room (cp1 + 1) tmpStr

/-- `tmpStr[i] = c`. -/
def pokeTmpStr (i : Nat) : CondM Unit := if i < tmpStrSize then pure () else throw .overrun

/-- `insertWhere` with the accesses to `tmpStr`. -/
def insertWhereCells (condition : Text) : CondM Unit := do
  if startsWith "in".toList "IN".toList condition then
    addInClauseToWhereForIn condition
  else if startsWith "between".toList "BETWEEN".toList condition then
    addBetweenClauseToWhere condition
  else if condition = isNull ∨ condition = isNotNull then
    catWhere " ".toList
    catWhere condition
    catWhere " ".toList
  else
    modify fun q => { q with bindIx := q.bindIx + 1 }
    match quotes condition with
    | none => throw (.fail CAT_INVALID_ARGUMENT)
    | some (first, second) =>
      if second - first + (← get).bindIx > maxSQL + 90 then throw (.fail CAT_INVALID_ARGUMENT)
      bindLiteral condition first second
      if first > 10 then throw (.fail CAT_INVALID_ARGUMENT)
      let tmpStr ← operatorLoop condition first (tmpStrSize - 1) 0 [' ']
      pokeTmpStr tmpStr.length
      -- the placeholder, a blank and an end behind the operator
      pokeTmpStr (tmpStr.length + 2)
      addComparison tmpStr ((condition.take second).drop (first + 1))

/-- A loop that has passed the place where it should end goes on to the end of `tmpStr`. -/
theorem operatorLoop_zero (condition : Text) (c : Cond) : ∀ (room cp1 : Nat) (tmpStr : Text),
    operatorLoop condition 0 room cp1 tmpStr c = .error .overrun c := by
  intro room
  induction room with
  | zero => exact fun _ _ => rfl
  | succ room ih =>
    intro cp1 tmpStr
    unfold operatorLoop
    split
    · rfl
    · exact ih _ _

variable {condition : Text} {first : Nat}

theorem operatorLoop_run (hfirst : first ≤ condition.length) :
    ∀ {room cp1 : Nat}, cp1 < first → first ≤ cp1 + room →
    operatorLoop condition first room cp1 (' ' :: condition.take cp1) = pure (' ' :: condition.take first) := by
  intro room
  induction room with
  | zero => exact fun hlt hle => absurd hlt (by omega)
  | succ room ih =>
    intro cp1 hlt hle
    have hnext : ' ' :: condition.take cp1 ++ [condition.getD cp1 '\x00'] = ' ' :: condition.take (cp1 + 1) := by
      rw [List.take_add_one, List.getElem?_eq_getElem (by omega), List.getD_eq_getElem _ _ (by omega)]
      rfl
    unfold operatorLoop
    rw [if_neg (by omega)]
    rw [hnext]
    split
    · rename_i hend
      rw [hend]
    · exact ih (by omega) (by omega)

theorem quotes_some {second : Nat} (h : quotes condition = some (first, second)) :
    first < second ∧ second < condition.length := by
  unfold quotes at h
  dsimp only at h
  split at h
  · split at h
    · rename_i hlt
      obtain ⟨rfl, rfl⟩ := h
      exact ⟨hlt, by omega⟩
    · cases h
  · cases h

/-- What the loop does with the cells of `tmpStr` is what `insertWhere` does. -/
theorem insertWhereCells_eq (condition : Text) : insertWhereCells condition = insertWhere condition := by
  unfold insertWhereCells insertWhere
  split
  · rfl
  split
  · rfl
  split
  · rfl
  congr 1
  funext _
  cases hquotes : quotes condition with
  | none => rfl
  | some ends =>
    obtain ⟨first, second⟩ := ends
    obtain ⟨hlt, hlen⟩ := quotes_some hquotes
    dsimp only
    congr 1
    funext c₀
    split
    · rfl
    congr 1
    funext _
    split
    · rfl
    by_cases hfirst : first = 0
    · subst hfirst
      funext c
      exact (bind_error.mpr (.inl (operatorLoop_zero _ _ _ _ _))).trans (bind_error.mpr (.inl rfl)).symm
    · have hloop : operatorLoop condition first (tmpStrSize - 1) 0 [' '] = _ :=
        operatorLoop_run (by omega) (Nat.pos_of_ne_zero hfirst) (by simp only [tmpStrSize]; omega)
      have hpoke (i : Nat) (hi : i ≤ first + 3) : pokeTmpStr i = pure () :=
        if_pos (by simp only [tmpStrSize]; omega)
      have hlen : (' ' :: condition.take first).length = first + 1 := by
        rw [List.length_cons, List.length_take_of_le (by omega)]
      rw [if_neg hfirst, hloop, pure_bind, hlen, hpoke _ (by omega), hpoke _ (by omega), pure_bind, pure_bind]

/-! ## What goes past a buffer -/

/-- The run goes past the end of a buffer. -/
def Overruns {α : Type} (m : CondM α) (c : Cond) : Prop := ∃ c', m c = .error .overrun c'

variable {α β : Type} {m : CondM α} {c : Cond}

theorem overruns_bind {f : α → CondM β} :
    Overruns (m >>= f) c ↔ Overruns m c ∨ ∃ a c₁, m c = .ok a c₁ ∧ Overruns (f a) c₁ := by
  simp only [Overruns, bind_error]
  constructor
  · rintro ⟨c', h | ⟨a, c₁, hm, hf⟩⟩
    · exact .inl ⟨c', h⟩
    · exact .inr ⟨a, c₁, hm, c', hf⟩
  · rintro (⟨c', h⟩ | ⟨a, c₁, hm, c', hf⟩)
    · exact ⟨c', .inl h⟩
    · exact ⟨c', .inr ⟨a, c₁, hm, hf⟩⟩

theorem overruns_modify {g : Cond → Cond} {f : Unit → CondM β} :
    Overruns (modify g >>= f) c ↔ Overruns (f ()) (g c) := Iff.rfl

theorem overruns_catWhere {src : Text} {f : Unit → CondM β} :
    Overruns (catWhere src >>= f) c ↔ Overruns (f ()) { c with whereSQL := rstrcat c.whereSQL src maxSQL } := Iff.rfl

theorem overruns_get {f : Cond → CondM β} : Overruns (get >>= f) c ↔ Overruns (f c) c :=
  Iff.rfl

variable {a : α} {c' : Cond}

theorem overruns_run {f : α → CondM β} {c₁ : Cond} (h : m c = .ok a c₁) :
    Overruns (m >>= f) c ↔ Overruns (f a) c₁ := by
  unfold Overruns
  rw [bind_run h]

theorem not_overruns_ok (h : m c = .ok a c') : ¬ Overruns m c := by
  rintro ⟨c'', h'⟩
  rw [h] at h'
  cases h'

theorem not_overruns_fail {code : Int} (h : m c = .error (.fail code) c') : ¬ Overruns m c := by
  rintro ⟨c'', h'⟩
  rw [h] at h'
  cases h'

/-- Nothing that ends without going past a buffer matters behind. -/
theorem overruns_then {f : α → CondM β} (hf : ∀ a c, ¬ Overruns (f a) c) : Overruns (m >>= f) c ↔ Overruns m c := by
  rw [overruns_bind]
  refine ⟨?_, .inl⟩
  rintro (h | ⟨a, c₁, -, h⟩)
  · exact h
  · exact absurd h (hf a c₁)

/-- The lengths of the strings between quotes. -/
def quotedLens (condition : Text) : List Nat := (quotedStrings condition condition 0 none).map Prod.snd

theorem in_overruns (condition : Text) (c : Cond) : Overruns (addInClauseToWhereForIn condition) c ↔
    ¬ CopiesFit .inStringsForIn c.inStrIx (freeBinds c) (quotedLens condition) := by
  have hsave : Saves fun ix => modify fun q => { q with inStrIx := ix } := fun ix _ => ⟨ix, rfl⟩
  unfold addInClauseToWhereForIn
  simp only [quotedLoop_eq]
  rw [overruns_catWhere, overruns_get, overruns_then fun nput c₁ => ?_]
  · exact copyAll_overrun_iff hsave
  · split
    · exact not_overruns_fail rfl
    · exact not_overruns_ok rfl

theorem between_overruns (condition : Text) (c : Cond) : Overruns (addBetweenClauseToWhere condition) c ↔
    ¬ CopiesFit .inStringsForBetween 0 (freeBinds c) (quotedLens condition) := by
  unfold addBetweenClauseToWhere
  simp only [quotedLoop_eq]
  rw [overruns_catWhere, overruns_then fun nput c₁ => ?_]
  · exact copyAll_overrun_iff pure_saves
  · split
    · exact not_overruns_fail rfl
    · exact not_overruns_ok rfl

theorem parentOf_overruns (p : Text) (c : Cond) : Overruns (addInClauseToWhereForParentOf p) c ↔
    ¬ CopiesFit .inStringsForParentOf 0 (freeBinds c) (cuts (p ++ ['\x00']) 0 0) := by
  unfold addInClauseToWhereForParentOf
  simp only [parentOfLoop_eq, bind_assoc, pure_bind]
  have hiff := @copyAll_overrun_iff .inStringsForParentOf ", ?".toList _ pure_saves (parentStrings p) 0 0
    { c with whereSQL := rstrcat c.whereSQL " IN (".toList maxSQL }
  rw [parentStrings_lens] at hiff
  rw [overruns_catWhere, overruns_then fun nput c₁ => ?_]
  · exact hiff
  · exact not_overruns_ok rfl

/-- The operator asks for the ancestors of the literal. -/
def asksForParents (tmpStr : Text) : Bool :=
  !occurs "begin_of".toList tmpStr && occurs "parent_of".toList tmpStr

theorem addComparison_overruns {tmpStr literal : Text} {c₀ : Cond} {ptr : Buffer × Nat}
    (hpush : c.cllBindVars = c₀.cllBindVars ++ [ptr]) : Overruns (addComparison tmpStr literal) c ↔
      asksForParents tmpStr = true ∧
        ¬ CopiesFit .inStringsForParentOf 0 (freeBinds c₀) (cuts (literal ++ ['\x00']) 0 0) := by
  have hcheck (c₁ : Cond) : ¬ Overruns (if checkCondition tmpStr = false then
      throw (.fail CAT_INVALID_ARGUMENT) else pure () : CondM Unit) c₁ := by
    split
    · exact not_overruns_fail rfl
    · exact not_overruns_ok rfl
  unfold addComparison asksForParents
  cases hbegin : occurs "begin_of".toList tmpStr with
  | true =>
    refine iff_of_false ?_ (by simp)
    simp only [if_true, overruns_catWhere, overruns_get]
    exact hcheck _
  | false =>
    cases hparent : occurs "parent_of".toList tmpStr with
    | false =>
      refine iff_of_false ?_ (by simp)
      exact hcheck _
    | true =>
      have hdrop : freeBinds { c with cllBindVars := c.cllBindVars.dropLast } = freeBinds c₀ := by
        simp [freeBinds, hpush]
      simp only [Bool.false_eq_true, if_false, if_true, Bool.not_false, Bool.and_self, true_and, overruns_modify]
      rw [← hdrop, ← parentOf_overruns]
      exact overruns_then fun _ c₁ => hcheck c₁

/-! ## Conditions that stay inside -/

/-- What `insertWhere` looks at in a literal before it copies the operator. -/
def LiteralTaken (first second : Nat) (c : Cond) : Prop :=
  second - first + (c.bindIx + 1) ≤ maxSQL + 90 ∧ 0 < freeBinds c ∧ first ≤ 10

/-- The strings of the condition fit into the buffer of their helper, and a literal that is
taken does not stand in front of everything else. -/
def Inside (condition : Text) (c : Cond) : Prop :=
  if startsWith "in".toList "IN".toList condition then
    CopiesFit .inStringsForIn c.inStrIx (freeBinds c) (quotedLens condition)
  else if startsWith "between".toList "BETWEEN".toList condition then
    CopiesFit .inStringsForBetween 0 (freeBinds c) (quotedLens condition)
  else if condition = isNull ∨ condition = isNotNull then True
  else
    ∀ first second, quotes condition = some (first, second) → LiteralTaken first second c →
      first ≠ 0 ∧ (asksForParents (' ' :: condition.take first) = true →
        CopiesFit .inStringsForParentOf 0 (freeBinds c)
          (cuts ((condition.take second).drop (first + 1) ++ ['\x00']) 0 0))

variable {condition : Text} {first second : Nat}

/-- The part of a literal that is taken: what is left is the operator. -/
theorem literal_run (hquotes : quotes condition = some (first, second))
    (hshort : second - first + (c.bindIx + 1) ≤ maxSQL + 90) (hroom : c.cllBindVars.length + 1 < maxBindVars) :
    ∃ c₁ ptr, bindLiteral condition first second { c with bindIx := c.bindIx + 1 } = .ok () c₁ ∧
      c₁.cllBindVars = c.cllBindVars ++ [ptr] := by
  obtain ⟨hlt, hbound⟩ := quotes_some hquotes
  have hlen : ((condition.take second).drop (first + 1)).length = second - first - 1 := by
    rw [List.length_drop, List.length_take_of_le (by omega)]
    omega
  obtain ⟨c₁, hbind⟩ := bindLiteral_run (c := { c with bindIx := c.bindIx + 1 }) rfl
    (by rw [hlen]; dsimp only; omega) hroom
  obtain ⟨-, hpush, -, -⟩ := bindLiteral_ok hbind
  exact ⟨c₁, _, hbind, hpush⟩

theorem literal_full (hquotes : quotes condition = some (first, second))
    (hshort : second - first + (c.bindIx + 1) ≤ maxSQL + 90) (hfull : maxBindVars ≤ c.cllBindVars.length + 1) :
    ∃ c₁, bindLiteral condition first second { c with bindIx := c.bindIx + 1 } =
      .error (.fail CAT_BIND_VARIABLE_LIMIT_EXCEEDED) c₁ := by
  obtain ⟨hlt, hbound⟩ := quotes_some hquotes
  have hlen : ((condition.take second).drop (first + 1)).length = second - first - 1 := by
    rw [List.length_drop, List.length_take_of_le (by omega)]
    omega
  exact bindLiteral_full (c := { c with bindIx := c.bindIx + 1 }) rfl (by rw [hlen]; dsimp only; omega) hfull

/-- A comparison goes past a buffer when a taken literal stands in front, or its ancestors do not fit. -/
theorem comparison_overruns (hcomp : IsComparison condition) (hquotes : quotes condition = some (first, second)) :
    Overruns (insertWhere condition) c ↔ LiteralTaken first second c ∧ (first = 0 ∨
      asksForParents (' ' :: condition.take first) = true ∧ ¬ CopiesFit .inStringsForParentOf 0 (freeBinds c)
        (cuts ((condition.take second).drop (first + 1) ++ ['\x00']) 0 0)) := by
  obtain ⟨hin, hbetween, hnull, hnotNull⟩ := hcomp
  unfold insertWhere
  simp only [hin, hbetween, hnull, hnotNull, Bool.false_eq_true, if_false, false_or, hquotes]
  rw [overruns_modify, overruns_get]
  by_cases hshort : second - first + (c.bindIx + 1) > maxSQL + 90
  · rw [if_pos hshort]
    exact iff_of_false (not_overruns_fail rfl) fun h => absurd h.1.1 (by omega)
  rw [if_neg hshort]
  by_cases hroom : c.cllBindVars.length + 1 < maxBindVars
  · obtain ⟨c₁, ptr, hbind, hpush⟩ := literal_run hquotes (Nat.le_of_not_lt hshort) hroom
    rw [overruns_run hbind]
    by_cases hfirst : first > 10
    · rw [if_pos hfirst]
      exact iff_of_false (not_overruns_fail rfl) fun h => absurd h.1.2.2 (by omega)
    have htaken : LiteralTaken first second c := ⟨by omega, by unfold freeBinds; omega, by omega⟩
    rw [if_neg hfirst, and_iff_right htaken]
    by_cases hzero : first = 0
    · rw [if_pos hzero]
      exact iff_of_true ⟨c₁, rfl⟩ (.inl hzero)
    · rw [if_neg hzero, addComparison_overruns hpush]
      simp only [hzero, false_or]
  · obtain ⟨c₁, hbind⟩ := literal_full hquotes (Nat.le_of_not_lt hshort) (Nat.le_of_not_lt hroom)
    refine iff_of_false (not_overruns_fail (bind_error.mpr (.inl hbind))) fun h => ?_
    have hfree := h.1.2.1
    unfold freeBinds at hfree
    omega

/-- Whether it overruns is told before it runs. -/
theorem insertWhere_overruns (condition : Text) (c : Cond) :
    Overruns (insertWhere condition) c ↔ ¬ Inside condition c := by
  by_cases hin : startsWith "in".toList "IN".toList condition = true
  · rw [insertWhere, Inside, if_pos hin, if_pos hin]
    exact in_overruns condition c
  by_cases hbetween : startsWith "between".toList "BETWEEN".toList condition = true
  · rw [insertWhere, Inside, if_neg hin, if_neg hin, if_pos hbetween, if_pos hbetween]
    exact between_overruns condition c
  by_cases hnull : condition = isNull ∨ condition = isNotNull
  · rw [insertWhere, Inside, if_neg hin, if_neg hin, if_neg hbetween, if_neg hbetween, if_pos hnull, if_pos hnull]
    exact iff_of_false (not_overruns_ok rfl) (not_not_intro trivial)
  rw [not_or] at hnull
  have hcomp : IsComparison condition := ⟨Bool.eq_false_iff.mpr hin, Bool.eq_false_iff.mpr hbetween, hnull⟩
  rw [Inside, if_neg hin, if_neg hbetween, if_neg (not_or.mpr hnull)]
  cases hquotes : quotes condition with
  | none =>
    refine iff_of_false ?_ (not_not_intro nofun)
    unfold insertWhere
    simp only [hcomp.1, hcomp.2.1, hnull.1, hnull.2, Bool.false_eq_true, if_false, false_or, hquotes]
    exact not_overruns_fail rfl
  | some ends =>
    obtain ⟨first, second⟩ := ends
    rw [comparison_overruns hcomp hquotes]
    constructor
    · rintro ⟨htaken, hzero | ⟨hasks, hfit⟩⟩ h
      · exact (h first second rfl htaken).1 hzero
      · exact hfit ((h first second rfl htaken).2 hasks)
    · intro h
      by_contra hno
      refine h fun first' second' heq htaken => ?_
      cases heq
      refine ⟨fun hzero => hno ⟨htaken, .inl hzero⟩, fun hasks => ?_⟩
      by_contra hfit
      exact hno ⟨htaken, .inr ⟨hasks, hfit⟩⟩

/-! ## Runs -/

/-- A call of `insertWhere`: with `option` 1 it only starts the buffers again. -/
inductive Call where
  | reset
  | insert (condition : Text)

def Call.run : Call → CondM Unit
  | .reset => modify fun q => { q with bindIx := 0, inStrIx := 0 }
  | .insert condition => insertWhereCells condition

def Call.Inside (c : Cond) : Call → Prop
  | .reset => True
  | .insert condition => Cond.Inside condition c

/-- `P` holds of every call in the state that the calls before it have left. -/
def Through (P : Cond → Call → Prop) : Cond → List Call → Prop
  | _, [] => True
  | c, call :: calls => P c call ∧ Through P (state (call.run c)) calls

theorem Through.congr {P Q : Cond → Call → Prop} (h : ∀ c call, P c call ↔ Q c call) : ∀ {calls : List Call} {c : Cond},
    Through P c calls ↔ Through Q c calls
  | [], _ => Iff.rfl
  | call :: _, c => and_congr (h c call) (Through.congr h)

/-- The call ends without an access outside of the condition and the buffers. -/
def Call.Safe (c : Cond) (call : Call) : Prop := ¬ Overruns call.run c

theorem Call.safe_iff (c : Cond) (call : Call) : call.Safe c ↔ call.Inside c := by
  cases call with
  | reset => exact iff_of_true (not_overruns_ok rfl) trivial
  | insert condition =>
    show ¬ Overruns (insertWhereCells condition) c ↔ Cond.Inside condition c
    rw [insertWhereCells_eq, insertWhere_overruns, not_not]

/-- The calls of a run stay in their buffers if and only if each of them is one that does so
in the state it finds. -/
theorem calls_safe_iff (c : Cond) (calls : List Call) :
    Through (fun c call => call.Safe c) c calls ↔ Through (fun c call => call.Inside c) c calls :=
  Through.congr Call.safe_iff

theorem insert_safe_iff : Through (fun c call => call.Safe c) c [.insert condition] ↔ Cond.Inside condition c := by
  rw [Through.congr Call.safe_iff]
  exact and_iff_left trivial

variable {s : Text}

theorem quotedStrings_skip {inArg : Text} (hs : '\'' ∉ s) (rest : Text) (startIx : Option Nat) : ∀ i : Nat,
    quotedStrings inArg (s ++ rest) i startIx = quotedStrings inArg rest (i + s.length) startIx := by
  induction s with
  | nil => exact fun _ => rfl
  | cons c s ih =>
    intro i
    have hc : c ≠ '\'' := fun h => hs (h ▸ List.mem_cons_self)
    show (if c = '\'' then _ else quotedStrings inArg (s ++ rest) (i + 1) startIx) = _
    rw [if_neg hc, ih (fun h => hs (List.mem_cons_of_mem _ h)),
      List.length_cons, Nat.add_assoc, Nat.add_comm 1]

/-- A condition with one string. -/
def inOne (s : Text) : Text := "in ('".toList ++ (s ++ "')".toList)

theorem quotedLens_inOne (hs : '\'' ∉ s) : quotedLens (inOne s) = [s.length] := by
  have hopen : quotedStrings (inOne s) (inOne s) 0 none = quotedStrings (inOne s) (s ++ "')".toList) 5 (some 5) := rfl
  rw [quotedLens, hopen, quotedStrings_skip hs]
  simp [quotedStrings]

/-- A literal with nothing in front, and a string that is longer than the buffer. -/
theorem calls_not_safe : ¬ Through (fun c call => call.Safe c) noConditions [.insert "'a'".toList] ∧
    ¬ Through (fun c call => call.Safe c) noConditions [.insert (inOne (List.replicate (2 * maxSQL) 'a'))] := by
  rw [insert_safe_iff, insert_safe_iff]
  refine ⟨fun h => ?_, fun h => ?_⟩
  · exact (h 0 2 (by decide) ⟨by decide, by decide, by decide⟩).1 rfl
  · have hin : startsWith "in".toList "IN".toList (inOne (List.replicate (2 * maxSQL) 'a')) = true := by
      rfl
    rw [Inside, if_pos hin, quotedLens_inOne (by simp [List.mem_replicate])] at h
    have hfits := h (by simp)
    rw [List.length_replicate] at hfits
    exact absurd hfits (by decide)

end Cond

end GenQuery
