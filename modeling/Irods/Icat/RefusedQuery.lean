-- SUMMARY: Refused queries leave the bind variables as they were.
import Mathlib.Data.List.NodupEquivFin
import Irods.Icat.QueryValues

/-!
# Refused queries

`generateSQL` may refuse a query at any of its conditions, and leaves the bind variables of
the conditions before it on the table. It leaves the table as it was when it refuses a column
to select, or when no condition up to the one it refuses has a literal between two quotes.
-/

namespace GenQuery

open CString EStateM

namespace Cond

/-- The bind variables are the same. -/
def SameBinds (c c' : Cond) : Prop := c'.cllBindVars = c.cllBindVars

theorem SameBinds.refl (c : Cond) : SameBinds c c := rfl

theorem SameBinds.trans (c₁ c₂ c₃ : Cond) (h : SameBinds c₁ c₂) (h' : SameBinds c₂ c₃) : SameBinds c₁ c₃ :=
  Eq.trans h' h

theorem catWhere_sameBinds (src : Text) : AllRel SameBinds (catWhere src) := .modify fun _ => rfl

/-! ## Conditions without a literal -/

/-- No literal stands between two quotes. -/
def FewQuotes (s : Text) : Prop := s.count '\'' < 2

instance (s : Text) : Decidable (FewQuotes s) := inferInstanceAs (Decidable (_ < _))

def IsNullTest (s : Text) : Prop := s = isNull ∨ s = isNotNull

instance (s : Text) : Decidable (IsNullTest s) := inferInstanceAs (Decidable (_ ∨ _))

theorem quotedLoop_few {b : Buffer} {next : Text} {saveIx : Nat → CondM Unit} {inArg : Text} (c : Cond) :
    ∀ (cs : Text) (i nput inStrIx : Nat) (startIx : Option Nat), startIx.isSome.toNat + cs.count '\'' < 2 →
      quotedLoop b next saveIx inArg cs i startIx nput inStrIx c = .ok nput c
  | [], _, _, _, _, _ => rfl
  | ch :: cs, i, nput, inStrIx, startIx, h => by
    rw [List.count_cons] at h
    unfold quotedLoop
    by_cases hquote : ch = '\''
    · subst hquote
      cases startIx with
      | none => exact quotedLoop_few c cs _ _ _ _ (by simp at h ⊢; omega)
      | some startIx =>
        rw [Option.isSome_some, Bool.toNat_true, beq_self_eq_true, if_pos rfl] at h
        omega
    · rw [if_neg hquote]
      exact quotedLoop_few c cs _ _ _ _ (by simp [hquote] at h ⊢; omega)

variable {s : Text} {c c' : Cond}

theorem quotes_few (h : FewQuotes s) : quotes s = none := by
  unfold quotes
  split
  case h_2 => rfl
  case h_1 first last hfirst hlast =>
    simp only
    split
    case isFalse => rfl
    case isTrue hlt =>
      obtain ⟨hf, hfirst, -⟩ := List.findIdx?_eq_some_iff_getElem.mp hfirst
      obtain ⟨hl, hlast, -⟩ := List.findIdx?_eq_some_iff_getElem.mp hlast
      rw [List.getElem_reverse] at hlast
      have hdup : List.Duplicate '\'' s := by
        rw [List.duplicate_iff_exists_distinct_get]
        exact ⟨⟨first, hf⟩, ⟨s.length - 1 - last, by omega⟩, hlt, (of_decide_eq_true hfirst).symm,
          (of_decide_eq_true hlast).symm⟩
      exact absurd (List.duplicate_iff_two_le_count.mp hdup) (Nat.not_le_of_lt h)

theorem quotedLoop_sameBinds (h : FewQuotes s) (b : Buffer) (next : Text) (saveIx : Nat → CondM Unit) (inStrIx : Nat) :
    AllRel SameBinds (quotedLoop b next saveIx s s 0 none 0 inStrIx) := by
  intro c
  rw [quotedLoop_few c s 0 0 inStrIx none (by simpa [FewQuotes] using h)]
  exact .refl c

theorem addInClauseToWhereForIn_sameBinds (h : FewQuotes s) : AllRel SameBinds (addInClauseToWhereForIn s) := by
  refine .bind .trans (catWhere_sameBinds _) fun _ => .bind .trans (.get .refl) fun _ => ?_
  refine .bind .trans (quotedLoop_sameBinds h _ _ _ _) fun nput => ?_
  exact .bind .trans (catWhere_sameBinds _) fun _ => .ite (.throw .refl _) (.pure .refl _)

theorem addBetweenClauseToWhere_sameBinds (h : FewQuotes s) : AllRel SameBinds (addBetweenClauseToWhere s) := by
  refine .bind .trans (catWhere_sameBinds _) fun _ => ?_
  exact .bind .trans (quotedLoop_sameBinds h _ _ _ _) fun nput => .ite (.throw .refl _) (.pure .refl _)

theorem insertWhere_sameBinds (h : FewQuotes s) : AllRel SameBinds (insertWhere s) := by
  refine .ite (addInClauseToWhereForIn_sameBinds h) (.ite (addBetweenClauseToWhere_sameBinds h) (.ite ?_ ?_))
  · exact .bind .trans (catWhere_sameBinds _) fun _ =>
      .bind .trans (catWhere_sameBinds _) fun _ => catWhere_sameBinds _
  · rw [quotes_few h]
    exact .bind .trans (.modify fun _ => rfl) fun _ => .throw .refl _

/-- The literal does not fit into `bindVars`. -/
def TooLong (s : Text) : Prop :=
  startsWith "in".toList "IN".toList s = false ∧ startsWith "between".toList "BETWEEN".toList s = false ∧
    ∃ first second, quotes s = some (first, second) ∧ maxSQL + 90 ≤ second - first

/-- The condition is refused before a literal is taken. -/
def RefusedFirst (s : Text) : Prop := FewQuotes s ∧ ¬ IsNullTest s ∨ TooLong s

theorem quotedLoop_none (h : FewQuotes s) {b : Buffer} {next : Text} {saveIx : Nat → CondM Unit} {inStrIx nput : Nat}
    (hrun : quotedLoop b next saveIx s s 0 none 0 inStrIx c = .ok nput c') : nput = 0 := by
  rw [quotedLoop_few c s 0 0 inStrIx none (by simpa [FewQuotes] using h)] at hrun
  cases hrun
  rfl

variable {u : Unit}

theorem addInClauseToWhereForIn_refused (h : FewQuotes s) : ¬ addInClauseToWhereForIn s c = .ok u c' := by
  intro hrun
  obtain ⟨_, c₁, -, hrun⟩ := bind_ok.mp hrun
  obtain ⟨_, c₂, -, hrun⟩ := bind_ok.mp hrun
  obtain ⟨nput, c₃, hloop, hrun⟩ := bind_ok.mp hrun
  rw [if_pos (quotedLoop_none h hloop)] at hrun
  exact not_throw_ok hrun

theorem addBetweenClauseToWhere_refused (h : FewQuotes s) : ¬ addBetweenClauseToWhere s c = .ok u c' := by
  intro hrun
  obtain ⟨_, c₁, -, hrun⟩ := bind_ok.mp hrun
  obtain ⟨nput, c₂, hloop, hrun⟩ := bind_ok.mp hrun
  rw [if_pos (by rw [quotedLoop_none h hloop]; decide)] at hrun
  exact not_throw_ok hrun

/-- A literal that does not fit is not taken. -/
theorem insertWhere_tooLong (h : TooLong s) (c : Cond) :
    insertWhere s c = .error (.fail CAT_INVALID_ARGUMENT) { c with bindIx := c.bindIx + 1 } := by
  obtain ⟨hin, hbetween, first, second, hquotes, hlen⟩ := h
  have hnull : ¬ (s = isNull ∨ s = isNotNull) := by
    rintro (rfl | rfl)
    · cases hquotes
    · cases hquotes
  rw [insertWhere, hin, hbetween, if_neg (by simp), if_neg (by simp), if_neg hnull, modify_bind, hquotes]
  simp only
  rw [get_bind, if_pos (by simp only; omega)]
  rfl

theorem insertWhere_refused (h : RefusedFirst s) : AllRel SameBinds (insertWhere s) ∧
    ∀ c c' u, ¬ insertWhere s c = .ok u c' := by
  rcases h with ⟨hfew, hnull⟩ | hlong
  · refine ⟨insertWhere_sameBinds hfew, fun c c' u hrun => ?_⟩
    unfold insertWhere at hrun
    rw [IsNullTest] at hnull
    rw [if_neg hnull, quotes_few hfew] at hrun
    split at hrun
    case isTrue => exact addInClauseToWhereForIn_refused hfew hrun
    case isFalse =>
      split at hrun
      case isTrue => exact addBetweenClauseToWhere_refused hfew hrun
      case isFalse =>
        exact not_throw_ok hrun
  · refine ⟨fun c => ?_, fun c c' u hrun => ?_⟩
    · rw [insertWhere_tooLong hlong]
      exact .refl c
    · rw [insertWhere_tooLong hlong] at hrun
      cases hrun

/-! ## Compound conditions -/

/-- What `insertWhere` gets first of a condition. -/
def firstPart (condition : Text) : Text :=
  if RuleQuery.compound condition then
    match nextOperator condition with
    | some (n, _) => condition.take n
    | none => condition
  else condition

theorem FewQuotes.take (h : FewQuotes s) (n : Nat) : FewQuotes (s.take n) :=
  Nat.lt_of_le_of_lt ((List.take_sublist n s).count_le _) h

theorem FewQuotes.drop (h : FewQuotes s) (n : Nat) : FewQuotes (s.drop n) :=
  Nat.lt_of_le_of_lt ((List.drop_sublist n s).count_le _) h

theorem copyForBind_sameBinds (s : Text) : AllRel SameBinds (copyForBind s) :=
  .bind .trans (.get .refl) fun _ => .ite (.throw .refl _) (.pure .refl _)

theorem compoundLoop_sameBinds (tabAndColumn : Text) : ∀ (fuel : Nat) {condPart1 : Text},
    FewQuotes condPart1 → AllRel SameBinds (compoundLoop tabAndColumn fuel condPart1)
  | 0, _, _ => .throw .refl _
  | fuel + 1, condPart1, h => by
    rw [compoundLoop]
    split
    case h_1 => exact .throw .refl _
    case h_2 n operator _ =>
      refine .bind .trans (catWhere_sameBinds _) fun _ => ?_
      refine .bind .trans (copyForBind_sameBinds _) fun _ => ?_
      refine .bind .trans (insertWhere_sameBinds (h.take n)) fun _ => ?_
      refine .bind .trans (.modify fun _ => rfl) fun _ => ?_
      refine .bind .trans (catWhere_sameBinds _) fun _ => ?_
      refine .ite (compoundLoop_sameBinds tabAndColumn fuel (h.drop _)) ?_
      exact .bind .trans (catWhere_sameBinds _) fun _ => insertWhere_sameBinds (h.drop _)

variable {condition : Text}

theorem compoundLoop_refused (tabAndColumn : Text) {fuel : Nat} {operator : Text} {n : Nat}
    (hop : nextOperator condition = some (n, operator)) (h : RefusedFirst (condition.take n)) :
    AllRel SameBinds (compoundLoop tabAndColumn (fuel + 1) condition) ∧
      ∀ c c' u, ¬ compoundLoop tabAndColumn (fuel + 1) condition c = .ok u c' := by
  obtain ⟨hsame, hno⟩ := insertWhere_refused h
  rw [compoundLoop, hop]
  refine ⟨?_, fun c c' u hrun => ?_⟩
  · refine .bind .trans (catWhere_sameBinds _) fun _ => ?_
    refine .bind .trans (copyForBind_sameBinds _) fun _ => ?_
    exact .bind_refused hsame hno
  · obtain ⟨_, c₁, -, hrun⟩ := bind_ok.mp hrun
    obtain ⟨_, c₂, -, hrun⟩ := bind_ok.mp hrun
    obtain ⟨_, c₃, hinsert, -⟩ := bind_ok.mp hrun
    exact hno _ _ _ hinsert

theorem handleCompoundCondition_allRel (prevWhereLen : Nat)
    (h : ∀ tabAndColumn, AllRel SameBinds (compoundLoop tabAndColumn (condition.length + 1) condition)) :
    AllRel SameBinds (handleCompoundCondition condition prevWhereLen) := by
  intro c
  let tabAndColumn := c.whereSQL.drop (skipAnd c.whereSQL prevWhereLen)
  have hrest : AllRel SameBinds (do
      catWhere " ( ".toList
      compoundLoop tabAndColumn (condition.length + 1) condition
      catWhere " ) ".toList) :=
    .bind .trans (catWhere_sameBinds _) fun _ => .bind .trans (h _) fun _ => catWhere_sameBinds _
  exact hrest { c with whereSQL := c.whereSQL.take (skipAnd c.whereSQL prevWhereLen) }

theorem handleCompoundCondition_refused (prevWhereLen : Nat)
    (hno : ∀ tabAndColumn c c' u, ¬ compoundLoop tabAndColumn (condition.length + 1) condition c = .ok u c')
    (c c' : Cond) (u : Unit) : ¬ handleCompoundCondition condition prevWhereLen c = .ok u c' := by
  intro hrun
  obtain ⟨c₀, c₁, -, hrun⟩ := bind_ok.mp hrun
  obtain ⟨_, c₂, -, hrun⟩ := bind_ok.mp hrun
  obtain ⟨_, c₃, -, hrun⟩ := bind_ok.mp hrun
  obtain ⟨_, c₄, hloop, -⟩ := bind_ok.mp hrun
  exact hno _ _ _ _ hloop

theorem compoundConditionSpecified_sameBinds (condition : Text) :
    AllRel SameBinds (compoundConditionSpecified condition) :=
  .ite (.pure .refl _) (.ite (.throw .refl _) (.pure .refl _))

/-- What `addCondition` does with the text of a condition. -/
def insertCondition (condition : Text) (prevWhereLen : Nat) : CondM Unit := do
  if ← compoundConditionSpecified condition then handleCompoundCondition condition prevWhereLen
  else insertWhere condition

theorem insertCondition_sameBinds (h : FewQuotes condition) (prevWhereLen : Nat) :
    AllRel SameBinds (insertCondition condition prevWhereLen) :=
  .bind .trans (compoundConditionSpecified_sameBinds condition) fun _ =>
    .ite (handleCompoundCondition_allRel prevWhereLen fun _ => compoundLoop_sameBinds _ _ h)
      (insertWhere_sameBinds h)

theorem compoundConditionSpecified_eq (condition : Text) : compoundConditionSpecified condition =
    if hasOperator condition = true ∧ condition.length ≥ MAX_NAME_LEN * 2 then throw .overrun
    else pure (RuleQuery.compound condition) := by
  unfold compoundConditionSpecified RuleQuery.compound
  cases hop : hasOperator condition with
  | false => simp
  | true => simp

theorem compoundLoop_firstPart (hcompound : RuleQuery.compound condition = true)
    (h : RefusedFirst (firstPart condition)) (tabAndColumn : Text) (fuel : Nat) :
    AllRel SameBinds (compoundLoop tabAndColumn (fuel + 1) condition) ∧
      ∀ c c' u, ¬ compoundLoop tabAndColumn (fuel + 1) condition c = .ok u c' := by
  rw [firstPart, if_pos hcompound] at h
  cases hop : nextOperator condition with
  | none =>
    rw [compoundLoop, hop]
    exact ⟨.throw .refl _, fun _ _ _ => not_throw_ok⟩
  | some operator =>
    rw [hop] at h
    exact compoundLoop_refused tabAndColumn hop h

theorem insertCondition_refused (h : RefusedFirst (firstPart condition)) (prevWhereLen : Nat) :
    AllRel SameBinds (insertCondition condition prevWhereLen) ∧
      ∀ c c' u, ¬ insertCondition condition prevWhereLen c = .ok u c' := by
  unfold insertCondition
  rw [compoundConditionSpecified_eq]
  split
  case isTrue =>
    refine ⟨.bind_refused (.throw .refl _) fun _ _ _ => not_throw_ok, fun c c' u hrun => ?_⟩
    obtain ⟨_, _, hthrow, -⟩ := bind_ok.mp hrun
    exact not_throw_ok hthrow
  case isFalse =>
    cases hcompound : RuleQuery.compound condition with
    | false =>
      rw [firstPart, hcompound] at h
      exact insertWhere_refused h
    | true =>
      have hloop := fun tabAndColumn => compoundLoop_firstPart hcompound h tabAndColumn condition.length
      exact ⟨handleCompoundCondition_allRel prevWhereLen fun t => (hloop t).1,
        handleCompoundCondition_refused prevWhereLen fun t => (hloop t).2⟩

end Cond

/-! ## Queries -/

variable {q q' : Query} {α : Type} {m : CondM α}

namespace Query

def SameBinds (q q' : Query) : Prop := Cond.SameBinds q.cond q'.cond

theorem SameBinds.refl (q : Query) : SameBinds q q := Cond.SameBinds.refl q.cond

theorem SameBinds.trans (q₁ q₂ q₃ : Query) (h : SameBinds q₁ q₂) (h' : SameBinds q₂ q₃) : SameBinds q₁ q₃ :=
  Cond.SameBinds.trans _ _ _ h h'

/-- The conditions are as they were. -/
def SameCond (q q' : Query) : Prop := q'.cond = q.cond

theorem SameCond.refl (q : Query) : SameCond q q := rfl

theorem SameCond.trans (q₁ q₂ q₃ : Query) (h : SameCond q₁ q₂) (h' : SameCond q₂ q₃) :
    SameCond q₁ q₃ :=
  Eq.trans h' h

theorem SameCond.sameBinds {m : QueryM α} (h : AllRel SameCond m) : AllRel SameBinds m :=
  fun q => congrArg Cond.cllBindVars (h q)

theorem onCond_sameBinds (h : AllRel Cond.SameBinds m) : AllRel SameBinds (onCond m) := by
  intro q
  have hc := h q.cond
  unfold onCond
  cases hrun : m q.cond with
  | ok a c =>
    rw [hrun] at hc
    exact hc
  | error e c =>
    rw [hrun] at hc
    exact hc

variable (table : Table) (column : Column)

theorem addWhereField_sameBinds (cast : Bool) : AllRel SameBinds (addWhereField table column cast) := by
  refine .bind .trans (.get .refl) fun _ => onCond_sameBinds ?_
  repeat' with_reducible first
    | exact Cond.catWhere_sameBinds _
    | exact .get .refl
    | exact .pure .refl _
    | refine .bind .trans ?_ (fun _ => ?_)
    | refine .ite ?_ ?_

theorem addSelectField_sameCond (selectOption : Nat) :
    AllRel SameCond (addSelectField table column selectOption) := by
  unfold addSelectField catSelect catGroupBy
  cases selectFunction selectOption <;>
  repeat' first
    | with_reducible exact .get .refl
    | with_reducible exact .pure .refl _
    | with_reducible refine .bind .trans ?_ (fun _ => ?_)
    | with_reducible refine .ite ?_ ?_
    | exact .modify fun _ => rfl

theorem catFrom_sameCond (src : Text) : AllRel SameCond (catFrom src) := .modify fun _ => rfl

theorem addSelectFrom_sameCond : AllRel SameCond (addSelectFrom table) := by
  refine .bind .trans (.get .refl) fun _ => .ite ?_ (.pure .refl _)
  refine .bind .trans (catFrom_sameCond _) fun _ => .bind .trans (.modify fun _ => rfl) fun _ => ?_
  exact .bind .trans (catFrom_sameCond _) fun _ => catFrom_sameCond _

/-- A selected column leaves the conditions alone. -/
theorem setTable_sameCond (S : Schema) (column : Int) (selectOption : Nat) (cast : Bool) :
    AllRel SameCond (setTable S column true selectOption cast) := by
  unfold setTable
  cases lookup S column with
  | none => exact .throw .refl _
  | some ci =>
    refine .bind .trans (.modify fun _ => rfl) fun _ => ?_
    exact .bind .trans (addSelectField_sameCond _ _ _) fun _ =>
      .bind .trans (addSelectFrom_sameCond _) fun _ => .pure .refl _

theorem setTable_sameBinds (S : Schema) (column : Int) (sel : Bool) (selectOption : Nat) (cast : Bool) :
    AllRel SameBinds (setTable S column sel selectOption cast) := by
  cases sel with
  | true => exact SameCond.sameBinds (setTable_sameCond S column selectOption cast)
  | false =>
    unfold setTable
    cases lookup S column with
    | none => exact .throw .refl _
    | some ci =>
      refine .bind .trans (.modify fun _ => rfl) fun _ => ?_
      exact .bind .trans (addWhereField_sameBinds _ _ _) fun _ => .pure .refl _

theorem checkAudit_sameCond (session : Session) (column : Int) : AllRel SameCond (checkAudit session column) :=
  .ite (.throw .refl _) (.pure .refl _)

theorem selectColumns_sameCond (S : Schema) (session : Session) : ∀ (cols : List (Int × BitVec 32)) (start : Nat),
    AllRel SameCond (selectColumns S session start cols)
  | [], _ => .pure .refl _
  | (_, _) :: cols, _ =>
    .bind .trans
      (.bind .trans (setTable_sameCond _ _ _ _) fun _ =>
        .bind .trans (checkAudit_sameCond _ _) fun _ => .pure .refl _)
      fun start => selectColumns_sameCond S session cols start

/-- A column that cannot be selected. -/
def Unselectable (S : Schema) (session : Session) (inx : Int) : Prop :=
  lookup S inx = none ∨ inx ≥ COL_AUDIT_RANGE_START ∧ inx ≤ COL_AUDIT_RANGE_END ∧
    session.accessControlPriv ≠ LOCAL_PRIV_USER_AUTH

variable {S : Schema}

theorem setTable_unknown {column : Int} (h : lookup S column = none) (sel : Bool) (opt : Nat) (cast : Bool) {i : Nat} :
    ¬ setTable S column sel opt cast q = .ok i q' := by
  rw [setTable, h]
  exact not_throw_ok

variable {session : Session}

theorem selectColumns_refused : ∀ {cols : List (Int × BitVec 32)},
    (∃ col ∈ cols, Unselectable S session col.1) → ∀ (start : Nat) (q q' : Query) (i : Nat),
      ¬ selectColumns S session start cols q = .ok i q'
  | [], h, _, _, _, _ => by simp at h
  | (inx, value) :: cols, h, start, q, q', i => by
    intro hrun
    obtain ⟨start', q₁, hcol, hrest⟩ := bind_ok.mp hrun
    obtain ⟨table, q₂, htable, haudit⟩ := bind_ok.mp hcol
    obtain ⟨col, hmem, hbad⟩ := h
    rcases List.mem_cons.mp hmem with rfl | hmem
    · rcases hbad with hnone | hbad
      · exact setTable_unknown hnone _ _ _ htable
      · rw [checkAudit, if_pos hbad] at haudit
        exact not_throw_ok haudit
    · exact selectColumns_refused ⟨col, hmem, hbad⟩ _ _ _ _ hrest

/-- The query is refused at a condition, or after all of them, before a literal is taken. -/
def Untaken (S : Schema) : List (Int × Text) → Prop
  | [] => True
  | (inx, value) :: conds =>
    lookup S inx = none ∨ Cond.RefusedFirst (Cond.firstPart (castOption value).2) ∨
      Cond.FewQuotes (castOption value).2 ∧ Untaken S conds

theorem addCondition_eq (S : Schema) (session : Session) (start : Nat) (inx : Int) (value : Text) :
    addCondition S session start inx value = (do
      let prevWhereLen := (← get).cond.whereSQL.length
      let table ← setTable S inx false 0 (castOption value).1
      onCond (Cond.insertCondition (castOption value).2 prevWhereLen)
      checkAudit session inx
      pure (if (S.table table).cycler < 1 then table else start)) := rfl

/-- A condition on an unknown column, or with a first part that is refused, is refused. -/
theorem addCondition_refused {start st : Nat} {inx : Int} {value : Text}
    (h : lookup S inx = none ∨ Cond.RefusedFirst (Cond.firstPart (castOption value).2)) :
    ¬ addCondition S session start inx value q = .ok st q' := by
  rw [addCondition_eq]
  intro hrun
  obtain ⟨_, _, -, hrun⟩ := bind_ok.mp hrun
  obtain ⟨_, _, htable, hrun⟩ := bind_ok.mp hrun
  rcases h with hnone | hrefused
  · exact setTable_unknown hnone _ _ _ htable
  · obtain ⟨_, _, hcond, -⟩ := bind_ok.mp hrun
    obtain ⟨c, hc, -⟩ := onCond_ok.mp hcond
    exact (Cond.insertCondition_refused hrefused _).2 _ _ _ hc

theorem addConditions_sameBinds : ∀ {conds : List (Int × Text)},
    Untaken S conds → ∀ start : Nat, AllRel SameBinds (addConditions S session start conds)
  | [], _, _ => .pure .refl _
  | (inx, value) :: conds, h, start => by
    rcases h with hnone | hrefused | ⟨hfew, hrest⟩
    · refine .bind_refused (.bind .trans (.get .refl) fun _ => ?_) fun _ _ _ =>
        addCondition_refused (.inl hnone)
      exact .bind_refused (setTable_sameBinds _ _ _ _ _) fun _ _ _ => setTable_unknown hnone _ _ _
    · refine .bind_refused (.bind .trans (.get .refl) fun _ => ?_) fun _ _ _ =>
        addCondition_refused (.inr hrefused)
      refine .bind .trans (setTable_sameBinds _ _ _ _ _) fun _ => ?_
      exact .bind .trans (onCond_sameBinds (Cond.insertCondition_refused hrefused _).1) fun _ =>
        .bind .trans (SameCond.sameBinds (checkAudit_sameCond _ _)) fun _ => .pure .refl _
    · refine .bind .trans (.bind .trans (.get .refl) fun _ => ?_) fun start' => ?_
      · refine .bind .trans (setTable_sameBinds _ _ _ _ _) fun _ => ?_
        exact .bind .trans (onCond_sameBinds (Cond.insertCondition_sameBinds hfew _)) fun _ =>
          .bind .trans (SameCond.sameBinds (checkAudit_sameCond _ _)) fun _ => .pure .refl _
      · exact addConditions_sameBinds hrest start'

/-! ## The rest of generateSQL -/

variable {f : α → QueryM Unit}

theorem forM_sameBinds (h : ∀ a, AllRel SameBinds (f a)) : ∀ l : List α,
    AllRel SameBinds (l.forM f)
  | [] => .pure .refl _
  | a :: l => .bind .trans (h a) fun _ => forM_sameBinds h l

theorem linkTables_sameBinds (S : Schema) (startingTable : Nat) :
    AllRel SameBinds (linkTables S startingTable) := by
  intro q
  rw [linkTables, get_bind]
  cases tScan S S.fuel startingTable none ⟨q.flag, q.nToFind, q.fromSQL, q.cond.whereSQL⟩ with
  | none => exact .refl q
  | some r =>
    obtain ⟨keepVal, s⟩ := r
    have hend : AllRel SameBinds
        (if keepVal = false ∨ s.nToFind ≠ 0 then throw (.fail CAT_FAILED_TO_LINK_TABLES) else pure () :
          QueryM Unit) :=
      .ite (.throw .refl _) (.pure .refl _)
    exact hend { q with
      flag := s.flag
      nToFind := s.nToFind
      fromSQL := s.fromSQL
      cond := { q.cond with whereSQL := s.whereSQL } }

theorem handleMultiAVUConditions_sameBinds (metaMain metaMn metamap object : Text) (nConditions : Nat) :
    AllRel SameBinds (handleMultiAVUConditions metaMain metaMn metamap object nConditions) := by
  refine .bind .trans (.modify fun _ => rfl) fun _ => ?_
  refine .bind .trans (forM_sameBinds (fun _ => SameCond.sameBinds (catFrom_sameCond _)) _) fun _ => ?_
  refine forM_sameBinds (fun _ => onCond_sameBinds ?_) _
  exact .bind .trans (Cond.catWhere_sameBinds _) fun _ => Cond.catWhere_sameBinds _

theorem handleMultiConditions_sameBinds (inp : GenQueryInp) : AllRel SameBinds (handleMultiConditions inp) := by
  unfold handleMultiConditions handleMultiDataAVUConditions handleMultiCollAVUConditions
  repeat' with_reducible first
    | exact handleMultiAVUConditions_sameBinds _ _ _ _ _
    | exact .pure .refl _
    | exact .throw .refl _
    | refine .bind .trans ?_ (fun _ => ?_)
    | refine .ite ?_ ?_

/-- The computation ends with no other errors. -/
abbrev Errors {σ α : Type} (E : Stop → Prop) (m : EStateM Stop σ α) : Prop :=
  Triple E (fun _ => True) m fun _ _ => True

section

variable {E : Stop → Prop}

theorem onCond_errors (h : Errors E m) : Errors E (onCond m) := by
  intro q _
  have hc := h q.cond trivial
  unfold onCond
  cases hrun : m q.cond with
  | ok a c => trivial
  | error e c =>
    rw [hrun] at hc
    exact hc

/-- The access check has no error. -/
theorem genqAppendAccessCheck_errors (session : Session) (selectSQL : Text) :
    Errors E (genqAppendAccessCheck session selectSQL) := by
  unfold genqAppendAccessCheck appendDataCheck appendCollCheck catAnd userAndZone pushUnchecked Cond.catWhere
  repeat' first
    | with_reducible exact .pure fun _ _ => trivial
    | with_reducible refine .bind (Q := fun _ _ => True) ?_ (fun _ => ?_)
    | with_reducible refine .ite (fun _ => ?_) (fun _ => ?_)
    | exact fun _ _ => trivial

theorem forM_errors (h : ∀ a, Errors E (f a)) : ∀ l : List α, Errors E (l.forM f)
  | [] => .pure fun _ _ => trivial
  | a :: l => .bind (h a) fun _ => forM_errors h l

theorem addOrderBy_errors (column : Column) : Errors E (addOrderBy column) := by
  unfold addOrderBy catOrderBy
  repeat' first
    | with_reducible exact .pure fun _ _ => trivial
    | with_reducible refine .bind (Q := fun _ _ => True) ?_ (fun _ => ?_)
    | with_reducible refine .ite (fun _ => ?_) (fun _ => ?_)
    | exact fun _ _ => trivial

theorem setOrderBy_errors (S : Schema) (inp : GenQueryInp) (column : Int) :
    Errors E (setOrderBy S inp column) := by
  refine forM_errors (fun (inx, value) => .ite (fun _ => ?_) fun _ => .pure fun _ _ => trivial) _
  cases firstColumn S column with
  | none => exact .pure fun _ _ => trivial
  | some c => exact addOrderBy_errors c

theorem setOrderByUser_errors (S : Schema) (inp : GenQueryInp) :
    Errors E (setOrderByUser S inp) := by
  refine forM_errors (fun (inx, value) => .ite (fun _ => ?_) fun _ => .pure fun _ _ => trivial) _
  cases firstColumn S inx with
  | none => exact .pure fun _ _ => trivial
  | some c =>
    exact .bind (addOrderBy_errors c) fun _ =>
      .ite (fun _ => .modify fun _ _ => trivial) fun _ => .pure fun _ _ => trivial

/-- Only the row offset can go wrong when the parts are put together. -/
theorem combine_errors (S : Schema) (session : Session) {inp : GenQueryInp}
    (h : ∀ sql, Errors E (addOffset inp sql)) : Errors E (combine S session inp) := by
  refine .bind (Q := fun _ _ => True) (fun _ _ => trivial) fun q => ?_
  refine .bind (onCond_errors (genqAppendAccessCheck_errors _ _)) fun _ => ?_
  refine .bind (Q := fun _ _ => True) (fun _ _ => trivial) fun q' => ?_
  refine .bind (Q := fun _ _ => True) (fun _ _ => trivial) fun _ => ?_
  refine .bind (setOrderByUser_errors S inp) fun _ => ?_
  refine .bind (setOrderBy_errors S inp _) fun _ => ?_
  refine .bind (setOrderBy_errors S inp _) fun _ => ?_
  refine .bind (setOrderBy_errors S inp _) fun _ => ?_
  exact .bind (Q := fun _ _ => True) (fun _ _ => trivial) fun _ => h _

end

theorem pokes_neverRefused (b : Buffer) : ∀ (s : Text) (ix : Nat),
    Errors (· = .overrun) (Cond.pokes b ix s)
  | [], _ => .pure fun _ _ => trivial
  | _ :: s, ix =>
    .bind (.ite (fun _ => .modify fun _ _ => trivial) fun _ => .throw rfl) fun _ =>
      pokes_neverRefused b s (ix + 1)

theorem addOffset_neverRefused (inp : GenQueryInp) (sql : Text) :
    Errors (· = .overrun) (addOffset inp sql) := by
  refine .ite (fun _ => ?_) fun _ => .pure fun _ _ => trivial
  refine .bind (onCond_errors ?_) fun _ => .pure fun _ _ => trivial
  exact .bind (pokes_neverRefused _ _ _) fun _ => .modify fun _ _ => trivial

/-- The parts are put together without a refusal. -/
theorem combine_neverRefused (S : Schema) (session : Session) (inp : GenQueryInp) :
    Errors (· = .overrun) (combine S session inp) :=
  combine_errors S session (addOffset_neverRefused inp)

/-- A query that is refused before a literal is taken leaves the bind variables. -/
theorem generateSQL_refused {inp : GenQueryInp} {status : Int}
    (h : (∃ col ∈ inp.selectInp, Unselectable S session col.1) ∨ Untaken S inp.sqlCondInp)
    (hrun : generateSQL S session inp q = .error (.fail status) q') : q'.cond.cllBindVars = q.cond.cllBindVars := by
  have hstart : SameBinds q (start inp q) := rfl
  unfold generateSQL at hrun
  rw [modify_bind] at hrun
  suffices hsame : SameBinds (start inp q) q' from hstart.trans _ _ _ hsame
  have hselect := SameCond.sameBinds (selectColumns_sameCond S session inp.selectInp 0)
  obtain hcolumns | ⟨startingTable, q₁, hcolumns, hrun⟩ := bind_error.mp hrun
  · obtain hcols | ⟨start₁, q₀, hcols, hconds⟩ := bind_error.mp hcolumns
    · exact hselect.error hcols
    · rcases h with hbad | huntaken
      · exact absurd hcols (selectColumns_refused hbad _ _ _ _)
      · exact (hselect.ok hcols).trans _ _ _ ((addConditions_sameBinds huntaken _).error hconds)
  · obtain ⟨start₁, q₀, hcols, hconds⟩ := bind_ok.mp hcolumns
    rcases h with hbad | huntaken
    · exact absurd hcols (selectColumns_refused hbad _ _ _ _)
    · have hbefore : SameBinds (start inp q) q₁ :=
        (hselect.ok hcols).trans _ _ _ ((addConditions_sameBinds huntaken _).ok hconds)
      refine hbefore.trans _ _ _ ?_
      obtain hlink | ⟨_, q₂, hlink, hrun⟩ := bind_error.mp hrun
      · exact (linkTables_sameBinds S _).error hlink
      · refine ((linkTables_sameBinds S _).ok hlink).trans _ _ _ ?_
        obtain hmulti | ⟨_, q₃, hmulti, hcombine⟩ := bind_error.mp hrun
        · exact (handleMultiConditions_sameBinds inp).error hmulti
        · cases (combine_neverRefused S session inp).error trivial hcombine

end Query

end GenQuery
