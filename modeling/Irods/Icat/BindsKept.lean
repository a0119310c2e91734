-- SUMMARY: A bound value stays as it is while conditions are added.
import Irods.Icat.Clauses
import Mathlib.Data.List.GetD
import Mathlib.Data.List.TakeWhile

/-!
# Bind variables are kept

`bindVars` is written at `bindIx` and beyond, and `cllBindVars` grows at its end. So what a
pointer below `bindIx` points to does not change until the query is run.
-/

namespace GenQuery

open CString EStateM

variable {c c' : Cond} {ix : Nat} {p : Buffer × Nat} {u : Unit}

namespace Cond

/-- What is bound stays bound, and the used part of `bindVars` stays as it is. -/
structure Kept (c c' : Cond) : Prop where
  binds : c.cllBindVars <+: c'.cllBindVars
  ix    : c.bindIx ≤ c'.bindIx
  mem   : ∀ i < c.bindIx, c'.mem .bindVars i = c.mem .bindVars i

theorem Kept.refl (c : Cond) : Kept c c := ⟨List.prefix_rfl, le_refl _, fun _ _ => rfl⟩

theorem Kept.trans (c₁ c₂ c₃ : Cond) (h : Kept c₁ c₂) (h' : Kept c₂ c₃) : Kept c₁ c₃ where
  binds := h.binds.trans h'.binds
  ix := h.ix.trans h'.ix
  mem i hi := (h'.mem i (lt_of_lt_of_le hi h.ix)).trans (h.mem i hi)

/-- A change of anything but the buffer and the pointers. -/
theorem Kept.of_eq (hbinds : c'.cllBindVars = c.cllBindVars) (hix : c'.bindIx = c.bindIx) (hmem : c'.mem = c.mem) :
    Kept c c' where
  binds := by rw [hbinds]
  ix := by rw [hix]
  mem i _ := by rw [hmem]

theorem catWhere_kept (src : Text) : OkRel Kept (catWhere src) :=
  .modify fun _ => .of_eq rfl rfl rfl

/-! ## Copying a value -/

variable {b : Buffer}

theorem poke_ok {ch : Char} (h : poke b ix ch c = .ok u c') :
    ix < b.size ∧ c' = { c with mem := fun b' i => if b' = b ∧ i = ix then ch else c.mem b' i } := by
  unfold poke at h
  split at h
  · rename_i hlt
    exact ⟨hlt, modify_ok.mp h⟩
  · exact absurd h not_throw_ok

/-- Writing a text changes the cells of the text and no others. -/
theorem pokes_ok : ∀ {s : Text} {ix : Nat} {c c' : Cond} {u : Unit},
    pokes b ix s c = .ok u c' →
    c' = { c with mem := fun b' i =>
      if b' = b ∧ ix ≤ i ∧ i < ix + s.length then s.getD (i - ix) '\x00' else c.mem b' i } ∧
    (s ≠ [] → ix + s.length ≤ b.size) := by
  intro s
  induction s with
  | nil =>
    intro ix c c' u h
    obtain ⟨-, rfl⟩ := pure_ok.mp h
    refine ⟨?_, fun hne => absurd rfl hne⟩
    have hmem : (fun b' i => if b' = b ∧ ix ≤ i ∧ i < ix + ([] : Text).length then
        ([] : Text).getD (i - ix) '\x00' else c.mem b' i) = c.mem := by
      funext b' i
      rw [if_neg]
      rintro ⟨-, hle, hlt⟩
      simp only [List.length_nil] at hlt
      omega
    rw [hmem]
  | cons ch s ih =>
    intro ix c c' u h
    rw [pokes, bind_ok] at h
    obtain ⟨_, c₁, hpoke, h⟩ := h
    obtain ⟨hlt, rfl⟩ := poke_ok hpoke
    obtain ⟨rfl, hsize⟩ := ih h
    refine ⟨?_, fun _ => ?_⟩
    · congr 1
      funext b' i
      by_cases hb : b' = b
      · subst hb
        obtain hlow | rfl | hhigh := Nat.lt_trichotomy i ix
        · simp [show ¬ ix + 1 ≤ i by omega, show ¬ ix ≤ i by omega, show i ≠ ix by omega]
        · simp [show ¬ i + 1 ≤ i by omega]
        · obtain ⟨j, rfl⟩ : ∃ j, i = ix + (j + 1) := ⟨i - ix - 1, by omega⟩
          have hsub : ix + (j + 1) - (ix + 1) = j := by omega
          have hsub' : ix + (j + 1) - ix = j + 1 := by omega
          simp only [hsub, hsub', List.length_cons, List.getD_cons_succ, true_and]
          have hiff : (ix + 1 ≤ ix + (j + 1) ∧ ix + (j + 1) < ix + 1 + s.length) ↔
              (ix ≤ ix + (j + 1) ∧ ix + (j + 1) < ix + (s.length + 1)) := by omega
          simp only [hiff, show ix + (j + 1) ≠ ix by omega, if_false]
      · simp [hb]
    · by_cases hs : s = []
      · subst hs
        exact hlt
      · have := hsize hs
        rw [List.length_cons]
        omega

theorem poke_kept (hb : b ≠ .bindVars) (ix : Nat) (ch : Char) : OkRel Kept (poke b ix ch) := by
  intro c u c' h
  obtain ⟨-, rfl⟩ := poke_ok h
  refine ⟨List.prefix_rfl, le_refl _, fun i _ => ?_⟩
  show (if Buffer.bindVars = b ∧ i = ix then ch else _) = _
  rw [if_neg (fun h => hb h.1.symm)]

theorem pokes_kept (hb : b ≠ .bindVars) : ∀ (s : Text) (ix : Nat),
    OkRel Kept (pokes b ix s)
  | [], _ => .pure .refl _
  | _ :: s, ix => .bind .trans (poke_kept hb ix _) fun _ => pokes_kept hb s (ix + 1)

theorem push_ok (h : push p c = .ok u c') : c' = { c with cllBindVars := c.cllBindVars ++ [p] } := by
  unfold push at h
  rw [bind_ok] at h
  obtain ⟨c₀, c₁, hget, h⟩ := h
  obtain ⟨rfl, rfl⟩ := get_ok.mp hget
  split at h
  · obtain ⟨_, _, h, -⟩ := bind_ok.mp h
    exact absurd h not_throw_ok
  · exact set_ok.mp h

theorem push_kept (p : Buffer × Nat) : OkRel Kept (push p) := by
  intro c u c' h
  obtain rfl := push_ok h
  exact ⟨List.prefix_append _ _, le_refl _, fun _ _ => rfl⟩

theorem copyBind_kept (hb : b ≠ .bindVars) (ix : Nat) (src : Text) (ncopy : Nat) :
    OkRel Kept (copyBind b ix src ncopy) := by
  refine .bind .trans (.ite (.pure .refl _) (pokes_kept hb _ _)) fun _ => ?_
  exact .bind .trans (poke_kept hb _ _) fun _ => push_kept _

theorem kept_respected : Respected Kept :=
  ⟨.refl, .trans, catWhere_kept, copyBind_kept⟩

/-! ## The value of a pointer -/

/-- The text is in the buffer, with its end. -/
structure Stored (c : Cond) (b : Buffer) (ix : Nat) (v : Text) : Prop where
  fits : ix + v.length < b.size
  text : ∀ j < v.length, c.mem b (ix + j) = v.getD j '\x00'
  stop : c.mem b (ix + v.length) = '\x00'

variable {v condition : Text}

/-- A pointer is read up to the first end. -/
theorem Stored.deref_eq (h : Stored c b ix v) : c.deref (b, ix) = v.takeWhile (· ≠ '\x00') := by
  obtain ⟨n, hn⟩ : ∃ n, b.size - ix = v.length + (n + 1) := by
    have := h.fits
    exact ⟨b.size - ix - v.length - 1, by omega⟩
  have htext : (List.range' ix v.length).map (c.mem b) = v := by
    apply List.ext_getElem
    · simp
    · intro j hj hj'
      simp only [List.getElem_map, List.getElem_range', Nat.one_mul]
      rw [h.text j hj', List.getD_eq_getElem _ _ hj']
  have hcells : (List.range' ix (b.size - ix)).map (c.mem b) =
      v ++ '\x00' :: (List.range' (ix + v.length + 1) n).map (c.mem b) := by
    rw [hn, ← List.range'_append_1, List.map_append, htext, List.range'_succ, List.map_cons, h.stop]
  unfold Cond.deref
  rw [hcells, takeWhile_stop (by decide)]

theorem Stored.deref (h : Stored c b ix v) (hv : '\x00' ∉ v) : c.deref (b, ix) = v := by
  rw [h.deref_eq, List.takeWhile_eq_self_iff]
  intro ch hch
  exact decide_eq_true fun heq => hv (heq ▸ hch)

/-- The text is in the used part of `bindVars`, with its end. -/
structure Holds (c : Cond) (ix : Nat) (v : Text) : Prop where
  used : ix + v.length < c.bindIx
  fits : ix + v.length < Buffer.bindVars.size
  text : ∀ j < v.length, c.mem .bindVars (ix + j) = v.getD j '\x00'
  stop : c.mem .bindVars (ix + v.length) = '\x00'

theorem Holds.kept (h : Holds c ix v) (hkept : Kept c c') :
    Holds c' ix v where
  used := lt_of_lt_of_le h.used hkept.ix
  fits := h.fits
  text j hj := by
    have := h.used
    rw [hkept.mem _ (by omega)]
    exact h.text j hj
  stop := by rw [hkept.mem _ h.used]; exact h.stop

theorem Holds.stored (h : Holds c ix v) : Stored c .bindVars ix v :=
  ⟨h.fits, h.text, h.stop⟩

theorem Holds.deref (h : Holds c ix v) (hv : '\x00' ∉ v) :
    c.deref (.bindVars, ix) = v := h.stored.deref hv

theorem Holds.length_deref (h : Holds c ix v) : (c.deref (.bindVars, ix)).length ≤ v.length := by
  rw [h.stored.deref_eq]
  exact (List.takeWhile_prefix _).length_le

variable {first second : Nat}

/-- The literal is copied behind the others, and a pointer to it is the last bind variable. -/
theorem bindLiteral_ok (h : bindLiteral condition first second c = .ok u c') :
    Kept c c' ∧ c'.cllBindVars = c.cllBindVars ++ [(.bindVars, c.bindIx)] ∧
      Holds c' c.bindIx ((condition.take second).drop (first + 1)) ∧ c'.whereSQL = c.whereSQL := by
  unfold bindLiteral at h
  rw [bind_ok] at h
  obtain ⟨c₀, c₁, hget, h⟩ := h
  obtain ⟨rfl, rfl⟩ := get_ok.mp hget
  rw [bind_ok] at h
  obtain ⟨_, c₂, hpokes, h⟩ := h
  obtain ⟨rfl, hsize⟩ := pokes_ok hpokes
  obtain ⟨_, c₃, hmodify, h⟩ := bind_ok.mp h
  obtain rfl := modify_ok.mp hmodify
  obtain rfl := push_ok h
  have hsize := hsize (by simp)
  rw [List.length_append, List.length_singleton] at hsize
  refine ⟨⟨List.prefix_append _ _, ?_, fun i hi => ?_⟩, rfl, ⟨?_, ?_, fun j hj => ?_, ?_⟩, rfl⟩
  · show c₁.bindIx ≤ c₁.bindIx + _ + 1
    omega
  · show (if _ ∧ c₁.bindIx ≤ i ∧ _ then _ else _) = _
    rw [if_neg (by omega)]
  · show c₁.bindIx + _ < c₁.bindIx + _ + 1
    omega
  · omega
  · show (if Buffer.bindVars = Buffer.bindVars ∧ _ then _ else _) = _
    rw [if_pos ⟨rfl, by omega, by rw [List.length_append, List.length_singleton]; omega⟩]
    rw [Nat.add_sub_cancel_left, List.getD_append _ _ _ _ hj]
  · show (if Buffer.bindVars = Buffer.bindVars ∧ _ then _ else _) = _
    rw [if_pos ⟨rfl, by omega, by rw [List.length_append, List.length_singleton]; omega⟩]
    rw [Nat.add_sub_cancel_left, List.getD_append_right _ _ _ _ (le_refl _), Nat.sub_self]
    rfl

/-- Undoing a bind variable for `parent_of` undoes the one that was pushed for it. -/
theorem addComparison_kept {tmpStr literal : Text} {c₀ : Cond} (hkept : Kept c₀ c)
    (hpush : c.cllBindVars = c₀.cllBindVars ++ [p]) (h : addComparison tmpStr literal c = .ok u c') : Kept c₀ c' := by
  unfold addComparison at h
  split at h
  · refine hkept.trans _ _ _ (OkRel.apply ?_ h)
    repeat' with_reducible first
      | exact catWhere_kept _
      | exact .get .refl
      | exact .pure .refl _
      | exact .throw _
      | refine .bind .trans ?_ (fun _ => ?_)
      | refine .ite ?_ ?_
  split at h
  · obtain ⟨_, c₁, hmodify, h⟩ := bind_ok.mp h
    obtain rfl := modify_ok.mp hmodify
    have hbinds : c₀.cllBindVars <+: c.cllBindVars.dropLast := by rw [hpush, List.dropLast_concat]
    have hundone : Kept c₀ { c with cllBindVars := c.cllBindVars.dropLast } :=
      ⟨hbinds, hkept.ix, hkept.mem⟩
    refine hundone.trans _ _ _ (OkRel.apply ?_ h)
    exact .bind .trans (kept_respected.inClauseForParentOf _) fun _ =>
      .ite (.throw _) (.pure .refl _)
  · refine hkept.trans _ _ _ (OkRel.apply ?_ h)
    exact .bind .trans (catWhere_kept _) fun _ => .ite (.throw _) (.pure .refl _)

/-- The condition has none of the forms that are handled apart. -/
def IsComparison (condition : Text) : Prop :=
  startsWith "in".toList "IN".toList condition = false ∧
    startsWith "between".toList "BETWEEN".toList condition = false ∧
    condition ≠ isNull ∧ condition ≠ isNotNull

theorem insertWhere_steps (hcomp : IsComparison condition) (h : insertWhere condition c = .ok u c') :
    ∃ first second c₁, quotes condition = some (first, second) ∧
      bindLiteral condition first second { c with bindIx := c.bindIx + 1 } = .ok () c₁ ∧
      addComparison (' ' :: condition.take first) ((condition.take second).drop (first + 1)) c₁ =
        .ok u c' := by
  obtain ⟨hin, hbetween, hnull, hnotNull⟩ := hcomp
  unfold insertWhere at h
  simp only [hin, hbetween, hnull, hnotNull, Bool.false_eq_true, if_false, false_or] at h
  obtain ⟨_, c₁, hmodify, h⟩ := bind_ok.mp h
  obtain rfl := modify_ok.mp hmodify
  cases hquotes : quotes condition with
  | none =>
    simp only [hquotes] at h
    exact absurd h not_throw_ok
  | some ends =>
    obtain ⟨first, second⟩ := ends
    simp only [hquotes] at h
    obtain ⟨c₂, c₃, hget, h⟩ := bind_ok.mp h
    obtain ⟨rfl, rfl⟩ := get_ok.mp hget
    obtain ⟨-, h⟩ := guard_ok.mp h
    obtain ⟨_, c₁, hbind, h⟩ := bind_ok.mp h
    obtain ⟨-, h⟩ := guard_ok.mp h
    obtain ⟨-, h⟩ := guard_ok.mp h
    exact ⟨first, second, c₁, rfl, hbind, h⟩

theorem insertWhere_kept (condition : Text) : OkRel Kept (insertWhere condition) := by
  intro c u c' h
  have hrun := h
  unfold insertWhere at h
  split at h
  · exact kept_respected.inClauseForIn _ (fun _ _ => .of_eq rfl rfl rfl) _ _ _ h
  split at h
  · exact kept_respected.betweenClause _ _ _ _ h
  split at h
  · refine OkRel.apply ?_ h
    exact .bind .trans (catWhere_kept _) fun _ => .bind .trans (catWhere_kept _) fun _ => catWhere_kept _
  · rename_i hin hbetween hnull
    rw [not_or] at hnull
    obtain ⟨first, second, c₁, -, hbind, hadd⟩ :=
      insertWhere_steps ⟨Bool.eq_false_iff.mpr hin, Bool.eq_false_iff.mpr hbetween, hnull⟩ hrun
    obtain ⟨hkept, hpush, -, -⟩ := bindLiteral_ok hbind
    have hnext : Kept c { c with bindIx := c.bindIx + 1 } :=
      ⟨List.prefix_rfl, Nat.le_succ _, fun _ _ => rfl⟩
    exact addComparison_kept (hnext.trans _ _ _ hkept) hpush hadd

theorem compoundLoop_kept (tabAndColumn : Text) : ∀ (fuel : Nat) (condPart1 : Text),
    OkRel Kept (compoundLoop tabAndColumn fuel condPart1) := by
  intro fuel
  induction fuel with
  | zero => exact fun _ => .throw _
  | succ fuel ih =>
    intro condPart1
    unfold compoundLoop copyForBind
    repeat' with_reducible first
      | exact catWhere_kept _
      | exact insertWhere_kept _
      | exact ih _
      | exact .get .refl
      | exact .pure .refl _
      | exact .throw _
      | exact .modify fun _ => .of_eq rfl rfl rfl
      | refine .bind .trans ?_ (fun _ => ?_)
      | refine .ite ?_ ?_
      | split

theorem handleCompoundCondition_kept (condition : Text) (prevWhereLen : Nat) :
    OkRel Kept (handleCompoundCondition condition prevWhereLen) := by
  intro c u c' h
  unfold handleCompoundCondition at h
  rw [bind_ok] at h
  obtain ⟨c₀, c₁, hget, h⟩ := h
  obtain ⟨rfl, rfl⟩ := get_ok.mp hget
  rw [bind_ok] at h
  obtain ⟨_, c₂, hset, h⟩ := h
  obtain rfl := set_ok.mp hset
  have hrest : OkRel Kept (catWhere " ( ".toList >>= fun _ =>
      compoundLoop (c₁.whereSQL.drop (skipAnd c₁.whereSQL prevWhereLen)) (condition.length + 1)
        condition >>= fun _ => catWhere " ) ".toList) :=
    .bind .trans (catWhere_kept _) fun _ =>
      .bind .trans (compoundLoop_kept _ _ _) fun _ => catWhere_kept _
  have htaken : Kept c₁ { c₁ with whereSQL := c₁.whereSQL.take (skipAnd c₁.whereSQL prevWhereLen) } :=
    .of_eq rfl rfl rfl
  exact htaken.trans _ _ _ (hrest _ _ _ h)

/-- What a run of `insertWhere` did that added one comparison. -/
structure Compared (c : Cond) (operator literal : Text) (c' : Cond) : Prop where
  binds    : c'.cllBindVars = c.cllBindVars ++ [(.bindVars, c.bindIx + 1)]
  holds    : Holds c' (c.bindIx + 1) literal
  whereSQL : c'.whereSQL = rstrcat c.whereSQL (operator ++ "? ".toList) maxSQL

/-- A comparison whose operator is neither `begin_of` nor `parent_of`. -/
theorem insertWhere_compared (hcomp : IsComparison condition) (hquotes : quotes condition = some (first, second))
    (hbegin : occurs "begin_of".toList (' ' :: condition.take first) = false)
    (hparent : occurs "parent_of".toList (' ' :: condition.take first) = false)
    (h : insertWhere condition c = .ok u c') :
    Compared c (' ' :: condition.take first) ((condition.take second).drop (first + 1)) c' := by
  obtain ⟨first', second', c₁, hquotes', hbind, hadd⟩ := insertWhere_steps hcomp h
  rw [hquotes, Option.some.injEq, Prod.mk.injEq] at hquotes'
  obtain ⟨rfl, rfl⟩ := hquotes'
  obtain ⟨-, hpush, hholds, hwhere⟩ := bindLiteral_ok hbind
  unfold addComparison at hadd
  simp only [hbegin, hparent, Bool.false_eq_true, if_false] at hadd
  obtain ⟨_, c₂, hcat, hadd⟩ := bind_ok.mp hadd
  obtain rfl := modify_ok.mp hcat
  split at hadd
  · exact absurd hadd not_throw_ok
  · obtain ⟨-, rfl⟩ := pure_ok.mp hadd
    refine ⟨hpush, hholds.kept (.of_eq rfl rfl rfl), ?_⟩
    rw [hwhere]

end Cond

namespace Query

/-- What is bound stays bound. -/
def Kept (q q' : Query) : Prop := Cond.Kept q.cond q'.cond

theorem Kept.refl (q : Query) : Kept q q := Cond.Kept.refl q.cond

theorem Kept.trans (q₁ q₂ q₃ : Query) (h : Kept q₁ q₂) (h' : Kept q₂ q₃) : Kept q₁ q₃ :=
  Cond.Kept.trans _ _ _ h h'

theorem onCond_kept {α : Type} {m : CondM α} (h : OkRel Cond.Kept m) : OkRel Kept (onCond m) := by
  intro q a q' hrun
  obtain ⟨c, hc, rfl⟩ := onCond_ok.mp hrun
  exact h _ _ _ hc

theorem compoundConditionSpecified_ok {condition : Text} {b : Bool}
    (h : Cond.compoundConditionSpecified condition c = .ok b c') :
    c' = c ∧ b = (Cond.hasOperator condition && Cond.hasOperator (Cond.eraseQuoted false condition)) := by
  unfold Cond.compoundConditionSpecified at h
  split at h
  · rename_i hnone
    obtain ⟨rfl, rfl⟩ := pure_ok.mp h
    exact ⟨rfl, by rw [hnone, Bool.false_and]⟩
  · rename_i hsome
    split at h
    · exact absurd h not_throw_ok
    · obtain ⟨rfl, rfl⟩ := pure_ok.mp h
      rw [Bool.not_eq_false] at hsome
      exact ⟨rfl, by rw [hsome, Bool.true_and]⟩

theorem addWhereField_kept (table : Table) (column : Column) (cast : Bool) :
    OkRel Kept (addWhereField table column cast) := by
  intro q u q' h
  unfold addWhereField at h
  obtain ⟨q₀, q₁, hget, h⟩ := bind_ok.mp h
  obtain ⟨rfl, rfl⟩ := get_ok.mp hget
  refine onCond_kept ?_ _ _ _ h
  repeat' with_reducible first
    | exact Cond.catWhere_kept _
    | exact .get .refl
    | exact .pure .refl _
    | refine .bind .trans ?_ (fun _ => ?_)
    | refine .ite ?_ ?_

variable (S : Schema) (session : Session) (inp : GenQueryInp)

theorem setTable_kept (column : Int) (opt : Nat) (cast : Bool) : OkRel Kept (setTable S column false opt cast) := by
  unfold setTable
  cases lookup S column with
  | none => exact .throw _
  | some ci =>
    refine .bind .trans (.modify fun _ => .refl _) fun _ => ?_
    exact .bind .trans (addWhereField_kept _ _ _) fun _ => .pure .refl _

theorem checkAudit_kept (column : Int) : OkRel Kept (checkAudit session column) := by
  exact .ite (.throw _) (.pure .refl _)

theorem compoundConditionSpecified_kept (condition : Text) :
    OkRel Cond.Kept (Cond.compoundConditionSpecified condition) := by
  intro c b c' h
  rw [(compoundConditionSpecified_ok h).1]
  exact .refl c

theorem addCondition_kept (start : Nat) (inx : Int) (value : Text) :
    OkRel Kept (addCondition S session start inx value) := by
  refine .bind .trans (.get .refl) fun _ => .bind .trans (setTable_kept _ _ _ _) fun _ => ?_
  refine .bind .trans (onCond_kept ?_) fun _ =>
    .bind .trans (checkAudit_kept _ _) fun _ => .pure .refl _
  exact .bind .trans (compoundConditionSpecified_kept _) fun _ =>
    .ite (Cond.handleCompoundCondition_kept _ _) (Cond.insertWhere_kept _)

theorem addConditions_kept : ∀ (conds : List (Int × Text)) (start : Nat),
    OkRel Kept (addConditions S session start conds) := by
  intro conds
  induction conds with
  | nil => exact fun _ => .pure .refl _
  | cons cond conds ih =>
    exact fun start => .bind .trans (addCondition_kept S session start _ _) fun _ => ih _

/-! ## The rest of generateSQL -/

theorem forM_kept {α : Type} {f : α → QueryM Unit} (h : ∀ a, OkRel Kept (f a)) : ∀ l : List α,
    OkRel Kept (l.forM f)
  | [] => .pure .refl _
  | a :: l => .bind .trans (h a) fun _ => forM_kept h l

theorem catFrom_kept (src : Text) : OkRel Kept (catFrom src) := .modify fun q => Cond.Kept.refl q.cond

theorem catOrderBy_kept (src : Text) : OkRel Kept (catOrderBy src) :=
  .modify fun q => Cond.Kept.refl q.cond

theorem linkTables_kept (startingTable : Nat) : OkRel Kept (linkTables S startingTable) := by
  intro q u q' h
  unfold linkTables at h
  rw [bind_ok] at h
  obtain ⟨q₀, q₁, hget, h⟩ := h
  obtain ⟨rfl, rfl⟩ := get_ok.mp hget
  cases hscan : tScan S S.fuel startingTable none ⟨q₁.flag, q₁.nToFind, q₁.fromSQL, q₁.cond.whereSQL⟩ with
  | none =>
    simp only [hscan] at h
    exact absurd h not_throw_ok
  | some r =>
    simp only [hscan] at h
    obtain ⟨_, q₂, hset, h⟩ := bind_ok.mp h
    obtain rfl := set_ok.mp hset
    split at h
    · exact absurd h not_throw_ok
    · obtain ⟨-, rfl⟩ := pure_ok.mp h
      exact Cond.Kept.of_eq rfl rfl rfl

theorem handleMultiAVUConditions_kept (metaMain metaMn metamap object : Text) (nConditions : Nat) :
    OkRel Kept (handleMultiAVUConditions metaMain metaMn metamap object nConditions) := by
  refine .bind .trans (.modify fun _ => Cond.Kept.of_eq rfl rfl rfl) fun _ => ?_
  refine .bind .trans (forM_kept (fun _ => catFrom_kept _) _) fun _ => ?_
  refine forM_kept (fun _ => onCond_kept ?_) _
  exact .bind .trans (Cond.catWhere_kept _) fun _ => Cond.catWhere_kept _

theorem handleMultiConditions_kept : OkRel Kept (handleMultiConditions inp) := by
  unfold handleMultiConditions handleMultiDataAVUConditions handleMultiCollAVUConditions
  repeat' with_reducible first
    | exact handleMultiAVUConditions_kept _ _ _ _ _
    | exact .pure .refl _
    | exact .throw _
    | refine .bind .trans ?_ (fun _ => ?_)
    | refine .ite ?_ ?_

theorem genqAppendAccessCheck_kept (selectSQL : Text) :
    OkRel Cond.Kept (genqAppendAccessCheck session selectSQL) := by
  have hpush (p : Buffer × Nat) : OkRel Cond.Kept (pushUnchecked p) :=
    .modify fun _ => ⟨List.prefix_append _ _, le_refl _, fun _ _ => rfl⟩
  unfold genqAppendAccessCheck appendDataCheck appendCollCheck catAnd userAndZone
  repeat' with_reducible first
    | exact Cond.catWhere_kept _
    | exact hpush _
    | exact .get .refl
    | exact .pure .refl _
    | refine .bind .trans ?_ (fun _ => ?_)
    | refine .ite ?_ ?_

theorem addOrderBy_kept (column : Column) : OkRel Kept (addOrderBy column) := by
  unfold addOrderBy
  repeat' with_reducible first
    | exact catOrderBy_kept _
    | exact .get .refl
    | exact .pure .refl _
    | refine .bind .trans ?_ (fun _ => ?_)
    | refine .ite ?_ ?_

theorem setOrderBy_kept (column : Int) : OkRel Kept (setOrderBy S inp column) := by
  refine forM_kept (fun field => ?_) _
  refine .ite ?_ (.pure .refl _)
  cases firstColumn S column with
  | none => exact .pure .refl _
  | some c => exact addOrderBy_kept c

theorem setOrderByUser_kept : OkRel Kept (setOrderByUser S inp) := by
  refine forM_kept (fun field => ?_) _
  obtain ⟨inx, value⟩ := field
  refine .ite ?_ (.pure .refl _)
  cases firstColumn S inx with
  | none => exact .pure .refl _
  | some c =>
    exact .bind .trans (addOrderBy_kept c) fun _ => .ite (catOrderBy_kept _) (.pure .refl _)

theorem addOffset_kept (sql : Text) : OkRel Kept (addOffset inp sql) := by
  refine .ite (.bind .trans (onCond_kept ?_) fun _ => .pure .refl _) (.pure .refl _)
  exact .bind .trans (Cond.pokes_kept (by decide) _ _) fun _ =>
    .modify fun _ => ⟨List.prefix_append _ _, le_refl _, fun _ _ => rfl⟩

theorem combine_kept : OkRel Kept (combine S session inp) := by
  refine .bind .trans (.get .refl) fun _ => ?_
  refine .bind .trans (onCond_kept (genqAppendAccessCheck_kept _ _)) fun _ => ?_
  refine .bind .trans (.get .refl) fun _ => ?_
  refine .bind .trans (.modify fun q => Cond.Kept.refl q.cond) fun _ => ?_
  refine .bind .trans (setOrderByUser_kept _ _) fun _ => ?_
  refine .bind .trans (setOrderBy_kept _ _ _) fun _ => ?_
  refine .bind .trans (setOrderBy_kept _ _ _) fun _ => ?_
  refine .bind .trans (setOrderBy_kept _ _ _) fun _ => ?_
  exact .bind .trans (.get .refl) fun _ => addOffset_kept _ _

end Query

end GenQuery
