-- SUMMARY: Which values of a rule query are bound as they are.
import Irods.Icat.RuleQuery

/-!
# Values of rule queries

A condition with an operator and a string adds the column, the operator and a `?` to the
WHERE part and binds the string, if the string fits, does not split up, and the WHERE part
has room. Any other condition that is accepted binds a shorter string first.
-/

namespace GenQuery

open CString EStateM
open List (append_assoc length_append)

namespace Query

/-! ## Two tables of the catalog -/

/-- Two of the tables of the catalog with their link; the name of the second is part of
the name of the first. -/
def dvmSchema : Schema where
  tables := [⟨"R_RULE_DVM_MAP".toList, "R_RULE_DVM_MAP".toList, 0⟩,
    ⟨"R_RULE_DVM".toList, "R_RULE_DVM".toList, 0⟩]
  links := [⟨0, 1, "R_RULE_DVM_MAP.dvm_id = R_RULE_DVM.dvm_id".toList⟩]
  columns := [⟨1803, "R_RULE_DVM".toList, "dvm_ext_var_name".toList⟩,
    ⟨1812, "R_RULE_DVM_MAP".toList, "map_dvm_version".toList⟩]
  links_lt := by decide
  alias_wf := by
    intro t ht
    simp only [List.mem_cons, List.not_mem_nil, or_false] at ht
    rcases ht with rfl | rfl
    · exact .inl (by decide)
    · exact .inl (by decide)

/-- A request for columns, without conditions. -/
def selectOnly (columns : List Int) : GenQueryInp where
  selectInp := columns.map (fun c => (c, 1#32))
  sqlCondInp := []
  options := 0#32
  rowOffset := 0

/-- The static data before the first query. -/
def initial : Query where
  flag := fun _ => 0
  nToFind := 0
  selectSQL := []
  selectSQLInitFlag := false
  doUpperCase := false
  fromSQL := []
  fromCount := 0
  groupBySQL := []
  mightNeedGroupBy := false
  orderBySQL := []
  cond := ⟨[], [], 0, 0, 0, fun _ _ => '\x00'⟩

def admin : Session := ⟨LOCAL_PRIV_USER_AUTH, 0⟩

end Query

namespace RuleQuery

/-! ## The WHERE part of a comparison -/

/-- What is appended for the column of a condition. -/
def fieldPieces (q : Query) (table : Table) (column : Column) : List Text :=
  (if q.cond.whereSQL.length > 6 then [" AND ".toList] else []) ++
    (if q.doUpperCase then ["upper (".toList] else []) ++
    ([table.tableName] ++ [".".toList] ++ [column.columnName]) ++
    (if q.doUpperCase then [" )".toList] else [])

/-- The texts appended one after the other, each of them if it fits. -/
def appendAll (whereSQL : Text) (pieces : List Text) : Text :=
  pieces.foldl (fun whereSQL piece => rstrcat whereSQL piece maxSQL) whereSQL

/-- What a comparison is to append. -/
def comparison (q : Query) (table : Table) (column : Column) (op : CondOp) : Text :=
  (fieldPieces q table column).flatten ++ ' ' :: (op.text ++ " ? ".toList)

variable (whereSQL : Text) (pieces more : List Text)

theorem length_appendAll : ∀ whereSQL : Text,
    (appendAll whereSQL pieces).length ≤ whereSQL.length + pieces.flatten.length := by
  induction pieces with
  | nil => exact fun _ => le_refl _
  | cons piece pieces ih =>
    intro whereSQL
    have hstep : (rstrcat whereSQL piece maxSQL).length ≤ whereSQL.length + piece.length := by
      unfold rstrcat
      split
      · exact Nat.le_add_right _ _
      · rw [length_append]
    have := ih (rstrcat whereSQL piece maxSQL)
    rw [List.flatten_cons, length_append]
    exact this.trans (by omega)

theorem appendAll_fits : ∀ {pieces : List Text} {whereSQL : Text},
    (whereSQL ++ pieces.flatten).length < maxSQL → appendAll whereSQL pieces = whereSQL ++ pieces.flatten := by
  intro pieces
  induction pieces with
  | nil => exact fun _ => (List.append_nil _).symm
  | cons piece pieces ih =>
    intro whereSQL h
    rw [List.flatten_cons, ← append_assoc] at h ⊢
    have hpiece : (whereSQL ++ piece).length < maxSQL := by
      rw [length_append] at h
      omega
    have hstep : appendAll whereSQL (piece :: pieces) = appendAll (rstrcat whereSQL piece maxSQL) pieces := rfl
    rw [hstep, rstrcat_fits hpiece]
    exact ih h

/-- All pieces and the last one are there only if all of them fit. -/
theorem appendAll_iff {pieces : List Text} {whereSQL last : Text} (hlast : last ≠ []) :
    rstrcat (appendAll whereSQL pieces) last maxSQL = whereSQL ++ (pieces.flatten ++ last) ↔
      (whereSQL ++ (pieces.flatten ++ last)).length < maxSQL := by
  constructor
  · intro h
    have hle := length_appendAll pieces whereSQL
    have hpos := List.length_pos_iff.mpr hlast
    have hlen := congrArg List.length h
    unfold rstrcat at hlen
    simp only [length_append] at hlen ⊢
    split at hlen
    · omega
    · rw [length_append] at hlen
      omega
  · intro h
    have hfront : (whereSQL ++ pieces.flatten).length < maxSQL := by
      simp only [length_append] at h ⊢
      omega
    rw [appendAll_fits hfront, rstrcat_fits (by rwa [append_assoc]), append_assoc]

theorem catWhere_bind {β : Type} (src : Text) (f : Unit → CondM β) (c : Cond) :
    (Cond.catWhere src >>= f) c = f () { c with whereSQL := appendAll c.whereSQL [src] } := rfl

theorem appendAll_append : appendAll whereSQL (pieces ++ more) = appendAll (appendAll whereSQL pieces) more :=
  List.foldl_append

theorem appendAll_nil : appendAll whereSQL [] = whereSQL := rfl

theorem addWhereField_run (table : Table) (column : Column) (q : Query) :
    Query.addWhereField table column false q = .ok ()
      { q with cond := { q.cond with
          whereSQL := appendAll q.cond.whereSQL (fieldPieces q table column) } } := by
  unfold Query.addWhereField fieldPieces
  refine (get_bind _ q).trans ?_
  refine Query.onCond_ok.mpr ⟨_, ?_, rfl⟩
  refine (get_bind _ q.cond).trans ?_
  simp only [appendAll_append]
  by_cases hlen : q.cond.whereSQL.length > 6
  · simp only [if_pos hlen]
    cases hup : q.doUpperCase
    · simp only [catWhere_bind, appendAll_nil, Bool.false_eq_true, if_false]
      rfl
    · simp only [catWhere_bind, Bool.false_eq_true, if_false, if_true]
      rfl
  · simp only [if_neg hlen]
    cases hup : q.doUpperCase
    · rfl
    · simp only [catWhere_bind, appendAll_nil, Bool.false_eq_true, if_false, if_true]
      rfl

/-! ## One condition -/

/-- The conditions after the column was appended. -/
def withColumn (q : Query) (table : Table) (column : Column) : Cond :=
  { q.cond with whereSQL := appendAll q.cond.whereSQL (fieldPieces q table column) }

def compound (condition : Text) : Bool :=
  Cond.hasOperator condition && Cond.hasOperator (Cond.eraseQuoted false condition)

theorem castOption_condStr (op : CondOp) (v : Text) :
    Query.castOption (condStr op v) = (false, condStr op v) := by
  cases op <;> rfl

variable {S : Schema} {session : Session} {start st : Nat} {inx : Int} {op : CondOp} {v : Text} {q q' : Query}

/-- A condition appends its column and goes on as a compound or a simple one. -/
theorem addCondition_steps (h : Query.addCondition S session start inx (condStr op v) q = .ok st q') :
    ∃ column i, Query.lookup S inx = some (column, i) ∧
      (compound (condStr op v) = true → Cond.handleCompoundCondition (condStr op v)
        q.cond.whereSQL.length (withColumn q (S.table i) column) = .ok () q'.cond) ∧
      (compound (condStr op v) = false → Cond.insertWhere (condStr op v)
        (withColumn q (S.table i) column) = .ok () q'.cond) := by
  unfold Query.addCondition at h
  rw [bind_ok] at h
  obtain ⟨q₀, q₁, hget, h⟩ := h
  obtain ⟨rfl, rfl⟩ := get_ok.mp hget
  rw [castOption_condStr] at h
  rw [bind_ok] at h
  obtain ⟨t, q₂, hset, h⟩ := h
  rw [bind_ok] at h
  obtain ⟨_, q₃, hcond, h⟩ := h
  rw [bind_ok] at h
  obtain ⟨_, q₄, haudit, h⟩ := h
  obtain ⟨-, rfl⟩ := pure_ok.mp h
  obtain rfl := Query.checkAudit_ok haudit
  unfold Query.setTable at hset
  cases hlookup : Query.lookup S inx with
  | none =>
    simp only [hlookup] at hset
    exact absurd hset not_throw_ok
  | some found =>
    obtain ⟨column, i⟩ := found
    simp only [hlookup] at hset
    obtain ⟨_, q₅, hrequest, hset⟩ := bind_ok.mp hset
    obtain rfl := modify_ok.mp hrequest
    simp only [Bool.false_eq_true, if_false] at hset
    obtain ⟨_, q₆, hfield, hset⟩ := bind_ok.mp hset
    rw [addWhereField_run] at hfield
    obtain rfl := (pure_ok.mp hset).2
    have hcolumn : q₆.cond = withColumn q₁ (S.table i) column := by
      cases hfield
      rfl
    obtain ⟨c, hc, rfl⟩ := Query.onCond_ok.mp hcond
    obtain ⟨b, c₁, hspec, hc⟩ := bind_ok.mp hc
    obtain ⟨rfl, rfl⟩ := Query.compoundConditionSpecified_ok hspec
    rw [hcolumn] at hc
    refine ⟨column, i, rfl, fun hcompound => ?_, fun hsimple => ?_⟩
    · rw [compound] at hcompound
      rwa [if_pos hcompound] at hc
    · rw [compound] at hsimple
      rwa [if_neg (by rw [hsimple]; exact Bool.false_ne_true)] at hc

/-- A condition that is cut or splits up binds something shorter first. -/
theorem addCondition_bindsFirst (h : Query.addCondition S session start inx (condStr op v) q = .ok st q')
    (hnot : ¬ (Whole op v ∧ ¬ SplitsUp v)) :
    ∃ literal, BindsFirst q.cond literal q'.cond ∧ literal.length < v.length := by
  obtain ⟨column, i, -, hcompound, hsimple⟩ := addCondition_steps h
  cases hkind : compound (condStr op v) with
  | true =>
    have hrun := hcompound hkind
    rw [condStr_opened] at hrun
    obtain ⟨literal, hfirst, hshort⟩ := compound_bindsFirst hrun
    refine ⟨literal, ⟨hfirst.binds, hfirst.holds⟩, ?_⟩
    rw [List.length_take, length_append, List.length_singleton] at hshort
    omega
  | false =>
    have hcut : ¬ Whole op v := by
      intro hwhole
      refine hnot ⟨hwhole, fun hsplits => ?_⟩
      rw [condStr_whole hwhole, compound, Bool.eq_false_iff] at hkind
      exact hkind (compound_iff.mpr hsplits)
    have hrun := hsimple hkind
    rw [condStr_opened] at hrun
    obtain ⟨literal, hcompared, hshort, -⟩ := opened_compared hrun
    refine ⟨literal, ⟨?_, hcompared.holds⟩, ?_⟩
    · rw [hcompared.binds]
      exact List.prefix_rfl
    · unfold Whole at hcut
      rw [List.length_take, length_append, List.length_singleton] at hshort
      omega

/-- Any other condition appends one comparison, as far as it fits, and binds the value. -/
theorem addCondition_compared (h : Query.addCondition S session start inx (condStr op v) q = .ok st q')
    (hwhole : Whole op v) (hsplits : ¬ SplitsUp v) :
    ∃ column i, Query.lookup S inx = some (column, i) ∧
      q'.cond.whereSQL = rstrcat (appendAll q.cond.whereSQL (fieldPieces q (S.table i) column))
        (' ' :: (op.text ++ " ? ".toList)) maxSQL ∧
      q'.cond.cllBindVars = q.cond.cllBindVars ++ [(.bindVars, q.cond.bindIx + 1)] ∧
      Cond.Holds q'.cond (q.cond.bindIx + 1) v := by
  obtain ⟨column, i, hlookup, -, hsimple⟩ := addCondition_steps h
  have hkind : compound (condStr op v) = false := by
    rw [condStr_whole hwhole, compound, Bool.eq_false_iff]
    exact fun hcompound => hsplits (compound_iff.mp hcompound)
  have hrun := hsimple hkind
  rw [condStr_whole hwhole] at hrun
  obtain ⟨literal, hcompared, -, hvalue⟩ := opened_compared hrun
  obtain rfl := hvalue v rfl
  refine ⟨column, i, hlookup, ?_, hcompared.binds, hcompared.holds⟩
  have hpiece : ' ' :: (op.text ++ [' ']) ++ "? ".toList = ' ' :: (op.text ++ " ? ".toList) := by
    rw [List.cons_append, append_assoc]
    rfl
  rw [hcompared.whereSQL, hpiece]
  rfl

/-! ## The whole query -/

/-- The condition added one comparison and one bind variable, and the value is bound when the
query is run: `q` and `q₂` are the states around the condition, `q'` the one at the end. -/
structure Contributes (S : Schema) (inx : Int) (op : CondOp) (v : Text) (q q₂ q' : Query) : Prop where
  compares : ∃ column i, Query.lookup S inx = some (column, i) ∧
    q₂.cond.whereSQL = q.cond.whereSQL ++ comparison q (S.table i) column op
  binds : ∃ p, q₂.cond.cllBindVars = q.cond.cllBindVars ++ [p] ∧
    q₂.cond.cllBindVars <+: q'.cond.cllBindVars ∧ q'.cond.deref p = v

/-- The value fits and does not split up, and the WHERE part has room. -/
structure Unchanged (S : Schema) (inx : Int) (op : CondOp) (v : Text) (q : Query) : Prop where
  whole : Whole op v
  one : ¬ SplitsUp v
  room : ∃ column i, Query.lookup S inx = some (column, i) ∧
    (q.cond.whereSQL ++ comparison q (S.table i) column op).length < maxSQL

/-- One condition, with the states around it. -/
theorem contributes_iff {q₂ : Query} (hv : '\x00' ∉ v)
    (h : Query.addCondition S session start inx (condStr op v) q = .ok st q₂) (hkept : Query.Kept q₂ q') :
    Contributes S inx op v q q₂ q' ↔ Unchanged S inx op v q := by
  by_cases hgood : Whole op v ∧ ¬ SplitsUp v
  · obtain ⟨hwhole, hsplits⟩ := hgood
    obtain ⟨column, i, hlookup, hwhere, hbinds, hholds⟩ := addCondition_compared h hwhole hsplits
    have hfits := @appendAll_iff (fieldPieces q (S.table i) column) q.cond.whereSQL _
      (List.cons_ne_nil ' ' (op.text ++ " ? ".toList))
    rw [← hwhere] at hfits
    constructor
    · rintro ⟨⟨column', i', hlookup', hcompares⟩, -⟩
      obtain ⟨rfl, rfl⟩ : column = column' ∧ i = i' := by simpa using hlookup.symm.trans hlookup'
      exact ⟨hwhole, hsplits, column, i, hlookup, hfits.mp hcompares⟩
    · rintro ⟨-, -, column', i', hlookup', hroom⟩
      obtain ⟨rfl, rfl⟩ : column = column' ∧ i = i' := by simpa using hlookup.symm.trans hlookup'
      refine ⟨⟨column, i, hlookup, hfits.mpr hroom⟩, _, hbinds, hkept.binds, ?_⟩
      exact (hholds.kept hkept).deref hv
  · -- a shorter value is bound first, so it is the only one or there is more than one
    constructor
    · rintro ⟨-, p, hbinds, -, hderef⟩
      obtain ⟨literal, hfirst, hshort⟩ := addCondition_bindsFirst h hgood
      have hprefix := hfirst.binds
      rw [hbinds, List.prefix_append_right_inj] at hprefix
      obtain rfl : (Buffer.bindVars, q.cond.bindIx + 1) = p := by simpa using hprefix
      have hlen := (hfirst.holds.kept hkept).length_deref
      rw [hderef] at hlen
      omega
    · exact fun h => absurd ⟨h.whole, h.one⟩ hgood

theorem addConditions_turn {cond : Int × Text} {after : List (Int × Text)} :
    ∀ {before : List (Int × Text)} {start st : Nat} {q q' : Query},
    Query.addConditions S session start (before ++ cond :: after) q = .ok st q' →
    ∃ st₁ q₁ st₂ q₂, Query.addConditions S session start before q = .ok st₁ q₁ ∧
      Query.addCondition S session st₁ cond.1 cond.2 q₁ = .ok st₂ q₂ ∧
      Query.addConditions S session st₂ after q₂ = .ok st q' := by
  intro before
  induction before with
  | nil =>
    intro start st q q' h
    rw [List.nil_append, Query.addConditions, bind_ok] at h
    obtain ⟨st₂, q₂, hcond, hafter⟩ := h
    exact ⟨start, q, st₂, q₂, rfl, hcond, hafter⟩
  | cons first before ih =>
    intro start st q q' h
    rw [List.cons_append, Query.addConditions, bind_ok] at h
    obtain ⟨st₀, q₀, hfirst, h⟩ := h
    obtain ⟨st₁, q₁, st₂, q₂, hbefore, hcond, hafter⟩ := ih h
    refine ⟨st₁, q₁, st₂, q₂, ?_, hcond, hafter⟩
    rw [Query.addConditions, bind_ok]
    exact ⟨st₀, q₀, hfirst, hbefore⟩

/-- When the query is accepted the value of a condition is bound as it is in this case only. -/
theorem value_bound_iff {S : Schema} {session : Session} {inp : GenQueryInp} {before after : List QueryCond}
    {attInx : Int} {op : CondOp} {v : Text} {res1 : Except Int Res} {q₀ q' : Query} {sql : Text}
    (hv : '\x00' ∉ v)
    (hconds : addQueryConds (before ++ stringCond attInx op v res1 :: after) = .ok inp.sqlCondInp)
    (hgen : Query.generateSQL S session inp q₀ = .ok sql q') :
    ∃ sqlBefore st q st₂ q₂, addQueryConds before = .ok sqlBefore ∧
      Query.requestColumns S session { inp with sqlCondInp := sqlBefore } (Query.start inp q₀) = .ok st q ∧
      Query.addCondition S session st attInx (condStr op v) q = .ok st₂ q₂ ∧
      (Contributes S attInx op v q q₂ q' ↔ Unchanged S attInx op v q) := by
  obtain ⟨sqlBefore, sqlCond, sqlAfter, hbefore, hcond, hinp⟩ := addQueryConds_append hconds
  obtain rfl := addQueryCond_string hcond
  unfold Query.generateSQL at hgen
  obtain ⟨_, q₁, hstart, hgen⟩ := bind_ok.mp hgen
  obtain rfl := modify_ok.mp hstart
  obtain ⟨st', q₃, hrequest, hgen⟩ := bind_ok.mp hgen
  rw [Query.requestColumns, bind_ok] at hrequest
  obtain ⟨st₀, q₂, hselect, hrequest⟩ := hrequest
  rw [hinp] at hrequest
  obtain ⟨st, q, st₂, q₄, hturn, hadd, hafter⟩ := addConditions_turn hrequest
  have hkept : Query.Kept q₄ q' := by
    refine (Query.addConditions_kept _ _ _ _ _ _ _ hafter).trans _ _ _ (OkRel.apply ?_ hgen)
    exact .bind Query.Kept.trans (Query.linkTables_kept _ _) fun _ =>
      .bind Query.Kept.trans (Query.handleMultiConditions_kept _) fun _ => Query.combine_kept _ _ _
  refine ⟨sqlBefore, st, q, st₂, q₄, hbefore, ?_, hadd, contributes_iff hv hadd hkept⟩
  rw [Query.requestColumns, bind_ok]
  exact ⟨st₀, q₂, hselect, hturn⟩

/-! ## Two values of one query -/

/-- `select dvm_ext_var_name where dvm_ext_var_name = v`. -/
def dvmQuery (v : Text) : GenQueryInp :=
  { Query.selectOnly [1803] with sqlCondInp := [(1803, condStr .eq v)] }

/-- A value with a quote, an operator and another quote. -/
def splitValue : Text := "a' || = 'b".toList

theorem value_bound_ab : addQueryConds [stringCond 1803 .eq "ab".toList (.error 0)] =
    .ok (dvmQuery "ab".toList).sqlCondInp ∧
    ∃ sqlBefore st q st₂ q₂ q', addQueryConds [] = .ok sqlBefore ∧
      Query.requestColumns Query.dvmSchema Query.admin
        { dvmQuery "ab".toList with sqlCondInp := sqlBefore }
        (Query.start (dvmQuery "ab".toList) Query.initial) = .ok st q ∧
      Query.addCondition Query.dvmSchema Query.admin st 1803 (condStr .eq "ab".toList) q = .ok st₂ q₂ ∧
      (Contributes Query.dvmSchema 1803 .eq "ab".toList q q₂ q' ↔
        Unchanged Query.dvmSchema 1803 .eq "ab".toList q) := by
  have hok : isOk (Query.generateSQL Query.dvmSchema Query.admin (dvmQuery "ab".toList) Query.initial) =
      true := by decide +kernel
  obtain ⟨sql, q', hgen⟩ := isOk_iff.mp hok
  have hconds : addQueryConds ([] ++ stringCond 1803 .eq "ab".toList (.error 0) :: []) =
      .ok (dvmQuery "ab".toList).sqlCondInp := rfl
  obtain ⟨sqlBefore, st, q, st₂, q₂, h⟩ := value_bound_iff (by decide) hconds hgen
  exact ⟨rfl, sqlBefore, st, q, st₂, q₂, q', h⟩

/-- How many bind variables the condition of the query adds. -/
def bindsOf (v : Text) : Option Nat :=
  match Query.requestColumns Query.dvmSchema Query.admin (Query.selectOnly [1803])
      (Query.start (dvmQuery v) Query.initial) with
  | .error _ _ => none
  | .ok st q =>
    match Query.addCondition Query.dvmSchema Query.admin st 1803 (condStr .eq v) q with
    | .error _ _ => none
    | .ok _ q₂ => some (q₂.cond.cllBindVars.length - q.cond.cllBindVars.length)

/-- The query for `splitValue` is accepted and compares with `a` or with `b`. -/
theorem splitValue_splits :
    ¬ (∀ (S : Schema) (session : Session) (inp : GenQueryInp) (before after : List QueryCond)
      (attInx : Int) (op : CondOp) (v : Text) (res1 : Except Int Res) (q₀ q' : Query) (sql : Text),
      '\x00' ∉ v → addQueryConds (before ++ stringCond attInx op v res1 :: after) = .ok inp.sqlCondInp →
      Query.generateSQL S session inp q₀ = .ok sql q' →
      ∃ sqlBefore st q st₂ q₂, addQueryConds before = .ok sqlBefore ∧
        Query.requestColumns S session { inp with sqlCondInp := sqlBefore } (Query.start inp q₀) =
          .ok st q ∧
        Query.addCondition S session st attInx (condStr op v) q = .ok st₂ q₂ ∧
        Contributes S attInx op v q q₂ q') := by
  intro h
  have hok : isOk (Query.generateSQL Query.dvmSchema Query.admin (dvmQuery splitValue) Query.initial) =
      true := by decide +kernel
  obtain ⟨sql, q', hgen⟩ := isOk_iff.mp hok
  obtain ⟨sqlBefore, st, q, st₂, q₂, hbefore, hturn, hadd, hcontributes⟩ :=
    h Query.dvmSchema Query.admin (dvmQuery splitValue) [] [] 1803 .eq splitValue (.error 0) Query.initial
      q' sql (by decide) rfl hgen
  obtain rfl : [] = sqlBefore := by simpa [addQueryConds] using hbefore
  obtain ⟨p, hbinds, -, -⟩ := hcontributes.binds
  have htwo : bindsOf splitValue = some 2 := by decide +kernel
  simp only [bindsOf] at htwo
  have hrun : Query.requestColumns Query.dvmSchema Query.admin (Query.selectOnly [1803])
      (Query.start (dvmQuery splitValue) Query.initial) = .ok st q := hturn
  rw [hrun] at htwo
  simp only [hadd, hbinds, Option.some.injEq, length_append, List.length_singleton] at htwo
  omega

end RuleQuery

end GenQuery
