-- SUMMARY: Query conditions of the rule language, and what insertWhere reads back.
import Irods.Icat.BindsKept

/-!
# Conditions of rule queries

`smsi_query` prints the value of a condition between quotes into a buffer of 1024
characters. `generateSQL` looks for `&&` and `||` outside quotes and takes what stands
between the first and the last quote for the value.
-/

namespace GenQuery

open CString EStateM

/-! ## smsi_query -/

variable {c : Cond} {d : Char} {v : Text}

namespace RuleQuery

def RE_DYNAMIC_TYPE_ERROR : Int := -1232000

inductive ResType where
  | double
  | int
  | string
  | other
  deriving DecidableEq

def ResType.isNumber : ResType → Bool
  | .double | .int => true
  | .string | .other => false

/-- A value with what `convertResToString` makes of it. -/
structure Res where
  type : ResType
  text : Text

/-- A condition node: the column of its attribute, negative when it has none, its operator
and what its expressions evaluate to. -/
structure QueryCond where
  attInx : Int
  op : Text
  res0 : Except Int Res
  res1 : Except Int Res

/-- `snprintf` into `condStr`. -/
def printCond (s : Text) : Text := s.take 1023

def quoted (value : Text) : Text := '\'' :: (value ++ ['\''])

/-- One turn of the loop over the conditions. -/
def addQueryCond (cond : QueryCond) : Except Int (Int × Text) :=
  if cond.attInx < 0 then .error RE_DYNAMIC_TYPE_ERROR
  else
    match cond.res0 with
    | .error code => .error code
    | .ok res0 =>
      if res0.type = .other then .error RE_DYNAMIC_TYPE_ERROR
      else if cond.op = "between".toList then
        match cond.res1 with
        | .error code => .error code
        | .ok res1 =>
          if (res0.type.isNumber ∧ ¬ res1.type.isNumber) ∨ (res0.type = .string ∧ res1.type ≠ .string) then
            .error RE_DYNAMIC_TYPE_ERROR
          else if res0.type = .string then
            .ok (cond.attInx, printCond (cond.op ++ ' ' :: (quoted res0.text ++ ' ' :: quoted res1.text)))
          else .ok (cond.attInx, printCond (cond.op ++ ' ' :: (res0.text ++ ' ' :: res1.text)))
      else if res0.type = .string then .ok (cond.attInx, printCond (cond.op ++ ' ' :: quoted res0.text))
      else .ok (cond.attInx, printCond (cond.op ++ ' ' :: res0.text))

/-- The conditions of the query, up to the first that is refused. -/
def addQueryConds : List QueryCond → Except Int (List (Int × Text))
  | [] => .ok []
  | cond :: conds =>
    match addQueryCond cond with
    | .error code => .error code
    | .ok sqlCond =>
      match addQueryConds conds with
      | .error code => .error code
      | .ok sqlConds => .ok (sqlCond :: sqlConds)

/-- The operators that take one value. -/
inductive CondOp where
  | eq
  | ne
  | lt
  | gt
  | le
  | ge
  | like
  | notLike
  deriving DecidableEq

def CondOp.text : CondOp → Text
  | .eq => "=".toList
  | .ne => "<>".toList
  | .lt => "<".toList
  | .gt => ">".toList
  | .le => "<=".toList
  | .ge => ">=".toList
  | .like => "like".toList
  | .notLike => "not like".toList

def condStr (op : CondOp) (v : Text) : Text := printCond (op.text ++ ' ' :: quoted v)

/-- The condition of an operator and a string. -/
def stringCond (attInx : Int) (op : CondOp) (v : Text) (res1 : Except Int Res) : QueryCond :=
  ⟨attInx, op.text, .ok ⟨.string, v⟩, res1⟩

theorem addQueryCond_string {attInx : Int} {op : CondOp} {res1 : Except Int Res} {sqlCond : Int × Text}
    (h : addQueryCond (stringCond attInx op v res1) = .ok sqlCond) : sqlCond = (attInx, condStr op v) := by
  have hop : op.text ≠ "between".toList := by cases op <;> decide
  simp only [addQueryCond, stringCond, hop, if_false, if_true, reduceCtorEq] at h
  split at h
  · cases h
  · exact (Except.ok.inj h).symm

theorem addQueryConds_append {before after : List QueryCond} {cond : QueryCond}
    {sqlConds : List (Int × Text)} (h : addQueryConds (before ++ cond :: after) = .ok sqlConds) :
    ∃ sqlBefore sqlCond sqlAfter, addQueryConds before = .ok sqlBefore ∧
      addQueryCond cond = .ok sqlCond ∧ sqlConds = sqlBefore ++ sqlCond :: sqlAfter := by
  induction before generalizing sqlConds with
  | nil =>
    rw [List.nil_append, addQueryConds] at h
    cases hcond : addQueryCond cond with
    | error code => simp [hcond] at h
    | ok sqlCond =>
      cases hafter : addQueryConds after with
      | error code => simp [hcond, hafter] at h
      | ok sqlAfter => exact ⟨[], sqlCond, sqlAfter, rfl, rfl, by simpa [hcond, hafter] using h.symm⟩
  | cons first before ih =>
    rw [List.cons_append, addQueryConds] at h
    cases hfirst : addQueryCond first with
    | error code => simp [hfirst] at h
    | ok sqlFirst =>
      cases hrest : addQueryConds (before ++ cond :: after) with
      | error code => simp [hfirst, hrest] at h
      | ok sqlRest =>
        obtain ⟨sqlBefore, sqlCond, sqlAfter, hbefore, hcond, rfl⟩ := ih hrest
        refine ⟨sqlFirst :: sqlBefore, sqlCond, sqlAfter, ?_, hcond, ?_⟩
        · simp [addQueryConds, hfirst, hbefore]
        · simpa [hfirst, hrest] using h.symm

/-! ## What is read back -/

/-- A condition up to its first quote, and something behind it. -/
def opened (op : CondOp) (rest : Text) : Text := op.text ++ ' ' :: '\'' :: rest

theorem quote_notMem_op (op : CondOp) : '\'' ∉ op.text := by cases op <;> decide

variable {pat t rest s : Text} {op : CondOp} {c' : Cond} {u : Unit}

/-- A keyword is not in front of a text that begins otherwise. -/
theorem strstr_ne_zero {c : Char} {pat' : Text} (hpat : pat = d :: pat') (hd : d ≠ c) :
    strstr pat (c :: t) ≠ some 0 := by
  intro h
  obtain ⟨-, hpre, -⟩ := strstr_eq_some h
  rw [hpat, List.drop_zero] at hpre
  exact hd (List.cons_prefix_cons.mp hpre).1

theorem startsWith_eq_false {lower upper lower' upper' : Text} {c e : Char} (hc : c ≠ ' ')
    (hlower : lower = d :: lower') (hupper : upper = e :: upper') (hd : d ≠ c) (he : e ≠ c) :
    Cond.startsWith lower upper (c :: t) = false := by
  have hstart : ((c :: t).takeWhile (· = ' ')).length = 0 := by simp [hc]
  simp only [Cond.startsWith, hstart, decide_eq_false_iff_not]
  cases hfind : strstr lower (c :: t) with
  | some n =>
    intro h
    exact strstr_ne_zero hlower hd (hfind.trans h)
  | none => exact strstr_ne_zero hupper he

theorem opened_isComparison (op : CondOp) (rest : Text) : Cond.IsComparison (opened op rest) := by
  obtain ⟨c, t, htext, hc⟩ : ∃ c t, op.text = c :: t ∧ c ∉ " iIbB".toList := by
    cases op <;> exact ⟨_, _, rfl, by decide⟩
  have hne (d : Char) (hd : d ∈ " iIbB".toList) : d ≠ c := fun h => hc (h ▸ hd)
  have hopened : opened op rest = c :: (t ++ ' ' :: '\'' :: rest) := by rw [opened, htext]; rfl
  rw [hopened]
  have hI : 'I' ≠ c := hne 'I' (by decide)
  refine ⟨?_, ?_, ?_, ?_⟩
  · exact startsWith_eq_false (hne ' ' (by decide)).symm rfl rfl (hne 'i' (by decide)) hI
  · exact startsWith_eq_false (hne ' ' (by decide)).symm rfl rfl (hne 'b' (by decide)) (hne 'B' (by decide))
  · exact fun h => hI (List.cons.inj h).1.symm
  · exact fun h => hI (List.cons.inj h).1.symm

theorem opened_first (op : CondOp) (rest : Text) :
    (opened op rest).findIdx? (· = '\'') = some (op.text.length + 1) := by
  have hfront : (op.text ++ [' ']).findIdx? (· = '\'') = none := by
    rw [List.findIdx?_eq_none_iff]
    intro c hc
    rw [decide_eq_false_iff_not]
    rintro rfl
    obtain hc | hc := List.mem_append.mp hc
    · exact quote_notMem_op op hc
    · exact absurd hc (by decide)
  have hopened : opened op rest = (op.text ++ [' ']) ++ '\'' :: rest := by simp [opened]
  rw [hopened, List.findIdx?_append, hfront, List.findIdx?_cons]
  simp

/-- The value is read from behind the first quote. -/
theorem opened_quotes {first second : Nat} (h : Cond.quotes (opened op rest) = some (first, second)) :
    first = op.text.length + 1 ∧ first < second ∧ second < op.text.length + 2 + rest.length := by
  have hlen : (opened op rest).length = op.text.length + 2 + rest.length := by
    simp [opened]
    omega
  simp only [Cond.quotes, opened_first, hlen] at h
  cases hlast : (opened op rest).reverse.findIdx? (· = '\'') with
  | none => simp [hlast] at h
  | some last =>
    simp only [hlast] at h
    split at h
    · rename_i hlt
      obtain ⟨rfl, rfl⟩ := h
      exact ⟨rfl, hlt, by omega⟩
    · cases h

theorem closed_quotes (op : CondOp) (v : Text) :
    Cond.quotes (opened op (v ++ ['\''])) = some (op.text.length + 1, op.text.length + 2 + v.length) := by
  have hlast : (opened op (v ++ ['\''])).reverse.findIdx? (· = '\'') = some 0 := by
    simp [opened, List.findIdx?_cons]
  have hlen : (opened op (v ++ ['\''])).length = op.text.length + v.length + 3 := by
    simp [opened]
    omega
  simp only [Cond.quotes, opened_first, hlast, hlen]
  rw [if_pos (by omega), Option.some.injEq, Prod.mk.injEq]
  exact ⟨rfl, by omega⟩

/-- The operator is printed as it is, and the value that is read is shorter than what is
behind the first quote. -/
theorem opened_compared (h : Cond.insertWhere (opened op rest) c = .ok u c') :
    ∃ literal, Cond.Compared c (' ' :: (op.text ++ [' '])) literal c' ∧
      literal.length < rest.length ∧ (∀ v, rest = v ++ ['\''] → literal = v) := by
  obtain ⟨first, second, -, hquotes, -, -⟩ := Cond.insertWhere_steps (opened_isComparison op rest) h
  obtain ⟨rfl, hlt, hle⟩ := opened_quotes hquotes
  have htake : (opened op rest).take (op.text.length + 1) = op.text ++ [' '] := by
    have hopened : opened op rest = (op.text ++ [' ']) ++ '\'' :: rest := by simp [opened]
    have hlen : (op.text ++ [' ']).length = op.text.length + 1 := by simp
    rw [hopened, ← hlen, List.take_left]
  have hbegin : occurs "begin_of".toList (' ' :: (op.text ++ [' '])) = false := by cases op <;> decide
  have hparent : occurs "parent_of".toList (' ' :: (op.text ++ [' '])) = false := by cases op <;> decide
  have hcompared := Cond.insertWhere_compared (opened_isComparison op rest) hquotes
    (by rw [htake]; exact hbegin) (by rw [htake]; exact hparent) h
  rw [htake] at hcompared
  refine ⟨_, hcompared, ?_, ?_⟩
  · simp only [List.length_drop, List.length_take]
    omega
  · rintro v rfl
    rw [closed_quotes, Option.some.injEq, Prod.mk.injEq] at hquotes
    obtain rfl := hquotes.2
    have hopened : opened op (v ++ ['\'']) = (op.text ++ [' ', '\'']) ++ (v ++ ['\'']) := by simp [opened]
    have hlen : (op.text ++ [' ', '\'']).length = op.text.length + 2 := by simp
    rw [hopened, ← hlen, List.take_length_add_append, List.take_left]
    exact List.drop_left

/-- A compound condition is not split in front of its first quote. -/
theorem nextOperator_opened {n : Nat} {sep : Text} (h : Cond.nextOperator (opened op rest) = some (n, sep)) :
    op.text.length + 2 ≤ n ∧ n + 2 ≤ op.text.length + 2 + rest.length := by
  have hopened : opened op rest = (op.text ++ [' ', '\'']) ++ rest := by simp [opened]
  have hlen : (op.text ++ [' ', '\'']).length = op.text.length + 2 := by simp
  have hfind (c : Char) (hc : c ∉ op.text ++ [' ', '\'']) (h : strstr [c, c] (opened op rest) = some n) :
      op.text.length + 2 ≤ n ∧ n + 2 ≤ op.text.length + 2 + rest.length := by
    obtain ⟨-, ⟨B, hB⟩, -⟩ := strstr_eq_some h
    have hget := congrArg (·[0]?) hB
    have hlength := congrArg List.length hB
    simp only [List.cons_append, List.length_cons, List.nil_append, List.length_drop, hopened,
      List.length_append, hlen] at hlength
    refine ⟨?_, by omega⟩
    by_contra hlt
    simp only [List.cons_append, List.getElem?_cons_zero, List.getElem?_drop, Nat.add_zero, hopened] at hget
    rw [List.getElem?_append_left (by omega)] at hget
    exact hc (List.mem_of_getElem? hget.symm)
  unfold Cond.nextOperator at h
  cases hor : strstr "||".toList (opened op rest) with
  | some m =>
    simp only [hor, Option.some.injEq, Prod.mk.injEq] at h
    exact hfind '|' (by cases op <;> decide) (h.1 ▸ hor)
  | none =>
    simp only [hor] at h
    obtain ⟨m, hand, h⟩ := Option.map_eq_some_iff.mp h
    rw [Prod.mk.injEq] at h
    exact hfind '&' (by cases op <;> decide) (h.1 ▸ hand)

/-- What a condition binds first, whether it is compound or not. -/
structure BindsFirst (c : Cond) (literal : Text) (c' : Cond) : Prop where
  binds : c.cllBindVars ++ [(.bindVars, c.bindIx + 1)] <+: c'.cllBindVars
  holds : Cond.Holds c' (c.bindIx + 1) literal

theorem copyForBind_ok {condPart1 : Text} (h : Cond.copyForBind condPart1 c = .ok u c') : c' = c := by
  unfold Cond.copyForBind at h
  rw [bind_ok] at h
  obtain ⟨c₀, c₁, hget, h⟩ := h
  obtain ⟨rfl, rfl⟩ := get_ok.mp hget
  split at h
  · exact absurd h not_throw_ok
  · exact (pure_ok.mp h).2.symm

/-- The first part of a compound condition is bound, and it is shorter than the value. -/
theorem compound_bindsFirst {prevWhereLen : Nat}
    (h : Cond.handleCompoundCondition (opened op rest) prevWhereLen c = .ok u c') :
    ∃ literal, BindsFirst c literal c' ∧ literal.length + 2 < rest.length := by
  unfold Cond.handleCompoundCondition at h
  rw [bind_ok] at h
  obtain ⟨c₀, c₁, hget, h⟩ := h
  obtain ⟨rfl, rfl⟩ := get_ok.mp hget
  rw [bind_ok] at h
  obtain ⟨_, c₂, hset, h⟩ := h
  obtain rfl := set_ok.mp hset
  obtain ⟨_, c₃, hcat, h⟩ := bind_ok.mp h
  obtain rfl := modify_ok.mp hcat
  obtain ⟨_, c₄, hloop, h⟩ := bind_ok.mp h
  obtain rfl := modify_ok.mp h
  rw [Cond.compoundLoop] at hloop
  cases hnext : Cond.nextOperator (opened op rest) with
  | none =>
    simp only [hnext] at hloop
    exact absurd hloop not_throw_ok
  | some next =>
    obtain ⟨n, sep⟩ := next
    obtain ⟨hfront, hle⟩ := nextOperator_opened hnext
    simp only [hnext] at hloop
    obtain ⟨_, c₅, hcolumn, hloop⟩ := bind_ok.mp hloop
    obtain rfl := modify_ok.mp hcolumn
    obtain ⟨_, c₆, hcopy, hloop⟩ := bind_ok.mp hloop
    obtain rfl := copyForBind_ok hcopy
    obtain ⟨_, c₇, hinsert, hloop⟩ := bind_ok.mp hloop
    have hpart : (opened op rest).take n = opened op (rest.take (n - (op.text.length + 2))) := by
      have hopened (t : Text) : opened op t = (op.text ++ [' ', '\'']) ++ t := by simp [opened]
      rw [hopened, hopened, List.take_append, List.take_of_length_le (by simpa using hfront)]
      simp
    rw [hpart] at hinsert
    obtain ⟨literal, hcompared, hshort, -⟩ := opened_compared hinsert
    have hrest : Cond.Kept c₇ c₄ := OkRel.apply (by
      refine .bind Cond.Kept.trans (.modify fun _ => .of_eq rfl rfl rfl) fun _ => ?_
      refine .bind Cond.Kept.trans (Cond.catWhere_kept _) fun _ => ?_
      refine .ite (Cond.compoundLoop_kept _ _ _) ?_
      exact .bind Cond.Kept.trans (Cond.catWhere_kept _) fun _ => Cond.insertWhere_kept _) hloop
    refine ⟨literal, ⟨?_, ?_⟩, ?_⟩
    · have hbinds := hrest.binds
      rw [hcompared.binds] at hbinds
      exact hbinds
    · exact (hcompared.holds.kept hrest).kept (.of_eq rfl rfl rfl)
    · rw [List.length_take] at hshort
      omega

/-- A condition that is cut loses its last quote. -/
theorem condStr_opened (op : CondOp) (v : Text) :
    condStr op v = opened op ((v ++ ['\'']).take (1023 - (op.text.length + 2))) := by
  have hop : op.text.length + 2 ≤ 1023 := by cases op <;> decide
  have hopened (t : Text) : opened op t = (op.text ++ [' ', '\'']) ++ t := by simp [opened]
  have hwhole : op.text ++ ' ' :: quoted v = (op.text ++ [' ', '\'']) ++ (v ++ ['\'']) := by simp [quoted]
  rw [condStr, printCond, hwhole, hopened, List.take_append, List.take_of_length_le (by simpa using hop)]
  simp

/-- The value fits into the condition. -/
def Whole (op : CondOp) (v : Text) : Prop := op.text.length + v.length + 3 ≤ 1023

instance (op : CondOp) (v : Text) : Decidable (Whole op v) := inferInstanceAs (Decidable (_ ≤ _))

theorem condStr_whole (h : Whole op v) : condStr op v = opened op (v ++ ['\'']) := by
  unfold Whole at h
  rw [condStr_opened, List.take_of_length_le]
  rw [List.length_append, List.length_singleton]
  omega

/-- The scan for quotes, begun inside one, leaves `&&` or `||` of the value standing. -/
def SplitsUp (v : Text) : Prop := Cond.hasOperator (Cond.eraseQuoted true v) = true

instance (v : Text) : Decidable (SplitsUp v) := inferInstanceAs (Decidable (_ = _))

/-- Erasing leaves blanks behind, so what is found then was there before. -/
theorem prefix_of_eraseQuoted (hpat : ' ' ∉ pat) : ∀ {quote : Bool} {s : Text},
    pat <+: Cond.eraseQuoted quote s → pat <+: s := by
  induction pat with
  | nil => exact fun _ => List.nil_prefix
  | cons p pat ih =>
    intro quote s h
    cases s with
    | nil => exact h
    | cons c s =>
      obtain ⟨hp, hrest⟩ := List.cons_prefix_cons.mp h
      have hblank : p = ' ' ∨ p = c := by
        rw [hp]
        exact ite_eq_or_eq _ _ _
      have hc : p = c := hblank.resolve_left (fun h => hpat (h ▸ List.mem_cons_self))
      exact List.cons_prefix_cons.mpr ⟨hc, ih (fun hm => hpat (List.mem_cons_of_mem _ hm)) hrest⟩

theorem infix_of_eraseQuoted (hpat : ' ' ∉ pat) : ∀ {quote : Bool} {s : Text},
    pat <:+: Cond.eraseQuoted quote s → pat <:+: s := by
  intro quote s
  induction s generalizing quote with
  | nil => exact id
  | cons c s ih =>
    intro h
    rw [Cond.eraseQuoted, List.infix_cons_iff] at h
    obtain h | h := h
    · have hprefix : pat <+: Cond.eraseQuoted quote (c :: s) := by
        exact h
      exact (prefix_of_eraseQuoted hpat hprefix).isInfix
    · exact List.infix_cons_iff.mpr (.inr (ih h))

theorem hasOperator_iff : Cond.hasOperator s = true ↔ "||".toList <:+: s ∨ "&&".toList <:+: s := by
  rw [Cond.hasOperator, Bool.or_eq_true, occurs_iff, occurs_iff]

theorem hasOperator_of_eraseQuoted {quote : Bool} (h : Cond.hasOperator (Cond.eraseQuoted quote s) = true) :
    Cond.hasOperator s = true := by
  rw [hasOperator_iff] at h ⊢
  exact h.imp (infix_of_eraseQuoted (by decide)) (infix_of_eraseQuoted (by decide))

theorem hasOperator_blank :
    Cond.hasOperator (s ++ ' ' :: t) = true ↔ Cond.hasOperator s = true ∨ Cond.hasOperator t = true := by
  simp only [hasOperator_iff, infix_sep (show ' ' ∉ "||".toList by decide) (show "||".toList ≠ [] by decide),
    infix_sep (show ' ' ∉ "&&".toList by decide) (show "&&".toList ≠ [] by decide)]
  constructor
  · rintro ((h | h) | (h | h))
    exacts [.inl (.inl h), .inr (.inl h), .inl (.inr h), .inr (.inr h)]
  · rintro ((h | h) | (h | h))
    exacts [.inl (.inl h), .inr (.inl h), .inl (.inr h), .inr (.inr h)]

theorem eraseQuoted_front (hs : '\'' ∉ s) : Cond.eraseQuoted false (s ++ t) = s ++ Cond.eraseQuoted false t := by
  induction s with
  | nil => rfl
  | cons c s ih =>
    obtain ⟨hc, hs⟩ := not_or.mp (List.mem_cons.not.mp hs)
    rw [List.cons_append, Cond.eraseQuoted]
    simp [Ne.symm hc, ih hs]

theorem eraseQuoted_concat : ∀ {quote : Bool} {s : Text},
    Cond.eraseQuoted quote (s ++ ['\'']) = Cond.eraseQuoted quote s ++ [' '] := by
  intro quote s
  induction s generalizing quote with
  | nil => rfl
  | cons c s ih => rw [List.cons_append, Cond.eraseQuoted, Cond.eraseQuoted, ih, List.cons_append]

/-- A condition that is not cut is taken for a compound one when its value splits up. -/
theorem compound_iff :
    (Cond.hasOperator (opened op (v ++ ['\''])) &&
      Cond.hasOperator (Cond.eraseQuoted false (opened op (v ++ ['\''])))) = true ↔ SplitsUp v := by
  have herased : Cond.eraseQuoted false (opened op (v ++ ['\''])) =
      op.text ++ ' ' :: ([] ++ ' ' :: (Cond.eraseQuoted true v ++ ' ' :: [])) := by
    have hfront : '\'' ∉ op.text ++ [' '] := by cases op <;> decide
    have hopened : opened op (v ++ ['\'']) = (op.text ++ [' ']) ++ '\'' :: (v ++ ['\'']) := by simp [opened]
    rw [hopened, eraseQuoted_front hfront, Cond.eraseQuoted]
    simp [eraseQuoted_concat]
  have hop : Cond.hasOperator op.text = false := by cases op <;> decide
  have hnil : Cond.hasOperator [] = false := by decide
  have hiff : Cond.hasOperator (Cond.eraseQuoted false (opened op (v ++ ['\'']))) = true ↔ SplitsUp v := by
    rw [herased, hasOperator_blank, hasOperator_blank, hasOperator_blank, hop, hnil]
    simp [SplitsUp]
  rw [Bool.and_eq_true, hiff]
  exact ⟨fun h => h.2, fun h => ⟨hasOperator_of_eraseQuoted (hiff.mpr h), h⟩⟩

end RuleQuery

end GenQuery
