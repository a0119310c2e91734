-- SUMMARY: The loops of the rule language, and when they agree.
import Mathlib.Data.List.Basic
import Mathlib.Tactic.Common

/-!
# Loops

`while`, `for` and the three forms of `foreach` repeat the handling of errors, `break` and
`succeed`. The outcome of every evaluation of a part is given, and a loop records which
evaluations it makes.
-/

namespace Re

open List (mem_append mem_cons mem_singleton ne_nil_of_mem)

variable {V : Type} {i : Nat}

namespace Loops

/-- What an evaluation comes to: a value, `T_BREAK`, `T_SUCCESS` or an error. -/
inductive Outcome (V : Type) where
  | value (v : V)
  | brk
  | succeed
  | error (code : Int)
  deriving DecidableEq

inductive Part where
  | init
  | cond
  | step
  | body
  deriving DecidableEq

/-- The result of a loop, with the evaluations it has made: a part and the number of its
turn. The result is `none` where the variable for it is not set. -/
structure Done (V : Type) where
  res : Option (Outcome V)
  evaluated : List (Part × Nat)
  deriving DecidableEq

def Done.after {V : Type} (front : List (Part × Nat)) (d : Done V) : Done V :=
  { d with evaluated := front ++ d.evaluated }

section

variable (truth : V → Bool) (zero : V) (eval : Part → Nat → Outcome V)

/-- `RES_BOOL_VAL`: results without a value are zeroed. -/
def resBoolVal : Outcome V → Bool
  | .value v => truth v
  | _ => false

/-- Actions one after the other, up to one that does not have a value. -/
def evaluateActions : List (Part × Nat) → Outcome V → Outcome V × List (Part × Nat)
  | [], res => (res, [])
  | (p, i) :: as, _ =>
    match eval p i with
    | .value v => ((evaluateActions as (.value v)).1, (p, i) :: (evaluateActions as (.value v)).2)
    | res => (res, [(p, i)])

/-- The loop of `smsi_whileExec` from turn `i`, for a number of turns; `body` are the actions
of a turn. -/
def whileExec (body : Nat → List (Part × Nat)) : Nat → Nat → Option (Done V)
  | 0, _ => none
  | fuel + 1, i =>
    match eval .cond i with
    | .error code => some ⟨some (.error code), [(.cond, i)]⟩
    | cond =>
      if resBoolVal truth cond = false then some ⟨some (.value zero), [(.cond, i)]⟩
      else
        let (res, actions) := evaluateActions eval (body i) (.value zero)
        match res with
        | .error code => some ⟨some (.error code), (.cond, i) :: actions⟩
        | .brk => some ⟨some (.value zero), (.cond, i) :: actions⟩
        | .succeed => some ⟨some .succeed, (.cond, i) :: actions⟩
        | .value _ => (whileExec body fuel (i + 1)).map (Done.after ((.cond, i) :: actions))

/-- The loop of `smsi_forExec`; `res` is what the turns before have left in the variable. -/
def forLoop : Nat → Nat → Option (Outcome V) → Option (Done V)
  | 0, _, _ => none
  | fuel + 1, i, res =>
    match eval .cond i with
    -- the error is not copied to `res`
    | .error _ => some ⟨res, [(.cond, i)]⟩
    | cond =>
      if resBoolVal truth cond = false then some ⟨some (.value zero), [(.cond, i)]⟩
      else
        let (res, actions) := evaluateActions eval [(.body, i)] (.value zero)
        match res with
        | .error code => some ⟨some (.error code), (.cond, i) :: actions⟩
        | .brk => some ⟨some (.value zero), (.cond, i) :: actions⟩
        | .succeed => some ⟨some .succeed, (.cond, i) :: actions⟩
        | .value v =>
          match eval .step i with
          | .error _ => some ⟨some (.value v), (.cond, i) :: actions ++ [(.step, i)]⟩
          | _ =>
            (forLoop fuel (i + 1) (some (.value v))).map (Done.after ((.cond, i) :: actions ++ [(.step, i)]))

def forExec (fuel : Nat) : Option (Done V) :=
  match eval .init 0 with
  | .error code => some ⟨some (.error code), [(.init, 0)]⟩
  | _ => (forLoop truth zero eval fuel 0 none).map (Done.after [(.init, 0)])

/-- `init; while (cond) { body; step }`. -/
def initWhile (fuel : Nat) : Option (Done V) :=
  match eval .init 0 with
  | .value _ =>
    (whileExec truth zero eval (fun i => [(.body, i), (.step, i)]) fuel 0).map (Done.after [(.init, 0)])
  | res => some ⟨some res, [(.init, 0)]⟩

/-- The rows of a `foreach`, and whether one of them has ended it. -/
structure Rows (V : Type) where
  res : Outcome V
  evaluated : List (Part × Nat)
  ended : Bool

/-- The next `n` elements of a `foreach` from number `i`. Only over a list is `succeed`
tested for. -/
def forEachRows (testsSuccess : Bool) : Nat → Nat → Outcome V → Rows V
  | 0, _, res => ⟨res, [], false⟩
  | n + 1, i, _ =>
    let next (res : Outcome V) :=
      let rows := forEachRows testsSuccess n (i + 1) res
      { rows with evaluated := (.body, i) :: rows.evaluated }
    match eval .body i with
    | .error code => ⟨.error code, [(.body, i)], true⟩
    | .brk => ⟨.brk, [(.body, i)], true⟩
    | .succeed => if testsSuccess then ⟨.succeed, [(.body, i)], true⟩ else next .succeed
    | .value v => next (.value v)

/-- A result that is no error is replaced. -/
def forEachResult (res : Outcome V) : Outcome V :=
  match res with
  | .error code => .error code
  | _ => .value zero

def forEachList (n : Nat) : Done V :=
  let rows := forEachRows eval true n 0 (.value zero)
  ⟨some (forEachResult zero rows.res), rows.evaluated⟩

/-- What a `foreach` other than over a list runs over. The values of a query result are
structures, so an element of them has a `param`; strings and integers have none. -/
inductive ArrayKind where
  | strArray
  | intArray
  | genQueryOut
  deriving DecidableEq

def ArrayKind.hasParam : ArrayKind → Bool
  | .genQueryOut => true
  | .strArray | .intArray => false

/-- A `foreach` over an array ends, or reads through a null pointer after these bodies. -/
inductive ArrayRun (V : Type) where
  | done (d : Done V)
  | undefined (evaluated : List (Part × Nat))
  deriving DecidableEq

/-- The rows of an array. After each body, whatever it came to, the element is freed as a
key-value list: `clearKeyVal(RES_UNINTER_STRUCT(elem))` reads `elem->param->inOutStruct`. The
bodies themselves put no structure into the element. -/
def forEachArray (kind : ArrayKind) (n : Nat) : ArrayRun V :=
  if 0 < n ∧ kind.hasParam = false then .undefined [(.body, 0)]
  else
    let rows := forEachRows eval false n 0 (.value zero)
    .done ⟨some (forEachResult zero rows.res), rows.evaluated⟩

/-- The pages of a query result by their numbers of rows: after a page there may be no
further one, or `msiGetMoreRows` may fail. -/
inductive Pages where
  | last (rows : Nat)
  | fails (rows : Nat) (status : Int)
  | more (rows : Nat) (rest : Pages)

/-- All rows that can be read. -/
def Pages.rows : Pages → Nat
  | .last n => n
  | .fails n _ => n
  | .more n rest => n + rest.rows

def forEachPages : Pages → Nat → Outcome V → Outcome V × List (Part × Nat)
  | .last n, i, res =>
    let rows := forEachRows eval false n i res
    (rows.res, rows.evaluated)
  | .fails n status, i, res =>
    let rows := forEachRows eval false n i res
    (if rows.ended then rows.res else .error status, rows.evaluated)
  | .more n rest, i, res =>
    let rows := forEachRows eval false n i res
    if rows.ended then (rows.res, rows.evaluated)
    else
      let (res, evaluated) := forEachPages rest (i + n) rows.res
      (res, rows.evaluated ++ evaluated)

def forEachQuery (pages : Pages) : Done V :=
  let (res, evaluated) := forEachPages eval pages 0 (.value zero)
  ⟨some (forEachResult zero res), evaluated⟩

end

/-! ## What is asked of the loops -/

section

variable (truth : V → Bool) (zero : V) (eval : Part → Nat → Outcome V)

/-- A run of one of the loops that has ended: `foreach` over a list of `n` elements, over an
array of `m`, and over the pages of a query result. -/
inductive Ends (n : Nat) (kind : ArrayKind) (m : Nat) (pages : Pages) (d : Done V) : Prop where
  | while_ (fuel : Nat) (h : whileExec truth zero eval (fun i => [(.body, i)]) fuel 0 = some d)
  | initWhile (fuel : Nat) (h : initWhile truth zero eval fuel = some d)
  | for_ (fuel : Nat) (h : forExec truth zero eval fuel = some d)
  | list (h : forEachList zero eval n = d)
  | array (h : forEachArray zero eval kind m = .done d)
  | query (h : forEachQuery zero eval pages = d)

/-- An error of a part is the result. -/
def ErrorIsResult (d : Done V) : Prop :=
  ∀ p i code, (p, i) ∈ d.evaluated → eval p i = .error code → d.res = some (.error code)

/-- `succeed` in the body is the last that is evaluated, and the result, which ends the rule. -/
def SucceedEndsRule (d : Done V) : Prop :=
  ∀ i, (.body, i) ∈ d.evaluated → eval .body i = .succeed →
    d.res = some .succeed ∧ d.evaluated.getLast? = some (.body, i)

/-- Loop control is the same in all loops, and `foreach` over an array does not break off. -/
structure LoopControl (n : Nat) (kind : ArrayKind) (m : Nat) (pages : Pages) : Prop where
  for_while : ∀ fuel, forExec truth zero eval fuel = initWhile truth zero eval fuel
  array : ∃ d, forEachArray zero eval kind m = .done d
  error : ∀ d, Ends truth zero eval n kind m pages d → ErrorIsResult eval d
  succeed : ∀ d, Ends truth zero eval n kind m pages d → SucceedEndsRule eval d

/-- A turn of `for` that another one follows. -/
def Goes (i : Nat) : Prop :=
  (∃ v, eval .cond i = .value v ∧ truth v = true) ∧ (∃ v, eval .body i = .value v) ∧
    ∃ v, eval .step i = .value v

/-- The turn does not end with an error of the condition, nor with anything but a value of
the step. -/
def TurnRegular (i : Nat) : Prop :=
  (∀ code, eval .cond i ≠ .error code) ∧
    ((∃ v, eval .cond i = .value v ∧ truth v = true) → (∃ v, eval .body i = .value v) →
      ∃ v, eval .step i = .value v)

/-- Every turn that `for` begins is regular. -/
def ForRegular : Prop :=
  (∃ code, eval .init 0 = .error code) ∨
    (∃ v, eval .init 0 = .value v) ∧ ∀ i, (∀ j < i, Goes truth eval j) → TurnRegular truth eval i

/-- The first of the first `n` bodies without a value is no `succeed`. -/
def ForEachRegular (n : Nat) : Prop :=
  ∀ i < n, (∀ j < i, ∃ v, eval .body j = .value v) → eval .body i ≠ .succeed

/-- An array of strings or integers has no element. -/
def ArrayRegular (kind : ArrayKind) (m : Nat) : Prop :=
  ForEachRegular eval m ∧ (kind.hasParam = false → m = 0)

end

/-! ## while -/

section

variable {truth : V → Bool} {zero : V} {eval : Part → Nat → Outcome V}

theorem Done.after_injective (front : List (Part × Nat)) : Function.Injective (Done.after (V := V) front) := by
  rintro ⟨res, evaluated⟩ ⟨res', evaluated'⟩ h
  simp only [Done.after, Done.mk.injEq, List.append_cancel_left_eq] at h
  rw [h.1, h.2]

variable {d : Done V}

variable {front : List (Part × Nat)} {res : Outcome V}

/-- What holds of a run after evaluations that came to nothing but values. -/
theorem ErrorIsResult.after (h : ErrorIsResult eval d)
    (hfront : ∀ p i, (p, i) ∈ front → ∀ code, eval p i ≠ .error code) : ErrorIsResult eval (d.after front) := by
  intro p i code hmem hcode
  obtain hmem | hmem := mem_append.mp hmem
  · exact absurd hcode (hfront p i hmem code)
  · exact h p i code hmem hcode

theorem SucceedEndsRule.after (h : SucceedEndsRule eval d)
    (hfront : ∀ i, (.body, i) ∈ front → eval .body i ≠ .succeed) : SucceedEndsRule eval (d.after front) := by
  intro i hmem hsucceed
  obtain hmem | hmem := mem_append.mp hmem
  · exact absurd hsucceed (hfront i hmem)
  · obtain ⟨hres, hlast⟩ := h i hmem hsucceed
    refine ⟨hres, ?_⟩
    rw [Done.after, List.getLast?_append_of_ne_nil _ (ne_nil_of_mem hmem)]
    exact hlast

/-- Actions end with the first one that has no value. -/
theorem evaluateActions_values : ∀ {as : List (Part × Nat)} {res : Outcome V} {v : V},
    (evaluateActions eval as res).1 = .value v → ∀ p i, (p, i) ∈ (evaluateActions eval as res).2 →
      ∃ v', eval p i = .value v' := by
  intro as
  induction as with
  | nil => exact fun _ _ _ hmem => absurd hmem List.not_mem_nil
  | cons a as ih =>
    obtain ⟨q, j⟩ := a
    intro res v hres p i hmem
    unfold evaluateActions at hres hmem
    cases ha : eval q j with
    | value w =>
      simp only [ha] at hres hmem
      obtain hmem | hmem := mem_cons.mp hmem
      · rw [Prod.mk.injEq] at hmem
        rw [hmem.1, hmem.2]
        exact ⟨w, ha⟩
      · exact ih hres p i hmem
    | _ => simp [ha] at hres

/-- The outcome without a value is that of the last action. -/
theorem evaluateActions_last : ∀ {as : List (Part × Nat)} {res : Outcome V} {p : Part} {i : Nat},
    (p, i) ∈ (evaluateActions eval as res).2 → (∀ v, eval p i ≠ .value v) →
    (evaluateActions eval as res).1 = eval p i ∧ (evaluateActions eval as res).2.getLast? = some (p, i) := by
  intro as
  induction as with
  | nil => exact fun hmem => absurd hmem List.not_mem_nil
  | cons a as ih =>
    obtain ⟨q, j⟩ := a
    intro res p i hmem hno
    unfold evaluateActions at hmem ⊢
    cases ha : eval q j with
    | value w =>
      simp only [ha] at hmem ⊢
      obtain hmem | hmem := mem_cons.mp hmem
      · rw [Prod.mk.injEq] at hmem
        rw [hmem.1, hmem.2] at hno
        exact absurd ha (hno w)
      · obtain ⟨hres, hlast⟩ := ih hmem hno
        refine ⟨hres, ?_⟩
        rw [List.getLast?_cons_of_ne_nil (ne_nil_of_mem hmem)]
        exact hlast
    | _ =>
      simp only [ha, mem_singleton, Prod.mk.injEq] at hmem ⊢
      rw [hmem.1, hmem.2]
      exact ⟨ha.symm, rfl⟩

/-- A turn that ends the loop with the outcome of its last action. -/
theorem uniform_last {as : List (Part × Nat)} {init : Outcome V} (hcond : ∀ code, eval .cond i ≠ .error code)
    (herror : ∀ code, (evaluateActions eval as init).1 = .error code → res = .error code)
    (hsucceed : (evaluateActions eval as init).1 = .succeed → res = .succeed) :
    ErrorIsResult eval ⟨some res, (.cond, i) :: (evaluateActions eval as init).2⟩ ∧
      SucceedEndsRule eval ⟨some res, (.cond, i) :: (evaluateActions eval as init).2⟩ := by
  constructor
  · intro p j code hmem hcode
    obtain hmem | hmem := mem_cons.mp hmem
    · rw [Prod.mk.injEq] at hmem
      rw [hmem.1, hmem.2] at hcode
      exact absurd hcode (hcond code)
    · have hlast := evaluateActions_last hmem (fun v hv => by rw [hcode] at hv; cases hv)
      exact congrArg some (herror code (hlast.1.trans hcode))
  · intro j hmem hcode
    obtain hmem | hmem := mem_cons.mp hmem
    · cases hmem
    · have hlast := evaluateActions_last hmem (fun v hv => by rw [hcode] at hv; cases hv)
      refine ⟨congrArg some (hsucceed (hlast.1.trans hcode)), ?_⟩
      rw [List.getLast?_cons_of_ne_nil (ne_nil_of_mem hmem)]
      exact hlast.2

theorem uniform_cond (herror : ∀ code, eval .cond i = .error code → res = .error code) :
    ErrorIsResult eval ⟨some res, [(.cond, i)]⟩ ∧ SucceedEndsRule eval ⟨some res, [(.cond, i)]⟩ := by
  constructor
  · intro p j code hmem hcode
    rw [mem_singleton, Prod.mk.injEq] at hmem
    rw [hmem.1, hmem.2] at hcode
    exact congrArg some (herror code hcode)
  · intro j hmem
    cases mem_singleton.mp hmem

/-- `while` handles errors and `succeed` in the same way, whatever the actions of a turn are. -/
theorem whileExec_uniform (body : Nat → List (Part × Nat)) : ∀ {fuel i : Nat} {d : Done V},
    whileExec truth zero eval body fuel i = some d → ErrorIsResult eval d ∧ SucceedEndsRule eval d := by
  intro fuel
  induction fuel with
  | zero => exact nofun
  | succ fuel ih =>
    intro i d h
    unfold whileExec at h
    dsimp only at h
    split at h
    · rename_i code hcode
      cases h
      exact uniform_cond fun code' hcode' => by rw [← hcode, hcode']
    · rename_i cond hcond
      split at h
      · cases h
        exact uniform_cond fun code hcode => absurd hcode (hcond code)
      · split at h
        · rename_i code hres
          cases h
          exact uniform_last hcond (by simp [hres]) (by simp [hres])
        · rename_i hres
          cases h
          exact uniform_last hcond (by simp [hres]) (by simp [hres])
        · rename_i hres
          cases h
          exact uniform_last hcond (by simp [hres]) (by simp [hres])
        · rename_i v hres
          obtain ⟨d', hd', rfl⟩ := Option.map_eq_some_iff.mp h
          obtain ⟨herror, hsucceed⟩ := ih hd'
          refine ⟨herror.after fun p j hmem code hcode => ?_, hsucceed.after fun j hmem hcode => ?_⟩
          · obtain hmem | hmem := mem_cons.mp hmem
            · rw [Prod.mk.injEq] at hmem
              rw [hmem.1, hmem.2] at hcode
              exact hcond code hcode
            · obtain ⟨v', hv'⟩ := evaluateActions_values hres p j hmem
              rw [hcode] at hv'
              cases hv'
          · obtain hmem | hmem := mem_cons.mp hmem
            · cases hmem
            · obtain ⟨v', hv'⟩ := evaluateActions_values hres .body j hmem
              rw [hcode] at hv'
              cases hv'

theorem initWhile_uniform {fuel : Nat} (h : initWhile truth zero eval fuel = some d) :
    ErrorIsResult eval d ∧ SucceedEndsRule eval d := by
  unfold initWhile at h
  split at h
  · rename_i v hinit
    obtain ⟨d', hd', rfl⟩ := Option.map_eq_some_iff.mp h
    obtain ⟨herror, hsucceed⟩ := whileExec_uniform _ hd'
    refine ⟨herror.after fun p j hmem code hcode => ?_, hsucceed.after fun j hmem _ => ?_⟩
    · rw [mem_singleton, Prod.mk.injEq] at hmem
      rw [hmem.1, hmem.2, hinit] at hcode
      cases hcode
    · cases mem_singleton.mp hmem
  · cases h
    constructor
    · intro p j code hmem hcode
      rw [mem_singleton, Prod.mk.injEq] at hmem
      rw [hmem.1, hmem.2] at hcode
      exact congrArg some hcode
    · intro j hmem
      cases mem_singleton.mp hmem

/-! ## for -/

/-- What `for` can have in the variable for its result when it begins a turn. -/
def NoError (res : Option (Outcome V)) : Prop := ∀ code, res ≠ some (.error code)

theorem forLoop_goes (h : Goes truth eval i) (res : Option (Outcome V)) :
    ∃ v, ∀ fuel, forLoop truth zero eval (fuel + 1) i res =
      (forLoop truth zero eval fuel (i + 1) (some (.value v))).map
        (Done.after [(.cond, i), (.body, i), (.step, i)]) := by
  obtain ⟨⟨c, hcond, htrue⟩, ⟨v, hbody⟩, w, hstep⟩ := h
  exact ⟨v, fun fuel => by simp [forLoop, hcond, resBoolVal, htrue, evaluateActions, hbody, hstep]⟩

theorem whileExec_goes (h : Goes truth eval i) (fuel : Nat) :
    whileExec truth zero eval (fun i => [(.body, i), (.step, i)]) (fuel + 1) i =
      (whileExec truth zero eval (fun i => [(.body, i), (.step, i)]) fuel (i + 1)).map
        (Done.after [(.cond, i), (.body, i), (.step, i)]) := by
  obtain ⟨⟨c, hcond, htrue⟩, ⟨v, hbody⟩, w, hstep⟩ := h
  simp [whileExec, hcond, resBoolVal, htrue, evaluateActions, hbody, hstep]

/-- A regular turn that is the last one ends both loops in the same way. -/
theorem forLoop_last (hregular : TurnRegular truth eval i) (hlast : ¬ Goes truth eval i) (fuel : Nat)
    (res : Option (Outcome V)) : forLoop truth zero eval (fuel + 1) i res =
      whileExec truth zero eval (fun i => [(.body, i), (.step, i)]) (fuel + 1) i := by
  obtain ⟨hcond, hstep⟩ := hregular
  cases hc : eval .cond i with
  | error code => exact absurd hc (hcond code)
  | brk => simp [forLoop, whileExec, hc, resBoolVal]
  | succeed => simp [forLoop, whileExec, hc, resBoolVal]
  | value c =>
    cases htrue : truth c with
    | false => simp [forLoop, whileExec, hc, resBoolVal, htrue]
    | true =>
      cases hb : eval .body i with
      | value v =>
        obtain ⟨w, hs⟩ := hstep ⟨c, hc, htrue⟩ ⟨v, hb⟩
        exact absurd ⟨⟨c, hc, htrue⟩, ⟨v, hb⟩, w, hs⟩ hlast
      | _ => simp [forLoop, whileExec, hc, resBoolVal, htrue, evaluateActions, hb]

variable {res : Option (Outcome V)}

/-- At a turn that is not regular the two loops part. -/
theorem turnRegular_of_eq (hres : NoError res) (h : forLoop truth zero eval 1 i res =
      whileExec truth zero eval (fun i => [(.body, i), (.step, i)]) 1 i) :
    TurnRegular truth eval i := by
  constructor
  · intro code hc
    simp only [forLoop, whileExec, hc, Option.some.injEq, Done.mk.injEq] at h
    exact hres code h.1
  · rintro ⟨c, hc, htrue⟩ ⟨v, hb⟩
    cases hs : eval .step i with
    | value w => exact ⟨w, rfl⟩
    | _ => simp [forLoop, whileExec, hc, resBoolVal, htrue, evaluateActions, hb, hs] at h

/-- `for` is the `while` loop as far as its turns are regular. -/
theorem forLoop_eq_iff (hres : NoError res) :
    (∀ fuel, forLoop truth zero eval fuel i res =
      whileExec truth zero eval (fun i => [(.body, i), (.step, i)]) fuel i) ↔
      ∀ k, i ≤ k → (∀ j, i ≤ j → j < k → Goes truth eval j) → TurnRegular truth eval k := by
  constructor
  · intro h k hk hbefore
    obtain ⟨n, rfl⟩ := Nat.exists_eq_add_of_le hk
    induction n generalizing i res with
    | zero => exact turnRegular_of_eq hres (h 1)
    | succ n ih =>
      have hgoes : Goes truth eval i := hbefore i (Nat.le_refl i) (by omega)
      have hnext : i + 1 + n = i + (n + 1) := by omega
      obtain ⟨v, hfor⟩ := forLoop_goes hgoes res
      rw [← hnext]
      have hno : NoError (some (Outcome.value v)) := by simp [NoError]
      refine ih (i := i + 1) hno (fun fuel => ?_) (by omega)
        fun j hij hjk => hbefore j (by omega) (by omega)
      have heq := h (fuel + 1)
      rw [hfor, whileExec_goes hgoes] at heq
      exact Option.map_injective (Done.after_injective _) heq
  · intro h fuel
    induction fuel generalizing i res with
    | zero => rfl
    | succ fuel ih =>
      by_cases hgoes : Goes truth eval i
      · obtain ⟨v, hfor⟩ := forLoop_goes hgoes res
        rw [hfor, whileExec_goes hgoes, ih (by simp [NoError])]
        intro k hk hbefore
        refine h k (by omega) fun j hij hjk => ?_
        obtain rfl | hlt := Nat.eq_or_lt_of_le hij
        · exact hgoes
        · exact hbefore j hlt hjk
      · exact forLoop_last (h i (Nat.le_refl i) fun j hij hji => absurd hji (by omega)) hgoes fuel res

theorem forExec_eq_iff : (∀ fuel, forExec truth zero eval fuel = initWhile truth zero eval fuel) ↔
    ForRegular truth eval := by
  unfold ForRegular
  cases hinit : eval .init 0 with
  | error code => exact iff_of_true (fun fuel => by simp [forExec, initWhile, hinit]) (.inl ⟨code, rfl⟩)
  | value v =>
    have hno : NoError (none : Option (Outcome V)) := by simp [NoError]
    have heq : (∀ fuel, forLoop truth zero eval fuel 0 none = _) ↔ _ := forLoop_eq_iff hno
    simp only [Nat.zero_le, true_imp_iff] at heq
    simp only [forExec, initWhile, hinit, reduceCtorEq, exists_false, false_or, Outcome.value.injEq, exists_eq',
      true_and, ← heq]
    exact forall_congr' fun fuel => (Option.map_injective (Done.after_injective _)).eq_iff
  | _ =>
    refine iff_of_false (fun h => ?_) (by simp)
    have hzero := h 0
    simp [forExec, initWhile, hinit, forLoop] at hzero

/-! ## foreach -/

/-- After this outcome of the body there is another element. -/
def Continues (testsSuccess : Bool) (o : Outcome V) : Prop :=
  (∃ v, o = .value v) ∨ testsSuccess = false ∧ o = .succeed

variable {testsSuccess : Bool} {k n : Nat}

theorem forEachRows_next (h : Continues testsSuccess (eval .body i)) (n : Nat) (res : Outcome V) :
    forEachRows eval testsSuccess (n + 1) i res =
      { forEachRows eval testsSuccess n (i + 1) (eval .body i) with
        evaluated := (.body, i) :: (forEachRows eval testsSuccess n (i + 1) (eval .body i)).evaluated } := by
  obtain ⟨v, hv⟩ | ⟨rfl, hsucceed⟩ := h
  · simp [forEachRows, hv]
  · simp [forEachRows, hsucceed]

theorem forEachRows_last (h : ¬ Continues testsSuccess (eval .body i)) (n : Nat) (res : Outcome V) :
    forEachRows eval testsSuccess (n + 1) i res = ⟨eval .body i, [(.body, i)], true⟩ := by
  cases hb : eval .body i with
  | value v => exact absurd (.inl ⟨v, hb⟩) h
  | succeed =>
    cases testsSuccess with
    | true => simp [forEachRows, hb]
    | false => exact absurd (.inr ⟨rfl, hb⟩) h
  | _ => simp [forEachRows, hb]

/-- The bodies that are evaluated are those before which every other one went on. -/
theorem mem_forEachRows {p : Part} : ∀ {n i : Nat} {res : Outcome V},
    (p, k) ∈ (forEachRows eval testsSuccess n i res).evaluated ↔
      p = .body ∧ i ≤ k ∧ k < i + n ∧ ∀ j, i ≤ j → j < k → Continues testsSuccess (eval .body j) := by
  intro n
  induction n with
  | zero =>
    intro i res
    simp [forEachRows]
    omega
  | succ n ih =>
    intro i res
    by_cases h : Continues testsSuccess (eval .body i)
    · rw [forEachRows_next h]
      simp only [mem_cons, Prod.mk.injEq, ih]
      constructor
      · rintro (⟨rfl, rfl⟩ | ⟨rfl, hle, hlt, hbefore⟩)
        · exact ⟨rfl, Nat.le_refl _, by omega, fun j hij hjk => absurd hjk (by omega)⟩
        · refine ⟨rfl, by omega, by omega, fun j hij hjk => ?_⟩
          obtain rfl | hij := Nat.eq_or_lt_of_le hij
          · exact h
          · exact hbefore j hij hjk
      · rintro ⟨rfl, hle, hlt, hbefore⟩
        obtain rfl | hne := Nat.eq_or_lt_of_le hle
        · exact .inl ⟨rfl, rfl⟩
        · exact .inr ⟨rfl, hne, by omega, fun j hij hjk => hbefore j (by omega) hjk⟩
    · rw [forEachRows_last h]
      simp only [mem_singleton, Prod.mk.injEq]
      constructor
      · rintro ⟨rfl, rfl⟩
        exact ⟨rfl, Nat.le_refl _, by omega, fun j hij hjk => absurd hjk (by omega)⟩
      · rintro ⟨rfl, hle, hlt, hbefore⟩
        refine ⟨rfl, ?_⟩
        by_contra hne
        exact h (hbefore i (Nat.le_refl i) (by omega))

variable {code : Int}

theorem forEachRows_error (hcode : eval .body k = .error code) :
    ∀ {n i : Nat} {res : Outcome V}, (.body, k) ∈ (forEachRows eval testsSuccess n i res).evaluated →
      (forEachRows eval testsSuccess n i res).res = .error code ∧
        (forEachRows eval testsSuccess n i res).ended = true := by
  intro n
  induction n with
  | zero => exact fun h => absurd h (by simp [forEachRows])
  | succ n ih =>
    intro i res hmem
    by_cases h : Continues testsSuccess (eval .body i)
    · rw [forEachRows_next h] at hmem ⊢
      obtain heq | hmem := mem_cons.mp hmem
      · obtain rfl := (Prod.mk.injEq _ _ _ _ ▸ heq).2
        obtain ⟨v, hv⟩ | ⟨-, hv⟩ := h
        · cases hcode.symm.trans hv
        · cases hcode.symm.trans hv
      · exact ih hmem
    · rw [forEachRows_last h] at hmem ⊢
      obtain rfl := (Prod.mk.injEq _ _ _ _ ▸ mem_singleton.mp hmem).2
      exact ⟨hcode, rfl⟩

/-- Rows after rows: there are no more once one of them has ended the loop. -/
theorem forEachRows_add (testsSuccess : Bool) (m : Nat) : ∀ (n i : Nat) (res : Outcome V),
    forEachRows eval testsSuccess (n + m) i res =
      let rows := forEachRows eval testsSuccess n i res
      let more := forEachRows eval testsSuccess m (i + n) rows.res
      if rows.ended then rows else { more with evaluated := rows.evaluated ++ more.evaluated } := by
  intro n
  induction n with
  | zero => simp [forEachRows]
  | succ n ih =>
    intro i res
    have hsum : n + 1 + m = n + m + 1 := by omega
    have hnext : i + (n + 1) = i + 1 + n := by omega
    rw [hsum]
    by_cases h : Continues testsSuccess (eval .body i)
    · simp only [forEachRows_next h, ih, hnext]
      split <;> simp
    · simp [forEachRows_last h]

/-- Over the pages the rows are numbered through. -/
theorem forEachPages_evaluated : ∀ {pages : Pages} {i : Nat} {res : Outcome V},
    (forEachPages eval pages i res).2 = (forEachRows eval false pages.rows i res).evaluated := by
  intro pages
  induction pages with
  | last n => exact fun {i res} => rfl
  | fails n status => exact fun {i res} => rfl
  | more n rest ih =>
    intro i res
    simp only [forEachPages, Pages.rows, forEachRows_add]
    split
    · rfl
    · simp only [ih]

theorem forEachPages_error (hcode : eval .body k = .error code) :
    ∀ {pages : Pages} {i : Nat} {res : Outcome V}, (.body, k) ∈ (forEachPages eval pages i res).2 →
      (forEachPages eval pages i res).1 = .error code := by
  intro pages
  induction pages with
  | last n => exact fun hmem => (forEachRows_error hcode hmem).1
  | fails n status =>
    intro i res hmem
    obtain ⟨hres, hended⟩ := forEachRows_error hcode hmem
    simp only [forEachPages, hended, if_true, hres]
  | more n rest ih =>
    intro i res hmem
    unfold forEachPages at hmem ⊢
    dsimp only at hmem ⊢
    split at hmem
    · rename_i hended
      rw [if_pos hended]
      exact (forEachRows_error hcode hmem).1
    · rename_i hended
      rw [if_neg hended]
      obtain hmem | hmem := mem_append.mp hmem
      · exact absurd (forEachRows_error hcode hmem).2 hended
      · exact ih hmem

theorem forEachResult_ne_succeed (res : Outcome V) : some (forEachResult zero res) ≠ some .succeed := by
  cases res <;> simp [forEachResult]

/-- No body that is evaluated succeeds: only then does it make no difference what the loop
does about it. -/
theorem forEachRegular_iff {res : Outcome V} : ForEachRegular eval n ↔
    ∀ k, (.body, k) ∈ (forEachRows eval testsSuccess n 0 res).evaluated → eval .body k ≠ .succeed := by
  simp only [mem_forEachRows, true_and, Nat.zero_le, Nat.zero_add, true_imp_iff]
  constructor
  · rintro h k ⟨hlt, hbefore⟩
    refine h k hlt fun j hjk => ?_
    -- the first body without a value is no `succeed`, so there is none before `k`
    induction j using Nat.strongRecOn with
    | ind j ih =>
      have hvalues : ∀ j' < j, ∃ v, eval .body j' = .value v := fun j' hj' => ih j' hj' (by omega)
      obtain hv | ⟨-, hsucceed⟩ := hbefore j hjk
      · exact hv
      · exact absurd hsucceed (h j (by omega) hvalues)
  · exact fun h k hlt hvalues => h k ⟨hlt, fun j hjk => .inl (hvalues j hjk)⟩

/-- A `foreach` whose bodies are those of the rows. -/
structure IsForEach (d : Done V) (n : Nat) (testsSuccess : Bool) : Prop where
  evaluated : d.evaluated = (forEachRows eval testsSuccess n 0 (.value zero)).evaluated
  never : d.res ≠ some .succeed
  error : ∀ k code, (.body, k) ∈ d.evaluated → eval .body k = .error code → d.res = some (.error code)

theorem forEachList_isForEach (n : Nat) : @IsForEach V zero eval (forEachList zero eval n) n true where
  evaluated := rfl
  never := forEachResult_ne_succeed _
  error k code hmem hcode := by
    have hres := (forEachRows_error hcode hmem).1
    simp only [forEachList, hres, forEachResult]

/-- Over an array that ends it is the loop over the rows. -/
theorem forEachArray_isForEach {kind : ArrayKind} (h : forEachArray zero eval kind n = .done d) :
    @IsForEach V zero eval d n false := by
  unfold forEachArray at h
  split at h
  · cases h
  · obtain rfl := ArrayRun.done.inj h
    refine ⟨rfl, forEachResult_ne_succeed _, fun k code hmem hcode => ?_⟩
    have hres := (forEachRows_error hcode hmem).1
    simp only [hres, forEachResult]

theorem forEachArray_done_iff {kind : ArrayKind} :
    (∃ d, forEachArray zero eval kind n = .done d) ↔ (kind.hasParam = false → n = 0) := by
  unfold forEachArray
  split
  · rename_i h
    -- the element of the first turn cannot be freed
    exact iff_of_false (by simp) fun hempty => absurd (hempty h.2) (by omega)
  · rename_i h
    refine iff_of_true ⟨_, rfl⟩ fun hparam => ?_
    have hno : ¬ 0 < n := fun hpos => h ⟨hpos, hparam⟩
    omega

theorem forEachQuery_isForEach (pages : Pages) :
    @IsForEach V zero eval (forEachQuery zero eval pages) pages.rows false where
  evaluated := forEachPages_evaluated
  never := forEachResult_ne_succeed _
  error k code hmem hcode := by
    have hres := forEachPages_error hcode hmem
    simp only [forEachQuery, hres, forEachResult]

theorem IsForEach.errorIsResult (h : @IsForEach V zero eval d n testsSuccess) : ErrorIsResult eval d := by
  intro p k code hmem hcode
  have hbody := hmem
  rw [h.evaluated, mem_forEachRows] at hbody
  obtain ⟨rfl, -⟩ := hbody
  exact h.error k code hmem hcode

theorem IsForEach.succeed_iff (h : @IsForEach V zero eval d n testsSuccess) :
    SucceedEndsRule eval d ↔ ForEachRegular eval n := by
  have hregular := @forEachRegular_iff V eval testsSuccess n (.value zero)
  rw [hregular, ← h.evaluated]
  constructor
  · exact fun hends k hmem hsucceed => h.never (hends k hmem hsucceed).1
  · exact fun hno k hmem hsucceed => absurd hsucceed (hno k hmem)

/-! ## All loops -/

/-- Loop control is the same in all loops if and only if `for` is regular, in no `foreach`
a body succeeds, and none runs over an array of strings or integers that has elements. -/
theorem loopControl_iff (truth : V → Bool) (zero : V) (eval : Part → Nat → Outcome V)
    (n : Nat) (kind : ArrayKind) (m : Nat) (pages : Pages) :
    LoopControl truth zero eval n kind m pages ↔
      ForRegular truth eval ∧ ForEachRegular eval n ∧ ArrayRegular eval kind m ∧
        ForEachRegular eval pages.rows := by
  constructor
  · intro h
    obtain ⟨d, hd⟩ := h.array
    refine ⟨forExec_eq_iff.1 h.for_while, ?_, ⟨?_, forEachArray_done_iff.1 h.array⟩, ?_⟩
    · exact (forEachList_isForEach n).succeed_iff.mp (h.succeed _ (.list rfl))
    · exact (forEachArray_isForEach hd).succeed_iff.mp (h.succeed _ (.array hd))
    · exact (forEachQuery_isForEach pages).succeed_iff.mp (h.succeed _ (.query rfl))
  · rintro ⟨hfor, hlist, ⟨harray, hempty⟩, hquery⟩
    have hwhile : ∀ fuel, forExec truth zero eval fuel = initWhile truth zero eval fuel :=
      forExec_eq_iff.2 hfor
    refine ⟨hwhile, forEachArray_done_iff.2 hempty, fun d hd => ?_, fun d hd => ?_⟩
    · cases hd with
      | while_ fuel h => exact (whileExec_uniform _ h).1
      | initWhile fuel h => exact (initWhile_uniform h).1
      | for_ fuel h => exact (initWhile_uniform ((hwhile fuel).symm.trans h)).1
      | list h => exact h ▸ (forEachList_isForEach n).errorIsResult
      | array h => exact (forEachArray_isForEach h).errorIsResult
      | query h => exact h ▸ (forEachQuery_isForEach pages).errorIsResult
    · cases hd with
      | while_ fuel h => exact (whileExec_uniform _ h).2
      | initWhile fuel h => exact (initWhile_uniform h).2
      | for_ fuel h => exact (initWhile_uniform ((hwhile fuel).symm.trans h)).2
      | list h => exact h ▸ (forEachList_isForEach n).succeed_iff.mpr hlist
      | array h => exact (forEachArray_isForEach h).succeed_iff.mpr harray
      | query h => exact h ▸ (forEachQuery_isForEach pages).succeed_iff.mpr hquery

end

/-- A condition that fails in the second turn, and a body that succeeds in the first one. -/
def condFails : Part → Nat → Outcome Int
  | .cond, 0 => .value 1
  | .cond, _ => .error (-1)
  | _, _ => .value 0

def bodySucceeds : Part → Nat → Outcome Int
  | .body, _ => .succeed
  | _, _ => .value 1

/-- `for` loses the error of its condition, `foreach` the `succeed` of its body, and over an
array of strings it does not come to a second body. -/
theorem not_loopControl :
    forExec (· ≠ 0) 0 condFails 2 =
      some ⟨some (.value 0), [(.init, 0), (.cond, 0), (.body, 0), (.step, 0), (.cond, 1)]⟩ ∧
    initWhile (· ≠ 0) 0 condFails 2 =
      some ⟨some (.error (-1)), [(.init, 0), (.cond, 0), (.body, 0), (.step, 0), (.cond, 1)]⟩ ∧
    whileExec (· ≠ 0) 0 bodySucceeds (fun i => [(.body, i)]) 1 0 =
      some ⟨some .succeed, [(.cond, 0), (.body, 0)]⟩ ∧
    forEachList 0 bodySucceeds 2 = ⟨some (.value 0), [(.body, 0)]⟩ ∧
    forEachArray 0 bodySucceeds .genQueryOut 2 =
      .done ⟨some (.value 0), [(.body, 0), (.body, 1)]⟩ ∧
    forEachArray 0 condFails .strArray 2 = .undefined [(.body, 0)] ∧
    ¬ LoopControl (· ≠ 0) 0 condFails 0 .genQueryOut 0 (.last 0) ∧
    ¬ LoopControl (· ≠ 0) 0 bodySucceeds 1 .genQueryOut 0 (.last 0) := by
  refine ⟨by decide, by decide, by decide, by decide, by decide, by decide, fun h => ?_, fun h => ?_⟩
  · exact absurd (h.for_while 2) (by decide)
  · exact absurd (h.succeed _ (.list rfl) 0 (by decide) rfl).1 (by decide)

end Loops

end Re
