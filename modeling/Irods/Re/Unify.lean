-- SUMMARY: Unification of types with a table of type variables.
import Irods.Re.Typing
import Irods.Base.Triangular

/-!
# Unification

`unifyWith` takes two types and the table that binds type variables; it binds more of them and
returns a common instance, or nothing. Free variables are bound after a look at the surface of the
other type, union variables to a type of the kind of one of their disjuncts. Types without variable
arguments only; what the code does with a missing name is undefined, `none` like a call that does not
return.
-/

namespace Typing

/-- The same node type. -/
def ExprType.sameNode : ExprType → ExprType → Bool
  | .base a, .base b => a.sameKind b
  | .tvar _ _, .tvar _ _ => true
  | .cons _ _, .cons _ _ => true
  | .tuple _, .tuple _ => true
  | .flex _, .flex _ => true
  | .fixd _ _, .fixd _ _ => true
  | .dynamic, .dynamic => true
  | .unspeced, .unspeced => true
  | .error, .error => true
  | _, _ => false

def ExprType.isIrods : ExprType → Bool
  | .base (.irods _) => true
  | _ => false

/-- The name in a node: that of an iRODS type or of a constructor. -/
def ExprType.text : ExprType → Option String
  | .base (.irods text) => text
  | .cons name _ => some name
  | _ => none

mutual

def occursIn (id : Nat) : ExprType → Bool
  | .tvar id' _ => id = id'
  | .cons _ args => occursInAny id args
  | .tuple args => occursInAny id args
  | .flex t => occursIn id t
  | .fixd t u => occursIn id t || occursIn id u
  | _ => false

def occursInAny (id : Nat) : List ExprType → Bool
  | [] => false
  | t :: ts => occursIn id t || occursInAny id ts

end

/-! ## The code -/

/-- The table of variables and the counter of `newTVarId`. -/
structure VarTypes where
  table : List (Nat × ExprType)
  tvarNumber : Nat

/-- An entry goes behind those of its key. -/
def VarTypes.insert (s : VarTypes) (id : Nat) (t : ExprType) : VarTypes := { s with table := s.table ++ [(id, t)] }

/-- Only an entry that is there is changed. -/
def updateTable : List (Nat × ExprType) → Nat → ExprType → List (Nat × ExprType)
  | [], _, _ => []
  | e :: table, id, t => if e.1 = id then (id, t) :: table else e :: updateTable table id t

def VarTypes.update (s : VarTypes) (id : Nat) (t : ExprType) : VarTypes :=
  { s with table := updateTable s.table id t }

/-- A type or `NULL`, and what the call leaves behind. -/
abbrev Unified := Option (Option ExprType × VarTypes)

/-- The disjuncts of two union variables that they have in common are collected in ten places. -/
def unifyUnions (s : VarTypes) (i : Nat) (is : List BaseType) (j : Nat) (js : List BaseType) : Unified :=
  match js.filter fun d => is.any fun c => c.sameKind d with
  | [] => some (none, s)
  | [d] => some (some (.base d), (s.update i (.base d)).update j (.base d))
  | c =>
    if 10 < c.length then none
    else
      let gcd := .tvar s.tvarNumber c
      some (some gcd, (({ s with tvarNumber := s.tvarNumber + 1 } : VarTypes).update i gcd).update j gcd)

def unifyTVars (s : VarTypes) (i : Nat) (is : List BaseType) (j : Nat) (js : List BaseType) : Unified :=
  if i = j then some (some (.tvar i is), s)
  else if is ≠ [] ∧ js ≠ [] then unifyUnions s i is j js
  else
    let s := if is = [] then s.insert i (.tvar j js) else s.insert j (.tvar i is)
    (dereference s.table (.tvar j js)).map fun t => (some t, s)

def unifyTVarL (s : VarTypes) (i : Nat) (is : List BaseType) (expected : ExprType) : Unified :=
  if is = [] then
    if occursIn i expected then some (none, s)
    else (dereference (s.insert i expected).table expected).map fun t => (some t, s.insert i expected)
  else if is.any fun d => (ExprType.base d).sameNode expected then some (some expected, s.insert i expected)
  else some (none, s)

def unifyTVarR (s : VarTypes) (type : ExprType) (j : Nat) (js : List BaseType) : Unified :=
  if js = [] then
    if occursIn j type then some (none, s)
    else (dereference (s.insert j type).table (.tvar j js)).map fun t => (some t, s.insert j type)
  else if js.any fun d => type.sameNode (.base d) then
    (dereference (s.insert j type).table (.tvar j js)).map fun t => (some t, s.insert j type)
  else some (none, s)

/-- `unifyWith`, as the loop over the arguments sees it. -/
abbrev Unifier := VarTypes → ExprType → ExprType → Unified

def unifyArgs (unifyWith : Unifier) : List (ExprType × ExprType) → VarTypes →
    Option (Option (List ExprType) × VarTypes)
  | [], s => some (some [], s)
  | (a, b) :: args, s =>
    match unifyWith s a b with
    | none => none
    | some (none, s) => some (none, s)
    | some (some t, s) => (unifyArgs unifyWith args s).map fun (ts, s) => (ts.map (t :: ·), s)

/-- A tuple is taken for a primitive type; different primitive types give a type that stands for
the error. -/
def unifyNonTvars (unifyWith : Unifier) (s : VarTypes) (type expected : ExprType) : Unified :=
  match type, expected with
  | .cons f as, .cons g bs =>
    if f = g ∧ as.length = bs.length then
      (unifyArgs unifyWith (as.zip bs) s).map fun (ts, s) => (ts.map (.cons g ·), s)
    else some (none, s)
  | type, expected =>
    if type.isIrods ∨ expected.isIrods then
      match type.text, expected.text with
      | some x, some y => some (if x = y then some expected else none, s)
      | _, _ => none
    else if expected.sameNode type then some (some expected, s)
    else some (some .error, s)

/-- The branches of `unifyWith`, for two dereferenced types. -/
def unifyTypes (unifyWith : Unifier) (s : VarTypes) (type expected : ExprType) : Unified :=
  match type, expected with
  | .unspeced, expected => some (some expected, s)
  | type, .dynamic => some (some type, s)
  | .tvar i is, .tvar j js => unifyTVars s i is j js
  | .tvar i is, expected => unifyTVarL s i is expected
  | type, .tvar j js => unifyTVarR s type j js
  | type, expected => unifyNonTvars unifyWith s type expected

def unifyWith : Nat → Unifier
  | 0, _, _, _ => none
  | fuel + 1, s, type, expected => do
    let type ← dereference s.table type
    let expected ← dereference s.table expected
    unifyTypes (unifyWith fuel) s type expected

/-- All variables are replaced by what they are bound to. -/
def instantiate (table : List (Nat × ExprType)) : Nat → ExprType → Option ExprType
  | 0, _ => none
  | fuel + 1, .tvar id ds =>
    if (lookupFromHashTable table id).isNone then some (.tvar id ds)
    else (dereference table (.tvar id ds)).bind (instantiate table fuel)
  | fuel + 1, .cons name args => (args.mapM (instantiate table fuel)).map (.cons name ·)
  | fuel + 1, .tuple args => (args.mapM (instantiate table fuel)).map (.tuple ·)
  | fuel + 1, .flex t => (instantiate table fuel t).map (.flex ·)
  | fuel + 1, .fixd t u => do return .fixd (← instantiate table fuel t) (← instantiate table fuel u)
  | _ + 1, t => some t

/-! ## Substitution -/

/-- A variable with its disjuncts. -/
abbrev TVar := Nat × List BaseType

mutual

def ExprType.vars : ExprType → List TVar
  | .tvar id ds => [(id, ds)]
  | .cons _ args => ExprType.varsAll args
  | .tuple args => ExprType.varsAll args
  | .flex t => t.vars
  | .fixd t u => t.vars ++ u.vars
  | _ => []

def ExprType.varsAll : List ExprType → List TVar
  | [] => []
  | t :: ts => t.vars ++ ExprType.varsAll ts

end

mutual

def ExprType.app (σ : TVar → ExprType) : ExprType → ExprType
  | .tvar id ds => σ (id, ds)
  | .cons name args => .cons name (ExprType.appAll σ args)
  | .tuple args => .tuple (ExprType.appAll σ args)
  | .flex t => .flex (t.app σ)
  | .fixd t u => .fixd (t.app σ) (u.app σ)
  | .base b => .base b
  | .dynamic => .dynamic
  | .unspeced => .unspeced
  | .error => .error

def ExprType.appAll (σ : TVar → ExprType) : List ExprType → List ExprType
  | [] => []
  | t :: ts => t.app σ :: ExprType.appAll σ ts

end

def ExprType.ofVar (x : TVar) : ExprType := .tvar x.1 x.2

variable {σ σ' : TVar → ExprType}

mutual

theorem ExprType.app_id : ∀ t : ExprType, t.app ofVar = t
  | .tvar _ _ => rfl
  | .cons _ args => by rw [app, appAll_id args]
  | .tuple args => by rw [app, appAll_id args]
  | .flex t => by rw [app, app_id t]
  | .fixd t u => by rw [app, app_id t, app_id u]
  | .base _ => rfl
  | .dynamic => rfl
  | .unspeced => rfl
  | .error => rfl

theorem ExprType.appAll_id : ∀ ts : List ExprType, appAll ofVar ts = ts
  | [] => rfl
  | t :: ts => by rw [appAll, app_id t, appAll_id ts]

end

mutual

theorem ExprType.app_congr : ∀ t : ExprType, (∀ x ∈ t.vars, σ x = σ' x) → t.app σ = t.app σ'
  | .tvar id ds, h => h (id, ds) (List.mem_singleton_self _)
  | .cons _ args, h => by rw [app, app, appAll_congr args h]
  | .tuple args, h => by rw [app, app, appAll_congr args h]
  | .flex t, h => by rw [app, app, app_congr t h]
  | .fixd t u, h => by
    rw [app, app, app_congr t fun x hx => h x (List.mem_append_left _ hx),
      app_congr u fun x hx => h x (List.mem_append_right _ hx)]
  | .base _, _ => rfl
  | .dynamic, _ => rfl
  | .unspeced, _ => rfl
  | .error, _ => rfl

theorem ExprType.appAll_congr : ∀ ts : List ExprType, (∀ x ∈ varsAll ts, σ x = σ' x) → appAll σ ts = appAll σ' ts
  | [], _ => rfl
  | t :: ts, h => by
    rw [appAll, appAll, app_congr t fun x hx => h x (List.mem_append_left _ hx),
      appAll_congr ts fun x hx => h x (List.mem_append_right _ hx)]

end

mutual

theorem ExprType.app_app (σ σ' : TVar → ExprType) : ∀ t : ExprType, (t.app σ').app σ = t.app fun x => (σ' x).app σ
  | .tvar _ _ => rfl
  | .cons _ args => by rw [app, app, app, appAll_appAll σ σ' args]
  | .tuple args => by rw [app, app, app, appAll_appAll σ σ' args]
  | .flex t => by rw [app, app, app, app_app σ σ' t]
  | .fixd t u => by rw [app, app, app, app_app σ σ' t, app_app σ σ' u]
  | .base _ => rfl
  | .dynamic => rfl
  | .unspeced => rfl
  | .error => rfl

theorem ExprType.appAll_appAll (σ σ' : TVar → ExprType) :
    ∀ ts : List ExprType, appAll σ (appAll σ' ts) = appAll (fun x => (σ' x).app σ) ts
  | [] => rfl
  | t :: ts => by rw [appAll, appAll, appAll, app_app σ σ' t, appAll_appAll σ σ' ts]

end

instance : Triangular.Terms TVar ExprType where
  var := ExprType.ofVar
  vars := ExprType.vars
  app := ExprType.app
  vars_var := fun _ => rfl
  app_var := fun _ _ => rfl
  app_id := ExprType.app_id
  app_congr := fun h => ExprType.app_congr _ h
  app_app := ExprType.app_app

theorem ExprType.appAll_eq_map (σ : TVar → ExprType) (ts : List ExprType) : appAll σ ts = ts.map (ExprType.app σ) := by
  induction ts with
  | nil => rfl
  | cons t ts ih => rw [appAll, ih, List.map_cons]

end Typing
