-- SUMMARY: The typing constraint solver of the rule engine.
import Mathlib.Data.List.Basic

/-!
# Solving typing constraints

`solveConstraints` takes a list of constraints `A < B` and a typing environment, binds
type variables in the environment and leaves the constraints it could not decide. A
type under `T_FLEX` may be met by promoting an integer to a double.

The recursion and the loops of the solver need not end (a type variable may be bound
to a type it occurs in), so they take fuel and `none` stands for a call that does not
return. What the tables keep only for error messages is left out.
-/

namespace Typing

/-! ## Types -/

/-- The types of `baseTypes`; an iRODS type may have no name. -/
inductive BaseType where
  | int
  | bool
  | double
  | datetime
  | string
  | irods (text : Option String)
  deriving DecidableEq

/-- Types. A type variable has a number and, if it stands for a union, the base types
it can be; union types can only include primitive types. -/
inductive ExprType where
  | base (b : BaseType)
  | tvar (id : Nat) (disjuncts : List BaseType)
  | cons (name : String) (args : List ExprType)
  | tuple (args : List ExprType)
  | flex (t : ExprType)
  | fixd (t result : ExprType)
  | dynamic
  | unspeced
  | error

inductive Satisfiability where
  | tautology
  | contingency
  | absurdity
  deriving DecidableEq

/-- The constraint `a < b`. -/
structure TypingConstraint where
  a : ExprType
  b : ExprType

def baseTypes : List BaseType := [.int, .bool, .double, .datetime, .string, .irods none]

/-- The same node type. -/
def BaseType.sameKind : BaseType → BaseType → Bool
  | .irods _, .irods _ => true
  | a, b => decide (a = b)

/-- An iRODS type without a name. -/
def BaseType.isUnnamed (b : BaseType) : Bool := decide (b = .irods none)

def tautologyLtBase (a b : BaseType) : Bool :=
  if a.sameKind b then true
  else match a with
    | .int => b.sameKind .int || b.sameKind .double
    | .double | .bool | .string => a.sameKind b
    | .irods x =>
      match b with
      | .irods y => decide (x = none ∨ y = none ∨ x = y)
      | _ => false
    | .datetime => false

mutual

def typeEqSyntatic : ExprType → ExprType → Bool
  | .base a, .base b => decide (a = b)
  | .tvar i _, .tvar j _ => decide (i = j)
  | .cons f as, .cons g bs => decide (f = g) && typesEqSyntatic as bs
  | .tuple as, .tuple bs => typesEqSyntatic as bs
  | .flex _, .flex _ => true
  | .fixd _ _, .fixd _ _ => true
  | .dynamic, .dynamic => true
  | .unspeced, .unspeced => true
  | .error, .error => true
  | _, _ => false

def typesEqSyntatic : List ExprType → List ExprType → Bool
  | [], [] => true
  | a :: as, b :: bs => typeEqSyntatic a b && typesEqSyntatic as bs
  | _, _ => false

end

def ExprType.isBaseType : ExprType → Bool
  | .base _ => true
  | _ => false

/-- `T_VAR_ID`, which reads 0 off a type that is no variable. -/
def ExprType.tvarId : ExprType → Nat
  | .tvar id _ => id
  | _ => 0

/-- A variable without disjuncts. -/
def ExprType.isFreeVar : ExprType → Bool
  | .tvar _ [] => true
  | _ => false

/-- Whether the base types are compatible. -/
def splitBaseType (a b : BaseType) (flex : Bool) : Bool :=
  (flex && tautologyLtBase a b) ||
    (!flex && ((a.sameKind b && (a.isUnnamed || b.isUnnamed)) || decide (a = b)))

/-! ## Narrowing -/

/-- What `retl` holds for `l` after the pair with `r`: an unnamed iRODS type takes the
other side's name. -/
def narrowedL (l r : BaseType) : BaseType := if l.isUnnamed then r else l

def narrowedR (l r : BaseType) : BaseType := if r.isUnnamed then narrowedL l r else r

/-- The disjuncts on each side with a compatible one on the other. Every compatible
pair writes the slots of its two members, so the last pair of each stands. -/
def doNarrow (l r : List BaseType) (flex : Bool) : List BaseType × List BaseType :=
  (l.filterMap fun x => ((r.filter fun y => splitBaseType x y flex).getLast?).map (narrowedL x),
    r.filterMap fun y => ((l.filter fun x => splitBaseType x y flex).getLast?).map fun x => narrowedR x y)

/-! ## The solver's tables -/

/-- The typing environment by variable number, the table of equivalent variables, the
constraints kept, the counter of `newTVarId`, and a record that nothing reads of the
base types that were compared under `T_FLEX`. -/
structure Solver where
  typingEnv : List (Nat × ExprType)
  equivalence : List (String × ExprType) := []
  simpleTypingConstraints : List TypingConstraint := []
  tvarNumber : Nat
  compared : List (BaseType × BaseType) := []

/-- The first entry of a key is the one that is found. -/
def lookupFromHashTable {κ : Type} [BEq κ] (h : List (κ × ExprType)) (key : κ) : Option ExprType :=
  (h.find? fun e => e.1 == key).map Prod.snd

def updateInHashTable (h : List (String × ExprType)) (key : String) (value : ExprType) :
    List (String × ExprType) :=
  match h with
  | [] => []
  | e :: h => if e.1 == key then (key, value) :: h else e :: updateInHashTable h key value

/-- An entry goes behind those of its key. -/
def Solver.bind (s : Solver) (id : Nat) (t : ExprType) : Solver :=
  { s with typingEnv := s.typingEnv ++ [(id, t)] }

def dereferenceFuel (env : List (Nat × ExprType)) : Nat → ExprType → Option ExprType
  | 0, _ => none
  | fuel + 1, .tvar id ds =>
    match lookupFromHashTable env id with
    | none => some (.tvar id ds)
    | some t => dereferenceFuel env fuel t
  | _ + 1, t => some t

/-- Variables are followed to the end. More steps than there are entries would never
end. -/
def dereference (env : List (Nat × ExprType)) (t : ExprType) : Option ExprType :=
  dereferenceFuel env (env.length + 1) t

def getTVarName (id : Nat) : String := "?" ++ toString id

def typeName : BaseType → String
  | .int => "INTEGER"
  | .bool => "BOOLEAN"
  | .double => "DOUBLE"
  | .datetime => "DATETIME"
  | .string => "STRING"
  | .irods x => x.getD "(null)"

def getBaseTypeOrTVarId : ExprType → String
  | .base b => typeName b
  | t => getTVarName t.tvarId

def equivalenceRepFuel (h : List (String × ExprType)) : Nat → ExprType → Option ExprType
  | 0, _ => none
  | fuel + 1, t =>
    match lookupFromHashTable h (getBaseTypeOrTVarId t) with
    | none => some t
    | some t' => equivalenceRepFuel h fuel t'

/-- The representative, which the entry of the type is set to. -/
def getEquivalenceClassRep (s : Solver) (t : ExprType) : Option (ExprType × Solver) :=
  match equivalenceRepFuel s.equivalence (s.equivalence.length + 1) t with
  | none => none
  | some rep =>
    some (rep, { s with equivalence := updateInHashTable s.equivalence (getBaseTypeOrTVarId t) rep })

def addToEquivalenceClass (s : Solver) (a b : ExprType) : Option Solver := do
  let (an, s) ← getEquivalenceClassRep s a
  let (bn, s) ← getEquivalenceClassRep s b
  if typeEqSyntatic an bn then return s
  else if an.isBaseType then
    return { s with equivalence := s.equivalence ++ [(getTVarName bn.tvarId, an)] }
  else return { s with equivalence := s.equivalence ++ [(getTVarName an.tvarId, bn)] }

mutual

/-- The leaves are asked to be a variable and a base type at once, so none occurs. -/
def occursInEquiv : ExprType → Bool
  | .cons _ args => occursInEquivs args
  | .tuple args => occursInEquivs args
  | .flex t => occursInEquiv t
  | .fixd t u => occursInEquiv t || occursInEquiv u
  | _ => false

def occursInEquivs : List ExprType → Bool
  | [] => false
  | t :: ts => occursInEquiv t || occursInEquivs ts

end

/-- Record the comparisons that a flexible constraint makes. -/
def Solver.record (s : Solver) (l r : List BaseType) (flex : Bool) : Solver :=
  if flex then { s with compared := s.compared ++ l.flatMap fun x => r.map fun y => (x, y) } else s

/-! ## Constraints on variables -/

/-- The variable `id` with disjuncts `ds` narrowed to `nc`: itself if none is gone. -/
def createType (s : Solver) (id : Nat) (ds nc : List BaseType) : Option (ExprType × Solver) :=
  if nc.length = ds.length then some (.tvar id ds, s)
  else
    let (gcd, s) : ExprType × Solver :=
      match nc with
      | [b] => (.base b, s)
      | nc => (.tvar s.tvarNumber nc, { s with tvarNumber := s.tvarNumber + 1 })
    (addToEquivalenceClass (s.bind id gcd) (.tvar id ds) gcd).map fun s => (gcd, s)

def createSimpleConstraint (s : Solver) (a b : ExprType) (flex : Bool) :
    Option (Satisfiability × Solver) :=
  if a.isBaseType && b.isBaseType then some (.tautology, s)
  else do
    let s ← addToEquivalenceClass s a b
    if flex then
      return (.contingency,
        { s with simpleTypingConstraints := s.simpleTypingConstraints ++ [⟨a, .flex b⟩] })
    else if a.isFreeVar || b.isBaseType then return (.tautology, s.bind a.tvarId b)
    else if b.isFreeVar || a.isBaseType then return (.tautology, s.bind b.tvarId a)
    else return (.tautology, s.bind a.tvarId b)

def narrow (s : Solver) (i : Nat) (is : List BaseType) (j : Nat) (js : List BaseType) (flex : Bool) :
    Option (Satisfiability × Solver) :=
  if i = j then some (.tautology, s)
  else if is ≠ [] ∧ js ≠ [] then
    let (cl, cr) := doNarrow is js flex
    if cl = [] ∨ cr = [] then some (.absurdity, s.record is js flex)
    else do
      let (an, s) ← createType (s.record is js flex) i is cl
      let (bn, s) ← createType s j js cr
      createSimpleConstraint s an bn flex
  else createSimpleConstraint s (.tvar i is) (.tvar j js) flex

/-- The disjuncts of a variable; a free one can be any base type, and a variable is
made to say so. -/
def fullyBounded (s : Solver) (ds : List BaseType) : List BaseType × Solver :=
  if ds = [] then (baseTypes, { s with tvarNumber := s.tvarNumber + 1 }) else (ds, s)

/-- A variable below a base type. -/
def simplifyL (s : Solver) (i : Nat) (is : List BaseType) (b : BaseType) (flex : Bool) :
    Option (Satisfiability × Solver) :=
  let (am, s) := fullyBounded s is
  let cl := (doNarrow am [b] flex).1
  if cl = [] then some (.absurdity, s.record am [b] flex)
  else do
    let (an, s) ← createType (s.record am [b] flex) i is cl
    -- `an == a`: no disjunct is gone
    if cl.length = is.length then return (.tautology, s)
    else createSimpleConstraint s an (.base b) flex

/-- A base type below a variable. -/
def simplifyR (s : Solver) (a : BaseType) (j : Nat) (js : List BaseType) (flex : Bool) :
    Option (Satisfiability × Solver) :=
  let (bm, s) := fullyBounded s js
  let cr := (doNarrow [a] bm flex).2
  if cr = [] then some (.absurdity, s.record [a] bm flex)
  else do
    let (bn, s) ← createType (s.record [a] bm flex) j js cr
    if cr.length = js.length then return (.tautology, s)
    else createSimpleConstraint s (.base a) bn flex

/-! ## Constructed types -/

/-- The simplifier, as the functions it calls back see it. -/
abbrev Simplifier := Solver → ExprType → ExprType → Bool → Option (Satisfiability × Solver)

/-- The loop over the arguments. -/
def splitArgs (simplifyLocally : Simplifier) (flex : Bool) :
    List (ExprType × ExprType) → Solver → Satisfiability → Option (Satisfiability × Solver)
  | [], s, ret => some (ret, s)
  | (a, b) :: args, s, ret =>
    match simplifyLocally s a b flex with
    | none => none
    | some (.absurdity, s) => some (.absurdity, s)
    | some (.tautology, s) => splitArgs simplifyLocally flex args s ret
    | some (.contingency, s) => splitArgs simplifyLocally flex args s .contingency

def splitConsOrTuple (simplifyLocally : Simplifier) (s : Solver) (a b : ExprType) (flex : Bool) :
    Option (Satisfiability × Solver) :=
  match a, b with
  | .cons f as, .cons g bs =>
    if f ≠ g ∨ as.length ≠ bs.length then some (.absurdity, s)
    else splitArgs simplifyLocally flex (as.zip bs) s .tautology
  | .tuple as, .tuple bs =>
    if as.length ≠ bs.length then some (.absurdity, s)
    else splitArgs simplifyLocally flex (as.zip bs) s .tautology
  | _, _ => some (.absurdity, s)

/-- New variables for the arguments of a constructed type. -/
def freshArgs (s : Solver) (n : Nat) : List ExprType × Solver :=
  ((List.range' s.tvarNumber n).map fun id => .tvar id [], { s with tvarNumber := s.tvarNumber + n })

/-- A type of the same form with new variables as arguments. -/
def freshLike (s : Solver) : ExprType → ExprType × Solver
  | .cons f as => ((.cons f (freshArgs s as.length).1), (freshArgs s as.length).2)
  | .tuple as => ((.tuple (freshArgs s as.length).1), (freshArgs s as.length).2)
  | t => (t, s)

/-- The variable is bound to a type of the form of `consTuple`; `order` puts the two
on their sides of the constraint. -/
def splitVar (simplifyLocally : Simplifier) (s : Solver) (i : Nat) (is : List BaseType)
    (consTuple : ExprType) (flex left : Bool) : Option (Satisfiability × Solver) :=
  if occursInEquiv consTuple then some (.absurdity, s)
  else match getEquivalenceClassRep s (.tvar i is) with
    | none => none
    | some (rep, s) =>
      if rep.isBaseType then some (.absurdity, s)
      else
        let (type, s) := freshLike s consTuple
        if left then splitConsOrTuple simplifyLocally (s.bind i type) type consTuple flex
        else splitConsOrTuple simplifyLocally (s.bind i type) consTuple type flex

def splitVarL (simplifyLocally : Simplifier) (s : Solver) (i : Nat) (is : List BaseType)
    (consTuple : ExprType) (flex : Bool) : Option (Satisfiability × Solver) :=
  splitVar simplifyLocally s i is consTuple flex true

def splitVarR (simplifyLocally : Simplifier) (s : Solver) (consTuple : ExprType) (j : Nat)
    (js : List BaseType) (flex : Bool) : Option (Satisfiability × Solver) :=
  splitVar simplifyLocally s j js consTuple flex false

/-- `T_FLEX` and `T_FIXD` on the right are taken off; only the first makes the rest of
the constraint flexible. -/
def stripFlex (b : ExprType) (flex : Bool) : ExprType × Bool :=
  match b with
  | .flex t => (t, true)
  | .fixd t _ => (t, flex)
  | t => (t, flex)

def simplifyLocally : Nat → Simplifier
  | 0, _, _, _, _ => none
  | fuel + 1, s, tca, tcb, flex => do
    let (tcb, flex) := stripFlex tcb flex
    let tca ← dereference s.typingEnv tca
    let tcb ← dereference s.typingEnv tcb
    match tca, tcb with
    | .unspeced, _ => return (.tautology, s)
    | .dynamic, _ => return (.tautology, s)
    | _, .dynamic => return (.tautology, s)
    | .base a, .base b =>
      return (if splitBaseType a b flex then .tautology else .absurdity, s.record [a] [b] flex)
    | .tvar i is, .tvar j js => narrow s i is j js flex
    | .tvar i is, .base b => simplifyL s i is b flex
    | .base a, .tvar j js => simplifyR s a j js flex
    | .tvar i is, .cons g bs => splitVarL (simplifyLocally fuel) s i is (.cons g bs) flex
    | .tvar i is, .tuple bs => splitVarL (simplifyLocally fuel) s i is (.tuple bs) flex
    | .cons f as, .tvar j js => splitVarR (simplifyLocally fuel) s (.cons f as) j js flex
    | .tuple as, .tvar j js => splitVarR (simplifyLocally fuel) s (.tuple as) j js flex
    | .cons f as, .cons g bs => splitConsOrTuple (simplifyLocally fuel) s (.cons f as) (.cons g bs) flex
    | .tuple as, .tuple bs => splitConsOrTuple (simplifyLocally fuel) s (.tuple as) (.tuple bs) flex
    | _, _ => return (.absurdity, s)

/-! ## The loops -/

/-- One pass over the constraints. -/
def simplifyPass (fuel : Nat) : List TypingConstraint → Solver → Satisfiability →
    Option (Satisfiability × Solver)
  | [], s, ret => some (ret, s)
  | tc :: tcs, s, ret =>
    match simplifyLocally fuel s tc.a tc.b false with
    | none => none
    | some (.absurdity, s) => some (.absurdity, s)
    | some (.tautology, s) => simplifyPass fuel tcs s ret
    | some (.contingency, s) => simplifyPass fuel tcs s .contingency

/-- Passes until none binds a variable. The constraints that a pass keeps are those of
the next. -/
def simplifyLoop (fuel : Nat) : Nat → List TypingConstraint → Solver → Satisfiability →
    Option (Satisfiability × List TypingConstraint × Solver)
  | 0, _, _, _ => none
  | rounds + 1, tcs, s, ret =>
    match simplifyPass fuel tcs s ret with
    | none => none
    | some (.absurdity, s') => some (.absurdity, tcs, s')
    | some (ret', s') =>
      let tcs' := s'.simpleTypingConstraints
      let s'' := { s' with simpleTypingConstraints := [] }
      if s.typingEnv.length < s'.typingEnv.length then simplifyLoop fuel rounds tcs' s'' ret'
      else some (ret', tcs', s'')

def simplify (fuel : Nat) (tcs : List TypingConstraint) (s : Solver) :
    Option (Satisfiability × List TypingConstraint × Solver) :=
  simplifyLoop fuel fuel tcs { s with equivalence := [], simpleTypingConstraints := [] } .tautology

/-- Look for a constraint between a variable and itself and take it out. One without a
variable on either side is looked at again for ever. -/
def collapse (env : List (Nat × ExprType)) :
    List TypingConstraint → Option (Option (List TypingConstraint))
  | [] => some none
  | tc :: tcs => do
    let a ← dereference env tc.a
    let b ← dereference env tc.b
    match a, (stripFlex b false).1 with
    | .tvar i _, .tvar j _ =>
      if i = j then return some tcs
      else return (← collapse env tcs).map (tc :: ·)
    | .tvar _ _, _ => return (← collapse env tcs).map (tc :: ·)
    | _, .tvar _ _ => return (← collapse env tcs).map (tc :: ·)
    | _, _ => none

def solveLoop (fuel : Nat) : Nat → List TypingConstraint → Solver →
    Option (Satisfiability × List TypingConstraint × Solver)
  | 0, _, _ => none
  | rounds + 1, tcs, s => do
    let (sat, tcs, s) ← simplify fuel tcs s
    if sat = .absurdity then return (.absurdity, tcs, s)
    match ← collapse s.typingEnv tcs with
    | none => return (if tcs.isEmpty then .tautology else .contingency, tcs, s)
    | some [] => return (.tautology, [], s)
    | some (tc :: tcs) => solveLoop fuel rounds (tc :: tcs) s

def solveConstraints (fuel : Nat) (tcs : List TypingConstraint) (s : Solver) :
    Option (Satisfiability × List TypingConstraint × Solver) :=
  solveLoop fuel fuel tcs s

end Typing
