-- SUMMARY: execRule: the rules of a name tried one after the other.
import Mathlib.Data.List.Basic
import Mathlib.Tactic.Common

/-!
# Rules of one name

`execRule` asks the index for the first, second, ... rule of a name and executes those that
take as many arguments as there are. Conditions and actions of a rule are parameters: they
take the table of the rule's variables and everything they share with the caller.

The table of a rule starts out with the nodes of the caller's arguments. An assignment puts
another node into the table, but a microservice that is called with a variable puts its
result into the node, and so into the caller's argument.

`R` is what `copyRuleExecInfo` copies. What is behind a pointer that it shares belongs to the
rest, as do the global variables. Messages are only written and are left out.
-/

namespace Re

namespace ExecRule

def ACTION_ARG_COUNT_MISMATCH : Int := -1021000
def NO_RULE_FOUND_ERR : Int := -1017000
def RETRY_WITHOUT_RECOVERY_ERR : Int := -1088000
def CUT_ACTION_PROCESSED_ERR : Int := -1089000
def RULE_FAILED_ERR : Int := -1101000

/-- The result of a rule; `success` is `T_SUCCESS`, from the action `succeed`. -/
inductive Res (V : Type) where
  | value (v : V)
  | success
  | error (code : Int)
  deriving DecidableEq

/-- What a condition evaluates to. -/
inductive CondRes where
  | bool (b : Bool)
  | other
  | error (code : Int)
  deriving DecidableEq

/-- The table of a rule's variables. A variable that is inserted again is found where it was
inserted first. -/
abbrev Table (V : Type) := List (String × V)

def insertIntoHashTable {V : Type} (h : Table V) (key : String) (value : V) : Table V := h ++ [(key, value)]

/-- The result is `null` for a variable that is not there. -/
def lookupFromHashTable {V : Type} (null : V) (h : Table V) (key : String) : V :=
  ((h.find? fun e => e.1 == key).map Prod.snd).getD null

/-- What the rules of a call share. -/
structure Shared (V R W : Type) where
  args : List V
  rei : R
  rest : W
  deriving DecidableEq

/-- A rule of one of the types `RK_REL` and `RK_FUNC`; `action` is told how rules that it
calls are to be applied. Besides its result and the table a condition leaves what the nodes
of the arguments hold then. -/
structure Rule (V R W : Type) where
  params : List String
  condition : List V → Table V → R → W → CondRes × List V × Table V × R × W
  action : Nat → Table V → R → W → Res V × Table V × R × W

section

variable {V R W : Type}

def initializeEnv (params : List String) (args : List V) : Table V :=
  (params.zip args).foldl (fun h e => insertIntoHashTable h e.1 e.2) []

def copyFromEnv (null : V) (params : List String) (env : Table V) : List V :=
  params.map (lookupFromHashTable null env)

/-- The arguments are copied back when the condition was true, whatever the actions came to.
Otherwise the nodes are still those of the caller. -/
def execRuleNodeRes (null : V) (rule : Rule V R W) (argc applyAll : Nat) (s : Shared V R W) :
    Res V × Shared V R W :=
  if rule.params.length ≠ argc then (.error ACTION_ARG_COUNT_MISMATCH, s)
  else
    let (res, args, envNew, rei, rest) := rule.condition s.args (initializeEnv rule.params s.args) s.rei s.rest
    if res = .bool true then
      let (statusRes, envNew, rei, rest) := rule.action applyAll envNew rei rest
      (statusRes, ⟨copyFromEnv null rule.params envNew, rei, rest⟩)
    else (.error RULE_FAILED_ERR, ⟨args, rei, rest⟩)

/-! ## The index -/

/-- What a name is bound to in one table of the index. -/
inductive FunctionDesc (V R W : Type) where
  | ruleIndexList (rules : List (Rule V R W))
  | other

/-- The walk along a list of rules: the rest of the list, and how many rules are still to be
passed over. -/
def walk : List (Rule V R W) → Nat → List (Rule V R W) × Nat
  | b, 0 => (b, 0)
  | [], k + 1 => ([], k + 1)
  | _ :: b, k + 1 => walk b k

/-- The tables of the index, the innermost first, by what the name is bound to in each. -/
def findNextRuleFromIndex : List (Option (FunctionDesc V R W)) → Nat → Option (Rule V R W)
  | [], _ => none
  | none :: previous, i => findNextRuleFromIndex previous i
  | some .other :: _, _ => none
  | some (.ruleIndexList l) :: previous, i =>
    match walk l i with
    | (b :: _, _) => some b
    | ([], k) => findNextRuleFromIndex previous k

/-- All rules that are found for the name, in their order. -/
def rulesFor : List (Option (FunctionDesc V R W)) → List (Rule V R W)
  | [] => []
  | none :: previous => rulesFor previous
  | some .other :: _ => []
  | some (.ruleIndexList l) :: previous => l ++ rulesFor previous

theorem walk_eq : ∀ (l : List (Rule V R W)) (k : Nat), walk l k = (l.drop k, k - l.length)
  | l, 0 => by simp [walk]
  | [], k + 1 => by simp [walk]
  | _ :: l, k + 1 => by simp [walk, walk_eq l k]

theorem findNextRuleFromIndex_eq (index : List (Option (FunctionDesc V R W))) :
    ∀ i, findNextRuleFromIndex index i = (rulesFor index)[i]? := by
  induction index with
  | nil => exact fun i => rfl
  | cons fd previous ih =>
    intro i
    match fd with
    | none => exact ih i
    | some .other => rfl
    | some (.ruleIndexList l) =>
      simp only [findNextRuleFromIndex, walk_eq, rulesFor]
      by_cases hlt : i < l.length
      · rw [List.drop_eq_getElem_cons hlt, List.getElem?_append_left hlt, List.getElem?_eq_getElem hlt]
      · rw [List.drop_eq_nil_of_le (Nat.le_of_not_lt hlt), List.getElem?_append_right (Nat.le_of_not_lt hlt)]
        exact ih _

/-! ## execRule -/

/-- An execution of a rule: its place in the index, and what it found and left. -/
structure Step (V R W : Type) where
  ruleInx : Nat
  before : Shared V R W
  res : Res V
  after : Shared V R W
  deriving DecidableEq

/-- The variables of the loop; `saveRei` is there when `inited` is set. -/
structure Loop (V R W : Type) where
  statusRes : Option (Res V)
  saveRei : Option R
  reTryWithoutRecovery : Bool
  success : Bool
  shared : Shared V R W
  executed : List (Step V R W)

/-- The copy, and a status that is always 0. -/
def copyRuleExecInfo (rei : R) : R × Int := (rei, 0)

/-- The info is saved before the first rule, and restored before the others. -/
def saveOrRestore (s : Loop V R W) : Loop V R W × Int :=
  match s.saveRei with
  | none =>
    let (copy, statusCopy) := copyRuleExecInfo s.shared.rei
    ({ s with saveRei := some copy }, statusCopy)
  | some saveRei =>
    if s.reTryWithoutRecovery then (s, 0)
    else
      let (copy, statusCopy) := copyRuleExecInfo saveRei
      ({ s with shared := { s.shared with rei := copy } }, statusCopy)

variable (null zero : V) (argc applyAll : Nat) (reiSaveFlag : Bool)

/-- How the rules that a rule calls are applied. -/
def innerApplyAll : Nat := if applyAll > 1 then applyAll else 0

/-- What the loop does about the result of a rule, and whether it is left. -/
def afterRule (res : Res V) (s : Loop V R W) : Loop V R W × Bool :=
  match res with
  | .error code =>
    if code = RETRY_WITHOUT_RECOVERY_ERR then ({ s with reTryWithoutRecovery := true }, false)
    else (s, decide (code = CUT_ACTION_PROCESSED_ERR))
  | _ =>
    if applyAll = 0 then ({ s with success := true }, true)
    else ({ s with success := true, saveRei := if reiSaveFlag then none else s.saveRei }, false)

/-- One turn of the loop, and whether the loop is left. -/
def turn (rule : Rule V R W) (ruleInx : Nat) (s : Loop V R W) : Loop V R W × Bool :=
  let (s, statusCopy) := if reiSaveFlag then saveOrRestore s else (s, 0)
  if statusCopy ≠ 0 then ({ s with statusRes := some (.error statusCopy) }, true)
  else if rule.params.length ≠ argc then (s, false)
  else
    let (res, after) := execRuleNodeRes null rule argc (innerApplyAll applyAll) s.shared
    afterRule applyAll reiSaveFlag res { s with
      statusRes := some res, shared := after, executed := s.executed ++ [⟨ruleInx, s.shared, res, after⟩] }

/-- There are no more rules. -/
def noMoreRules (s : Loop V R W) : Loop V R W :=
  if applyAll = 0 then
    { s with statusRes := some (s.statusRes.getD (.error NO_RULE_FOUND_ERR)) }
  else { s with success := true }

def loop (index : List (Option (FunctionDesc V R W))) (ruleInx : Nat) (s : Loop V R W) : Loop V R W :=
  match _h : findNextRuleFromIndex index ruleInx with
  | none => noMoreRules applyAll s
  | some rule =>
    match turn null argc applyAll reiSaveFlag rule ruleInx s with
    | (s, true) => s
    | (s, false) => loop index (ruleInx + 1) s
termination_by (rulesFor index).length - ruleInx
decreasing_by
  rw [findNextRuleFromIndex_eq] at _h
  have := (List.getElem?_eq_some_iff.mp _h).1
  omega

/-- What is returned; a result that is not there is a null pointer. -/
def result (s : Loop V R W) : Option (Res V) :=
  if s.success then
    if applyAll ≠ 0 then some (.value zero)
    else
      match s.statusRes with
      | some .success => some (.value zero)
      | statusRes => statusRes
  else s.statusRes

def start (shared : Shared V R W) : Loop V R W := ⟨none, none, false, false, shared, []⟩

/-- The result, and the executions of rules that it takes. -/
def execRule (index : List (Option (FunctionDesc V R W))) (shared : Shared V R W) :
    Option (Res V) × List (Step V R W) :=
  let s := loop null argc applyAll reiSaveFlag index 0 (start shared)
  (result zero applyAll s, s.executed)

end

end ExecRule

end Re
