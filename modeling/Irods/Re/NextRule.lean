-- SUMMARY: The counter of findNextRuleFromIndex.
import Irods.Base.Chain
import Irods.Re.ExecRule
import Irods.Re.HashTable

/-!
# The next rule

A name is bound to a list of rules, whose nodes are linked in memory, or to something else. The counter is
spent along the list of the innermost environment, and what is left of it along the lists further out.
-/

namespace NextRule

open CString HashTable Chain

def NO_MORE_RULES_ERR : Int := -1018000

/-- A function descriptor, by its node type; a list of rules is its head. -/
inductive FunctionDesc (α : Type) where
  | ruleIndexList (head : Option α)
  | other

variable {α : Type}

/-- The loop: it ends when the counter is spent or the list is. -/
def advance (next : α → Option α) : Option α → Nat → Option α × Nat
  | b, 0 => (b, 0)
  | none, k + 1 => (none, k + 1)
  | some b, k + 1 => advance next (next b) k

/-- The node that is found; the chain of environments starts with the innermost. -/
def findNextRuleFromIndex (next : α → Option α) : Env (FunctionDesc α) → Text → Nat → Except Int α
  | [], _, _ => .error NO_MORE_RULES_ERR
  | current :: previous, action, i =>
    match current.lookupFromHashTable action with
    | some .other => .error NO_MORE_RULES_ERR
    | some (.ruleIndexList head) =>
      match advance next head i with
      | (some b, _) => .ok b
      | (none, k) => findNextRuleFromIndex next previous action k
    | none => findNextRuleFromIndex next previous action i

/-- Every failure is reported as the end of the rules. -/
def findNextRule2 (initialized : Bool) (next : α → Option α) (extFuncDescIndex : Env (FunctionDesc α)) (action : Text)
    (i : Nat) : Except Int α :=
  if initialized then (findNextRuleFromIndex next extFuncDescIndex action i).mapError fun _ => NO_MORE_RULES_ERR
  else .error NO_MORE_RULES_ERR

/-! ## The rules of a name -/

/-- What a name is bound to in an environment, with the nodes of a list. -/
inductive Bound (α : Type) where
  | nothing
  | other
  | rules (nodes : List α)

def Shows (next : α → Option α) : Option (FunctionDesc α) → Bound α → Prop
  | none, .nothing => True
  | some .other, .other => True
  | some (.ruleIndexList head), .rules nodes => Path next head nodes none
  | _, _ => False

/-- The nodes along the chain, up to the first environment that has something else. -/
def rulesAlong : List (Bound α) → List α
  | [] => []
  | .nothing :: bounds => rulesAlong bounds
  | .other :: _ => []
  | .rules ns :: bounds => ns ++ rulesAlong bounds

variable {next : α → Option α}

theorem advance_eq {nodes : List α} : ∀ {head : Option α}, Path next head nodes none →
    ∀ k, advance next head k = (nodes[k]?, k - nodes.length) := by
  induction nodes with
  | nil =>
    rintro _ rfl k
    cases k <;> rfl
  | cons b nodes ih =>
    rintro _ ⟨rfl, hrest⟩ k
    cases k with
    | zero => exact congrArg (some b, ·) (Nat.zero_sub _).symm
    | succ k => rw [advance, ih hrest, List.getElem?_cons_succ, List.length_cons, Nat.add_sub_add_right]

theorem findNextRuleFromIndex_eq {ruleIndex : Env (FunctionDesc α)} {bounds : List (Bound α)} {action : Text}
    (h : List.Forall₂ (fun current => Shows next (current.lookupFromHashTable action)) ruleIndex bounds) (i : Nat) :
    findNextRuleFromIndex next ruleIndex action i =
      (rulesAlong bounds)[i]?.elim (.error NO_MORE_RULES_ERR) .ok := by
  induction h generalizing i with
  | nil => rfl
  | @cons current bound previous bounds hbound _ ih =>
    rw [findNextRuleFromIndex]
    cases hfd : current.lookupFromHashTable action with
    | none =>
      rw [hfd] at hbound
      cases bound with
      | nothing => exact ih i
      | other | rules => exact hbound.elim
    | some fd =>
      rw [hfd] at hbound
      cases fd with
      | other =>
        cases bound with
        | other => rfl
        | nothing | rules => exact hbound.elim
      | ruleIndexList head =>
        cases bound with
        | nothing | other => exact hbound.elim
        | rules nodes =>
          dsimp only
          rw [advance_eq hbound, rulesAlong]
          by_cases hlt : i < nodes.length
          · rw [List.getElem?_append_left hlt, List.getElem?_eq_getElem hlt]
            rfl
          · have hle := Nat.le_of_not_lt hlt
            rw [List.getElem?_append_right hle, List.getElem?_eq_none hle]
            exact ih _

/-- Every node comes once, in its place, and after the last one there is no more. -/
theorem rules_enumerated {next : α → Option α} {ruleIndex : Env (FunctionDesc α)}
    {bounds : List (Bound α)} {action : Text}
    (h : List.Forall₂ (fun current => Shows next (current.lookupFromHashTable action)) ruleIndex bounds) (i : Nat) :
    (∀ hi : i < (rulesAlong bounds).length,
      findNextRuleFromIndex next ruleIndex action i = .ok ((rulesAlong bounds).get ⟨i, hi⟩)) ∧
    ((rulesAlong bounds).length ≤ i → findNextRuleFromIndex next ruleIndex action i = .error NO_MORE_RULES_ERR) ∧
    findNextRule2 true next ruleIndex action i = findNextRuleFromIndex next ruleIndex action i := by
  have hfound := findNextRuleFromIndex_eq h i
  refine ⟨fun hi => ?_, fun hi => ?_, ?_⟩
  · rw [hfound, List.getElem?_eq_getElem hi]
    rfl
  · rw [hfound, List.getElem?_eq_none hi]
    rfl
  · rw [findNextRule2, if_pos rfl, hfound]
    cases (rulesAlong bounds)[i]? <;> rfl

/-! ## The index of execRule -/

section Desc

open Re.ExecRule (rulesFor)

variable {V R W : Type} (rule : α → Re.ExecRule.Rule V R W)

/-- What `execRule` is told of a binding: the rules of its nodes. -/
def Bound.desc : Bound α → Option (Re.ExecRule.FunctionDesc V R W)
  | .nothing => none
  | .other => some .other
  | .rules nodes => some (.ruleIndexList (nodes.map rule))

theorem rulesFor_desc (bounds : List (Bound α)) :
    rulesFor (bounds.map (Bound.desc rule)) = (rulesAlong bounds).map rule := by
  induction bounds with
  | nil => rfl
  | cons bound bounds ih =>
    cases bound with
    | nothing => exact ih
    | other => rfl
    | rules nodes =>
      rw [rulesAlong, List.map_append, ← ih]
      rfl

/-- The node that is found has the rule that `execRule` goes on with, or both find none. -/
theorem findNextRuleFromIndex_desc {next : α → Option α} {ruleIndex : Env (FunctionDesc α)}
    {bounds : List (Bound α)} {action : Text}
    (h : List.Forall₂ (fun current => Shows next (current.lookupFromHashTable action)) ruleIndex bounds)
    (i : Nat) :
    Re.ExecRule.findNextRuleFromIndex (bounds.map (Bound.desc rule)) i =
      (findNextRuleFromIndex next ruleIndex action i).toOption.map rule := by
  rw [Re.ExecRule.findNextRuleFromIndex_eq, rulesFor_desc, findNextRuleFromIndex_eq h, List.getElem?_map]
  cases (rulesAlong bounds)[i]? <;> rfl

end Desc

/-- Two rules in the inner environment, one further out. -/
def twoAndOne : Env (FunctionDesc Nat) :=
  [((Table.new true 1).append "acPost".toList (.ruleIndexList (some 0))),
    ((Table.new true 1).append "acPost".toList (.ruleIndexList (some 2)))]

theorem rules_enumerated_third :
    findNextRuleFromIndex (fun n => if n = 0 then some 1 else none) twoAndOne "acPost".toList 2 = .ok 2 := by
  have hbounds : List.Forall₂ (fun current => Shows (fun n => if n = 0 then some 1 else none)
      (current.lookupFromHashTable "acPost".toList)) twoAndOne [.rules [0, 1], .rules [2]] :=
    .cons ⟨rfl, rfl, rfl⟩ (.cons ⟨rfl, rfl⟩ .nil)
  exact (rules_enumerated hbounds 2).1 (by decide)

end NextRule
