-- SUMMARY: The rule condition index.
import Irods.Base.Chain

/-!
# The rule condition index

`createCondIndex` walks the list of the rules of one name. A run of rules whose
conditions read `e == "string"` is taken out of the list and replaced by one node that
finds the rule by the value of `e`. The list is doubly linked and changed in place, so
the model has a heap of nodes and keeps every link the code keeps.

Rules are numbered by their place in the original list; `getRuleDesc` is the rule
table, and evaluation of expressions is a parameter of what is said about selection.
-/

namespace Re

/-! ## Rules -/

inductive RuleType where
  | rkRel
  | rkFunc
  | rkData
  | rkConstructor
  | rkExtern
  deriving DecidableEq

/-- The kinds of syntax nodes the index looks at; the others by their number. -/
inductive NodeType where
  | tkText
  | tkString
  | tkVar
  | nTuple
  | nApplication
  | other (code : Int)
  deriving DecidableEq

/-- Syntax trees with texts in `α`. -/
inductive Tree (α : Type) where
  | node (nodeType : NodeType) (text : α) (subtrees : List (Tree α))

abbrev Node := Tree String

def Tree.nodeType {α : Type} : Tree α → NodeType
  | node t _ _ => t

def Tree.text {α : Type} : Tree α → α
  | node _ x _ => x

def Tree.subtrees {α : Type} : Tree α → List (Tree α)
  | node _ _ ts => ts

/-- The parts of a rule the index reads: its kind, the names of its parameters and
its condition. -/
structure RuleDesc where
  ruleType : RuleType
  params : List String
  cond : Node

/-- A condition `lhs == "str"`; `op` is the node of the operator. -/
structure CondEq where
  op : Node
  lhs : Node
  str : String

/-- Tuples of one component around a condition are skipped. -/
def stripTuple : Node → Node
  | .node .nTuple _ [t] => stripTuple t
  | t => t

def condEq? (cond : Node) : Option CondEq :=
  match stripTuple cond with
  | .node .nApplication _ (op :: .node .nTuple _ [lhs, .node .tkString str _] :: _) =>
    if op.nodeType = .tkText ∧ op.text = "==" then some ⟨op, lhs, str⟩ else none
  | _ => none

/-! ## Syntactic equality -/

mutual

def eqExprNodeSyntactic : Node → Node → Bool
  | .node ta xa as, .node tb xb bs =>
    if ta = tb ∧ xa = xb ∧ as.length = bs.length then eqSubtrees as bs else true

/-- The loop over the subtrees. -/
def eqSubtrees : List Node → List Node → Bool
  | a :: as, b :: bs => if eqExprNodeSyntactic a b then eqSubtrees as bs else false
  | _, _ => true

end

def lookupFromHashTable {β : Type} (h : List (String × β)) (key : String) : Option β :=
  (h.find? fun e => e.1 == key).map Prod.snd

/-- Only a key that is there is updated. -/
def updateInHashTable {β : Type} (h : List (String × β)) (key : String) (value : β) :
    List (String × β) :=
  h.map fun e => if e.1 == key then (key, value) else e

def eqExprNodeSyntacticVarMapping (a b : Node) (varMapping : List (String × String)) : Bool :=
  if a.nodeType = .tkVar ∧ b.nodeType = .tkVar ∧
      lookupFromHashTable varMapping a.text = some b.text then true
  else if a.nodeType = b.nodeType ∧ a.text = b.text ∧ a.subtrees.length = b.subtrees.length then
    eqSubtrees a.subtrees b.subtrees
  else true

/-! ## The list of rule nodes -/

def COND_INDEX_THRESHOLD : Nat := 2

/-- The rules of a group by their strings; `valIndex` leads to list nodes. -/
structure CondIndexVal where
  condExp : Node
  params : List String
  valIndex : List (String × Nat)

/-- A node stands for a rule or, with `condIndex` set, for a group. -/
structure RuleIndexListNode where
  ruleIndex : Nat
  condIndex : Option CondIndexVal
  prev : Option Nat
  next : Option Nat

/-- The nodes in memory, of which `size` are allocated, and the two ends of the list. -/
structure RuleIndexList where
  nodes : Nat → RuleIndexListNode
  size : Nat
  head : Option Nat
  tail : Option Nat

namespace RuleIndexList

def next (l : RuleIndexList) (p : Nat) : Option Nat := (l.nodes p).next

def prev (l : RuleIndexList) (p : Nat) : Option Nat := (l.nodes p).prev

def setPrev (l : RuleIndexList) (p : Nat) (v : Option Nat) : RuleIndexList :=
  { l with nodes := Function.update l.nodes p { l.nodes p with prev := v } }

def setNext (l : RuleIndexList) (p : Nat) (v : Option Nat) : RuleIndexList :=
  { l with nodes := Function.update l.nodes p { l.nodes p with next := v } }

/-- What `newRuleIndexList` and `appendRuleNodeToRuleIndexList` build for `n` rules. -/
def ofRules (n : Nat) : RuleIndexList where
  nodes k :=
    { ruleIndex := k, condIndex := none
      prev := if k = 0 then none else some (k - 1)
      next := if k + 1 < n then some (k + 1) else none }
  size := n
  head := if 0 < n then some 0 else none
  tail := if 0 < n then some (n - 1) else none

def removeNodeFromRuleIndexList (l : RuleIndexList) (n : Nat) : RuleIndexList :=
  let l₁ := { l with
    head := if l.head = some n then l.next n else l.head
    tail := if l.tail = some n then l.next n else l.tail }
  let l₂ := match l.next n with
    | none => l₁
    | some m => l₁.setPrev m (l.prev n)
  match l.prev n with
  | none => l₂
  | some m => l₂.setNext m (l.next n)

/-- A new node for a group behind `prev`. The node that follows it is not told. -/
def insertIntoRuleIndexList (l : RuleIndexList) (prev : Option Nat) (civ : CondIndexVal) :
    RuleIndexList :=
  match prev with
  | none =>
    { nodes := Function.update l.nodes l.size ⟨0, some civ, none, l.head⟩
      size := l.size + 1
      head := some l.size
      tail := if l.tail = none then some l.size else l.tail }
  | some p =>
    let l' : RuleIndexList :=
      { nodes := Function.update l.nodes l.size ⟨0, some civ, some p, l.next p⟩
        size := l.size + 1
        head := l.head
        tail := if l.next p = none then some l.size else l.tail }
    l'.setNext p (some l.size)

end RuleIndexList

/-! ## createCondIndex -/

/-- The local variables of one round: where the scan is, where the group ended, and
what the group has in common. -/
structure Scan where
  curr : Option Nat
  finish : Option Nat := none
  groupCount : Nat := 0
  condExp : Option Node := none
  params : List String := []
  processedStrs : List String := []

/-- Take rules into the group until one does not belong to it. A rule of another form
is passed over; one that merely cannot join starts the next round. -/
def scanGroup (getRuleDesc : Nat → RuleDesc) (l : RuleIndexList) : Nat → Scan → Scan
  | 0, s => s
  | fuel + 1, s =>
    match s.curr with
    | none => s
    | some n =>
      let rd := getRuleDesc (l.nodes n).ruleIndex
      if rd.ruleType ≠ .rkRel then { s with finish := some n, curr := l.next n }
      else match condEq? rd.cond with
        | none => { s with finish := some n, curr := l.next n }
        | some c =>
          if c.str ∈ s.processedStrs then { s with finish := some n }
          else
            let joined (condExp : Node) (params : List String) : Scan :=
              { s with
                curr := l.next n, groupCount := s.groupCount + 1, condExp := some condExp
                params := params, processedStrs := c.str :: s.processedStrs }
            match s.condExp with
            | none => scanGroup getRuleDesc l fuel (joined c.lhs rd.params)
            | some e =>
              if rd.params.length = s.params.length then
                let varMapping := (s.params.zip rd.params).foldl
                  (fun h e => updateInHashTable h e.1 e.2) []
                -- the operator's node is compared, not the left-hand side
                if eqExprNodeSyntacticVarMapping e c.op varMapping then
                  scanGroup getRuleDesc l fuel (joined e s.params)
                else { s with finish := some n }
              else { s with finish := some n }

/-- Take the nodes from `inst` up to `finish` out of the list and into the table. -/
def moveGroup (getRuleDesc : Nat → RuleDesc) :
    Nat → RuleIndexList → Option Nat → Option Nat → List (String × Nat) →
      RuleIndexList × List (String × Nat)
  | 0, l, _, _, groupHashtable => (l, groupHashtable)
  | fuel + 1, l, inst, finish, groupHashtable =>
    if inst = finish then (l, groupHashtable)
    else match inst with
      | none => (l, groupHashtable)
      | some n =>
        let l' := l.removeNodeFromRuleIndexList n
        let groupHashtable' := match condEq? (getRuleDesc (l.nodes n).ruleIndex).cond with
          | none => groupHashtable
          | some c => groupHashtable ++ [(c.str, n)]
        moveGroup getRuleDesc fuel l' (l'.next n) finish groupHashtable'

/-- The rounds, from `curr` on. Every round passes at least one node. -/
def createCondIndexLoop (getRuleDesc : Nat → RuleDesc) : Nat → RuleIndexList → Option Nat → RuleIndexList
  | 0, l, _ => l
  | fuel + 1, l, curr =>
    match curr with
    | none => l
    | some start =>
      let s := scanGroup getRuleDesc l (l.size + 1) { curr := some start }
      match s.condExp with
      | none => createCondIndexLoop getRuleDesc fuel l s.curr
      | some condExp =>
        if s.groupCount < COND_INDEX_THRESHOLD then createCondIndexLoop getRuleDesc fuel l s.curr
        else
          let (l', groupHashtable) := moveGroup getRuleDesc (l.size + 1) l (some start) s.finish []
          let civ : CondIndexVal := ⟨condExp, s.params, groupHashtable⟩
          createCondIndexLoop getRuleDesc fuel (l'.insertIntoRuleIndexList (l'.prev start) civ) s.curr

/-- The index of the `n` rules of one name. -/
def createCondIndex (getRuleDesc : Nat → RuleDesc) (n : Nat) : RuleIndexList :=
  createCondIndexLoop getRuleDesc (n + 1) (RuleIndexList.ofRules n) (RuleIndexList.ofRules n).head

end Re
