-- SUMMARY: Which rules are considered for a call.
import Irods.Re.CondIndex
import Mathlib.Data.List.Pairwise
import Mathlib.Order.Monotone.Basic
import Mathlib.Logic.Function.Iterate

/-!
# Rule selection

The rules that `execRule` considers for a call, over the plain list and over the list
with a condition index. Evaluation is a parameter and nothing is asked of it. Where a
condition comes to an error its rule is passed over; where the expression of a group
comes to a cut, `execRule` ends.

What the index does to the list is first said without links: an `Item` is a rule or a
group, and `indexItems` is the order of the items in the list that `createCondIndex`
leaves, wrong orders included.
-/

namespace Re

open List (append_nil mem_append mem_append_left mem_append_right mem_range'_1 mem_singleton range range')
open Nat (le_of_not_lt zero_le)

/-! ## Conditions up to the names of parameters -/

mutual

def Tree.mapText {α β : Type} (f : NodeType → α → β) : Tree α → Tree β
  | .node t x ts => .node t (f t x) (mapTexts f ts)

def mapTexts {α β : Type} (f : NodeType → α → β) : List (Tree α) → List (Tree β)
  | [] => []
  | t :: ts => t.mapText f :: mapTexts f ts

end

/-- An expression with its parameters replaced by their positions. -/
def Tree.canon (params : List String) (t : Node) : Tree (Nat ⊕ String) :=
  t.mapText fun nodeType x =>
    match nodeType, params.idxOf? x with
    | .tkVar, some i => .inl i
    | _, _ => .inr x

/-- The two conditions compare the same expression, up to the names of parameters. -/
def SameCondExp (rd rd' : RuleDesc) : Prop :=
  ∀ c c', condEq? rd.cond = some c → condEq? rd'.cond = some c' →
    c.lhs.canon rd.params = c'.lhs.canon rd'.params

/-- What an expression comes to: a string, the error of a cut, or anything else. -/
inductive Value where
  | string (s : String)
  | cut
  | other
  deriving DecidableEq

/-- Evaluation in environments `E`, with names for the arguments: what an expression comes
to, and whether a condition comes to true. The names may matter, as they do to `eval`. -/
structure Evaluator (E : Type) where
  value : List String → Node → E → Value
  test : List String → Node → E → Bool

/-! ## What execRule considers -/

/-- What a node of the list leads to: rules to be executed, or the end of `execRule`. -/
inductive Tried where
  | rules (considered : List Nat)
  | cut

/-- The nodes are tried in order, until there is none or one is cut. -/
def tryAll {α : Type} (tried : α → Tried) : List α → List Nat
  | [] => []
  | a :: as =>
    match tried a with
    | .rules considered => considered ++ tryAll tried as
    | .cut => []

variable {E : Type}

section Selection

variable (ev : Evaluator E) (env : E) (argc : Nat) (getRuleDesc : Nat → RuleDesc)

/-- The rule takes this many arguments and its condition holds. -/
def holds (i : Nat) : Bool :=
  let rd := getRuleDesc i
  (rd.ruleType = .rkRel || rd.ruleType = .rkFunc) && rd.params.length = argc &&
    ev.test rd.params rd.cond env

/-- A rule by itself: its condition is tested, and an error of it is that of a failed rule. -/
def execRuleNodeRes (i : Nat) : Tried := .rules (if holds ev env argc getRuleDesc i then [i] else [])

/-- The rule that a group finds by the value of its expression; its own condition is tested
then. An error of the expression is the error of the group. -/
def execRuleFromCondIndex (l : RuleIndexList) (civ : CondIndexVal) : Tried :=
  if civ.params.length ≠ argc then .rules []
  else match ev.value civ.params civ.condExp env with
    | .cut => .cut
    | .other => .rules []
    | .string v =>
      match lookupFromHashTable civ.valIndex v with
      | none => .rules []
      | some p => execRuleNodeRes ev env argc getRuleDesc (l.nodes p).ruleIndex

def considerNode (l : RuleIndexList) (p : Nat) : Tried :=
  match (l.nodes p).condIndex with
  | some civ => execRuleFromCondIndex ev env argc getRuleDesc l civ
  | none => execRuleNodeRes ev env argc getRuleDesc (l.nodes p).ruleIndex

/-- The rules considered, in order. `execRule` asks for the first, second, ... node of
the list until there is none. -/
def consider (l : RuleIndexList) : List Nat :=
  tryAll (considerNode ev env argc getRuleDesc l) (Chain.walk l.next l.size l.head)

end Selection

/-- In every environment the rules considered are those whose condition holds, in the
order of the list. -/
def Evaluator.SelectionKept (ev : Evaluator E) (getRuleDesc : Nat → RuleDesc) (n : Nat) : Prop :=
  ∀ env argc, consider ev env argc getRuleDesc (createCondIndex getRuleDesc n) =
    (range n).filter (holds ev env argc getRuleDesc)

/-- The rules of a group have one condition expression, up to the names of parameters. -/
def GroupsAlike (getRuleDesc : Nat → RuleDesc) (n : Nat) : Prop :=
  ∀ p civ, p < (createCondIndex getRuleDesc n).size →
    ((createCondIndex getRuleDesc n).nodes p).condIndex = some civ →
    ∀ i ∈ civ.valIndex, ∀ j ∈ civ.valIndex,
      SameCondExp (getRuleDesc ((createCondIndex getRuleDesc n).nodes i.2).ruleIndex)
        (getRuleDesc ((createCondIndex getRuleDesc n).nodes j.2).ruleIndex)

/-! ## The rounds -/

section Rounds

variable (getRuleDesc : Nat → RuleDesc) (n : Nat)

/-- The string by which a rule can be in a group. -/
def groupKey (rd : RuleDesc) : Option String :=
  if rd.ruleType = .rkRel then (condEq? rd.cond).map CondEq.str else none

/-- How many of the next `m` rules join a group, and whether a rule that can be in no
group ended it. A rule joins unless its string is taken or its number of parameters is
another. -/
def groupFrom : Nat → Nat → List String → Option Nat → Nat × Bool
  | 0, _, _, _ => (0, false)
  | m + 1, k, seen, arity =>
    match groupKey (getRuleDesc k) with
    | none => (0, true)
    | some s =>
      if s ∈ seen then (0, false)
      else if arity = none ∨ arity = some (getRuleDesc k).params.length then
        let r := groupFrom m (k + 1) (s :: seen) (some (getRuleDesc k).params.length)
        (r.1 + 1, r.2)
      else (0, false)

/-- The number of rules the round from rule `k` on gathers. -/
def groupLength (k : Nat) : Nat := (groupFrom getRuleDesc (n - k) k [] none).1

/-- The round passes over the rule that ended it. -/
def passesOver (k : Nat) : Bool := (groupFrom getRuleDesc (n - k) k [] none).2

/-- The rule the next round begins with. -/
def roundEnd (k : Nat) : Nat :=
  k + groupLength getRuleDesc n k + if passesOver getRuleDesc n k then 1 else 0

/-- Rounds begin at the first rule and where the round before ended. -/
def RoundStart (k : Nat) : Prop := ∃ t, (roundEnd getRuleDesc n)^[t] 0 = k

/-- A round begins at `k` and makes a group. -/
def Formed (k : Nat) : Prop :=
  RoundStart getRuleDesc n k ∧ COND_INDEX_THRESHOLD ≤ groupLength getRuleDesc n k

/-- No group mixes condition expressions, and none begins right where another ends. -/
structure IndexSafe : Prop where
  uniform : ∀ k, Formed getRuleDesc n k → ∀ i < groupLength getRuleDesc n k,
    SameCondExp (getRuleDesc k) (getRuleDesc (k + i))
  apart : ∀ k, Formed getRuleDesc n k → passesOver getRuleDesc n k = false →
    ¬ Formed getRuleDesc n (k + groupLength getRuleDesc n k)

/-- The expression of a group, under the names of its first rule, speaks for the group:
where the condition of a member holds it comes to the member's string, and where it comes
to a cut the condition of no later rule holds. -/
structure Evaluator.Respects (ev : Evaluator E) : Prop where
  found : ∀ env k c, Formed getRuleDesc n k → condEq? (getRuleDesc k).cond = some c →
    ∀ i s, k ≤ i → i < k + groupLength getRuleDesc n k → groupKey (getRuleDesc i) = some s →
      ev.test (getRuleDesc i).params (getRuleDesc i).cond env = true →
        ev.value (getRuleDesc k).params c.lhs env = .string s
  uncut : ∀ env k c, Formed getRuleDesc n k → condEq? (getRuleDesc k).cond = some c →
    ev.value (getRuleDesc k).params c.lhs env = .cut →
      ∀ j, k + groupLength getRuleDesc n k ≤ j → j < n →
        holds ev env (getRuleDesc k).params.length getRuleDesc j = false

end Rounds

/-! ## What a group has in common -/

variable {getRuleDesc : Nat → RuleDesc} {i j k m n : Nat}

section Group

theorem groupFrom_le (m k : Nat) (seen : List String) (arity : Option Nat) :
    (groupFrom getRuleDesc m k seen arity).1 ≤ m := by
  induction m generalizing k seen arity with
  | zero => exact Nat.le_refl 0
  | succ m ih =>
    unfold groupFrom
    split
    · exact zero_le _
    · split
      · exact zero_le _
      · split
        · exact Nat.succ_le_succ (ih _ _ _)
        · exact zero_le _

variable {seen : List String} {arity : Option Nat}

/-- A rule that ends a group and is passed over is there. -/
theorem groupFrom_lt (h : (groupFrom getRuleDesc m k seen arity).2 = true) :
    (groupFrom getRuleDesc m k seen arity).1 < m := by
  induction m generalizing k seen arity with
  | zero => cases h
  | succ m ih =>
    unfold groupFrom at h ⊢
    split at h
    · exact Nat.zero_lt_succ m
    · split at h
      · cases h
      · rename_i hs
        rw [if_neg hs]
        split at h
        · rename_i harity
          rw [if_pos harity]
          exact Nat.succ_lt_succ (ih h)
        · cases h

/-- The members have strings, all new and different, and the number of parameters
asked for. -/
theorem groupFrom_mem (h : i < (groupFrom getRuleDesc m k seen arity).1) :
    ∃ s, groupKey (getRuleDesc (k + i)) = some s ∧ s ∉ seen ∧
      (∀ a, arity = some a → (getRuleDesc (k + i)).params.length = a) ∧
      (arity = none → (getRuleDesc (k + i)).params.length = (getRuleDesc k).params.length) ∧
      ∀ j < i, groupKey (getRuleDesc (k + j)) ≠ some s := by
  induction m generalizing k i seen arity with
  | zero => cases h
  | succ m ih =>
    unfold groupFrom at h
    split at h
    · cases h
    · rename_i s hkey
      split at h
      · cases h
      · rename_i hseen
        split at h
        · rename_i harity
          have hlen : ∀ a, arity = some a → (getRuleDesc k).params.length = a := by
            intro a ha
            rcases harity with hnone | hsome
            · rw [hnone] at ha
              cases ha
            · rw [hsome] at ha
              cases ha
              rfl
          cases i with
          | zero =>
            refine ⟨s, hkey, hseen, hlen, fun _ => rfl, ?_⟩
            intro j hj
            cases hj
          | succ i =>
            obtain ⟨s', hkey', hseen', hparams, -, hdiff⟩ := ih (Nat.lt_of_succ_lt_succ h)
            have hk : k + 1 + i = k + (i + 1) := by omega
            rw [hk] at hkey' hparams
            have hlen' := hparams _ rfl
            refine ⟨s', hkey', fun hmem => hseen' (List.mem_cons_of_mem s hmem), ?_, ?_, ?_⟩
            · exact fun a ha => hlen'.trans (hlen a ha)
            · exact fun _ => hlen'
            · intro j hj
              cases j with
              | zero =>
                rw [Nat.add_zero, hkey]
                intro heq
                cases heq
                exact hseen' List.mem_cons_self
              | succ j =>
                have hj' : k + 1 + j = k + (j + 1) := by omega
                rw [← hj']
                exact hdiff j (Nat.lt_of_succ_lt_succ hj)
        · cases h

theorem groupLength_le (k : Nat) : groupLength getRuleDesc n k ≤ n - k :=
  groupFrom_le _ _ _ _

theorem lt_of_passesOver (h : passesOver getRuleDesc n k = true) : k + groupLength getRuleDesc n k < n := by
  have hlt : groupLength getRuleDesc n k < n - k := groupFrom_lt h
  omega

theorem roundEnd_le (hk : k ≤ n) : roundEnd getRuleDesc n k ≤ n := by
  have hle : groupLength getRuleDesc n k ≤ n - k := groupLength_le k
  unfold roundEnd
  split
  · rename_i h
    have := lt_of_passesOver h
    omega
  · omega

/-- Every round gets on. -/
theorem lt_roundEnd (hk : k < n) : k < roundEnd getRuleDesc n k := by
  obtain ⟨m, hm⟩ : ∃ m, n - k = m + 1 := ⟨n - k - 1, by omega⟩
  unfold roundEnd groupLength passesOver
  rw [hm, groupFrom]
  split
  · simp
  · simp
    omega

theorem le_roundEnd (k : Nat) : k ≤ roundEnd getRuleDesc n k := by
  unfold roundEnd
  omega

theorem RoundStart.zero : RoundStart getRuleDesc n 0 := ⟨0, rfl⟩

theorem RoundStart.next (h : RoundStart getRuleDesc n k) : RoundStart getRuleDesc n (roundEnd getRuleDesc n k) := by
  obtain ⟨t, rfl⟩ := h
  exact ⟨t + 1, Function.iterate_succ_apply' _ _ _⟩

theorem RoundStart.roundEnd_le (hj : RoundStart getRuleDesc n j) (hk : RoundStart getRuleDesc n k) (hlt : j < k) :
    roundEnd getRuleDesc n j ≤ k := by
  obtain ⟨a, rfl⟩ := hj
  obtain ⟨b, rfl⟩ := hk
  have hmono : Monotone fun t => (roundEnd getRuleDesc n)^[t] 0 := by
    apply monotone_nat_of_le_succ
    intro t
    rw [Function.iterate_succ_apply']
    exact le_roundEnd _
  have hab : a < b := by
    by_contra h
    have hba : (roundEnd getRuleDesc n)^[b] 0 ≤ (roundEnd getRuleDesc n)^[a] 0 := hmono (le_of_not_lt h)
    omega
  have hsucc := hmono hab
  simp only [Function.iterate_succ_apply'] at hsucc
  exact hsucc

end Group

/-! ## The order of the list without links -/

/-- What a node of the list stands for: a rule, or the group that begins at a rule. -/
inductive Item where
  | rule (i : Nat)
  | group (k : Nat)
  deriving DecidableEq

/-- The list up to rule `pos`, where a round begins. Its previous link leads to the end
of `back`; `extra` stands between that and the rule. -/
structure Listed where
  back : List Item
  extra : List Item
  pos : Nat

def rulesFrom (k m : Nat) : List Item := (range' k m).map .rule

section Listed

variable (getRuleDesc : Nat → RuleDesc) (n : Nat)

/-- What stands between the end of `back` and the rule behind a new group: the group, if there is a
node to link from. Without one, it is put first and nothing is taken out, its members included. -/
def formExtra (back extra : List Item) (k : Nat) : List Item :=
  if back ≠ [] ∨ extra = [] then [.group k]
  else .group k :: (extra ++ rulesFrom k (groupLength getRuleDesc n k))

def Listed.round (s : Listed) : Listed :=
  if s.pos < n then
    let k := s.pos
    if groupLength getRuleDesc n k < COND_INDEX_THRESHOLD then
      ⟨s.back ++ s.extra ++ rulesFrom k (roundEnd getRuleDesc n k - k), [], roundEnd getRuleDesc n k⟩
    else if passesOver getRuleDesc n k then
      ⟨s.back ++ formExtra getRuleDesc n s.back s.extra k ++ [.rule (k + groupLength getRuleDesc n k)], [],
        roundEnd getRuleDesc n k⟩
    else ⟨s.back, formExtra getRuleDesc n s.back s.extra k, roundEnd getRuleDesc n k⟩
  else s

def Listed.start : Listed := ⟨[], [], 0⟩

/-- The list after `t` rounds. -/
def listedAfter (t : Nat) : Listed := (Listed.round getRuleDesc n)^[t] Listed.start

/-- The order of the list that `createCondIndex` leaves. -/
def indexItems : List Item :=
  (listedAfter getRuleDesc n (n + 1)).back ++ (listedAfter getRuleDesc n (n + 1)).extra

/-- The table of the group that begins at `k`. -/
def members (k : Nat) : List (String × Nat) :=
  (range' k (groupLength getRuleDesc n k)).filterMap fun i =>
    (groupKey (getRuleDesc i)).map fun s => (s, i)

end Listed

section ConsiderItem

variable (ev : Evaluator E) (env : E) (argc : Nat) (getRuleDesc : Nat → RuleDesc) (n : Nat)

/-- The member a group finds. -/
def findInGroup (k : Nat) : Tried :=
  if (getRuleDesc k).params.length ≠ argc then .rules []
  else match condEq? (getRuleDesc k).cond with
    | none => .rules []
    | some c =>
      match ev.value (getRuleDesc k).params c.lhs env with
      | .cut => .cut
      | .other => .rules []
      | .string v =>
        match lookupFromHashTable (members getRuleDesc n k) v with
        | none => .rules []
        | some i => execRuleNodeRes ev env argc getRuleDesc i

def considerItem : Item → Tried
  | .rule i => execRuleNodeRes ev env argc getRuleDesc i
  | .group k => findInGroup ev env argc getRuleDesc n k

end ConsiderItem

variable {s : Listed}

section Rounds

theorem Listed.round_pos (h : s.pos < n) : (s.round getRuleDesc n).pos = roundEnd getRuleDesc n s.pos := by
  simp only [round, h, if_true]
  split
  · rfl
  · split <;> rfl

theorem Listed.round_of_le (h : n ≤ s.pos) : s.round getRuleDesc n = s := by
  simp only [round, Nat.not_lt.mpr h, if_false]

theorem roundEnd_of_le (h : n ≤ k) : roundEnd getRuleDesc n k = k := by
  have hzero : n - k = 0 := by omega
  simp [roundEnd, groupLength, passesOver, hzero, groupFrom]

theorem listedAfter_succ (t : Nat) :
    listedAfter getRuleDesc n (t + 1) = (listedAfter getRuleDesc n t).round getRuleDesc n :=
  Function.iterate_succ_apply' _ _ _

theorem listedAfter_pos (t : Nat) :
    (listedAfter getRuleDesc n t).pos = (roundEnd getRuleDesc n)^[t] 0 := by
  induction t with
  | zero => rfl
  | succ t ih =>
    rw [listedAfter_succ, Function.iterate_succ_apply', ← ih]
    by_cases h : (listedAfter getRuleDesc n t).pos < n
    · exact Listed.round_pos h
    · rw [Listed.round_of_le (le_of_not_lt h), roundEnd_of_le (le_of_not_lt h)]

theorem listedAfter_start (t : Nat) : RoundStart getRuleDesc n (listedAfter getRuleDesc n t).pos :=
  ⟨t, (listedAfter_pos t).symm⟩

theorem listedAfter_le (t : Nat) : (listedAfter getRuleDesc n t).pos ≤ n := by
  rw [listedAfter_pos]
  induction t with
  | zero => exact zero_le n
  | succ t ih =>
    rw [Function.iterate_succ_apply']
    exact roundEnd_le ih

/-- A round that is not at the end passes a rule. -/
theorem le_listedAfter (getRuleDesc : Nat → RuleDesc) (n t : Nat) :
    min t n ≤ (listedAfter getRuleDesc n t).pos := by
  induction t with
  | zero => exact zero_le _
  | succ t ih =>
    rw [listedAfter_succ]
    by_cases h : (listedAfter getRuleDesc n t).pos < n
    · rw [Listed.round_pos h]
      have hlt : (listedAfter getRuleDesc n t).pos < roundEnd getRuleDesc n _ := lt_roundEnd h
      omega
    · rw [Listed.round_of_le (le_of_not_lt h)]
      omega

/-- After as many rounds as there are rules all have been passed. -/
theorem listedAfter_end : (listedAfter getRuleDesc n (n + 1)).pos = n := by
  have hle : (listedAfter getRuleDesc n (n + 1)).pos ≤ n := listedAfter_le (n + 1)
  have := le_listedAfter getRuleDesc n (n + 1)
  omega

end Rounds

/-! ## A group finds the member whose condition holds -/

section Members

variable {s : String}

theorem groupKey_eq_some {rd : RuleDesc} :
    groupKey rd = some s ↔ rd.ruleType = .rkRel ∧ ∃ c, condEq? rd.cond = some c ∧ c.str = s := by
  unfold groupKey
  split
  · rename_i h
    simp [h, Option.map_eq_some_iff]
  · rename_i h
    simp [h]

theorem mem_members :
    (s, i) ∈ members getRuleDesc n k ↔
      k ≤ i ∧ i < k + groupLength getRuleDesc n k ∧ groupKey (getRuleDesc i) = some s := by
  simp only [members, List.mem_filterMap, mem_range'_1, Option.map_eq_some_iff]
  constructor
  · rintro ⟨j, ⟨hle, hlt⟩, s', hkey, heq⟩
    cases heq
    exact ⟨hle, hlt, hkey⟩
  · rintro ⟨hle, hlt, hkey⟩
    exact ⟨i, ⟨hle, hlt⟩, s, hkey, rfl⟩

/-- The facts of `groupFrom_mem` at a rule of the group that begins at `k`. -/
theorem group_facts (hle : k ≤ i) (hlt : i < k + groupLength getRuleDesc n k) :
    ∃ s, groupKey (getRuleDesc i) = some s ∧
      (getRuleDesc i).params.length = (getRuleDesc k).params.length ∧
      ∀ j, k ≤ j → j < i → groupKey (getRuleDesc j) ≠ some s := by
  obtain ⟨d, rfl⟩ : ∃ d, i = k + d := ⟨i - k, by omega⟩
  have hd : d < groupLength getRuleDesc n k := by omega
  obtain ⟨s, hkey, -, -, hparams, hdiff⟩ := groupFrom_mem hd
  refine ⟨s, hkey, hparams rfl, ?_⟩
  intro j hj hjd
  have hj' : k + (j - k) = j := by omega
  rw [← hj']
  exact hdiff (j - k) (by omega)

/-- Two members of a group have different strings. -/
theorem group_inj (hi : k ≤ i) (hi' : i < k + groupLength getRuleDesc n k) (hj : k ≤ j)
    (hj' : j < k + groupLength getRuleDesc n k) (hsi : groupKey (getRuleDesc i) = some s)
    (hsj : groupKey (getRuleDesc j) = some s) : i = j := by
  rcases Nat.lt_trichotomy i j with h | h | h
  · obtain ⟨s', hkey, -, hdiff⟩ := group_facts hj hj'
    rw [hsj] at hkey
    cases hkey
    exact absurd hsi (hdiff i hi h)
  · exact h
  · obtain ⟨s', hkey, -, hdiff⟩ := group_facts hi hi'
    rw [hsi] at hkey
    cases hkey
    exact absurd hsj (hdiff j hj h)

theorem lookup_members {v : String} :
    lookupFromHashTable (members getRuleDesc n k) v = some i ↔
      k ≤ i ∧ i < k + groupLength getRuleDesc n k ∧ groupKey (getRuleDesc i) = some v := by
  constructor
  · intro h
    simp only [lookupFromHashTable, Option.map_eq_some_iff] at h
    obtain ⟨⟨s, j⟩, hfind, rfl⟩ := h
    have hs : s = v := by simpa using List.find?_some hfind
    subst hs
    exact mem_members.1 (List.mem_of_find?_eq_some hfind)
  · rintro ⟨hle, hlt, hkey⟩
    cases hfind : (members getRuleDesc n k).find? (fun e => e.1 == v) with
    | none =>
      have := List.find?_eq_none.mp hfind (v, i) (mem_members.2 ⟨hle, hlt, hkey⟩)
      simp at this
    | some e =>
      obtain ⟨s, j⟩ := e
      have hs : s = v := by simpa using List.find?_some hfind
      subst hs
      obtain ⟨hle', hlt', hkey'⟩ := mem_members.1 (List.mem_of_find?_eq_some hfind)
      have hij : j = i := group_inj hle' hlt' hle hlt hkey' hkey
      simp only [lookupFromHashTable, hfind, Option.map_some, hij]

private theorem filter_eq_if {p : Nat → Bool} {xs : List Nat} {i : Nat} (hnodup : xs.Nodup) (hi : i ∈ xs)
    (h : ∀ j ∈ xs, p j = true → j = i) : xs.filter p = if p i then [i] else [] := by
  obtain ⟨ys, zs, rfl⟩ := List.append_of_mem hi
  have hne : ∀ j ∈ ys ++ zs, ¬ p j = true := by
    intro j hj hp
    have hj' : j ∈ ys ++ i :: zs := by
      simp only [mem_append, List.mem_cons] at hj ⊢
      tauto
    rw [h j hj' hp] at hj
    rw [List.nodup_middle, List.nodup_cons] at hnodup
    exact hnodup.1 hj
  have hys : ys.filter p = [] := List.filter_eq_nil_iff.mpr fun j hj => hne j (mem_append_left zs hj)
  have hzs : zs.filter p = [] := List.filter_eq_nil_iff.mpr fun j hj => hne j (mem_append_right ys hj)
  rw [List.filter_append, hys, List.filter_cons, hzs, List.nil_append]

variable {ev : Evaluator E} {env : E} {argc : Nat} {c : CondEq}

/-- A member that is found is in the group, and the expression comes to its string. -/
theorem mem_findInGroup {is : List Nat} (h : findInGroup ev env argc getRuleDesc n k = .rules is) (hi : i ∈ is) :
    k ≤ i ∧ i < k + groupLength getRuleDesc n k ∧ ∃ c s, condEq? (getRuleDesc k).cond = some c ∧
      groupKey (getRuleDesc i) = some s ∧ ev.value (getRuleDesc k).params c.lhs env = .string s := by
  have hnil : Tried.rules [] ≠ .rules is := by
    rintro heq
    cases heq
    cases hi
  unfold findInGroup at h
  split at h
  · exact absurd h hnil
  split at h
  · exact absurd h hnil
  rename_i c hc
  split at h
  · cases h
  · exact absurd h hnil
  rename_i v hvalue
  split at h
  · exact absurd h hnil
  rename_i j hlookup
  obtain ⟨hle, hlt, hkey⟩ := lookup_members.1 hlookup
  cases h
  split at hi
  · rw [mem_singleton] at hi
    subst hi
    exact ⟨hle, hlt, c, v, hc, hkey, hvalue⟩
  · cases hi

/-- A group comes to a cut only by its expression. -/
theorem value_of_cut (h : findInGroup ev env argc getRuleDesc n k = .cut) :
    (getRuleDesc k).params.length = argc ∧ ∃ c, condEq? (getRuleDesc k).cond = some c ∧
      ev.value (getRuleDesc k).params c.lhs env = .cut := by
  unfold findInGroup at h
  split at h
  · cases h
  rename_i hargc
  split at h
  · cases h
  rename_i c hc
  split at h
  · rename_i hvalue
    exact ⟨not_not.mp hargc, c, hc, hvalue⟩
  · cases h
  split at h
  · cases h
  · cases h

/-- Where the expression speaks for the members, the group leads to those whose condition holds. -/
theorem filter_group (hev : ev.Respects getRuleDesc n) (hformed : Formed getRuleDesc n k) {is : List Nat}
    (h : findInGroup ev env argc getRuleDesc n k = .rules is) :
    (range' k (groupLength getRuleDesc n k)).filter (holds ev env argc getRuleDesc) = is := by
  have hlt₀ : k < k + groupLength getRuleDesc n k := by
    have := hformed.2
    unfold COND_INDEX_THRESHOLD at this
    omega
  obtain ⟨s₀, hkey₀, -⟩ := group_facts le_rfl hlt₀
  obtain ⟨-, c, hc, -⟩ := groupKey_eq_some.1 hkey₀
  -- a member whose condition holds is the one with the string the expression comes to
  have hheld : ∀ i ∈ range' k (groupLength getRuleDesc n k), holds ev env argc getRuleDesc i = true →
      (getRuleDesc k).params.length = argc ∧ ∃ s, groupKey (getRuleDesc i) = some s ∧
        ev.value (getRuleDesc k).params c.lhs env = .string s := by
    intro i hi hholds
    obtain ⟨hle, hlt⟩ := mem_range'_1.mp hi
    obtain ⟨s, hkey, hparams, -⟩ := group_facts hle hlt
    simp only [holds, Bool.and_eq_true, decide_eq_true_eq] at hholds
    exact ⟨hparams.symm.trans hholds.1.2, s, hkey, hev.found env k c hformed hc i s hle hlt hkey hholds.2⟩
  have hnone (hno : ¬ ∃ s i, (getRuleDesc k).params.length = argc ∧ groupKey (getRuleDesc i) = some s ∧
      k ≤ i ∧ i < k + groupLength getRuleDesc n k ∧ ev.value (getRuleDesc k).params c.lhs env = .string s) :
      (range' k (groupLength getRuleDesc n k)).filter (holds ev env argc getRuleDesc) = [] := by
    refine List.filter_eq_nil_iff.mpr fun i hi hholds => hno ?_
    obtain ⟨hargc, s, hkey, hvalue⟩ := hheld i hi hholds
    obtain ⟨hle, hlt⟩ := mem_range'_1.mp hi
    exact ⟨s, i, hargc, hkey, hle, hlt, hvalue⟩
  simp only [findInGroup, hc] at h
  split at h
  · rename_i hargc
    cases h
    exact hnone fun ⟨_, _, h, _⟩ => hargc h
  split at h
  · cases h
  · rename_i hvalue
    cases h
    exact hnone fun ⟨_, _, _, _, _, _, h⟩ => by
      rw [hvalue] at h
      cases h
  rename_i v hvalue
  split at h
  · rename_i hlookup
    cases h
    refine hnone fun ⟨s, i, _, hkey, hle, hlt, h⟩ => ?_
    rw [hvalue] at h
    cases h
    rw [lookup_members.2 ⟨hle, hlt, hkey⟩] at hlookup
    cases hlookup
  · rename_i i hlookup
    obtain ⟨hle, hlt, hkey⟩ := lookup_members.1 hlookup
    cases h
    refine filter_eq_if (List.nodup_range' _) (mem_range'_1.mpr ⟨hle, hlt⟩) fun j hj hholds => ?_
    obtain ⟨-, s, hkey', hvalue'⟩ := hheld j hj hholds
    obtain ⟨hle', hlt'⟩ := mem_range'_1.mp hj
    rw [hvalue] at hvalue'
    cases hvalue'
    exact group_inj hle' hlt' hle hlt hkey' hkey

end Members

/-! ## Safe lists keep the selection -/

variable {back : List Item}

section Safe

/-- The rules an item stands for. -/
def Item.rules (getRuleDesc : Nat → RuleDesc) (n : Nat) : Item → List Nat
  | .rule i => [i]
  | .group k => range' k (groupLength getRuleDesc n k)

theorem rules_rulesFrom (k m : Nat) : (rulesFrom k m).flatMap (Item.rules getRuleDesc n) = range' k m := by
  rw [rulesFrom, List.flatMap_map]
  exact List.flatMap_singleton' _

theorem range_add (k m : Nat) : range (k + m) = range k ++ range' k m := by
  rw [List.range_eq_range', List.range_eq_range', ← List.range'_append_1, Nat.zero_add]

/-- While groups are apart, a new group is all that stands before the next rule. -/
theorem formExtra_of_nil : formExtra getRuleDesc n back [] k = [.group k] := by
  simp [formExtra]

theorem group_notMem_rulesFrom {g m : Nat} : .group g ∉ rulesFrom k m := by
  simp [rulesFrom]

/-- The list so far stands for the rules so far, each once and in order; its groups are those
that were formed, and a group stands before the next rule only if the round before made it. -/
structure Listed.Faithful (getRuleDesc : Nat → RuleDesc) (n : Nat) (s : Listed) : Prop where
  rules : (s.back ++ s.extra).flatMap (Item.rules getRuleDesc n) = range s.pos
  groups : ∀ k, .group k ∈ s.back ++ s.extra ↔ Formed getRuleDesc n k ∧ k < s.pos
  after : s.extra ≠ [] → ∃ j, Formed getRuleDesc n j ∧ passesOver getRuleDesc n j = false ∧
    s.pos = j + groupLength getRuleDesc n j

/-- Between two starts of rounds no group is formed but at the first of them. -/
theorem formed_lt_roundEnd {p : Nat} (hstart : RoundStart getRuleDesc n p) (hp : p < n) :
    Formed getRuleDesc n k ∧ k < roundEnd getRuleDesc n p ↔
      (Formed getRuleDesc n k ∧ k < p) ∨ (Formed getRuleDesc n p ∧ k = p) := by
  have hend : p < roundEnd getRuleDesc n p := lt_roundEnd hp
  constructor
  · rintro ⟨hk, hlt⟩
    rcases Nat.lt_trichotomy k p with h | rfl | h
    · exact .inl ⟨hk, h⟩
    · exact .inr ⟨hk, rfl⟩
    · exact absurd (hstart.roundEnd_le hk.1 h) (Nat.not_le.mpr hlt)
  · rintro (⟨hk, hlt⟩ | ⟨hk, rfl⟩)
    · exact ⟨hk, hlt.trans hend⟩
    · exact ⟨hk, hend⟩

theorem Listed.Faithful.round (hsafe : IndexSafe getRuleDesc n) (hs : s.Faithful getRuleDesc n)
    (hstart : RoundStart getRuleDesc n s.pos) : (s.round getRuleDesc n).Faithful getRuleDesc n := by
  by_cases hlt : s.pos < n
  swap
  · rwa [Listed.round_of_le (le_of_not_lt hlt)]
  have hformed (k : Nat) := formed_lt_roundEnd (k := k) hstart hlt
  simp only [Listed.round, hlt, if_true]
  by_cases hsmall : groupLength getRuleDesc n s.pos < COND_INDEX_THRESHOLD
  · rw [if_pos hsmall]
    have hend : roundEnd getRuleDesc n s.pos = s.pos + (roundEnd getRuleDesc n s.pos - s.pos) := by
      have : s.pos ≤ roundEnd getRuleDesc n s.pos := le_roundEnd _
      omega
    have hnone : ¬ Formed getRuleDesc n s.pos := fun h => absurd h.2 (Nat.not_le.mpr hsmall)
    refine ⟨?_, fun k => ?_, fun h => absurd rfl h⟩
    · rw [append_nil, List.flatMap_append, hs.rules, rules_rulesFrom, ← range_add, ← hend]
    · rw [append_nil, mem_append, hs.groups, hformed]
      simp only [group_notMem_rulesFrom, or_false, hnone, false_and]
  · rw [if_neg hsmall]
    have hnew : Formed getRuleDesc n s.pos := ⟨hstart, le_of_not_lt hsmall⟩
    -- another group right before this one would break the condition
    have hextra : s.extra = [] := by
      by_contra hne
      obtain ⟨j, hj, hpass, hpos⟩ := hs.after hne
      exact hsafe.apart j hj hpass (hpos ▸ hnew)
    have hrules := hs.rules
    have hgroups := hs.groups
    rw [hextra, append_nil] at hrules hgroups
    have hgroup : (s.back ++ [Item.group s.pos]).flatMap (Item.rules getRuleDesc n) =
        range (s.pos + groupLength getRuleDesc n s.pos) := by
      rw [List.flatMap_append, hrules, range_add, List.flatMap_singleton]
      rfl
    have hmem (k : Nat) : Item.group k ∈ s.back ++ [Item.group s.pos] ↔
        Formed getRuleDesc n k ∧ k < roundEnd getRuleDesc n s.pos := by
      rw [mem_append, hgroups, mem_singleton, Item.group.injEq, hformed, and_iff_right hnew]
    rw [hextra, formExtra_of_nil]
    by_cases hpass : passesOver getRuleDesc n s.pos
    · rw [if_pos hpass]
      refine ⟨?_, fun k => ?_, fun h => absurd rfl h⟩
      · rw [append_nil, List.flatMap_append, hgroup]
        simp only [roundEnd, hpass, if_true]
        rw [range_add (s.pos + groupLength getRuleDesc n s.pos) 1]
        rfl
      · rw [append_nil, mem_append, hmem]
        simp
    · rw [if_neg hpass]
      simp only [Bool.not_eq_true] at hpass
      refine ⟨?_, hmem, fun _ => ⟨s.pos, hnew, hpass, ?_⟩⟩
      · simp only [roundEnd, hpass, Bool.false_eq_true, if_false, Nat.add_zero]
        exact hgroup
      · simp [roundEnd, hpass]

/-- In a safe list the items stand for all rules, each once and in order. -/
theorem indexItems_faithful (hsafe : IndexSafe getRuleDesc n) :
    (indexItems getRuleDesc n).flatMap (Item.rules getRuleDesc n) = range n ∧
      ∀ k, .group k ∈ indexItems getRuleDesc n ↔ Formed getRuleDesc n k ∧ k < n := by
  have hfaithful : ∀ t, (listedAfter getRuleDesc n t).Faithful getRuleDesc n := by
    intro t
    induction t with
    | zero => exact ⟨rfl, fun k => by simp [listedAfter, Listed.start], fun h => absurd rfl h⟩
    | succ t ih =>
      rw [listedAfter_succ]
      exact ih.round hsafe (listedAfter_start t)
  have hrules := (hfaithful (n + 1)).rules
  have hgroups := (hfaithful (n + 1)).groups
  rw [listedAfter_end] at hrules hgroups
  exact ⟨hrules, hgroups⟩

variable {ev : Evaluator E} {env : E} {argc : Nat} {items : List Item}

/-- Items that stand for rules in order consider those whose condition holds, where the
expressions of the groups speak for them. -/
theorem tryAll_considerItem (hev : ev.Respects getRuleDesc n)
    (hsorted : (items.flatMap (Item.rules getRuleDesc n)).Pairwise (· < ·))
    (hlt : ∀ r ∈ items.flatMap (Item.rules getRuleDesc n), r < n)
    (hformed : ∀ k, .group k ∈ items → Formed getRuleDesc n k) :
    tryAll (considerItem ev env argc getRuleDesc n) items =
      (items.flatMap (Item.rules getRuleDesc n)).filter (holds ev env argc getRuleDesc) := by
  induction items with
  | nil => rfl
  | cons it items ih =>
    rw [List.flatMap_cons] at hsorted hlt ⊢
    obtain ⟨-, hsorted', hbefore⟩ := List.pairwise_append.mp hsorted
    have hrest := ih hsorted' (fun r hr => hlt r (List.mem_append_right _ hr))
      fun k hk => hformed k (List.mem_cons_of_mem _ hk)
    rw [List.filter_append]
    cases it with
    | rule i =>
      rw [tryAll, hrest]
      simp only [considerItem, execRuleNodeRes, Item.rules, List.filter_cons, List.filter_nil]
    | group k =>
      have hk := hformed k List.mem_cons_self
      rw [tryAll]
      simp only [considerItem, Item.rules]
      split
      · rename_i is hfind
        rw [hrest, filter_group hev hk hfind]
      · -- the expression comes to a cut: no condition holds from here on
        rename_i hfind
        obtain ⟨rfl, c, hc, hvalue⟩ := value_of_cut hfind
        symm
        rw [List.append_eq_nil_iff, List.filter_eq_nil_iff, List.filter_eq_nil_iff]
        refine ⟨fun i hi hholds => ?_, fun j hj hholds => ?_⟩
        · obtain ⟨hle, hlt⟩ := mem_range'_1.mp hi
          obtain ⟨s, hkey, -⟩ := group_facts hle hlt
          simp only [holds, Bool.and_eq_true] at hholds
          have hstring := hev.found env k c hk hc i s hle hlt hkey hholds.2
          rw [hvalue] at hstring
          cases hstring
        · have hlen : 0 < groupLength getRuleDesc n k := Nat.zero_lt_two.trans_le hk.2
          have hlast := hbefore (k + groupLength getRuleDesc n k - 1) (mem_range'_1.mpr (by omega)) j hj
          have hfalse := hev.uncut env k c hk hc hvalue j (by omega) (hlt j (List.mem_append_right _ hj))
          rw [hfalse] at hholds
          cases hholds

/-- The items of a safe list consider the rules whose condition holds. -/
theorem considerItem_indexItems (hsafe : IndexSafe getRuleDesc n) (hev : ev.Respects getRuleDesc n) :
    tryAll (considerItem ev env argc getRuleDesc n) (indexItems getRuleDesc n) =
      (range n).filter (holds ev env argc getRuleDesc) := by
  obtain ⟨hrules, hgroups⟩ := indexItems_faithful hsafe
  rw [tryAll_considerItem hev, hrules]
  · rw [hrules]
    exact List.pairwise_lt_range
  · rw [hrules]
    exact fun r hr => List.mem_range.mp hr
  · exact fun k hk => ((hgroups k).mp hk).1

end Safe

/-! ## Adjacent groups lose or repeat a rule -/

section Adjacent

/-- The rules an item can lead to. -/
def Item.Covers (getRuleDesc : Nat → RuleDesc) (n : Nat) (r : Nat) : Item → Prop
  | .rule i => i = r
  | .group k => k ≤ r ∧ r < k + groupLength getRuleDesc n k

variable {r : Nat} {it : Item}

theorem mem_rulesFrom : it ∈ rulesFrom k m ↔ ∃ i, k ≤ i ∧ i < k + m ∧ it = .rule i := by
  simp only [rulesFrom, List.mem_map, mem_range'_1, and_assoc]
  constructor
  · rintro ⟨i, hle, hlt, rfl⟩
    exact ⟨i, hle, hlt, rfl⟩
  · rintro ⟨i, hle, hlt, rfl⟩
    exact ⟨i, hle, hlt, rfl⟩

theorem mem_formExtra {extra : List Item} (h : it ∈ formExtra getRuleDesc n back extra k) :
    it = .group k ∨ it ∈ extra ∨ it ∈ rulesFrom k (groupLength getRuleDesc n k) := by
  unfold formExtra at h
  split at h
  · exact .inl (mem_singleton.mp h)
  · simp only [List.mem_cons, mem_append] at h
    tauto

theorem le_roundEnd_group (k : Nat) : k + groupLength getRuleDesc n k ≤ roundEnd getRuleDesc n k := by
  unfold roundEnd
  omega

/-- A round adds only items for the rules it passes. -/
theorem Listed.mem_round (h : it ∈ (s.round getRuleDesc n).back ++ (s.round getRuleDesc n).extra) :
    it ∈ s.back ++ s.extra ∨
      ∀ r, it.Covers getRuleDesc n r → s.pos ≤ r ∧ r < (s.round getRuleDesc n).pos := by
  by_cases hlt : s.pos < n
  swap
  · rw [Listed.round_of_le (le_of_not_lt hlt)] at h
    exact .inl h
  rw [Listed.round_pos hlt]
  have hend : s.pos + groupLength getRuleDesc n s.pos ≤ roundEnd getRuleDesc n s.pos :=
    le_roundEnd_group _
  have hgroup : ∀ r, (Item.group s.pos).Covers getRuleDesc n r →
      s.pos ≤ r ∧ r < roundEnd getRuleDesc n s.pos :=
    fun r hr => ⟨hr.1, hr.2.trans_le hend⟩
  have hrules : ∀ m, s.pos + m ≤ roundEnd getRuleDesc n s.pos → it ∈ rulesFrom s.pos m →
      ∀ r, it.Covers getRuleDesc n r → s.pos ≤ r ∧ r < roundEnd getRuleDesc n s.pos := by
    intro m hm hit r hr
    obtain ⟨i, hle, hlt', rfl⟩ := mem_rulesFrom.1 hit
    cases hr
    exact ⟨hle, by omega⟩
  have hform : it ∈ s.back ++ formExtra getRuleDesc n s.back s.extra s.pos →
      it ∈ s.back ++ s.extra ∨
        ∀ r, it.Covers getRuleDesc n r → s.pos ≤ r ∧ r < roundEnd getRuleDesc n s.pos := by
    intro hit
    rcases mem_append.mp hit with hit | hit
    · exact .inl (mem_append_left _ hit)
    · rcases mem_formExtra hit with rfl | hit | hit
      · exact .inr hgroup
      · exact .inl (mem_append_right _ hit)
      · exact .inr (hrules _ hend hit)
  simp only [Listed.round, hlt, if_true] at h
  by_cases hsmall : groupLength getRuleDesc n s.pos < COND_INDEX_THRESHOLD
  · simp only [hsmall, if_true, append_nil, List.append_assoc] at h
    rw [← List.append_assoc] at h
    rcases mem_append.mp h with h | h
    · exact .inl h
    · exact .inr (hrules _ (by omega) h)
  · simp only [hsmall, if_false] at h
    by_cases hpass : passesOver getRuleDesc n s.pos
    · simp only [hpass, if_true, append_nil] at h
      rcases mem_append.mp h with h | h
      · exact hform h
      · rw [mem_singleton] at h
        subst h
        refine .inr fun r hr => ?_
        cases hr
        simp only [roundEnd, hpass, if_true]
        omega
    · simp only [hpass] at h
      exact hform h

variable {t : Nat}

/-- The list so far leads only to rules so far. -/
theorem covers_lt (hit : it ∈ (listedAfter getRuleDesc n t).back ++ (listedAfter getRuleDesc n t).extra)
    (hr : it.Covers getRuleDesc n r) : r < (listedAfter getRuleDesc n t).pos := by
  induction t with
  | zero => cases hit
  | succ t ih =>
    rw [listedAfter_succ] at hit ⊢
    rcases Listed.mem_round hit with hit' | hnew
    · have hlt := ih hit'
      by_cases hpos : (listedAfter getRuleDesc n t).pos < n
      · rw [Listed.round_pos hpos]
        exact hlt.trans_le (le_roundEnd _)
      · rwa [Listed.round_of_le (le_of_not_lt hpos)]
    · exact (hnew r hr).2

/-- A rule that the list passed and no item leads to. -/
def Listed.Lost (getRuleDesc : Nat → RuleDesc) (n r : Nat) (s : Listed) : Prop :=
  r < s.pos ∧ ∀ it ∈ s.back ++ s.extra, ¬ it.Covers getRuleDesc n r

/-- A rule that stands in the list itself and begins a group there, both in the part
that later rounds leave alone. -/
def Listed.Doubled (r : Nat) (s : Listed) : Prop :=
  (.rule r ∈ s.back ∧ .group r ∈ s.back) ∨ (s.back = [] ∧ .rule r ∈ s.extra ∧ .group r ∈ s.extra)

theorem Listed.Lost.round (h : s.Lost getRuleDesc n r) : (s.round getRuleDesc n).Lost getRuleDesc n r := by
  refine ⟨?_, ?_⟩
  · by_cases hpos : s.pos < n
    · rw [Listed.round_pos hpos]
      exact h.1.trans_le (le_roundEnd _)
    · rw [Listed.round_of_le (le_of_not_lt hpos)]
      exact h.1
  · intro it hit hr
    rcases Listed.mem_round hit with hit' | hnew
    · exact h.2 it hit' hr
    · exact Nat.not_lt.mpr (hnew r hr).1 h.1

theorem Listed.Doubled.round (h : s.Doubled r) : (s.round getRuleDesc n).Doubled r := by
  by_cases hpos : s.pos < n
  swap
  · rwa [Listed.round_of_le (le_of_not_lt hpos)]
  simp only [Listed.round, hpos, if_true]
  by_cases hsmall : groupLength getRuleDesc n s.pos < COND_INDEX_THRESHOLD
  · rw [if_pos hsmall]
    left
    rcases h with ⟨hrule, hgroup⟩ | ⟨-, hrule, hgroup⟩
    · exact ⟨by simp [hrule], by simp [hgroup]⟩
    · exact ⟨by simp [hrule], by simp [hgroup]⟩
  · rw [if_neg hsmall]
    rcases h with ⟨hrule, hgroup⟩ | ⟨hback, hrule, hgroup⟩
    · left
      split
      · exact ⟨by simp [hrule], by simp [hgroup]⟩
      · exact ⟨hrule, hgroup⟩
    · have hextra : s.extra ≠ [] := List.ne_nil_of_mem hrule
      have hform : formExtra getRuleDesc n s.back s.extra s.pos =
          .group s.pos :: (s.extra ++ rulesFrom s.pos (groupLength getRuleDesc n s.pos)) := by
        simp [formExtra, hback, hextra]
      rw [hform]
      split
      · exact .inl ⟨by simp [hrule], by simp [hgroup]⟩
      · exact .inr ⟨hback, by simp [hrule], by simp [hgroup]⟩

/-- Two groups in a row: a rule is lost if a node stands before them, doubled if not. -/
theorem lost_or_doubled (hk : Formed getRuleDesc n k) (hpass : passesOver getRuleDesc n k = false)
    (hnext : Formed getRuleDesc n (k + groupLength getRuleDesc n k)) :
    (∃ t ≤ n + 1, (listedAfter getRuleDesc n t).Lost getRuleDesc n k) ∨
      ∃ t ≤ n + 1, (listedAfter getRuleDesc n t).Doubled (k + groupLength getRuleDesc n k) := by
  obtain ⟨⟨t, ht⟩, htwo⟩ := hk
  obtain ⟨-, htwo'⟩ := hnext
  have hpos : (listedAfter getRuleDesc n t).pos = k := (listedAfter_pos t).trans ht
  unfold COND_INDEX_THRESHOLD at htwo htwo'
  have hle : groupLength getRuleDesc n (k + groupLength getRuleDesc n k) ≤
      n - (k + groupLength getRuleDesc n k) := groupLength_le _
  have hkn : k < n := by omega
  have hfn : k + groupLength getRuleDesc n k < n := by omega
  have htn : t + 2 ≤ n + 1 := by
    have hmin := le_listedAfter getRuleDesc n t
    omega
  have hone : listedAfter getRuleDesc n (t + 1) =
      ⟨(listedAfter getRuleDesc n t).back,
        formExtra getRuleDesc n (listedAfter getRuleDesc n t).back (listedAfter getRuleDesc n t).extra k,
        k + groupLength getRuleDesc n k⟩ := by
    have hsmall : ¬ groupLength getRuleDesc n k < COND_INDEX_THRESHOLD := by
      unfold COND_INDEX_THRESHOLD
      omega
    rw [listedAfter_succ]
    simp only [Listed.round, hpos, hkn, if_true, hsmall, if_false, hpass, Bool.false_eq_true]
    simp [roundEnd, hpass]
  have hsmall' : ¬ groupLength getRuleDesc n (k + groupLength getRuleDesc n k) < COND_INDEX_THRESHOLD := by
    unfold COND_INDEX_THRESHOLD
    omega
  generalize hs : listedAfter getRuleDesc n t = s at hone hpos
  by_cases hback : s.back = []
  · right
    refine ⟨t + 2, htn, ?_⟩
    have hform : formExtra getRuleDesc n s.back s.extra k ≠ [] := by
      unfold formExtra
      split <;> simp
    rw [listedAfter_succ (t + 1), hone]
    simp only [Listed.round, hfn, if_true, hsmall', if_false]
    have hform' : formExtra getRuleDesc n s.back (formExtra getRuleDesc n s.back s.extra k)
        (k + groupLength getRuleDesc n k) = .group (k + groupLength getRuleDesc n k) ::
          (formExtra getRuleDesc n s.back s.extra k ++ rulesFrom (k + groupLength getRuleDesc n k)
            (groupLength getRuleDesc n (k + groupLength getRuleDesc n k))) := by
      rw [formExtra, if_neg fun h => h.elim (fun hne => hne hback) hform]
    have hrule : Item.rule (k + groupLength getRuleDesc n k) ∈ rulesFrom (k + groupLength getRuleDesc n k)
        (groupLength getRuleDesc n (k + groupLength getRuleDesc n k)) :=
      mem_rulesFrom.2 ⟨_, le_rfl, by omega, rfl⟩
    rw [hform']
    split
    · exact .inl ⟨by simp [hrule], by simp⟩
    · exact .inr ⟨hback, by simp [hrule], by simp⟩
  · left
    refine ⟨t + 2, htn, ?_⟩
    have hform : formExtra getRuleDesc n s.back (formExtra getRuleDesc n s.back s.extra k)
        (k + groupLength getRuleDesc n k) = [.group (k + groupLength getRuleDesc n k)] := by
      rw [formExtra, if_pos (.inl hback)]
    have hbelow : ∀ it ∈ s.back, ¬ it.Covers getRuleDesc n k := by
      intro it hit hcov
      rw [← hs] at hit
      have hlt := covers_lt (mem_append_left _ hit) hcov
      rw [hs, hpos] at hlt
      exact Nat.lt_irrefl k hlt
    have hgroup : ¬ (Item.group (k + groupLength getRuleDesc n k)).Covers getRuleDesc n k := by
      intro hcov
      have := hcov.1
      omega
    have hend : k + groupLength getRuleDesc n k ≤
        roundEnd getRuleDesc n (k + groupLength getRuleDesc n k) := le_roundEnd _
    rw [listedAfter_succ (t + 1), hone]
    simp only [Listed.round, hfn, if_true, hsmall', if_false, hform]
    split
    · refine ⟨by simp only; omega, ?_⟩
      simp only [append_nil, mem_append, mem_singleton]
      rintro it ((hit | rfl) | rfl)
      · exact hbelow it hit
      · exact hgroup
      · intro hcov
        simp only [Item.Covers] at hcov
        omega
    · refine ⟨by simp only; omega, ?_⟩
      simp only [mem_append, mem_singleton]
      rintro it (hit | rfl)
      · exact hbelow it hit
      · exact hgroup

/-- What holds after some round and is kept by every round holds at the end. -/
private theorem listedAfter_persist {P : Listed → Prop} (hP : ∀ s, P s → P (s.round getRuleDesc n)) {u : Nat}
    (htu : t ≤ u) (h : P (listedAfter getRuleDesc n t)) : P (listedAfter getRuleDesc n u) := by
  induction htu with
  | refl => exact h
  | step _ ih =>
    rw [listedAfter_succ]
    exact hP _ ih

/-! ## What was considered -/

section Considered

variable {tried : Item → Tried} {items xs ys : List Item}

/-- A rule is considered for one of the items. -/
theorem mem_tryAll (h : r ∈ tryAll tried items) : ∃ it ∈ items, ∃ is, tried it = .rules is ∧ r ∈ is := by
  induction items with
  | nil => cases h
  | cons it items ih =>
    rw [tryAll] at h
    split at h
    · rename_i is his
      rcases mem_append.mp h with h | h
      · exact ⟨it, List.mem_cons_self, is, his, h⟩
      · obtain ⟨it', hmem, hrest⟩ := ih h
        exact ⟨it', List.mem_cons_of_mem _ hmem, hrest⟩
    · cases h

/-- Behind a cut nothing is considered. -/
theorem mem_tryAll_of_cut (hcut : tried it = .cut) (h : r ∈ tryAll tried (xs ++ it :: ys)) :
    ∃ it' ∈ xs, ∃ is, tried it' = .rules is ∧ r ∈ is := by
  induction xs with
  | nil =>
    rw [List.nil_append, tryAll, hcut] at h
    cases h
  | cons x xs ih =>
    rw [List.cons_append, tryAll] at h
    split at h
    · rename_i is his
      rcases mem_append.mp h with h | h
      · exact ⟨x, List.mem_cons_self, is, his, h⟩
      · obtain ⟨it', hmem, hrest⟩ := ih h
        exact ⟨it', List.mem_cons_of_mem _ hmem, hrest⟩
    · cases h

theorem tryAll_eq_flatMap {f : Item → List Nat} (h : ∀ it, tried it = .rules (f it)) :
    tryAll tried items = items.flatMap f := by
  induction items with
  | nil => rfl
  | cons it items ih =>
    rw [tryAll, h, List.flatMap_cons]
    exact congrArg _ ih

theorem mem_considerItem {ev : Evaluator E} {env : E} {argc : Nat} {is : List Nat}
    (h : considerItem ev env argc getRuleDesc n it = .rules is) (hr : r ∈ is) : it.Covers getRuleDesc n r := by
  cases it with
  | rule i =>
    cases h
    split at hr
    · exact (mem_singleton.mp hr).symm
    · cases hr
  | group k =>
    obtain ⟨hle, hlt, -⟩ := mem_findInGroup h hr
    exact ⟨hle, hlt⟩

theorem mem_rules : r ∈ it.rules getRuleDesc n ↔ it.Covers getRuleDesc n r := by
  cases it with
  | rule i => exact mem_singleton.trans eq_comm
  | group k => exact mem_range'_1

/-- Where the rules considered are those whose condition holds, the expressions of the groups
speak for them. -/
theorem respects_of_tryAll {ev : Evaluator E} (hsafe : IndexSafe getRuleDesc n)
    (h : ∀ env argc, tryAll (considerItem ev env argc getRuleDesc n) (indexItems getRuleDesc n) =
      (range n).filter (holds ev env argc getRuleDesc)) : ev.Respects getRuleDesc n := by
  obtain ⟨hrules, hgroups⟩ := indexItems_faithful hsafe
  have hgroup (k : Nat) (hk : Formed getRuleDesc n k) :
      k + groupLength getRuleDesc n k ≤ n ∧ .group k ∈ indexItems getRuleDesc n := by
    have hlen : 0 < groupLength getRuleDesc n k := Nat.zero_lt_two.trans_le hk.2
    have hle : groupLength getRuleDesc n k ≤ n - k := groupLength_le k
    exact ⟨by omega, (hgroups k).mpr ⟨hk, by omega⟩⟩
  constructor
  · intro env k c hk hc i s hle hlt hkey htest
    obtain ⟨hn, hmem⟩ := hgroup k hk
    obtain ⟨s', hkey', hparams, -⟩ := group_facts hle hlt
    have hconsidered : i ∈ tryAll (considerItem ev env (getRuleDesc k).params.length getRuleDesc n)
        (indexItems getRuleDesc n) := by
      rw [h]
      refine List.mem_filter.mpr ⟨List.mem_range.mpr (hlt.trans_le hn), ?_⟩
      simp [holds, (groupKey_eq_some.1 hkey).1, hparams, htest]
    obtain ⟨it, hit, is, htried, hi⟩ := mem_tryAll hconsidered
    -- the only item that stands for the rule is its group
    have hit' : it = .group k := by
      have hnodup : ((indexItems getRuleDesc n).flatMap (Item.rules getRuleDesc n)).Nodup :=
        hrules ▸ List.nodup_range
      rw [List.nodup_flatMap] at hnodup
      have hsymm : Std.Symm (Function.onFun List.Disjoint (Item.rules getRuleDesc n)) :=
        ⟨fun _ _ h _ ha hb => h hb ha⟩
      by_contra hne
      exact hnodup.2.forall hit hmem hne (mem_rules.mpr (mem_considerItem htried hi))
        (mem_rules.mpr ⟨hle, hlt⟩)
    subst hit'
    obtain ⟨-, -, c', s'', hc', hkey'', hvalue⟩ := mem_findInGroup htried hi
    rw [hc] at hc'
    rw [hkey] at hkey''
    cases hc'
    cases hkey''
    exact hvalue
  · intro env k c hk hc hvalue j hj hjn
    obtain ⟨hn, hmem⟩ := hgroup k hk
    rw [Bool.eq_false_iff]
    intro hholds
    have hconsidered : j ∈ tryAll (considerItem ev env (getRuleDesc k).params.length getRuleDesc n)
        (indexItems getRuleDesc n) := by
      rw [h]
      exact List.mem_filter.mpr ⟨List.mem_range.mpr hjn, hholds⟩
    obtain ⟨xs, ys, hitems⟩ := List.append_of_mem hmem
    have hcut : considerItem ev env (getRuleDesc k).params.length getRuleDesc n (.group k) = .cut := by
      simp [considerItem, findInGroup, hc, hvalue]
    rw [hitems] at hconsidered hrules
    obtain ⟨it, hit, is, htried, hi⟩ := mem_tryAll_of_cut hcut hconsidered
    -- in front of the group stand only earlier rules
    have hsorted : ((xs ++ .group k :: ys).flatMap (Item.rules getRuleDesc n)).Pairwise (· < ·) :=
      hrules ▸ List.pairwise_lt_range
    rw [List.flatMap_append, List.flatMap_cons] at hsorted
    have hlen : 0 < groupLength getRuleDesc n k := Nat.zero_lt_two.trans_le hk.2
    have hbefore := (List.pairwise_append.mp hsorted).2.2 j
      (List.mem_flatMap.mpr ⟨it, hit, mem_rules.mpr (mem_considerItem htried hi)⟩) k
      (mem_append_left _ (mem_rules.mpr ⟨le_rfl, by omega⟩))
    omega

end Considered

/-- The evaluator for which every expression has the value `s`. -/
def Evaluator.const (s : String) : Evaluator Unit where
  value _ _ _ := .string s
  test _ cond _ := (condEq? cond).any fun c => c.str == s

theorem Evaluator.const_respects (s : String) : (Evaluator.const s).Respects getRuleDesc n where
  found _ _ _ _ _ _ _ _ _ hkey htest := by
    obtain ⟨-, c, hc, rfl⟩ := groupKey_eq_some.1 hkey
    simp only [const, hc, Option.any_some, beq_iff_eq] at htest
    exact congrArg _ htest.symm
  uncut _ _ _ _ _ h := by cases h

theorem holds_const {s : String} (hkey : groupKey (getRuleDesc r) = some s) :
    holds (Evaluator.const s) () (getRuleDesc r).params.length getRuleDesc r = true := by
  obtain ⟨htype, c, hc, rfl⟩ := groupKey_eq_some.1 hkey
  simp [holds, htype, Evaluator.const, hc]

/-- With every expression equal to the string of a group's first rule, the group finds it. -/
theorem findInGroup_const {s : String} (hlen : 0 < groupLength getRuleDesc n k)
    (hkey : groupKey (getRuleDesc k) = some s) :
    findInGroup (Evaluator.const s) () (getRuleDesc k).params.length getRuleDesc n k = .rules [k] := by
  have hlookup : lookupFromHashTable (members getRuleDesc n k) s = some k :=
    lookup_members.2 ⟨Nat.le_refl k, by omega, hkey⟩
  have hholds := holds_const hkey
  obtain ⟨-, c, hc, -⟩ := groupKey_eq_some.1 hkey
  simp only [Evaluator.const] at hholds
  simp only [findInGroup, ne_eq, not_true, if_false, hc, Evaluator.const, hlookup, execRuleNodeRes, hholds, if_true]

/-- No expression comes to a cut, so each item has its rules. -/
theorem considerItem_const (s : String) (argc : Nat) :
    ∃ f : Item → List Nat, ∀ it, considerItem (Evaluator.const s) () argc getRuleDesc n it = .rules (f it) := by
  have heach (it : Item) : ∃ is, considerItem (Evaluator.const s) () argc getRuleDesc n it = .rules is := by
    cases htried : considerItem (Evaluator.const s) () argc getRuleDesc n it with
    | rules is => exact ⟨is, rfl⟩
    | cut =>
      cases it with
      | rule i => cases htried
      | group k =>
        have hfind : findInGroup (Evaluator.const s) () argc getRuleDesc n k = .cut := htried
        obtain ⟨-, c, -, hvalue⟩ := value_of_cut hfind
        cases hvalue
  exact ⟨fun it => (heach it).choose, fun it => (heach it).choose_spec⟩

/-- Two groups in a row spoil the selection in some environment. -/
theorem considerItem_ne_of_adjacent (hk : Formed getRuleDesc n k) (hpass : passesOver getRuleDesc n k = false)
    (hnext : Formed getRuleDesc n (k + groupLength getRuleDesc n k)) :
    ∃ s argc, tryAll (considerItem (Evaluator.const s) () argc getRuleDesc n) (indexItems getRuleDesc n) ≠
      (range n).filter (holds (Evaluator.const s) () argc getRuleDesc) := by
  have hlen : 0 < groupLength getRuleDesc n k := Nat.zero_lt_two.trans_le hk.2
  have hlen' : 0 < groupLength getRuleDesc n (k + groupLength getRuleDesc n k) :=
    Nat.zero_lt_two.trans_le hnext.2
  rcases lost_or_doubled hk hpass hnext with ⟨t, ht, hlost⟩ | ⟨t, ht, hdoubled⟩
  · have hend := listedAfter_persist (fun _ h => Listed.Lost.round h) ht hlost
    obtain ⟨s, hkey, -, -⟩ := group_facts le_rfl (Nat.lt_add_of_pos_right hlen)
    refine ⟨s, (getRuleDesc k).params.length, fun heq => ?_⟩
    have hmem : k ∈ (range n).filter
        (holds (Evaluator.const s) () (getRuleDesc k).params.length getRuleDesc) := by
      have hlt := hend.1
      rw [listedAfter_end] at hlt
      exact List.mem_filter.mpr ⟨List.mem_range.mpr hlt, holds_const hkey⟩
    rw [← heq] at hmem
    obtain ⟨it, hit, is, htried, hr⟩ := mem_tryAll hmem
    exact hend.2 it hit (mem_considerItem htried hr)
  · generalize hr : k + groupLength getRuleDesc n k = r at hdoubled hlen' hnext
    have hend := listedAfter_persist (fun _ h => Listed.Doubled.round h) ht hdoubled
    obtain ⟨s, hkey, -, -⟩ := group_facts le_rfl (Nat.lt_add_of_pos_right hlen')
    refine ⟨s, (getRuleDesc r).params.length, fun heq => ?_⟩
    have hboth : Item.rule r ∈ indexItems getRuleDesc n ∧ Item.group r ∈ indexItems getRuleDesc n := by
      rcases hend with ⟨hrule, hgroup⟩ | ⟨-, hrule, hgroup⟩
      · exact ⟨mem_append_left _ hrule, mem_append_left _ hgroup⟩
      · exact ⟨mem_append_right _ hrule, mem_append_right _ hgroup⟩
    have hnodup : ((range n).filter
        (holds (Evaluator.const s) () (getRuleDesc r).params.length getRuleDesc)).Nodup :=
      List.nodup_range.filter _
    obtain ⟨f, hf⟩ : ∃ f : Item → List Nat, ∀ it,
        considerItem (Evaluator.const s) () (getRuleDesc r).params.length getRuleDesc n it =
          .rules (f it) := considerItem_const s _
    rw [← heq, tryAll_eq_flatMap hf, List.nodup_flatMap] at hnodup
    have hsymm : Std.Symm (Function.onFun List.Disjoint f) := ⟨fun _ _ h _ ha hb => h hb ha⟩
    have hrule : r ∈ f (.rule r) := by
      have hrules := hf (.rule r)
      simp only [considerItem, execRuleNodeRes, holds_const hkey, if_true, Tried.rules.injEq] at hrules
      exact hrules ▸ List.mem_cons_self
    have hgroup : r ∈ f (.group r) := by
      have hrules := (findInGroup_const hlen' hkey).symm.trans (hf (.group r))
      exact Tried.rules.inj hrules ▸ List.mem_cons_self
    exact hnodup.2.forall hboth.1 hboth.2 Item.noConfusion hrule hgroup

end Adjacent

end Re
