-- SUMMARY: The list surgery of createCondIndex, and when selection is kept.
import Irods.Re.Selection

open Chain

/-!
# The index in memory

Every round of `createCondIndex` on the heap is a round on the order of items: the
links that `removeNodeFromRuleIndexList` and `insertIntoRuleIndexList` leave are the
ones that order asks for. From it follows when the index keeps the selection of rules.
-/

namespace Re

open List (concat_eq_append length_eq_zero_iff mem_append mem_append_left mem_cons_self mem_range'_1 mem_singleton
  nodup_append range' range'_succ rel_append)

variable {getRuleDesc : Nat → RuleDesc} {n : Nat}

/-! ## The test for equal conditions -/

mutual

/-- The comparison never says no: a mismatch falls through to `return 1`. -/
theorem eqExprNodeSyntactic_eq_true : ∀ a b : Node, eqExprNodeSyntactic a b = true
  | .node ta xa as, .node tb xb bs => by
    unfold eqExprNodeSyntactic
    split
    · exact eqSubtrees_eq_true as bs
    · rfl

theorem eqSubtrees_eq_true : ∀ as bs : List Node, eqSubtrees as bs = true
  | [], _ => by simp [eqSubtrees]
  | _ :: _, [] => by simp [eqSubtrees]
  | a :: as, b :: bs => by
    rw [eqSubtrees, eqExprNodeSyntactic_eq_true a b, if_pos rfl]
    exact eqSubtrees_eq_true as bs

end

theorem eqExprNodeSyntacticVarMapping_eq_true (a b : Node) (varMapping : List (String × String)) :
    eqExprNodeSyntacticVarMapping a b varMapping = true := by
  unfold eqExprNodeSyntacticVarMapping
  split
  · rfl
  · split
    · exact eqSubtrees_eq_true _ _
    · rfl

/-! ## Scanning -/

/-- The node of rule `k`, or the end of the list. -/
def ptr (n k : Nat) : Option Nat := if k < n then some k else none

variable {k : Nat}

theorem ptr_of_lt (h : k < n) : ptr n k = some k := if_pos h

theorem ptr_of_le (h : n ≤ k) : ptr n k = none := if_neg (Nat.not_lt.mpr h)

/-- The rules from `k` on stand in the list one behind the other. -/
def RulesLinked (n : Nat) (l : RuleIndexList) (k : Nat) : Prop :=
  ∀ i, k ≤ i → i < n → (l.nodes i).ruleIndex = i ∧ l.next i = ptr n (i + 1)

/-- What a scan from rule `k` on leaves: `r.1` rules joined, and one was passed over if
`r.2` is set. -/
structure Scanned (getRuleDesc : Nat → RuleDesc) (n k : Nat) (r : Nat × Bool) (s s' : Scan) : Prop where
  curr : s'.curr = ptr n (k + r.1 + if r.2 then 1 else 0)
  finish : s'.finish = ptr n (k + r.1)
  groupCount : s'.groupCount = s.groupCount + r.1
  kept : ∀ e, s.condExp = some e → s'.condExp = some e ∧ s'.params = s.params
  first : s.condExp = none → 0 < r.1 → ∃ c, condEq? (getRuleDesc k).cond = some c ∧
    s'.condExp = some c.lhs ∧ s'.params = (getRuleDesc k).params
  empty : s.condExp = none → r.1 = 0 → s'.condExp = none

variable {s : Scan}

private theorem Scanned.of_finish (hk : k < n) (pass : Bool) {next : Option Nat}
    (hnext : next = if pass then ptr n (k + 1) else some k) :
    Scanned getRuleDesc n k (0, pass) s { s with finish := some k, curr := next } where
  curr := by
    cases pass with
    | true => exact hnext
    | false => exact hnext.trans (ptr_of_lt hk).symm
  finish := (ptr_of_lt hk).symm
  groupCount := rfl
  kept e he := ⟨he, rfl⟩
  first _ h := absurd h (Nat.lt_irrefl 0)
  empty h _ := h

/-- A rule that joins, and what the scan leaves from the next one on. -/
private theorem Scanned.of_join {r : Nat × Bool} {s₁ s' : Scan} {e : Node} (hcond : s₁.condExp = some e)
    (hcount : s₁.groupCount = s.groupCount + 1) (h : Scanned getRuleDesc n (k + 1) r s₁ s')
    (hkept : ∀ e', s.condExp = some e' → e = e' ∧ s₁.params = s.params)
    (hfirst : s.condExp = none → ∃ c, condEq? (getRuleDesc k).cond = some c ∧ e = c.lhs ∧
      s₁.params = (getRuleDesc k).params) :
    Scanned getRuleDesc n k (r.1 + 1, r.2) s s' where
  curr := by
    rw [h.curr]
    congr 1
    dsimp only
    omega
  finish := by
    rw [h.finish]
    congr 1
    omega
  groupCount := by
    rw [h.groupCount, hcount]
    omega
  kept e' he' := by
    obtain ⟨rfl, hparams⟩ := hkept e' he'
    obtain ⟨hexp, hparams'⟩ := h.kept e hcond
    exact ⟨hexp, hparams'.trans hparams⟩
  first hnone _ := by
    obtain ⟨c, hc, rfl, hparams⟩ := hfirst hnone
    obtain ⟨hexp, hparams'⟩ := h.kept _ hcond
    exact ⟨c, hc, hexp, hparams'.trans hparams⟩
  empty _ hzero := by cases hzero

/-- The scan finds the group that `groupFrom` describes. -/
theorem scanGroup_spec {l : RuleIndexList} {m k fuel : Nat} {s : Scan} (hlinked : RulesLinked n l k)
    (hm : n - k = m) (hfuel : m < fuel) (hcurr : s.curr = ptr n k) (hfinish : s.finish = none) :
    Scanned getRuleDesc n k
      (groupFrom getRuleDesc m k s.processedStrs (s.condExp.map fun _ => s.params.length)) s
      (scanGroup getRuleDesc l fuel s) := by
  induction m generalizing k fuel s with
  | zero =>
    have hk : n ≤ k := by omega
    obtain ⟨fuel, rfl⟩ : ∃ f, fuel = f + 1 := ⟨fuel - 1, by omega⟩
    have hnone : s.curr = none := hcurr.trans (ptr_of_le hk)
    have hscan : scanGroup getRuleDesc l (fuel + 1) s = s := by
      simp only [scanGroup, hnone]
    rw [hscan]
    exact ⟨hcurr, hfinish.trans (ptr_of_le hk).symm, rfl, fun e he => ⟨he, rfl⟩,
      fun _ h => absurd h (Nat.lt_irrefl 0), fun h _ => h⟩
  | succ m ih =>
    have hk : k < n := by omega
    obtain ⟨fuel, rfl⟩ : ∃ f, fuel = f + 1 := ⟨fuel - 1, by omega⟩
    rw [ptr_of_lt hk] at hcurr
    obtain ⟨hindex, hnext⟩ := hlinked k le_rfl hk
    have hlinked' : RulesLinked n l (k + 1) := fun i hi => hlinked i (by omega)
    have hm' : n - (k + 1) = m := by omega
    have hfuel' : m < fuel := by omega
    obtain ⟨curr, finish, groupCount, condExp, params, processedStrs⟩ := s
    subst hcurr hfinish
    unfold scanGroup groupFrom
    simp only [hindex]
    by_cases htype : (getRuleDesc k).ruleType = .rkRel
    swap
    · simp only [groupKey, htype, ne_eq, not_false_eq_true, if_true, if_false]
      exact Scanned.of_finish hk true hnext
    cases hc : condEq? (getRuleDesc k).cond with
    | none =>
      simp only [groupKey, htype, ne_eq, not_true, if_true, if_false, hc, Option.map_none]
      exact Scanned.of_finish hk true hnext
    | some c =>
      simp only [groupKey, htype, ne_eq, not_true, if_true, if_false, hc, Option.map_some]
      by_cases hseen : c.str ∈ processedStrs
      · simp only [hseen, if_true]
        exact Scanned.of_finish hk false rfl
      simp only [hseen, if_false]
      cases condExp with
      | none =>
        have hrest := @ih (k + 1) fuel
          ⟨l.next k, none, groupCount + 1, some c.lhs, (getRuleDesc k).params,
            c.str :: processedStrs⟩ hlinked' hm' hfuel' hnext rfl
        refine Scanned.of_join rfl rfl hrest (fun e he => by cases he) fun _ => ?_
        exact ⟨c, hc, rfl, rfl⟩
      | some e =>
        simp only [Option.map_some, reduceCtorEq, false_or, Option.some.injEq]
        by_cases hlen : (getRuleDesc k).params.length = params.length
        · simp only [hlen, if_true, eqExprNodeSyntacticVarMapping_eq_true]
          have hrest := @ih (k + 1) fuel
            ⟨l.next k, none, groupCount + 1, some e, params, c.str :: processedStrs⟩
            hlinked' hm' hfuel' hnext rfl
          refine Scanned.of_join rfl rfl hrest (fun e' he' => ?_) nofun
          cases he'
          exact ⟨rfl, rfl⟩
        · have hlen' : ¬ params.length = (getRuleDesc k).params.length := fun h => hlen h.symm
          simp only [hlen, hlen', if_false]
          exact Scanned.of_finish hk false rfl

/-! ## Taking a node out and putting a group in -/

namespace RuleIndexList

variable (l : RuleIndexList) (p q : Nat) (v : Option Nat)

/-- What a node stands for. -/
def content (p : Nat) : Nat × Option CondIndexVal := ((l.nodes p).ruleIndex, (l.nodes p).condIndex)

@[simp] theorem next_setPrev : (l.setPrev p v).next q = l.next q := by
  by_cases h : q = p
  · subst h; simp [setPrev, next]
  · simp [setPrev, next, h]

@[simp] theorem prev_setNext : (l.setNext p v).prev q = l.prev q := by
  by_cases h : q = p
  · subst h; simp [setNext, prev]
  · simp [setNext, prev, h]

theorem prev_setPrev : (l.setPrev p v).prev q = if q = p then v else l.prev q := by
  by_cases h : q = p
  · subst h; simp [setPrev, prev]
  · simp [setPrev, prev, h]

theorem next_setNext : (l.setNext p v).next q = if q = p then v else l.next q := by
  by_cases h : q = p
  · subst h; simp [setNext, next]
  · simp [setNext, next, h]

@[simp] theorem content_setPrev : (l.setPrev p v).content q = l.content q := by
  by_cases h : q = p
  · subst h; simp [setPrev, content]
  · simp [setPrev, content, h]

@[simp] theorem content_setNext : (l.setNext p v).content q = l.content q := by
  by_cases h : q = p
  · subst h; simp [setNext, content]
  · simp [setNext, content, h]

theorem next_removeNode :
    (l.removeNodeFromRuleIndexList p).next q = if l.prev p = some q then l.next p else l.next q := by
  unfold removeNodeFromRuleIndexList
  cases hprev : l.prev p with
  | none => cases l.next p <;> simp <;> rfl
  | some m =>
    cases l.next p with
    | none =>
      simp only [next_setNext, Option.some.injEq, eq_comm]
      rfl
    | some m' =>
      simp only [next_setNext, next_setPrev, Option.some.injEq, eq_comm]
      rfl

theorem prev_removeNode :
    (l.removeNodeFromRuleIndexList p).prev q = if l.next p = some q then l.prev p else l.prev q := by
  unfold removeNodeFromRuleIndexList
  cases hnext : l.next p with
  | none => cases l.prev p <;> simp <;> rfl
  | some m =>
    cases l.prev p with
    | none =>
      simp only [prev_setPrev, Option.some.injEq, eq_comm]
      rfl
    | some m' =>
      simp only [prev_setNext, prev_setPrev, Option.some.injEq, eq_comm]
      rfl

theorem head_removeNode :
    (l.removeNodeFromRuleIndexList p).head = if l.head = some p then l.next p else l.head := by
  unfold removeNodeFromRuleIndexList
  cases l.prev p <;> cases l.next p <;> rfl

@[simp] theorem size_removeNode : (l.removeNodeFromRuleIndexList p).size = l.size := by
  unfold removeNodeFromRuleIndexList
  cases l.prev p <;> cases l.next p <;> rfl

@[simp] theorem content_removeNode :
    (l.removeNodeFromRuleIndexList p).content q = l.content q := by
  unfold removeNodeFromRuleIndexList
  cases l.prev p <;> cases l.next p <;> simp <;> rfl

variable (prev? : Option Nat) (civ : CondIndexVal)

@[simp] theorem size_insertInto : (l.insertIntoRuleIndexList prev? civ).size = l.size + 1 := by
  cases prev? <;> rfl

theorem content_insertInto :
    (l.insertIntoRuleIndexList prev? civ).content q =
      if q = l.size then (0, some civ) else l.content q := by
  cases prev? with
  | none =>
    by_cases hq : q = l.size
    · subst hq; simp [insertIntoRuleIndexList, content]
    · simp [insertIntoRuleIndexList, content, hq]
  | some p =>
    simp only [insertIntoRuleIndexList, content_setNext]
    by_cases hq : q = l.size
    · subst hq; simp [content]
    · simp [content, hq]

theorem prev_insertInto :
    (l.insertIntoRuleIndexList prev? civ).prev q = if q = l.size then prev? else l.prev q := by
  cases prev? with
  | none =>
    by_cases hq : q = l.size
    · subst hq; simp [insertIntoRuleIndexList, prev]
    · simp [insertIntoRuleIndexList, prev, hq]
  | some p =>
    simp only [insertIntoRuleIndexList, prev_setNext]
    by_cases hq : q = l.size
    · subst hq; simp [prev]
    · simp [prev, hq]

theorem next_insertInto_none :
    (l.insertIntoRuleIndexList none civ).next q = if q = l.size then l.head else l.next q := by
  by_cases hq : q = l.size
  · subst hq; simp [insertIntoRuleIndexList, next]
  · simp [insertIntoRuleIndexList, next, hq]

theorem next_insertInto_some :
    (l.insertIntoRuleIndexList (some p) civ).next q =
      if q = p then some l.size else if q = l.size then l.next p else l.next q := by
  simp only [insertIntoRuleIndexList, next_setNext]
  by_cases hp : q = p
  · simp [hp]
  · by_cases hq : q = l.size
    · subst hq; simp [next, hp]
    · simp [next, hp, hq]

end RuleIndexList

/-! ## Moving a group -/

/-- While the group that begins at `k` is taken out and `i` is next: the links of the
rules, and a path `cells` from the head to `i`. The previous link of `i` leads to the
end of `back`, with which the path begins. -/
structure Cut (n : Nat) (l : RuleIndexList) (k i : Nat) (back cells : List Nat) : Prop where
  linked : ∀ j, k ≤ j → j < n → l.next j = ptr n (j + 1)
  behind : ∀ j, i < j → j < n → l.prev j = some (j - 1)
  here : i < n → l.prev i = back.getLast?
  start : k < n → l.prev k = back.getLast?
  path : Path l.next l.head cells (ptr n i)
  nodup : cells.Nodup
  below : ∀ p ∈ cells, p < i ∨ n ≤ p
  backBelow : ∀ p ∈ back, p < k ∨ n ≤ p
  starts : ∃ rest, cells = back ++ rest

/-- The path after node `i` is taken out. Without a node to link from, a node that is
not the head stays where it is. -/
def cutPath (back cells : List Nat) (i : Nat) : List Nat :=
  if back ≠ [] then back else if cells = [] then [] else cells ++ [i]

variable {back cells : List Nat} {i k : Nat} {l : RuleIndexList}

theorem Cut.not_mem (h : Cut n l k i back cells) (hi : i < n) : i ∉ cells := by
  intro hmem
  rcases h.below i hmem with hlt | hge
  · exact Nat.lt_irrefl i hlt
  · omega

/-- A path through a cell starts with one. -/
private theorem head_ne {next : Nat → Option Nat} {head : Option Nat} {q : Option Nat}
    (hpath : Path next head cells q) (hcells : cells ≠ []) (hi : i ∉ cells) : ¬ head = some i := by
  cases cells with
  | nil => exact absurd rfl hcells
  | cons c cs =>
    rw [hpath.1]
    intro heq
    cases heq
    exact hi mem_cons_self

theorem Cut.remove_path (h : Cut n l k i back cells) (hki : k ≤ i) (hi : i < n) :
    Path (l.removeNodeFromRuleIndexList i).next (l.removeNodeFromRuleIndexList i).head
      (cutPath back cells i) (ptr n (i + 1)) := by
  have hnext : l.next i = ptr n (i + 1) := h.linked i hki hi
  have hpath := h.path
  rw [ptr_of_lt hi] at hpath
  have hlinks : ∀ q, (l.removeNodeFromRuleIndexList i).next q =
      if back.getLast? = some q then ptr n (i + 1) else l.next q := by
    intro q
    rw [RuleIndexList.next_removeNode, h.here hi, hnext]
  rcases List.eq_nil_or_concat back with rfl | ⟨bs, b, rfl⟩
  · -- nothing before the node to link from
    have hsame : ∀ q, (l.removeNodeFromRuleIndexList i).next q = l.next q := by
      intro q
      rw [hlinks, List.getLast?_nil, if_neg (by simp)]
    by_cases hcells : cells = []
    · subst hcells
      rw [path_nil] at hpath
      simp only [cutPath, ne_eq, not_true, if_false, if_true, path_nil]
      rw [RuleIndexList.head_removeNode, if_pos hpath, hnext]
    · simp only [cutPath, ne_eq, not_true, if_false, hcells]
      rw [RuleIndexList.head_removeNode, if_neg (head_ne hpath hcells (h.not_mem hi)), path_concat,
        hsame]
      exact ⟨(path_congr fun q _ => (hsame q).symm).mp hpath, hnext⟩
  · obtain ⟨rest, rfl⟩ := h.starts
    have hb : b ∉ bs := by
      have hnodup := h.nodup.of_append_left
      rw [concat_eq_append] at hnodup
      exact fun hmem => (List.disjoint_of_nodup_append hnodup) hmem mem_cons_self
    simp only [concat_eq_append] at hpath hlinks ⊢
    have hhead : (l.removeNodeFromRuleIndexList i).head = l.head := by
      rw [RuleIndexList.head_removeNode, if_neg]
      refine head_ne hpath (by simp) ?_
      have := h.not_mem hi
      rwa [concat_eq_append] at this
    simp only [cutPath, ne_eq, List.append_eq_nil_iff, List.cons_ne_self, and_false, not_false_eq_true,
      if_true]
    obtain ⟨m, hback, -⟩ := path_append.mp hpath
    rw [hhead]
    refine path_relink hback hb ?_ ?_
    · rw [hlinks, List.getLast?_concat, if_pos rfl]
    · intro y hy
      rw [hlinks, List.getLast?_concat, if_neg]
      intro heq
      cases heq
      exact hy rfl

theorem Cut.remove (h : Cut n l k i back cells) (hki : k ≤ i) (hi : i < n) :
    Cut n (l.removeNodeFromRuleIndexList i) k (i + 1) back (cutPath back cells i) := by
  have hnext : l.next i = ptr n (i + 1) := h.linked i hki hi
  have hprevNe : ∀ j, k ≤ j → j < n → l.prev i ≠ some j := by
    intro j hkj hjn heq
    rw [h.here hi] at heq
    rcases h.backBelow j (List.mem_of_getLast? heq) with hlt | hge
    · omega
    · omega
  refine ⟨?_, ?_, ?_, ?_, ?_, ?_, ?_, h.backBelow, ?_⟩
  · intro j hkj hjn
    rw [RuleIndexList.next_removeNode, if_neg (hprevNe j hkj hjn)]
    exact h.linked j hkj hjn
  · intro j hij hjn
    have hne : ¬ l.next i = some j := by
      rw [hnext]
      intro heq
      rw [ptr_of_lt (by omega)] at heq
      cases heq
      omega
    rw [RuleIndexList.prev_removeNode, if_neg hne]
    exact h.behind j (by omega) hjn
  · intro hlt
    rw [RuleIndexList.prev_removeNode, hnext, ptr_of_lt hlt, if_pos rfl]
    exact h.here hi
  · intro hk
    rw [RuleIndexList.prev_removeNode]
    split
    · exact h.here hi
    · exact h.start hk
  · exact h.remove_path hki hi
  · unfold cutPath
    obtain ⟨rest, hcells⟩ := h.starts
    split
    · exact (hcells ▸ h.nodup).of_append_left
    · split
      · exact List.nodup_nil
      · rw [nodup_append]
        refine ⟨h.nodup, List.nodup_singleton i, ?_⟩
        intro a ha b hb hab
        rw [mem_singleton] at hb
        exact h.not_mem hi (hb ▸ hab ▸ ha)
  · intro p hp
    unfold cutPath at hp
    split at hp
    · rcases h.backBelow p hp with hlt | hge
      · exact .inl (by omega)
      · exact .inr hge
    · split at hp
      · cases hp
      · rcases mem_append.mp hp with hp | hp
        · rcases h.below p hp with hlt | hge
          · exact .inl (by omega)
          · exact .inr hge
        · rw [mem_singleton] at hp
          exact .inl (by omega)
  · unfold cutPath
    split
    · exact ⟨[], by simp⟩
    · rename_i hback
      simp only [ne_eq, Decidable.not_not] at hback
      rw [hback]
      exact ⟨_, rfl⟩

/-- The path after `c` nodes from `i` on are taken out. -/
def cutAll (back cells : List Nat) (i c : Nat) : List Nat :=
  if c = 0 then cells
  else if back ≠ [] then back else if cells = [] then [] else cells ++ range' i c

theorem cutAll_succ (back cells : List Nat) (i c : Nat) :
    cutAll back (cutPath back cells i) (i + 1) c = cutAll back cells i (c + 1) := by
  unfold cutAll cutPath
  by_cases hback : back = []
  · subst hback
    by_cases hcells : cells = []
    · simp [hcells]
    · by_cases hc : c = 0
      · subst hc
        simp [hcells]
      · simp [hcells, hc, range'_succ]
  · simp [hback]

/-- The nodes of a group leave the list as far as the links allow, and its table gets
them by their strings. -/
theorem moveGroup_spec {l : RuleIndexList} {k i c fuel : Nat} {back cells : List Nat}
    {table : List (String × Nat)} (h : Cut n l k i back cells) (hki : k ≤ i) (hc : i + c ≤ n)
    (hfuel : c < fuel) (hindex : ∀ j, i ≤ j → j < n → (l.content j).1 = j) :
    let out := moveGroup getRuleDesc fuel l (ptr n i) (ptr n (i + c)) table
    Cut n out.1 k (i + c) back (cutAll back cells i c) ∧ out.1.size = l.size ∧
      (∀ q, out.1.content q = l.content q) ∧
      out.2 = table ++ (range' i c).filterMap fun j =>
        (condEq? (getRuleDesc j).cond).map fun e => (e.str, j) := by
  induction c generalizing l i cells fuel table with
  | zero =>
    obtain ⟨fuel, rfl⟩ : ∃ f, fuel = f + 1 := ⟨fuel - 1, by omega⟩
    intro out
    have hout : out = (l, table) := by simp [out, moveGroup]
    rw [hout]
    exact ⟨h, rfl, fun _ => rfl, by simp⟩
  | succ c ih =>
    obtain ⟨fuel, rfl⟩ : ∃ f, fuel = f + 1 := ⟨fuel - 1, by omega⟩
    have hi : i < n := by omega
    have hcut := h.remove hki hi
    have hne : ¬ some i = ptr n (i + (c + 1)) := by
      unfold ptr
      split
      · simp
      · simp
    have hrule : (l.nodes i).ruleIndex = i := hindex i le_rfl hi
    have hfinish : i + (c + 1) = i + 1 + c := by omega
    have hindex' : ∀ j, i + 1 ≤ j → j < n → ((l.removeNodeFromRuleIndexList i).content j).1 = j := by
      intro j hij hjn
      rw [RuleIndexList.content_removeNode]
      exact hindex j (by omega) hjn
    have hmove (table' : List (String × Nat)) :=
      @ih (l.removeNodeFromRuleIndexList i) (i + 1) fuel (cutPath back cells i) table'
        hcut (by omega) (by omega) (by omega) hindex'
    simp only [moveGroup, ptr_of_lt hi, hne, if_false, hrule, hcut.linked i hki hi]
    rw [hfinish, range'_succ, List.filterMap_cons]
    cases condEq? (getRuleDesc i).cond with
    | none =>
      obtain ⟨hcut', hsize, hcontent, htable⟩ := hmove table
      rw [cutAll_succ] at hcut'
      exact ⟨hcut', hsize.trans (l.size_removeNode i),
        fun q => (hcontent q).trans (l.content_removeNode i q), htable⟩
    | some e =>
      obtain ⟨hcut', hsize, hcontent, htable⟩ := hmove (table ++ [(e.str, i)])
      rw [cutAll_succ] at hcut'
      exact ⟨hcut', hsize.trans (l.size_removeNode i),
        fun q => (hcontent q).trans (l.content_removeNode i q), by simp [htable]⟩

/-- The new node stands behind the node linked from, or first. -/
theorem Cut.insert_path (civ : CondIndexVal) (h : Cut n l k i back cells) (hcells : back ≠ [] → cells = back)
    (hsize : l.size ∉ cells) :
    Path (l.insertIntoRuleIndexList back.getLast? civ).next
      (l.insertIntoRuleIndexList back.getLast? civ).head
      (if back ≠ [] then back ++ [l.size] else l.size :: cells) (ptr n i) := by
  have hpath := h.path
  rcases List.eq_nil_or_concat back with rfl | ⟨bs, b, rfl⟩
  · simp only [ne_eq, not_true, if_false, List.getLast?_nil, path_cons]
    refine ⟨rfl, ?_⟩
    rw [l.next_insertInto_none, if_pos rfl]
    refine (path_congr fun q hq => ?_).mp hpath
    rw [l.next_insertInto_none, if_neg fun heq : q = l.size => hsize (heq ▸ hq)]
  · simp only [concat_eq_append] at hcells hsize hpath ⊢
    have hne : bs ++ [b] ≠ [] := by simp
    rw [if_pos hne, List.getLast?_concat]
    have hcells' := hcells hne
    subst hcells'
    have hb : b ∉ bs := by
      intro hmem
      exact (List.disjoint_of_nodup_append h.nodup) hmem mem_cons_self
    have hbsize : l.size ≠ b := fun heq => hsize (by simp [heq])
    rw [path_concat]
    constructor
    · have hlast := (path_concat.mp hpath).1
      rw [path_concat]
      refine ⟨(path_congr fun q hq => ?_).mp hlast, ?_⟩
      · rw [l.next_insertInto_some, if_neg fun heq : q = b => hb (heq ▸ hq),
          if_neg fun heq : q = l.size => hsize (by simp [← heq, hq])]
      · rw [l.next_insertInto_some, if_pos rfl]
    · rw [l.next_insertInto_some, if_neg hbsize, if_pos rfl]
      exact (path_concat.mp hpath).2

/-! ## Rounds -/

/-- The node stands for the item. -/
def Reads (getRuleDesc : Nat → RuleDesc) (n : Nat) (l : RuleIndexList) (p : Nat) : Item → Prop
  | .rule i => p = i ∧ i < n
  | .group k => n ≤ p ∧ p < l.size ∧ ∃ c, condEq? (getRuleDesc k).cond = some c ∧
      (l.content p).2 = some ⟨c.lhs, (getRuleDesc k).params, members getRuleDesc n k⟩

/-- The list in memory is in the order `s`: its nodes up to rule `s.pos` are `back` and
`extra`, the rules from there on are linked as they were, and the nodes made so far are
those of the groups formed so far. -/
structure Refines (getRuleDesc : Nat → RuleDesc) (n : Nat) (l : RuleIndexList) (s : Listed)
    (back extra : List Nat) : Prop where
  size : n ≤ l.size
  rules : ∀ i < n, l.content i = (i, none)
  cut : Cut n l s.pos s.pos back (back ++ extra)
  lt : ∀ p ∈ back ++ extra, p < l.size
  readsBack : List.Forall₂ (Reads getRuleDesc n l) back s.back
  readsExtra : List.Forall₂ (Reads getRuleDesc n l) extra s.extra
  groups : ∀ p, n ≤ p → p < l.size → ∃ k, Formed getRuleDesc n k ∧ Reads getRuleDesc n l p (.group k)
  formed : ∀ k, Formed getRuleDesc n k → k < s.pos → ∃ p, Reads getRuleDesc n l p (.group k)

theorem Refines.start : Refines getRuleDesc n (RuleIndexList.ofRules n) Listed.start [] [] where
  size := Nat.le_refl n
  rules _ _ := rfl
  cut := by
    refine ⟨?_, ?_, fun _ => rfl, fun _ => rfl, rfl, List.nodup_nil, ?_, ?_, ⟨[], rfl⟩⟩
    · intro j _ _
      rfl
    · intro j hj _
      have hne : ¬ j = 0 := by omega
      simp [RuleIndexList.ofRules, RuleIndexList.prev, hne]
    · exact fun p hp => by cases hp
    · exact fun p hp => by cases hp
  lt p hp := by cases hp
  readsBack := .nil
  readsExtra := .nil
  groups p hle hlt := absurd hlt (Nat.not_lt.mpr hle)
  formed k _ hk := absurd hk (Nat.not_lt_zero k)

variable {m : Nat}

theorem forall₂_reads_rules (h : k + m ≤ n) :
    List.Forall₂ (Reads getRuleDesc n l) (range' k m) (rulesFrom k m) := by
  rw [rulesFrom, List.forall₂_map_right_iff, List.forall₂_same]
  intro i hi
  have := mem_range'_1.mp hi
  exact ⟨rfl, by omega⟩

theorem path_rules (hlinked : ∀ j, k ≤ j → j < n → l.next j = ptr n (j + 1)) (hm : k + m ≤ n) :
    Path l.next (ptr n k) (range' k m) (ptr n (k + m)) := by
  induction m generalizing k with
  | zero => rfl
  | succ m ih =>
    rw [range'_succ, path_cons, hlinked k le_rfl (by omega)]
    refine ⟨ptr_of_lt (by omega), ?_⟩
    have hrest := @ih (k + 1) (fun j hj => hlinked j (by omega)) (by omega)
    rwa [show k + 1 + m = k + (m + 1) by omega] at hrest

variable {extra : List Nat} {s : Listed}

/-- A round that makes no group leaves the rules it passes where they are. -/
theorem Refines.keep (h : Refines getRuleDesc n l s back extra) (hm : 0 < m) (hle : s.pos + m ≤ n)
    (hformed : ∀ k, Formed getRuleDesc n k → s.pos ≤ k → s.pos + m ≤ k) :
    Refines getRuleDesc n l ⟨s.back ++ s.extra ++ rulesFrom s.pos m, [], s.pos + m⟩
      (back ++ extra ++ range' s.pos m) [] where
  size := h.size
  rules := h.rules
  cut := by
    have hlast : (back ++ extra ++ range' s.pos m).getLast? = some (s.pos + m - 1) := by
      obtain ⟨m, rfl⟩ : ∃ m', m = m' + 1 := ⟨m - 1, by omega⟩
      rw [List.range'_1_concat, ← List.append_assoc, List.getLast?_concat]
      rfl
    have hbelow : ∀ p ∈ back ++ extra ++ range' s.pos m, p < s.pos + m ∨ n ≤ p := by
      intro p hp
      rcases mem_append.mp hp with hp | hp
      · rcases h.cut.below p hp with hlt | hge
        · exact .inl (by omega)
        · exact .inr hge
      · exact .inl (mem_range'_1.mp hp).2
    simp only [List.append_nil]
    refine ⟨fun j hj => h.cut.linked j (by omega), fun j hj => h.cut.behind j (by omega), ?_, ?_, ?_,
      ?_, hbelow, hbelow, ⟨[], by simp⟩⟩
    · intro hlt
      rw [hlast]
      exact h.cut.behind _ (by omega) hlt
    · intro hlt
      rw [hlast]
      exact h.cut.behind _ (by omega) hlt
    · exact path_append.mpr ⟨_, h.cut.path, path_rules h.cut.linked hle⟩
    · rw [nodup_append]
      refine ⟨h.cut.nodup, List.nodup_range' _, ?_⟩
      intro a ha b hb hab
      have := mem_range'_1.mp hb
      rcases h.cut.below a ha with hlt | hge
      · omega
      · omega
  lt p hp := by
    simp only [List.append_nil] at hp
    rcases mem_append.mp hp with hp | hp
    · exact h.lt p hp
    · have := mem_range'_1.mp hp
      have := h.size
      omega
  readsBack := by
    refine rel_append (rel_append h.readsBack h.readsExtra) (forall₂_reads_rules hle)
  readsExtra := .nil
  groups := h.groups
  formed k hk hlt := by
    by_cases hpos : k < s.pos
    · exact h.formed k hk hpos
    · have := hformed k hk (Nat.le_of_not_lt hpos)
      dsimp only at hlt
      omega

/-- The cells between the end of `back` and the rule behind a new group; compare
`formExtra`. -/
def formCells (back extra : List Nat) (k c size : Nat) : List Nat :=
  if back ≠ [] ∨ extra = [] then [size] else size :: (extra ++ range' k c)

variable {c p : Nat}

theorem mem_formCells {size : Nat} (h : p ∈ formCells back extra k c size) :
    p = size ∨ p ∈ extra ∨ (k ≤ p ∧ p < k + c) := by
  unfold formCells at h
  split at h
  · exact .inl (mem_singleton.mp h)
  · rcases List.mem_cons.mp h with h | h
    · exact .inl h
    · rcases mem_append.mp h with h | h
      · exact .inr (.inl h)
      · exact .inr (.inr (mem_range'_1.mp h))

/-- A group is taken out of the list and its node put in. -/
theorem Cut.form (civ : CondIndexVal) (h : Cut n l k (k + c) back (cutAll back (back ++ extra) k c)) (hc : 0 < c)
    (hkc : k + c ≤ n) (hsize : n ≤ l.size) (hlt : ∀ p ∈ back ++ extra, p < l.size)
    (hbelow : ∀ p ∈ back ++ extra, p < k ∨ n ≤ p) (hnodup : (back ++ extra).Nodup) :
    Cut n (l.insertIntoRuleIndexList (l.prev k) civ) (k + c) (k + c) back
      (back ++ formCells back extra k c l.size) := by
  have hstart : l.prev k = back.getLast? := h.start (by omega)
  have hne : ∀ j, j < n → ¬ j = l.size := fun j hj heq => by omega
  have hprev : ∀ j, j < n → (l.insertIntoRuleIndexList (l.prev k) civ).prev j = l.prev j := by
    intro j hj
    rw [l.prev_insertInto, if_neg (hne j hj)]
  have hnext : ∀ j, k ≤ j → j < n → (l.insertIntoRuleIndexList (l.prev k) civ).next j = l.next j := by
    intro j hkj hj
    rw [hstart]
    cases hlast : back.getLast? with
    | none => rw [l.next_insertInto_none, if_neg (hne j hj)]
    | some b =>
      have hjb : ¬ j = b := by
        intro heq
        rcases h.backBelow b (List.mem_of_getLast? hlast) with hlt' | hge
        · omega
        · omega
      rw [l.next_insertInto_some, if_neg hjb, if_neg (hne j hj)]
  have hfresh : ∀ p ∈ back ++ formCells back extra k c l.size,
      p < k + c ∨ n ≤ p := by
    intro p hp
    rcases mem_append.mp hp with hp | hp
    · rcases h.backBelow p hp with hlt' | hge
      · exact .inl (by omega)
      · exact .inr hge
    · rcases mem_formCells hp with rfl | hp | hp
      · exact .inr hsize
      · rcases hbelow p (List.mem_append_right back hp) with hlt' | hge
        · exact .inl (by omega)
        · exact .inr hge
      · exact .inl hp.2
  have hcells : cutAll back (back ++ extra) k c =
      if back ≠ [] then back else if extra = [] then [] else extra ++ range' k c := by
    unfold cutAll
    rw [if_neg (by omega)]
    split
    · rfl
    · rename_i hback
      simp only [ne_eq, Decidable.not_not] at hback
      subst hback
      rfl
  have hshape : back ++ formCells back extra k c l.size =
      if back ≠ [] then back ++ [l.size] else l.size :: cutAll back (back ++ extra) k c := by
    rw [hcells]
    unfold formCells
    by_cases hback : back = []
    · subst hback
      by_cases hextra : extra = []
      · simp [hextra]
      · simp [hextra]
    · simp [hback]
  have hsizeMem : l.size ∉ cutAll back (back ++ extra) k c := by
    rw [hcells]
    intro hmem
    split at hmem
    · exact Nat.lt_irrefl _ (hlt _ (mem_append_left extra hmem))
    · split at hmem
      · cases hmem
      · rcases mem_append.mp hmem with hmem | hmem
        · exact Nat.lt_irrefl _ (hlt _ (List.mem_append_right back hmem))
        · have := (mem_range'_1.mp hmem).2
          omega
  refine ⟨?_, ?_, ?_, ?_, ?_, ?_, hfresh, fun p hp => hfresh p (mem_append_left _ hp), ⟨_, rfl⟩⟩
  · intro j hj hjn
    rw [hnext j (by omega) hjn]
    exact h.linked j (by omega) hjn
  · intro j hj hjn
    rw [hprev j hjn]
    exact h.behind j hj hjn
  · intro hlt'
    rw [hprev _ hlt']
    exact h.here hlt'
  · intro hlt'
    rw [hprev _ hlt']
    exact h.here hlt'
  · rw [hshape, hstart]
    refine h.insert_path civ (fun hback => ?_) hsizeMem
    rw [hcells, if_pos hback]
  · rw [hshape]
    split
    · rw [nodup_append]
      refine ⟨hnodup.of_append_left, List.nodup_singleton _, ?_⟩
      intro a ha b hb hab
      rw [mem_singleton] at hb
      have := hlt a (mem_append_left extra ha)
      omega
    · exact List.nodup_cons.mpr ⟨hsizeMem, h.nodup⟩

/-- The strings of a group's members are those of their conditions. -/
theorem members_eq (k : Nat) :
    (range' k (groupLength getRuleDesc n k)).filterMap (fun j =>
      (condEq? (getRuleDesc j).cond).map fun e => (e.str, j)) = members getRuleDesc n k := by
  refine List.filterMap_congr fun i hi => ?_
  obtain ⟨hle, hlt⟩ := mem_range'_1.mp hi
  obtain ⟨s, hkey, -, -⟩ := group_facts hle hlt
  obtain ⟨-, c, hc, rfl⟩ := groupKey_eq_some.mp hkey
  rw [hkey, hc]
  rfl

theorem forall₂_formCells {size : Nat} (hback : List.Forall₂ (Reads getRuleDesc n l) back s.back)
    (hextra : List.Forall₂ (Reads getRuleDesc n l) extra s.extra) (hgroup : Reads getRuleDesc n l size (.group k)) :
    List.Forall₂ (Reads getRuleDesc n l) (formCells back extra k (groupLength getRuleDesc n k) size)
      (formExtra getRuleDesc n s.back s.extra k) := by
  have hnilBack : back = [] ↔ s.back = [] := by
    rw [← length_eq_zero_iff, hback.length_eq, length_eq_zero_iff]
  have hnilExtra : extra = [] ↔ s.extra = [] := by
    rw [← length_eq_zero_iff, hextra.length_eq, length_eq_zero_iff]
  have hle : groupLength getRuleDesc n k ≤ n - k := groupLength_le k
  unfold formCells formExtra
  simp only [ne_eq, hnilBack, hnilExtra]
  split
  · exact .cons hgroup .nil
  · refine .cons hgroup (rel_append hextra ?_)
    by_cases hk : k ≤ n
    · exact forall₂_reads_rules (by omega)
    · have hzero : groupLength getRuleDesc n k = 0 := by omega
      rw [hzero]
      exact .nil

/-- A round that forms a group. -/
theorem Refines.form {c : CondEq} (h : Refines getRuleDesc n l s back extra) (hpos : s.pos < n)
    (hformed : Formed getRuleDesc n s.pos) (hc : condEq? (getRuleDesc s.pos).cond = some c) :
    let out := moveGroup getRuleDesc (l.size + 1) l (some s.pos)
      (ptr n (s.pos + groupLength getRuleDesc n s.pos)) []
    Refines getRuleDesc n
      (out.1.insertIntoRuleIndexList (out.1.prev s.pos) ⟨c.lhs, (getRuleDesc s.pos).params, out.2⟩)
      ⟨s.back, formExtra getRuleDesc n s.back s.extra s.pos, s.pos + groupLength getRuleDesc n s.pos⟩
      back (formCells back extra s.pos (groupLength getRuleDesc n s.pos) l.size) := by
  intro out
  have hlen : 0 < groupLength getRuleDesc n s.pos := Nat.zero_lt_two.trans_le hformed.2
  have hle : groupLength getRuleDesc n s.pos ≤ n - s.pos := groupLength_le s.pos
  have hsize := h.size
  obtain ⟨hcut, houtSize, houtContent, htable⟩ :=
    @moveGroup_spec getRuleDesc n l s.pos s.pos (groupLength getRuleDesc n s.pos) (l.size + 1) back
      (back ++ extra) [] h.cut le_rfl (by omega) (by omega) (fun j _ hj => by rw [h.rules j hj])
  rw [ptr_of_lt hpos] at hcut houtSize houtContent htable
  rw [List.nil_append, members_eq] at htable
  change Cut n out.1 _ _ _ _ at hcut
  generalize hl' : out.1.insertIntoRuleIndexList (out.1.prev s.pos)
    ⟨c.lhs, (getRuleDesc s.pos).params, out.2⟩ = l'
  have hsize' : l'.size = l.size + 1 := by
    rw [← hl', RuleIndexList.size_insertInto, houtSize]
  have hcontent : ∀ q, l'.content q = if q = l.size then
      (0, some ⟨c.lhs, (getRuleDesc s.pos).params, members getRuleDesc n s.pos⟩) else l.content q := by
    intro q
    rw [← hl', RuleIndexList.content_insertInto, houtSize, houtContent, htable]
  have hreads : ∀ p it, Reads getRuleDesc n l p it → Reads getRuleDesc n l' p it := by
    intro p it hp
    cases it with
    | rule i => exact hp
    | group k =>
      obtain ⟨hge, hlt, e, he, hval⟩ := hp
      refine ⟨hge, by omega, e, he, ?_⟩
      rw [hcontent, if_neg (by omega)]
      exact hval
  have hnew : Reads getRuleDesc n l' l.size (.group s.pos) := by
    refine ⟨hsize, by omega, c, hc, ?_⟩
    rw [hcontent, if_pos rfl]
  have hcut' : Cut n l' (s.pos + groupLength getRuleDesc n s.pos) (s.pos + groupLength getRuleDesc n s.pos)
      back (back ++ formCells back extra s.pos (groupLength getRuleDesc n s.pos) l.size) := by
    have hform := hcut.form ⟨c.lhs, (getRuleDesc s.pos).params, out.2⟩ hlen (by omega)
      (houtSize ▸ hsize) (fun p hp => houtSize ▸ h.lt p hp) h.cut.below h.cut.nodup
    rwa [hl', houtSize] at hform
  refine ⟨by omega, ?_, hcut', ?_, h.readsBack.imp hreads, ?_, ?_, ?_⟩
  · intro i hi
    rw [hcontent, if_neg (by omega)]
    exact h.rules i hi
  · intro p hp
    rcases mem_append.mp hp with hp | hp
    · have := h.lt p (mem_append_left extra hp)
      omega
    · rcases mem_formCells hp with rfl | hp | hp
      · omega
      · have := h.lt p (List.mem_append_right back hp)
        omega
      · omega
  · exact forall₂_formCells (h.readsBack.imp hreads) (h.readsExtra.imp hreads) hnew
  · intro p hge hlt
    by_cases hp : p = l.size
    · subst hp
      exact ⟨s.pos, hformed, hnew⟩
    · obtain ⟨k, hk, hread⟩ := h.groups p hge (by omega)
      exact ⟨k, hk, hreads p _ hread⟩
  · intro k hk hlt
    dsimp only at hlt
    rcases Nat.lt_trichotomy k s.pos with hks | rfl | hks
    · obtain ⟨p, hp⟩ := h.formed k hk hks
      exact ⟨p, hreads p _ hp⟩
    · exact ⟨l.size, hnew⟩
    · have := hformed.1.roundEnd_le hk.1 hks
      have : s.pos + groupLength getRuleDesc n s.pos ≤ roundEnd getRuleDesc n s.pos := le_roundEnd_group _
      omega

theorem Refines.rulesLinked (h : Refines getRuleDesc n l s back extra) : RulesLinked n l s.pos := by
  intro i hi hin
  have hcontent := h.rules i hin
  exact ⟨congrArg Prod.fst hcontent, h.cut.linked i hi hin⟩

/-- The rounds in memory are the rounds on the order of the list. -/
theorem createCondIndexLoop_refines {fuel : Nat} (h : Refines getRuleDesc n l s back extra)
    (hstart : RoundStart getRuleDesc n s.pos) (hle : s.pos ≤ n) :
    ∃ back' extra', Refines getRuleDesc n (createCondIndexLoop getRuleDesc fuel l (ptr n s.pos))
      ((Listed.round getRuleDesc n)^[fuel] s) back' extra' := by
  induction fuel generalizing l s back extra with
  | zero => exact ⟨back, extra, h⟩
  | succ fuel ih =>
    by_cases hpos : s.pos < n
    swap
    · have hfix : (Listed.round getRuleDesc n)^[fuel + 1] s = s :=
        Function.iterate_fixed (Listed.round_of_le (Nat.le_of_not_lt hpos)) _
      rw [hfix, ptr_of_le (Nat.le_of_not_lt hpos)]
      exact ⟨back, extra, h⟩
    rw [Function.iterate_succ_apply]
    have hfuel : n - s.pos < l.size + 1 := by
      have := h.size
      omega
    have hscan : Scanned getRuleDesc n s.pos (groupLength getRuleDesc n s.pos, passesOver getRuleDesc n s.pos)
        { curr := some s.pos } (scanGroup getRuleDesc l (l.size + 1) { curr := some s.pos }) :=
      @scanGroup_spec getRuleDesc n l _ s.pos (l.size + 1) { curr := some s.pos } h.rulesLinked rfl hfuel
        (ptr_of_lt hpos).symm rfl
    have hend : s.pos < roundEnd getRuleDesc n s.pos := lt_roundEnd hpos
    have hendLe : roundEnd getRuleDesc n s.pos ≤ n := roundEnd_le hle
    have hnext := hstart.next
    rw [ptr_of_lt hpos]
    simp only [createCondIndexLoop]
    generalize scanGroup getRuleDesc l (l.size + 1) { curr := some s.pos } = sc at hscan ⊢
    have hcurr : sc.curr = ptr n (roundEnd getRuleDesc n s.pos) := hscan.curr
    have hcount : sc.groupCount = groupLength getRuleDesc n s.pos := hscan.groupCount.trans (Nat.zero_add _)
    simp only [hcurr, hcount, hscan.finish]
    by_cases hsmall : groupLength getRuleDesc n s.pos < COND_INDEX_THRESHOLD
    · -- too few rules for a group
      have hround : s.round getRuleDesc n = ⟨s.back ++ s.extra ++
          rulesFrom s.pos (roundEnd getRuleDesc n s.pos - s.pos), [], roundEnd getRuleDesc n s.pos⟩ := by
        simp only [Listed.round, hpos, if_true, hsmall]
      have hsum : s.pos + (roundEnd getRuleDesc n s.pos - s.pos) = roundEnd getRuleDesc n s.pos := by omega
      have hkeep := h.keep (m := roundEnd getRuleDesc n s.pos - s.pos) (by omega) (by omega) (by
        intro k hk hge
        rcases Nat.eq_or_lt_of_le hge with rfl | hlt
        · exact absurd hk.2 (Nat.not_le.mpr hsmall)
        · rw [hsum]
          exact hstart.roundEnd_le hk.1 hlt)
      rw [hsum] at hkeep
      rw [hround]
      simp only [hsmall, if_true]
      cases sc.condExp <;> exact ih hkeep hnext hendLe
    · have hformed : Formed getRuleDesc n s.pos := ⟨hstart, Nat.le_of_not_lt hsmall⟩
      have hlen : 0 < groupLength getRuleDesc n s.pos := Nat.zero_lt_two.trans_le hformed.2
      obtain ⟨c, hc, hexp, hparams⟩ := hscan.first rfl hlen
      simp only [hexp, hparams, hsmall, if_false]
      have hform := h.form hpos hformed hc
      generalize moveGroup getRuleDesc (l.size + 1) l (some s.pos)
        (ptr n (s.pos + groupLength getRuleDesc n s.pos)) [] = out at hform ⊢
      by_cases hpass : passesOver getRuleDesc n s.pos
      · -- the rule that ended the group stays behind it
        have hround : s.round getRuleDesc n = ⟨s.back ++ formExtra getRuleDesc n s.back s.extra s.pos ++
            rulesFrom (s.pos + groupLength getRuleDesc n s.pos) 1, [],
            s.pos + groupLength getRuleDesc n s.pos + 1⟩ := by
          simp only [Listed.round, hpos, if_true, hsmall, if_false, hpass, roundEnd]
          rfl
        have hendEq : roundEnd getRuleDesc n s.pos = s.pos + groupLength getRuleDesc n s.pos + 1 := by
          simp only [roundEnd, hpass, if_true]
        have hkeep := hform.keep (m := 1) Nat.one_pos (by dsimp only; omega) (by
          intro k hk hge
          dsimp only at hge ⊢
          rw [← hendEq]
          exact hstart.roundEnd_le hk.1 (by omega))
        rw [hround, hendEq]
        rw [hendEq] at hnext hendLe
        exact ih hkeep hnext hendLe
      · have hendEq : roundEnd getRuleDesc n s.pos = s.pos + groupLength getRuleDesc n s.pos := by
          simp [roundEnd, hpass]
        have hround : s.round getRuleDesc n = ⟨s.back, formExtra getRuleDesc n s.back s.extra s.pos,
            s.pos + groupLength getRuleDesc n s.pos⟩ := by
          simp only [Listed.round, hpos, if_true, hsmall, if_false, hpass, hendEq]
          rfl
        rw [hround, hendEq]
        rw [hendEq] at hnext hendLe
        exact ih hform hnext hendLe

/-! ## Selection -/

/-- The list that `createCondIndex` leaves is in the order `indexItems`. -/
theorem createCondIndex_refines (getRuleDesc : Nat → RuleDesc) (n : Nat) :
    ∃ back extra, Refines getRuleDesc n (createCondIndex getRuleDesc n)
      (listedAfter getRuleDesc n (n + 1)) back extra :=
  createCondIndexLoop_refines Refines.start RoundStart.zero (Nat.zero_le n)

section Consider

variable {E : Type} (ev : Evaluator E) (env : E) (argc : Nat)

theorem considerNode_eq {it : Item} (hrules : ∀ i < n, l.content i = (i, none)) (h : Reads getRuleDesc n l p it) :
    considerNode ev env argc getRuleDesc l p = considerItem ev env argc getRuleDesc n it := by
  cases it with
  | rule i =>
    obtain ⟨rfl, hi⟩ := h
    have hcontent := hrules p hi
    simp only [RuleIndexList.content, Prod.mk.injEq] at hcontent
    simp only [considerNode, considerItem, hcontent]
  | group k =>
    obtain ⟨-, -, c, hc, hval⟩ := h
    simp only [RuleIndexList.content] at hval
    simp only [considerNode, hval, considerItem, execRuleFromCondIndex, findInGroup, hc]
    split
    · rfl
    · cases ev.value (getRuleDesc k).params c.lhs env with
      | cut => rfl
      | other => rfl
      | string v =>
        dsimp only
        cases hfind : lookupFromHashTable (members getRuleDesc n k) v with
        | none => rfl
        | some i =>
          obtain ⟨hle, hlt, hkey⟩ := lookup_members.mp hfind
          have hn : groupLength getRuleDesc n k ≤ n - k := groupLength_le k
          have hcontent := hrules i (by omega)
          simp only [RuleIndexList.content, Prod.mk.injEq] at hcontent
          exact congrArg (execRuleNodeRes ev env argc getRuleDesc) hcontent.1

theorem tryAll_considerNode {items : List Item} (hrules : ∀ i < n, l.content i = (i, none))
    (h : List.Forall₂ (Reads getRuleDesc n l) cells items) :
    tryAll (considerNode ev env argc getRuleDesc l) cells =
      tryAll (considerItem ev env argc getRuleDesc n) items := by
  induction h with
  | nil => rfl
  | cons hread _ ih => rw [tryAll, tryAll, ih, considerNode_eq ev env argc hrules hread]

/-- What is considered over the list in memory. -/
theorem consider_createCondIndex :
    consider ev env argc getRuleDesc (createCondIndex getRuleDesc n) =
      tryAll (considerItem ev env argc getRuleDesc n) (indexItems getRuleDesc n) := by
  obtain ⟨back, extra, h⟩ := createCondIndex_refines getRuleDesc n
  have hpath := h.cut.path
  rw [listedAfter_end, ptr_of_le le_rfl] at hpath
  have hlength := length_le_of_nodup h.cut.nodup h.lt
  rw [consider, walk_eq_of_path hpath hlength]
  exact tryAll_considerNode ev env argc h.rules (rel_append h.readsBack h.readsExtra)

end Consider

/-- The members of a group are the rules its table names. -/
theorem Refines.ruleIndex_member (h : Refines getRuleDesc n l s back extra) {e : String × Nat}
    (he : e ∈ members getRuleDesc n k) :
    k ≤ e.2 ∧ e.2 < k + groupLength getRuleDesc n k ∧ (l.nodes e.2).ruleIndex = e.2 := by
  obtain ⟨hle, hlt, -⟩ := mem_members.mp he
  have hn : groupLength getRuleDesc n k ≤ n - k := groupLength_le k
  exact ⟨hle, hlt, congrArg Prod.fst (h.rules e.2 (by omega))⟩

theorem mem_members_of_lt (hi : i < groupLength getRuleDesc n k) : ∃ s, (s, k + i) ∈ members getRuleDesc n k := by
  obtain ⟨s, hkey, -, -⟩ := group_facts (Nat.le_add_right k i) (Nat.add_lt_add_left hi k)
  exact ⟨s, mem_members.mpr ⟨Nat.le_add_right k i, Nat.add_lt_add_left hi k, hkey⟩⟩

theorem SameCondExp.of_left {rd rd₁ rd₂ : RuleDesc} {c : CondEq} (h₁ : SameCondExp rd rd₁)
    (h₂ : SameCondExp rd rd₂) (hc : condEq? rd.cond = some c) : SameCondExp rd₁ rd₂ :=
  fun c₁ c₂ hc₁ hc₂ => (h₁ c c₁ hc hc₁).symm.trans (h₂ c c₂ hc hc₂)

/-- Groups have one condition expression exactly if the rounds gather only such rules. -/
theorem groupsAlike_iff (getRuleDesc : Nat → RuleDesc) (n : Nat) :
    GroupsAlike getRuleDesc n ↔ ∀ k, Formed getRuleDesc n k → ∀ i < groupLength getRuleDesc n k,
      SameCondExp (getRuleDesc k) (getRuleDesc (k + i)) := by
  obtain ⟨back, extra, h⟩ := createCondIndex_refines getRuleDesc n
  constructor
  · intro halike k hk i hi
    have hlt : k < (listedAfter getRuleDesc n (n + 1)).pos := by
      have : groupLength getRuleDesc n k ≤ n - k := groupLength_le k
      rw [listedAfter_end]
      omega
    obtain ⟨p, -, hp, c, -, hval⟩ := h.formed k hk hlt
    obtain ⟨s, hs⟩ := mem_members_of_lt (Nat.zero_lt_two.trans_le hk.2)
    obtain ⟨s', hs'⟩ := mem_members_of_lt hi
    have hsame := halike p _ hp hval _ hs _ hs'
    rwa [(h.ruleIndex_member hs).2.2, (h.ruleIndex_member hs').2.2] at hsame
  · intro huniform p civ hp hval i hi j hj
    by_cases hn : p < n
    · have hrule := congrArg Prod.snd (h.rules p hn)
      rw [RuleIndexList.content] at hrule
      rw [hval] at hrule
      cases hrule
    · obtain ⟨k, hk, -, -, c, hc, hval'⟩ := h.groups p (Nat.le_of_not_lt hn) hp
      have hciv := hval.symm.trans hval'
      cases hciv
      obtain ⟨hik, hik', hi'⟩ := h.ruleIndex_member hi
      obtain ⟨hjk, hjk', hj'⟩ := h.ruleIndex_member hj
      have hsi := huniform k hk (i.2 - k) (by omega)
      have hsj := huniform k hk (j.2 - k) (by omega)
      rw [Nat.add_sub_cancel' hik] at hsi
      rw [Nat.add_sub_cancel' hjk] at hsj
      rw [hi', hj']
      exact hsi.of_left hsj hc

/-- The lists over which the index groups only rules with one condition expression, and keeps
the selection exactly for the evaluators that let the expression of a group speak for its
members, are those in which no group mixes expressions and none begins right where another ends. -/
theorem selectionPreserved_iff (getRuleDesc : Nat → RuleDesc) (n : Nat) :
    (GroupsAlike getRuleDesc n ∧ ∀ (E : Type) (ev : Evaluator E),
      ev.SelectionKept getRuleDesc n ↔ ev.Respects getRuleDesc n) ↔ IndexSafe getRuleDesc n := by
  constructor
  · rintro ⟨halike, hkept⟩
    refine ⟨(groupsAlike_iff getRuleDesc n).mp halike, fun k hk hpass hnext => ?_⟩
    obtain ⟨s, argc, hne⟩ := considerItem_ne_of_adjacent hk hpass hnext
    apply hne
    rw [← consider_createCondIndex]
    exact (hkept Unit (Evaluator.const s)).mpr (Evaluator.const_respects s) () argc
  · intro hsafe
    refine ⟨(groupsAlike_iff getRuleDesc n).mpr hsafe.uniform, fun E ev => ⟨fun hkept => ?_, fun hev => ?_⟩⟩
    · refine respects_of_tryAll hsafe fun env argc => ?_
      rw [← consider_createCondIndex]
      exact hkept env argc
    · intro env argc
      rw [consider_createCondIndex]
      exact considerItem_indexItems hsafe hev

/-- Variables are their arguments, other expressions have no value. -/
def Evaluator.vars : Evaluator (List String) where
  value ps e args :=
    match e.canon ps with
    | .node .tkVar (.inl i) _ => (args[i]?).elim .other .string
    | _ => .other
  test ps cond args :=
    (condEq? cond).any fun c =>
      (match c.lhs.canon ps with
        | .node .tkVar (.inl i) _ => args[i]?
        | _ => none) == some c.str

/-- The rule `r(*a, *b)` on the condition that the variable is the string. -/
def ruleOn (var str : String) : RuleDesc where
  ruleType := .rkRel
  params := ["*a", "*b"]
  cond := .node .nApplication "" [.node .tkText "==" [],
    .node .nTuple "" [.node .tkVar var [], .node .tkString str []]]

/-- Two rules on different variables are put in one group, which looks at the first
variable only: the second rule's condition holds, but it is not considered. -/
theorem mixed_group_not_considered :
    consider Evaluator.vars ["z", "y"] 2
        (fun i => if i = 0 then ruleOn "*a" "x" else ruleOn "*b" "y")
        (createCondIndex (fun i => if i = 0 then ruleOn "*a" "x" else ruleOn "*b" "y") 2) = [] ∧
      (List.range 2).filter (holds Evaluator.vars ["z", "y"] 2
        fun i => if i = 0 then ruleOn "*a" "x" else ruleOn "*b" "y") = [1] := by
  decide +kernel

end Re
