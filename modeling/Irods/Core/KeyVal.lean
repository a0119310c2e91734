-- SUMMARY: Runs of addKeyVal, rmKeyVal and replKeyVal as finite maps.
import Irods.Core.PairList

/-!
# Runs of operations on lists of keys and values

Any number of lists, all empty at first. What a list shows after a run is told by the operations alone,
from the last one back.
-/

namespace KeyValPair

open PairList (Shows)
open Function (update update_of_ne update_self)

variable {ι : Type} [DecidableEq ι]

inductive Op (ι : Type) where
  | addKeyVal (condInput : ι) (keyWord value : Text)
  | rmKeyVal (condInput : ι) (keyWord : Text)
  | replKeyVal (srcCondInput destCondInput : ι)
  deriving DecidableEq

def Op.Keyed : Op ι → Prop
  | .addKeyVal _ keyWord _ => keyWord ≠ []
  | .rmKeyVal _ keyWord => keyWord ≠ []
  | .replKeyVal _ _ => True

abbrev Store (ι : Type) := ι → KeyValPair

def step (σ : Store ι) : Op ι → Option (Store ι)
  | .addKeyVal i keyWord value => return update σ i (← addKeyVal (σ i) keyWord value)
  | .rmKeyVal i keyWord => return update σ i (← rmKeyVal (σ i) keyWord)
  | .replKeyVal src dest => do
    -- the destination is cleared first: a list that is copied to itself has no pairs left
    let σ := update σ dest .empty
    return update σ dest (← addAll (σ src) (σ dest) 0 (σ src).len)

def run (ops : List (Op ι)) (σ : Store ι) : Option (Store ι) := ops.foldlM step σ

/-! ## What was added -/

/-- The map that the operations make of a list, the last operation in front. -/
def contents : List (Op ι) → ι → List (Text × Text)
  | [], _ => []
  | .addKeyVal i k v :: ops, j => if i = j then insertPair k v (contents ops j) else contents ops j
  | .rmKeyVal i k :: ops, j => if i = j then removePair k (contents ops j) else contents ops j
  | .replKeyVal src dest :: ops, j =>
    if dest = j then (if src = dest then [] else contents ops src) else contents ops j

/-- The value last added for a key, unless the key was removed since. -/
def lastAdded : List (Op ι) → ι → Text → Option Text
  | [], _, _ => none
  | .addKeyVal i k v :: ops, j, k' => if i = j ∧ k = k' then some v else lastAdded ops j k'
  | .rmKeyVal i k :: ops, j, k' => if i = j ∧ k = k' then none else lastAdded ops j k'
  | .replKeyVal src dest :: ops, j, k' =>
    if dest = j then (if src = dest then none else lastAdded ops src k') else lastAdded ops j k'

variable (ops : List (Op ι))

theorem lookup_contents (i : ι) (k : Text) : (contents ops i).lookup k = lastAdded ops i k := by
  induction ops generalizing i with
  | nil => rfl
  | cons op ops ih =>
    cases op with
    | addKeyVal j k' v =>
      by_cases h : j = i
      · rw [contents, lastAdded, if_pos h, lookup_insertPair, ih]
        simp only [h, true_and]
      · rw [contents, lastAdded, if_neg h, if_neg fun heq => h heq.1, ih]
    | rmKeyVal j k' =>
      by_cases h : j = i
      · rw [contents, lastAdded, if_pos h, lookup_removePair, ih]
        simp only [h, true_and]
      · rw [contents, lastAdded, if_neg h, if_neg fun heq => h heq.1, ih]
    | replKeyVal src dest =>
      rw [contents, lastAdded]
      split_ifs
      · rfl
      · exact ih src
      · exact ih i

/-! ## Steps and runs -/

/-- Adding the pairs of a list one by one makes a copy of it. -/
theorem addAll_spec {src dest : KeyValPair} {front back : List (Text × Text)} (hsrc : Represents src (front ++ back))
    (hdest : Represents dest front) :
    ∃ l, addAll src dest front.length back.length = some l ∧ Represents l (front ++ back) := by
  induction back generalizing front dest with
  | nil => exact ⟨dest, rfl, by rwa [List.append_nil]⟩
  | cons p back ih =>
    obtain ⟨k, v⟩ := p
    have hk : k ∈ keys (front ++ (k, v) :: back) := List.mem_map.mpr ⟨(k, v), by simp, rfl⟩
    obtain ⟨dest', hadd, hdest'⟩ := addKeyVal_spec hdest (hsrc.nonempty k hk) v
    have hfresh : k ∉ keys front := by
      have hnodup := hsrc.nodup
      rw [keys, List.map_append] at hnodup
      exact fun hmem => (List.nodup_append.mp hnodup).2.2 k hmem k List.mem_cons_self rfl
    rw [insertPair_absent hfresh] at hdest'
    have hkeys : Cells.Holds src.key (front.map Prod.fst ++ k :: back.map Prod.fst) := by
      simpa using hsrc.shows.key.holds
    have hvalues : Cells.Holds src.value (front.map Prod.snd ++ v :: back.map Prod.snd) := by
      simpa using hsrc.shows.value.holds
    have hkey := hkeys.getElem?_length
    have hvalue := hvalues.getElem?_length
    rw [List.length_map] at hkey hvalue
    obtain ⟨l, hrun, hl⟩ := ih (by simpa using hsrc) hdest'
    rw [List.length_append] at hrun
    refine ⟨l, ?_, by simpa using hl⟩
    rw [List.length_cons, addAll, hkey, hvalue]
    dsimp only [Option.bind_eq_bind, Option.bind_some, Option.join_some]
    rw [hadd]
    exact hrun

/-- A step does to each list what the operation does to its map. -/
theorem step_spec {σ : Store ι} {ops : List (Op ι)} {op : Op ι} (h : ∀ i, Represents (σ i) (contents ops i))
    (hop : op.Keyed) : ∃ σ', step σ op = some σ' ∧ ∀ i, Represents (σ' i) (contents (op :: ops) i) := by
  have hupdate {i : ι} {l : KeyValPair} {σ : Store ι} (hl : Represents l (contents (op :: ops) i))
      (hrest : ∀ j, i ≠ j → Represents (σ j) (contents (op :: ops) j)) (j : ι) :
      Represents (update σ i l j) (contents (op :: ops) j) := by
    by_cases hj : i = j
    · subst hj
      rwa [update_self]
    · rw [update_of_ne fun heq => hj heq.symm]
      exact hrest j hj
  cases op with
  | addKeyVal i k v =>
    obtain ⟨l, hadd, hl⟩ := addKeyVal_spec (h i) hop v
    refine ⟨update σ i l, by rw [step, hadd]; rfl, hupdate ?_ fun j hj => ?_⟩
    · rwa [contents, if_pos rfl]
    · rw [contents, if_neg hj]
      exact h j
  | rmKeyVal i k =>
    obtain ⟨l, hrm, hl⟩ := rmKeyVal_spec (h i) k
    refine ⟨update σ i l, by rw [step, hrm]; rfl, hupdate ?_ fun j hj => ?_⟩
    · rwa [contents, if_pos rfl]
    · rw [contents, if_neg hj]
      exact h j
  | replKeyVal src dest =>
    have hcopy : ∃ l, addAll (update σ dest .empty src) .empty 0 (update σ dest .empty src).len = some l ∧
        Represents l (if src = dest then [] else contents ops src) := by
      by_cases hsame : src = dest
      · rw [if_pos hsame, hsame, update_self]
        exact ⟨.empty, rfl, represents_empty⟩
      · rw [if_neg hsame, update_of_ne hsame]
        obtain ⟨l, hadd, hl⟩ := @addAll_spec (σ src) .empty [] _ (h src) represents_empty
        exact ⟨l, by rw [(h src).shows.len]; exact hadd, hl⟩
    obtain ⟨l, hadd, hl⟩ := hcopy
    refine ⟨update (update σ dest .empty) dest l, ?_, hupdate ?_ fun j hj => ?_⟩
    · simp only [step, update_self, hadd, Option.bind_eq_bind, Option.bind_some]
      rfl
    · rwa [contents, if_pos rfl]
    · rw [contents, if_neg hj, update_of_ne fun heq => hj heq.symm]
      exact h j

theorem run_spec (h : ∀ op ∈ ops, op.Keyed) :
    ∃ σ, run ops (fun _ => .empty) = some σ ∧ ∀ i, Represents (σ i) (contents ops.reverse i) := by
  induction ops using List.reverseRecOn with
  | nil => exact ⟨_, rfl, fun _ => represents_empty⟩
  | append_singleton ops op ih =>
    obtain ⟨σ, hrun, hσ⟩ := ih fun op hop => h op (List.mem_append_left _ hop)
    obtain ⟨σ', hstep, hσ'⟩ := step_spec hσ (h op (List.mem_append_right _ List.mem_cons_self))
    refine ⟨σ', ?_, by rwa [List.reverse_append]⟩
    rw [run, List.foldlM_append, show ops.foldlM step _ = some σ from hrun]
    simpa [List.foldlM] using hstep

/-- A list is a map of distinct keys to the values last added; a key that is removed leaves the others in their order.
No operation goes outside of the arrays. -/
theorem keyValPair_refines_map (h : ∀ op ∈ ops, op.Keyed) :
    ∃ σ, run ops (fun _ => .empty) = some σ ∧ ∀ i, ∃ ps, Shows (σ i) ps ∧ (keys ps).Nodup ∧
      (∀ k, getValByKey (σ i) k = some (lastAdded ops.reverse i k)) ∧
      ∀ k, ∃ l, rmKeyVal (σ i) k = some l ∧ Shows l (removePair k ps) := by
  obtain ⟨σ, hrun, hσ⟩ := run_spec ops h
  refine ⟨σ, hrun, fun i => ⟨contents ops.reverse i, (hσ i).shows, (hσ i).nodup, fun k => ?_, fun k => ?_⟩⟩
  · rw [getValByKey_spec (hσ i).shows, lookup_contents]
  · obtain ⟨l, hrm, hl⟩ := rmKeyVal_spec (hσ i) k
    exact ⟨l, hrm, hl.shows⟩

/-- A pair is added, replaced and copied to another list, and removed. -/
def replaced : List (Op Bool) :=
  [.addKeyVal true ['a'] ['1'], .addKeyVal true ['b'] ['2'], .addKeyVal true ['a'] ['3'], .replKeyVal true false,
    .rmKeyVal true ['a']]

theorem replaced_refines_map :
    (∀ op ∈ replaced, op.Keyed) ∧ ∃ σ, run replaced (fun _ => .empty) = some σ ∧ ∀ i, ∃ ps, Shows (σ i) ps ∧
      (keys ps).Nodup ∧ (∀ k, getValByKey (σ i) k = some (lastAdded replaced.reverse i k)) ∧
      ∀ k, ∃ l, rmKeyVal (σ i) k = some l ∧ Shows l (removePair k ps) := by
  have hkeyed : ∀ op ∈ replaced, op.Keyed := by simp [replaced, Op.Keyed]
  exact ⟨hkeyed, keyValPair_refines_map replaced hkeyed⟩

end KeyValPair
