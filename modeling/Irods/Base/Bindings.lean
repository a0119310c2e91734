-- SUMMARY: Lists of bindings: changing the first one of a key, and collecting them key by key.
import Mathlib.Data.List.Induction
import Mathlib.Data.List.Nodup

/-!
# Bindings

A list of pairs read from its front: a key has the value of its first pair. `assign`
changes that pair and nothing else, `put` adds the pair where the key has none, and
collecting a list by `put` keeps one pair a key, with the value that came last.
-/

universe u v

namespace Bindings

open List (lookup_cons lookup_nil map_cons)
open Prod (fst)

variable {κ : Type u} {α : Type v} [BEq κ]

/-- The first pair of the key gets the value. -/
def assign (key : κ) (value : α) : List (κ × α) → List (κ × α)
  | [] => []
  | b :: l => if b.1 == key then (b.1, value) :: l else b :: assign key value l

/-- The first pair of the key gets the value, or a new pair at the end. -/
def put (key : κ) (value : α) : List (κ × α) → List (κ × α)
  | [] => [(key, value)]
  | b :: l => if b.1 == key then (b.1, value) :: l else b :: put key value l

/-- The bindings of a list in order, each key where it came first and with what came last. -/
def collect (l : List (κ × α)) : List (κ × α) := l.foldl (fun m b => put b.1 b.2 m) []

theorem collect_append_singleton (l : List (κ × α)) (b : κ × α) : collect (l ++ [b]) = put b.1 b.2 (collect l) := by
  rw [collect, List.foldl_append]
  rfl

variable [LawfulBEq κ]

theorem beq_false_of_ne {a b : κ} (h : a ≠ b) : (a == b) = false := beq_eq_false_iff_ne.mpr h

/-- The two ways to read a list of pairs. -/
theorem lookup_eq_find? (l : List (κ × α)) (key : κ) :
    l.lookup key = (l.find? fun b => b.1 == key).map Prod.snd := by
  induction l with
  | nil => rfl
  | cons b l ih =>
    rw [lookup_cons, List.find?_cons, ih, BEq.comm]
    cases b.1 == key <;> rfl

/-! ## Changing a binding -/

theorem lookup_assign [DecidableEq κ] (key other : κ) (value : α) (l : List (κ × α)) :
    (assign key value l).lookup other =
    if other = key ∧ (l.lookup key).isSome then some value else l.lookup other := by
  induction l with
  | nil => rw [assign, lookup_nil, lookup_nil, if_neg fun h => Bool.noConfusion h.2]
  | cons b l ih =>
    by_cases hb : b.1 = key
    · rw [assign, if_pos (beq_iff_eq.mpr hb), lookup_cons, lookup_cons, lookup_cons]
      by_cases h : other = key
      · rw [h, hb, beq_self_eq_true, if_pos ⟨rfl, rfl⟩]
      · rw [if_neg fun hand => h hand.1, beq_false_of_ne fun h' => h (h'.trans hb)]
    · rw [assign, if_neg fun h => hb (beq_iff_eq.mp h), lookup_cons, lookup_cons, lookup_cons, ih,
        beq_false_of_ne fun h => hb h.symm]
      by_cases h : other = key
      · rw [h, beq_false_of_ne fun h => hb h.symm]
      · rw [if_neg fun hand => h hand.1, if_neg fun hand => h hand.1]

/-! ## Collecting bindings -/

variable (key : κ) (value : α) (l : List (κ × α))

theorem keys_put :
    (put key value l).map fst = if key ∈ l.map fst then l.map fst else l.map fst ++ [key] := by
  induction l with
  | nil => rfl
  | cons b l ih =>
    by_cases hb : b.1 = key
    · rw [put, if_pos (beq_iff_eq.mpr hb), map_cons, map_cons, if_pos (List.mem_cons.mpr (.inl hb.symm))]
    · rw [put, if_neg fun h => hb (beq_iff_eq.mp h), map_cons, ih, map_cons]
      by_cases hmem : key ∈ l.map fst
      · rw [if_pos hmem, if_pos (List.mem_cons_of_mem _ hmem)]
      · rw [if_neg hmem, if_neg, List.cons_append]
        intro h
        obtain h | h := List.mem_cons.mp h
        · exact hb h.symm
        · exact hmem h

theorem lookup_put [DecidableEq κ] (key other : κ) (value : α) (l : List (κ × α)) :
    (put key value l).lookup other = if other = key then some value else l.lookup other := by
  induction l with
  | nil =>
    rw [put, lookup_cons, lookup_nil]
    by_cases h : other = key
    · rw [if_pos h, h, beq_self_eq_true]
    · rw [if_neg h, beq_false_of_ne h]
  | cons b l ih =>
    by_cases hb : b.1 = key
    · rw [put, if_pos (beq_iff_eq.mpr hb), lookup_cons, lookup_cons]
      by_cases h : other = key
      · rw [if_pos h, hb, h, beq_self_eq_true]
      · rw [if_neg h, beq_false_of_ne fun h' => h (h'.trans hb)]
    · rw [put, if_neg fun h => hb (beq_iff_eq.mp h), lookup_cons, lookup_cons, ih]
      by_cases h : other = key
      · rw [if_pos h, if_pos h, beq_false_of_ne fun h' => hb (h'.symm.trans h)]
      · rw [if_neg h, if_neg h]

theorem keys_collect_nodup : ((collect l).map fst).Nodup := by
  induction l using List.reverseRecOn with
  | nil => exact List.nodup_nil
  | append_singleton l b ih =>
    rw [collect_append_singleton, keys_put]
    split
    · exact ih
    · rename_i hnew
      rw [List.nodup_append]
      refine ⟨ih, List.nodup_singleton _, ?_⟩
      rintro a ha _ hb rfl
      obtain rfl := List.mem_singleton.mp hb
      exact hnew ha

/-- A collected key has the value that came last. -/
theorem lookup_collect (key : κ) : (collect l).lookup key = l.reverse.lookup key := by
  induction l using List.reverseRecOn with
  | nil => rfl
  | append_singleton l b ih =>
    classical
    rw [collect_append_singleton, lookup_put, List.reverse_append, List.reverse_singleton, List.singleton_append,
      lookup_cons, ih]
    by_cases h : key = b.1
    · rw [if_pos h, h, beq_self_eq_true]
    · rw [if_neg h, beq_false_of_ne h]

variable {l : List (κ × α)}

theorem mem_of_lookup {key : κ} {value : α} (h : l.lookup key = some value) : (key, value) ∈ l := by
  obtain ⟨l₁, l₂, rfl, -⟩ := List.lookup_eq_some_iff.mp h
  exact List.mem_append_right _ List.mem_cons_self

variable {b : κ × α}

theorem lookup_of_mem (hnodup : (l.map fst).Nodup) (h : b ∈ l) : l.lookup b.1 = some b.2 := by
  obtain ⟨l₁, l₂, rfl⟩ := List.append_of_mem h
  refine List.lookup_eq_some_iff.mpr ⟨l₁, l₂, rfl, fun a ha => ?_⟩
  rw [List.map_append, map_cons, List.nodup_append] at hnodup
  exact bne_iff_ne.mpr fun heq =>
    hnodup.2.2 a.1 (List.mem_map_of_mem ha) b.1 List.mem_cons_self heq.symm

theorem lookup_isSome_of_mem (h : b ∈ l) : ∃ value, l.lookup b.1 = some value :=
  Option.isSome_iff_exists.mp (List.lookup_isSome_iff.mpr ⟨b, h, beq_self_eq_true _⟩)

end Bindings
