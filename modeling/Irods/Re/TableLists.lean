-- SUMMARY: The lists and tables of the other modules as hash tables.
import Irods.Re.CondIndex
import Irods.Re.ExecRule
import Irods.Re.HashTable
import Irods.Re.Typing

/-!
# Tables as lists

The typing, the condition index and `execRule` keep lists where the program keeps hash tables,
and the conversion of parameters keeps its tables with their buckets in a list. A hash table
that refines such a list answers as the list does, and goes on refining it.
-/

namespace HashTable

open CString
open Prod (fst snd)

variable {κ V : Type}

/-- The pairs of a list with their keys as texts. -/
def named (name : κ → Text) (l : List (κ × V)) : Assoc V := l.map fun e => (name e.1, e.2)

variable {h : Table V} {key : String} {value : V}

/-! ## Lookups -/

section Lookups

variable [BEq κ] [LawfulBEq κ] {name : κ → Text}

theorem lookup_named (hname : Function.Injective name) (l : List (κ × V)) (k : κ) :
    (named name l).lookup (name k) = (l.find? fun e => e.1 == k).map snd := by
  have hkeys : ∀ e : κ × V, decide (name e.1 = name k) = (e.1 == k) := by
    intro e
    rw [Bool.eq_iff_iff, decide_eq_true_iff, beq_iff_eq, hname.eq_iff]
  rw [Assoc.lookup, named, List.find?_map, Option.map_map]
  simp only [Function.comp_def, hkeys]

/-- The typing environment is found by the number of a variable, the others by a name. -/
theorem Refines.lookup_typing {h : Table Typing.ExprType} {l : List (κ × Typing.ExprType)}
    (hl : Refines h (named name l)) (hname : Function.Injective name) (k : κ) :
    h.lookupFromHashTable (name k) = Typing.lookupFromHashTable l k :=
  (hl.lookup _).trans (lookup_named hname l k)

end Lookups

theorem toList_injective : Function.Injective String.toList := fun _ _ => String.toList_inj.mp

theorem Refines.lookup_condIndex {l : List (String × V)} (hl : Refines h (named String.toList l)) :
    h.lookupFromHashTable key.toList = Re.lookupFromHashTable l key :=
  (hl.lookup _).trans (lookup_named toList_injective l key)

theorem Refines.lookup_execRule {l : List (String × V)} (hl : Refines h (named String.toList l))
    (null : V) :
    (h.lookupFromHashTable key.toList).getD null = Re.ExecRule.lookupFromHashTable null l key :=
  congrArg (·.getD null) ((hl.lookup _).trans (lookup_named toList_injective l key))

/-! ## Changes -/

theorem update_named_cons (e : String × V) (l : List (String × V)) :
    Assoc.update (named String.toList (e :: l)) key.toList value =
      if e.1 = key then (key.toList, value) :: named String.toList l
      else (e.1.toList, e.2) :: Assoc.update (named String.toList l) key.toList value := by
  rw [Assoc.update, named, List.map_cons, HashQueues.modifyFirst]
  simp only [decide_eq_true_iff, String.toList_inj]
  split
  · rename_i heq
    rw [heq]
    rfl
  · rfl

theorem Refines.update_typing {h : Table Typing.ExprType} {l : List (String × Typing.ExprType)}
    {t : Typing.ExprType} (hl : Refines h (named String.toList l)) :
    Refines (h.updateInHashTable key.toList t).2
      (named String.toList (Typing.updateInHashTable l key t)) := by
  have hupdate : Assoc.update (named String.toList l) key.toList t =
      named String.toList (Typing.updateInHashTable l key t) := by
    clear hl
    induction l with
    | nil => rfl
    | cons e l ih =>
      rw [update_named_cons, ih, Typing.updateInHashTable]
      by_cases hkey : e.1 = key
      · rw [if_pos hkey, if_pos (beq_iff_eq.mpr hkey)]
        rfl
      · rw [if_neg hkey, if_neg fun heq => hkey (beq_iff_eq.mp heq)]
        rfl
  exact hupdate ▸ (hl.update key.toList t).2

/-- Every pair of the key is changed in the list, and there is one. -/
theorem Refines.update_condIndex {l : List (String × V)} (hl : Refines h (named String.toList l))
    (hnodup : (l.map fst).Nodup) :
    Refines (h.updateInHashTable key.toList value).2
      (named String.toList (Re.updateInHashTable l key value)) := by
  have hupdate : Assoc.update (named String.toList l) key.toList value =
      named String.toList (Re.updateInHashTable l key value) := by
    clear hl
    induction l with
    | nil => rfl
    | cons e l ih =>
      obtain ⟨hnot, hrest⟩ := List.nodup_cons.mp hnodup
      have hcons : Re.updateInHashTable (e :: l) key value =
          (if e.1 == key then (key, value) else e) :: Re.updateInHashTable l key value := rfl
      rw [update_named_cons, ih hrest, hcons]
      by_cases hkey : e.1 = key
      · have hsame : Re.updateInHashTable l key value = l := by
          refine (List.map_congr_left fun e' he' => if_neg fun heq => hnot ?_).trans (List.map_id l)
          rw [hkey, ← beq_iff_eq.mp heq]
          exact List.mem_map_of_mem he'
        rw [if_pos hkey, if_pos (beq_iff_eq.mpr hkey), hsame]
        rfl
      · rw [if_neg hkey, if_neg fun heq => hkey (beq_iff_eq.mp heq)]
        rfl
  exact hupdate ▸ (hl.update key.toList value).2

theorem Refines.insert_execRule {l : List (String × V)} (hl : Refines h (named String.toList l)) :
    ∃ h', h.insertIntoHashTable 2 key.toList value = some h' ∧
      Refines h' (named String.toList (Re.ExecRule.insertIntoHashTable l key value)) := by
  obtain ⟨h', hrun, hl'⟩ := hl.insert key.toList value
  refine ⟨h', hrun, ?_⟩
  rw [named, Re.ExecRule.insertIntoHashTable, List.map_append]
  exact hl'

/-! ## Tables with a list of buckets -/

section Buckets

open Re.Variables

/-- The same table with its buckets by index. -/
def table (h : Hashtable) : Table Res := ⟨h.dynamic, h.size, fun i => h.buckets.getD i [], h.len⟩

variable {h t : Hashtable} {key : Text} {res : Res}

theorem all_table (h : Hashtable) : (table h).all = h.entries := by
  have hbuckets : (List.range h.buckets.length).map (fun i => h.buckets.getD i []) = h.buckets := by
    refine List.ext_getElem (by simp) fun i _ hi => ?_
    simp [List.getD_eq_getElem?_getD, List.getElem?_eq_getElem hi]
  rw [Table.all, Hashtable.entries, List.flatMap_def]
  exact congrArg List.flatten hbuckets

theorem lookup_table (h : Hashtable) (key : Text) :
    (table h).lookupFromHashTable key = Re.Variables.lookupFromHashTable h key := by
  simp only [Table.lookupFromHashTable, Re.Variables.lookupFromHashTable, Bindings.lookup_eq_find?,
    beq_eq_decide]
  rfl

theorem getD_modify (l : List (List (Text × Res))) (f : List (Text × Res) → List (Text × Res))
    {i : Nat} (hnil : f [] = [] ∨ i < l.length) :
    (fun j => (l.modify i f).getD j []) = Function.update (fun j => l.getD j []) i (f (l.getD i [])) := by
  funext j
  by_cases hj : j = i
  · subst hj
    rw [Function.update_self, List.getD_eq_getElem?_getD, List.getElem?_modify_eq,
      List.getD_eq_getElem?_getD]
    cases hget : l[j]? with
    | some bucket => rfl
    | none =>
      have hout := List.getElem?_eq_none_iff.mp hget
      exact (hnil.resolve_right (by omega)).symm
  · rw [Function.update_of_ne hj, List.getD_eq_getElem?_getD,
      List.getElem?_modify_ne f l (Ne.symm hj), List.getD_eq_getElem?_getD]

theorem assign_eq_updateChain (key : Text) (res : Res) (c : List (Text × Res)) :
    (Table.updateChain key res c).2 = Bindings.assign key res c := by
  induction c with
  | nil => rfl
  | cons b c ih =>
    rw [Table.updateChain, Bindings.assign]
    by_cases hb : b.1 = key
    · rw [if_pos hb, if_pos (beq_iff_eq.mpr hb)]
    · rw [if_neg hb, if_neg fun heq => hb (beq_iff_eq.mp heq), ← ih]
      rfl

theorem update_table (h : Hashtable) (key : Text) (res : Res) :
    ((table h).updateInHashTable key res).2 = table (Re.Variables.updateInHashTable h key res) := by
  have hchain := getD_modify h.buckets (Bindings.assign key res) (i := h.index key) (.inl rfl)
  rw [← assign_eq_updateChain] at hchain
  simp only [table, Re.Variables.updateInHashTable, Hashtable.size, List.length_modify, hchain]
  rfl

theorem append_table (hsize : 0 < h.size) (b : Text × Res) :
    (table h).append b.1 b.2 = table (appendToBucket h b) := by
  have hchain := getD_modify h.buckets (· ++ [b]) (i := h.index b.1) (.inr (Nat.mod_lt _ hsize))
  simp only [table, appendToBucket, Hashtable.size, List.length_modify, hchain]
  rfl

theorem size_appendAll (bs : List (Text × Res)) (t : Hashtable) :
    (bs.foldl appendToBucket t).size = t.size := by
  induction bs generalizing t with
  | nil => rfl
  | cons b bs ih => exact (ih _).trans (List.length_modify ..)

theorem insertAll_table (bs : List (Text × Res)) (hsize : 0 < t.size) (hroom : t.len + bs.length ≤ t.size)
    (fuel : Nat) :
    bs.foldlM (fun h2 b => h2.insertIntoHashTable (fuel + 1) b.1 b.2) (table t) =
      some (table (bs.foldl appendToBucket t)) := by
  induction bs generalizing t with
  | nil => rfl
  | cons b bs ih =>
    rw [List.length_cons] at hroom
    have hfits : (table t).dynamic = true → (table t).len < (table t).size := fun _ => by
      show t.len < t.size
      omega
    have hnext : (appendToBucket t b).size = t.size := List.length_modify ..
    rw [List.foldlM_cons, Refines.insert_room hfits, append_table hsize]
    exact ih (hnext ▸ hsize) (by rw [hnext]; exact (by omega : t.len + 1 + bs.length ≤ t.size))

/-- A table that counts its pairs, and is not too full, grows in the same way. -/
theorem insert_table (hsize : 0 < h.size) (hlen : h.entries.length = h.len)
    (hroom : h.dynamic = true → h.len ≤ h.size) (key : Text) (res : Res) :
    (table h).insertIntoHashTable 2 key res = some (table (Re.Variables.insertIntoHashTable h key res)) := by
  have hnew : table (newHashTable2 (h.size * 2)) = Table.new true (h.size * 2) := by
    simp only [table, newHashTable2, Table.new, Hashtable.size, List.length_replicate]
    refine congrArg (fun buckets => (⟨true, _, buckets, 0⟩ : Table Res)) (funext fun i => ?_)
    rw [List.getD_eq_getElem?_getD, List.getElem?_replicate]
    split <;> rfl
  have hsize2 : (newHashTable2 (h.size * 2)).size = h.size * 2 := List.length_replicate
  by_cases hfull : h.dynamic = true ∧ h.size ≤ h.len
  · have hle := hroom hfull.1
    have hgrown := insertAll_table (t := newHashTable2 (h.size * 2)) h.entries (by omega)
      (by rw [hsize2, hlen]; exact (by omega : 0 + h.len ≤ h.size * 2)) 0
    have hkept := (size_appendAll h.entries (newHashTable2 (h.size * 2))).trans hsize2
    have hfull' : (table h).dynamic = true ∧ (table h).len ≥ (table h).size := hfull
    have hnew' : table (newHashTable2 (h.size * 2)) = Table.new true ((table h).size * 2) := hnew
    rw [Table.insertIntoHashTable, if_pos hfull', ← hnew', all_table]
    rw [Re.Variables.insertIntoHashTable, if_pos (by simpa using hfull)]
    rw [hgrown]
    exact congrArg some (append_table (by omega) (key, res))
  · have hfull' : ¬ ((table h).dynamic = true ∧ (table h).len ≥ (table h).size) := hfull
    rw [Table.insertIntoHashTable, if_neg hfull', Re.Variables.insertIntoHashTable,
      if_neg (by simpa using hfull)]
    exact congrArg some (append_table hsize (key, res))

end Buckets

end HashTable
