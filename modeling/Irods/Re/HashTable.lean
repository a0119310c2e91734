-- SUMMARY: The hash tables of the rule engine as association lists.
import Irods.Base.HashQueues
import Irods.Re.Variables

/-!
# Hash tables

A table has a chain of buckets for each index. A dynamic table that is full is replaced by one of twice the
size, into which all chains are inserted again, one after the other. Values are pointers that are not NULL:
NULL is the answer for a key that is not there. Memory does not run out.
-/

namespace HashTable

open CString HashQueues
open Prod (fst snd)

structure Table (V : Type) where
  dynamic : Bool
  size : Nat
  buckets : Nat → List (Text × V)
  len : Nat

namespace Table

variable {V : Type}

/-- `newHashTable`, and `newHashTable2` for a dynamic table. -/
def new (dynamic : Bool) (size : Nat) : Table V := ⟨dynamic, size, fun _ => [], 0⟩

def index (h : Table V) (key : Text) : Nat := Re.Variables.myhash key % h.size

/-- The new bucket goes behind the last one of its chain. -/
def append (h : Table V) (key : Text) (value : V) : Table V :=
  { h with
    buckets := Function.update h.buckets (h.index key) (h.buckets (h.index key) ++ [(key, value)])
    len := h.len + 1 }

/-- All buckets, chain after chain. -/
def all (h : Table V) : List (Text × V) := (List.range h.size).flatMap h.buckets

/-- Calls within calls, `fuel` of them at most. -/
def insertIntoHashTable : Nat → Table V → Text → V → Option (Table V)
  | 0, _, _, _ => none
  | fuel + 1, h, key, value => do
    let h ← if h.dynamic = true ∧ h.len ≥ h.size then
        h.all.foldlM (fun h2 b => insertIntoHashTable fuel h2 b.1 b.2) (new true (h.size * 2))
      else some h
    return h.append key value

def updateChain (key : Text) (value : V) : List (Text × V) → Option V × List (Text × V)
  | [] => (none, [])
  | b :: l => if b.1 = key then (some b.2, (b.1, value) :: l) else (updateChain key value l).map id (b :: ·)

/-- The old value comes back. -/
def updateInHashTable (h : Table V) (key : Text) (value : V) : Option V × Table V :=
  let (old, chain) := updateChain key value (h.buckets (h.index key))
  (old, { h with buckets := Function.update h.buckets (h.index key) chain })

def deleteChain (key : Text) : List (Text × V) → Option V × List (Text × V)
  | [] => (none, [])
  | b :: l => if b.1 = key then (some b.2, l) else (deleteChain key l).map id (b :: ·)

def deleteFromHashTable (h : Table V) (key : Text) : Option V × Table V :=
  let (old, chain) := deleteChain key (h.buckets (h.index key))
  (old, { h with
    buckets := Function.update h.buckets (h.index key) chain
    len := if old.isSome then h.len - 1 else h.len })

def lookupFromHashTable (h : Table V) (key : Text) : Option V :=
  ((h.buckets (h.index key)).find? fun b => b.1 = key).map snd

/-- A pointer to a bucket is the chain from the bucket on. -/
def lookupBucketFromHashTable (h : Table V) (key : Text) : List (Text × V) :=
  (h.buckets (h.index key)).dropWhile fun b => b.1 ≠ key

/-- The chain behind a bucket is given. -/
def nextBucket (next : List (Text × V)) (key : Text) : List (Text × V) := next.dropWhile fun b => b.1 ≠ key

/-- The bucket that comes after `i` calls of `nextBucket`. -/
def bucketAt (h : Table V) (key : Text) : Nat → List (Text × V)
  | 0 => h.lookupBucketFromHashTable key
  | i + 1 => nextBucket (h.bucketAt key i).tail key

end Table

/-! ## Environments -/

/-- The table of an environment and those of its `previous` ones, outwards. -/
abbrev Env (V : Type) := List (Table V)

namespace Env

variable {V : Type}

def lookupFromEnv : Env V → Text → Option V
  | [], _ => none
  | current :: previous, key =>
    match current.lookupFromHashTable key with
    | some val => some val
    | none => lookupFromEnv previous key

/-- The first environment that has the name is `defined`. -/
def updateDefined (varName : Text) (res : V) : Env V → Option (Env V)
  | [] => none
  | defined :: previous =>
    match defined.lookupFromHashTable varName with
    | some _ => some ((defined.updateInHashTable varName res).2 :: previous)
    | none => (updateDefined varName res previous).map (defined :: ·)

def updateInEnv (env : Env V) (varName : Text) (res : V) : Option (Env V) :=
  match env, updateDefined varName res env with
  | _,                   some env' => some env'
  | current :: previous, none => (current.insertIntoHashTable 2 varName res).map (· :: previous)
  | [], none => none

end Env

/-! ## Association lists -/

/-- The oldest binding of a key comes first. -/
abbrev Assoc (V : Type) := List (Text × V)

namespace Assoc

variable {V : Type}

def lookup (l : Assoc V) (key : Text) : Option V := (l.find? fun b => b.1 = key).map snd

def bindings (l : Assoc V) (key : Text) : List (Text × V) := l.filter fun b => b.1 = key

def insert (l : Assoc V) (key : Text) (value : V) : Assoc V := l ++ [(key, value)]

def update (l : Assoc V) (key : Text) (value : V) : Assoc V :=
  modifyFirst (fun b => b.1 = key) (fun b => (b.1, value)) l

def delete (l : Assoc V) (key : Text) : Assoc V := l.eraseP fun b => b.1 = key

/-- The innermost binding of a name, in a chain of lists. -/
def read (ls : List (Assoc V)) (key : Text) : Option V := ls.findSome? fun l => l.lookup key

def write (ls : List (Assoc V)) (key : Text) (value : V) : List (Assoc V) :=
  if (read ls key).isSome then modifyFirst (fun l => (l.lookup key).isSome) (·.update key value) ls
  else ls.modifyHead (·.insert key value)

end Assoc

inductive Op (V : Type) where
  | insert (key : Text) (value : V)
  | update (key : Text) (value : V)
  | delete (key : Text)

namespace Op

variable {V : Type}

/-- An operation on a table, with the old value that comes back. -/
def exec : Op V → Table V → Option (Option V × Table V)
  | insert key value, h => (h.insertIntoHashTable 2 key value).map (none, ·)
  | update key value, h => some (h.updateInHashTable key value)
  | delete key, h => some (h.deleteFromHashTable key)

def run : List (Op V) → Table V → Option (List (Option V) × Table V)
  | [], h => some ([], h)
  | op :: ops, h => do
    let (old, h) ← op.exec h
    let (olds, h) ← run ops h
    return (old :: olds, h)

/-- An operation on a list. -/
def means : Op V → Assoc V → Option V × Assoc V
  | insert key value, l => (none, l.insert key value)
  | update key value, l => (l.lookup key, l.update key value)
  | delete key, l => (l.lookup key, l.delete key)

def meansAll : List (Op V) → Assoc V → List (Option V) × Assoc V
  | [], l => ([], l)
  | op :: ops, l => let (olds, l') := meansAll ops (op.means l).2; ((op.means l).1 :: olds, l')

end Op

/-! ## Refinement -/

variable {V : Type}

/-- The buckets of a key are its bindings, in the chain of its index, and a dynamic table is not too full. -/
structure Refines (h : Table V) (l : Assoc V) : Prop where
  size : 0 < h.size
  room : h.dynamic = true → h.len ≤ h.size
  chains : ∀ key, entries fst h.index h.buckets key = l.bindings key
  placed : ∀ i, ∀ b ∈ h.buckets i, h.index b.1 = i
  len : h.len = l.length

namespace Refines

variable {h : Table V} {l : Assoc V} {key : Text} {value : V}

theorem new (dynamic : Bool) {size : Nat} (hsize : 0 < size) : Refines (Table.new dynamic size : Table V) [] :=
  ⟨hsize, fun _ => Nat.zero_le _, fun _ => rfl, nofun, rfl⟩

theorem lookup (hl : Refines h l) (key : Text) : h.lookupFromHashTable key = l.lookup key := by
  have hchain := hl.chains key
  unfold entries at hchain
  unfold Table.lookupFromHashTable Assoc.lookup
  rw [← List.head?_filter, hchain, Assoc.bindings, List.head?_filter]

theorem append (hl : Refines h l) (hroom : h.dynamic = true → h.len < h.size) (key : Text) (value : V) :
    Refines (h.append key value) (l.insert key value) := by
  refine ⟨hl.size, fun hdynamic => hroom hdynamic, fun k => ?_, fun i b hb => ?_, ?_⟩
  · have hpush := @entries_push _ _ _ _ _ fst h.index h.buckets (key, value) k
    rw [hl.chains k] at hpush
    refine hpush.trans ?_
    rw [Assoc.insert, Assoc.bindings, Assoc.bindings, List.filter_append, List.filter_singleton]
    by_cases hkey : key = k
    · rw [if_pos hkey, decide_eq_true hkey]
      rfl
    · rw [if_neg hkey, decide_eq_false hkey, cond_false, List.append_nil]
  · obtain hold | ⟨rfl, hi⟩ := @mem_push _ _ _ _ fst h.index h.buckets (key, value) b i hb
    · exact hl.placed i b hold
    · exact hi.symm
  · show h.len + 1 = _
    rw [Assoc.insert, List.length_append, hl.len]
    rfl

/-! ## Growth -/

theorem insert_room (hroom : h.dynamic = true → h.len < h.size) (fuel : Nat) (key : Text) (value : V) :
    h.insertIntoHashTable (fuel + 1) key value = some (h.append key value) := by
  rw [Table.insertIntoHashTable, if_neg fun hfull => Nat.not_lt.mpr hfull.2 (hroom hfull.1)]
  rfl

/-- Buckets are inserted one after the other as long as there is room. -/
theorem insertAll (hl : Refines h l) (bs : List (Text × V)) (hroom : l.length + bs.length ≤ h.size) (fuel : Nat) :
    ∃ h', bs.foldlM (fun h2 b => h2.insertIntoHashTable (fuel + 1) b.1 b.2) h = some h' ∧ Refines h' (l ++ bs) ∧
      h'.size = h.size := by
  induction bs generalizing h l with
  | nil => exact ⟨h, rfl, by rwa [List.append_nil], rfl⟩
  | cons b bs ih =>
    rw [List.length_cons] at hroom
    have hone : h.dynamic = true → h.len < h.size := fun _ => by rw [hl.len]; omega
    obtain ⟨h', hrun, hrefines, hsize⟩ := ih (hl.append hone b.1 b.2)
      (by rw [Assoc.insert, List.length_append, List.length_singleton]; exact le_trans (by omega) hroom)
    refine ⟨h', ?_, by simpa [Assoc.insert] using hrefines, hsize⟩
    rw [List.foldlM_cons, insert_room hone]
    exact hrun

theorem flatMap_range {α : Type} {f : Nat → List α} {j n : Nat} (hj : j < n) (h : ∀ i, i ≠ j → f i = []) :
    (List.range n).flatMap f = f j := by
  induction n with
  | zero => omega
  | succ n ih =>
    rw [List.range_succ, List.flatMap_append, List.flatMap_singleton]
    by_cases hn : j = n
    · have hnil : (List.range n).flatMap f = [] := List.flatMap_eq_nil_iff.mpr fun i hi =>
        h i (by have := List.mem_range.mp hi; omega)
      rw [hnil, hn, List.nil_append]
    · rw [ih (by omega), h n (Ne.symm hn), List.append_nil]

/-- Going through all chains meets the bindings of a key in their order. -/
theorem all_bindings (hl : Refines h l) (key : Text) : Assoc.bindings h.all key = l.bindings key := by
  rw [← hl.chains key, Assoc.bindings, Table.all, List.filter_flatMap]
  refine flatMap_range (Nat.mod_lt _ hl.size) fun i hi => List.filter_eq_nil_iff.mpr fun b hb hkey => hi ?_
  rw [← hl.placed i b hb, of_decide_eq_true hkey]

open Classical in
/-- Lists with the same bindings for every key differ in the order of the keys only. -/
theorem all_perm (hl : Refines h l) : h.all.Perm l := by
  refine List.perm_iff_count.mpr fun b => ?_
  have hcount (m : List (Text × V)) : List.count b m = List.count b (Assoc.bindings m b.1) := by
    simp [Assoc.bindings, List.count_filter]
  rw [hcount h.all, hcount l, hl.all_bindings]

theorem insert (hl : Refines h l) (key : Text) (value : V) :
    ∃ h', h.insertIntoHashTable 2 key value = some h' ∧ Refines h' (l.insert key value) := by
  by_cases hfull : h.dynamic = true ∧ h.len ≥ h.size
  · have hlen := hl.all_perm.length_eq
    have hle := hl.room hfull.1
    have hpos := hl.size
    obtain ⟨g, hrun, hg, hsize⟩ := (new true (by omega : 0 < h.size * 2)).insertAll h.all
      (by rw [List.length_nil, hlen, ← hl.len]; show _ ≤ h.size * 2; omega) 0
    have hg' : Refines g l := ⟨hg.size, hg.room, fun k => (hg.chains k).trans (hl.all_bindings k),
      hg.placed, hg.len.trans hlen⟩
    refine ⟨g.append key value, ?_, hg'.append (fun _ => ?_) key value⟩
    · rw [Table.insertIntoHashTable, if_pos hfull, hrun]
      rfl
    · rw [hg'.len, ← hl.len, hsize]
      show _ < h.size * 2
      omega
  · have hroom (hdynamic : h.dynamic = true) : h.len < h.size := Nat.lt_of_not_le fun hle => hfull ⟨hdynamic, hle⟩
    exact ⟨_, insert_room hroom 1 key value, hl.append hroom key value⟩

/-! ## Changing and taking out the first bucket -/

theorem updateChain_eq (key : Text) (value : V) (c : List (Text × V)) : Table.updateChain key value c =
    ((c.find? fun b => b.1 = key).map snd, modifyFirst (fun b => b.1 = key) (fun b => (b.1, value)) c) := by
  induction c with
  | nil => rfl
  | cons b c ih =>
    rw [Table.updateChain, modifyFirst, ih]
    by_cases hb : b.1 = key
    · rw [if_pos hb, if_pos (by simpa using hb), List.find?_cons_of_pos (by simpa using hb)]
      rfl
    · rw [if_neg hb, if_neg (by simpa using hb), List.find?_cons_of_neg (by simpa using hb)]
      rfl

theorem deleteChain_eq (key : Text) (c : List (Text × V)) : Table.deleteChain key c =
    ((c.find? fun b => b.1 = key).map snd, c.eraseP fun b => b.1 = key) := by
  induction c with
  | nil => rfl
  | cons b c ih =>
    rw [Table.deleteChain, ih]
    by_cases hb : b.1 = key
    · rw [if_pos hb, List.eraseP_cons_of_pos (by simpa using hb), List.find?_cons_of_pos (by simpa using hb)]
      rfl
    · rw [if_neg hb, List.eraseP_cons_of_neg (by simpa using hb), List.find?_cons_of_neg (by simpa using hb)]
      rfl

/-- A list is a table with one chain. -/
theorem bindings_update (l : Assoc V) (key : Text) (value : V) (k : Text) : (l.update key value).bindings k =
    if k = key then (l.bindings key).modifyHead fun b => (b.1, value) else l.bindings k := by
  have := @entries_modify Unit _ _ _ _ fst (fun _ => ()) (fun _ => l) key k (fun b => (b.1, value)) fun _ => rfl
  simpa [entries, HashQueues.modify, Assoc.bindings, Assoc.update] using this

theorem bindings_delete (l : Assoc V) (key k : Text) : (l.delete key).bindings k =
    if k = key then (l.bindings key).tail else l.bindings k := by
  have := @entries_remove Unit _ _ _ _ fst (fun _ => ()) (fun _ => l) key k
  simpa [entries, remove, Assoc.bindings, Assoc.delete] using this

theorem length_update (l : Assoc V) (key : Text) (value : V) : (l.update key value).length = l.length := by
  unfold Assoc.update
  induction l with
  | nil => rfl
  | cons b l ih =>
    rw [modifyFirst]
    split
    · rfl
    · rw [List.length_cons, ih, List.length_cons]

theorem update (hl : Refines h l) (key : Text) (value : V) :
    (h.updateInHashTable key value).1 = l.lookup key ∧
    Refines (h.updateInHashTable key value).2 (l.update key value) := by
  rw [← hl.lookup key, Table.updateInHashTable, updateChain_eq]
  refine ⟨rfl, hl.size, hl.room, fun k => ?_, fun i b hb => ?_, ?_⟩
  · have hmodify := @entries_modify _ _ _ _ _ fst h.index h.buckets key k (fun b => (b.1, value)) fun _ => rfl
    rw [hl.chains k, hl.chains key, ← bindings_update] at hmodify
    exact hmodify
  · obtain hold | ⟨-, b', hb', -, rfl⟩ := @mem_modify _ _ _ _ _ fst h.index h.buckets key (fun b => (b.1, value)) b i hb
    · exact hl.placed i b hold
    · exact hl.placed i b' hb'
  · exact hl.len.trans (length_update l key value).symm

theorem delete (hl : Refines h l) (key : Text) :
    (h.deleteFromHashTable key).1 = l.lookup key ∧ Refines (h.deleteFromHashTable key).2 (l.delete key) := by
  have hlookup := hl.lookup key
  unfold Table.lookupFromHashTable at hlookup
  have hlen : (if (l.lookup key).isSome then h.len - 1 else h.len) = (l.delete key).length := by
    have hany : (l.lookup key).isSome = l.any fun b => b.1 = key := by
      rw [Assoc.lookup, Option.isSome_map, Bool.eq_iff_iff, List.find?_isSome, List.any_eq_true]
    rw [Assoc.delete, List.length_eraseP, hl.len, hany]
  rw [Table.deleteFromHashTable, deleteChain_eq]
  refine ⟨hlookup, hl.size, fun hdynamic => ?_, fun k => ?_, fun i b hb => ?_, ?_⟩
  · refine le_trans ?_ (hl.room hdynamic)
    show (if _ then _ else _) ≤ h.len
    split
    · exact Nat.sub_le _ _
    · exact le_refl _
  · have hremove := @entries_remove _ _ _ _ _ fst h.index h.buckets key k
    rw [hl.chains k, hl.chains key, ← bindings_delete] at hremove
    exact hremove
  · exact hl.placed i b (@mem_remove _ _ _ _ _ fst h.index h.buckets key b i hb)
  · rw [hlookup]
    exact hlen

/-! ## Enumeration -/

/-- What is skipped are buckets of other keys. -/
theorem nextBucket_spec (c : List (Text × V)) (key : Text) :
    Assoc.bindings (Table.nextBucket c key) key = Assoc.bindings c key ∧
      (Table.nextBucket c key).head? = (Assoc.bindings c key).head? := by
  unfold Table.nextBucket Assoc.bindings
  induction c with
  | nil => exact ⟨rfl, rfl⟩
  | cons b c ih =>
    by_cases hb : b.1 = key
    · rw [List.dropWhile_cons_of_neg (by simpa using hb), List.filter_cons_of_pos (by simpa using hb)]
      exact ⟨rfl, rfl⟩
    · rw [List.dropWhile_cons_of_pos (by simpa using hb), List.filter_cons_of_neg (by simpa using hb)]
      exact ih

theorem bindings_tail {c : List (Text × V)} (hhead : c.head? = (Assoc.bindings c key).head?) :
    Assoc.bindings c.tail key = (Assoc.bindings c key).tail := by
  cases c with
  | nil => rfl
  | cons b c =>
    have hb : b.1 = key := by
      have hmem := List.mem_of_head? hhead.symm
      exact of_decide_eq_true (List.mem_filter.mp hmem).2
    rw [Assoc.bindings, Assoc.bindings, List.filter_cons_of_pos (by simpa using hb)]
    rfl

/-- The buckets come in the order of the bindings. -/
theorem bucketAt (hl : Refines h l) (key : Text) (i : Nat) : (h.bucketAt key i).head? = (l.bindings key)[i]? := by
  have hdrop : Assoc.bindings (h.bucketAt key i) key = (l.bindings key).drop i ∧
      (h.bucketAt key i).head? = (Assoc.bindings (h.bucketAt key i) key).head? := by
    induction i with
    | zero =>
      obtain ⟨hbindings, hhead⟩ := nextBucket_spec (h.buckets (h.index key)) key
      exact ⟨hbindings.trans (hl.chains key), hhead.trans (congrArg _ hbindings).symm⟩
    | succ i ih =>
      obtain ⟨hbindings, hhead⟩ := nextBucket_spec (h.bucketAt key i).tail key
      refine ⟨?_, hhead.trans (congrArg _ hbindings).symm⟩
      rw [Table.bucketAt, hbindings, bindings_tail ih.2, ih.1, List.tail_drop]
  rw [hdrop.2, hdrop.1, List.head?_drop]

/-! ## Runs -/

theorem exec (hl : Refines h l) (op : Op V) : ∃ h', op.exec h = some ((op.means l).1, h') ∧
    Refines h' (op.means l).2 := by
  cases op with
  | insert key value =>
    obtain ⟨h', hrun, hl'⟩ := hl.insert key value
    exact ⟨h', by rw [Op.exec, hrun]; rfl, hl'⟩
  | update key value =>
    obtain ⟨hold, hl'⟩ := hl.update key value
    exact ⟨_, congrArg (fun old => some (old, _)) hold, hl'⟩
  | delete key =>
    obtain ⟨hold, hl'⟩ := hl.delete key
    exact ⟨_, congrArg (fun old => some (old, _)) hold, hl'⟩

theorem run (hl : Refines h l) (ops : List (Op V)) :
    ∃ h', Op.run ops h = some ((Op.meansAll ops l).1, h') ∧ Refines h' (Op.meansAll ops l).2 := by
  induction ops generalizing h l with
  | nil => exact ⟨h, rfl, hl⟩
  | cons op ops ih =>
    obtain ⟨h₁, hexec, hl₁⟩ := hl.exec op
    obtain ⟨h', hrun, hl'⟩ := ih hl₁
    refine ⟨h', ?_, hl'⟩
    rw [Op.run, hexec]
    simp only [Option.bind_eq_bind, Option.bind_some, hrun]
    rfl

end Refines

/-! ## Chains of environments -/

section Chains

variable {env : Env V} {ls : List (Assoc V)}

theorem lookupFromEnv_eq (h : List.Forall₂ Refines env ls) (key : Text) :
    Env.lookupFromEnv env key = Assoc.read ls key := by
  induction h with
  | nil => rfl
  | cons hl _ ih =>
    rw [Env.lookupFromEnv, hl.lookup, Assoc.read, List.findSome?_cons]
    split
    · rename_i heq
      rw [heq]
    · rename_i heq
      rw [heq]
      exact ih

/-- The innermost list that has the name is changed. -/
theorem updateDefined_spec (h : List.Forall₂ Refines env ls) (varName : Text) (res : V) :
    ((Assoc.read ls varName).isSome = true → ∃ env', Env.updateDefined varName res env = some env' ∧
      List.Forall₂ Refines env' (modifyFirst (fun l => (l.lookup varName).isSome) (·.update varName res) ls)) ∧
    (¬ (Assoc.read ls varName).isSome = true → Env.updateDefined varName res env = none) := by
  induction h with
  | nil => exact ⟨nofun, fun _ => rfl⟩
  | @cons current l previous ls hl hrest ih =>
    rw [Assoc.read, List.findSome?_cons, Env.updateDefined, hl.lookup, modifyFirst]
    cases hfound : l.lookup varName with
    | some old => exact ⟨fun _ => ⟨_, rfl, .cons (hl.update varName res).2 hrest⟩, fun hout => absurd rfl hout⟩
    | none =>
      refine ⟨fun hin => ?_, fun hout => ?_⟩
      · obtain ⟨env', hrun, henv'⟩ := ih.1 hin
        exact ⟨current :: env', congrArg (Option.map _) hrun, .cons hl henv'⟩
      · exact congrArg (Option.map _) (ih.2 hout)

theorem updateInEnv_spec (h : List.Forall₂ Refines env ls) (hne : env ≠ []) (varName : Text) (res : V) :
    ∃ env', Env.updateInEnv env varName res = some env' ∧ List.Forall₂ Refines env' (Assoc.write ls varName res) := by
  obtain ⟨hdefined, hnone⟩ := updateDefined_spec h varName res
  rw [Assoc.write]
  split
  · rename_i hin
    obtain ⟨env', hrun, henv'⟩ := hdefined hin
    exact ⟨env', by cases env <;> simp [Env.updateInEnv, hrun], henv'⟩
  · rename_i hout
    have hrun := hnone hout
    cases h with
    | nil => exact absurd rfl hne
    | cons hl hrest =>
      obtain ⟨h', hinsert, hl'⟩ := hl.insert varName res
      exact ⟨_, by simp only [Env.updateInEnv, hrun, hinsert, Option.map_some], .cons hl' hrest⟩

end Chains

/-- What a run leaves can be told from the list only. -/
structure Shows (h : Table V) (l : Assoc V) : Prop where
  lookup : ∀ key, h.lookupFromHashTable key = l.lookup key
  enumerates : ∀ key i, (h.bucketAt key i).head? = (l.bindings key)[i]?
  len : h.len = l.length

variable {h : Table V} {l : Assoc V}

theorem Refines.shows (hl : Refines h l) : Shows h l := ⟨hl.lookup, hl.bucketAt, hl.len⟩

/-- A table that a run leaves, with its list. -/
def Reached (h : Table V) (l : Assoc V) : Prop :=
  ∃ dynamic size ops olds, 0 < size ∧ Op.run ops (Table.new dynamic size) = some (olds, h) ∧ (Op.meansAll ops []).2 = l

theorem Reached.refines (hreached : Reached h l) : Refines h l := by
  obtain ⟨dynamic, size, ops, olds, hsize, hrun, rfl⟩ := hreached
  obtain ⟨h', hrun', hl⟩ := (Refines.new dynamic hsize).run ops
  obtain ⟨-, rfl⟩ := Prod.mk.inj (Option.some.inj (hrun.symm.trans hrun'))
  exact hl

/-- Every run on a table answers and leaves what it does on a list; a chain of environments with such tables reads
and writes the innermost binding. -/
theorem tables_refine_lists :
    (∀ (dynamic : Bool) (size : Nat) (ops : List (Op V)), 0 < size → ∃ h,
      Op.run ops (Table.new dynamic size) = some ((Op.meansAll ops []).1, h) ∧ Shows h (Op.meansAll ops []).2) ∧
    ∀ (env : Env V) (ls : List (Assoc V)), List.Forall₂ Reached env ls → ∀ key,
      Env.lookupFromEnv env key = Assoc.read ls key ∧
      ∀ value, env ≠ [] → ∃ env', Env.updateInEnv env key value = some env' ∧
        List.Forall₂ Shows env' (Assoc.write ls key value) := by
  refine ⟨fun dynamic size ops hsize => ?_, fun env ls hreached key => ?_⟩
  · obtain ⟨h, hrun, hl⟩ := (Refines.new dynamic hsize).run ops
    exact ⟨h, hrun, hl.shows⟩
  · have hrefines := hreached.imp fun _ _ => Reached.refines
    refine ⟨lookupFromEnv_eq hrefines key, fun value hne => ?_⟩
    obtain ⟨env', hrun, henv'⟩ := updateInEnv_spec hrefines hne key value
    exact ⟨env', hrun, henv'.imp fun _ _ => Refines.shows⟩

theorem tables_refine_lists_twice : ∃ h : Table Nat,
    Op.run [.insert "a".toList 1, .insert "a".toList 2, .delete "a".toList] (Table.new true 1) =
      some ([none, none, some 1], h) ∧ Shows h [("a".toList, 2)] :=
  tables_refine_lists.1 true 1 [.insert "a".toList 1, .insert "a".toList 2, .delete "a".toList] (by decide)

end HashTable
