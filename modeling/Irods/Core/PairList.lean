-- SUMMARY: keyValPair_t in its arrays, as a finite map in the order of insertion.
import Irods.Api.RodsDef
import Irods.Base.Cells
import Irods.Base.CString

/-!
# Lists of pairs

A `keyValPair_t` has two parallel arrays. Their size is not stored: `addKeyVal` takes it for the next
multiple of `PTR_ARRAY_MALLOC_LEN`, and `rmKeyVal` lowers the length without making the arrays smaller.
`inxIvalPair_t` and `inxValPair_t` are laid out alike, with numbers as keys. A copy that `strdup` makes is
the text itself, an array that is NULL has no cells, and no list is NULL. An operation has no result
(`none`) where the code would go outside of an array, or follow a NULL in one.
-/

/-- Two parallel arrays, and how many of their cells are in use. -/
structure PairList (α β : Type) where
  len : Nat
  key : Cells α
  value : Cells β
  deriving DecidableEq

namespace PairList

section Adding

variable {α β : Type}

def empty : PairList α β := ⟨0, [], []⟩

/-- A pair behind the others, in larger arrays at each multiple of `PTR_ARRAY_MALLOC_LEN`. -/
def append (l : PairList α β) (a : α) (b : β) : Option (PairList α β) := do
  let key ← Cells.grown PTR_ARRAY_MALLOC_LEN l.len l.key
  let value ← Cells.grown PTR_ARRAY_MALLOC_LEN l.len l.value
  return ⟨l.len + 1, ← Cells.put key l.len (some a), ← Cells.put value l.len (some b)⟩

/-- The pairs are in the first cells, and the arrays end at a multiple of `PTR_ARRAY_MALLOC_LEN`. -/
structure Shows (l : PairList α β) (ps : List (α × β)) : Prop where
  len : l.len = ps.length
  key : Cells.Kept PTR_ARRAY_MALLOC_LEN l.key (ps.map Prod.fst)
  value : Cells.Kept PTR_ARRAY_MALLOC_LEN l.value (ps.map Prod.snd)

variable {l : PairList α β} {ps : List (α × β)} {a : α} {b : β}

theorem shows_empty : Shows (empty : PairList α β) [] := ⟨rfl, .nil, .nil⟩

theorem append_spec (h : Shows l ps) (a : α) (b : β) :
    ∃ l', append l a b = some l' ∧ Shows l' (ps ++ [(a, b)]) := by
  obtain ⟨key, hkey, hput, hkept⟩ := h.key.push (by decide) a
  obtain ⟨value, hvalue, hput', hkept'⟩ := h.value.push (by decide) b
  rw [List.length_map, ← h.len] at hkey hput hkept hvalue hput' hkept'
  refine ⟨⟨l.len + 1, key.set l.len (some a), value.set l.len (some b)⟩, ?_, ?_, ?_, ?_⟩
  · simp only [append, hkey, hvalue, hput, hput', Option.bind_eq_bind, Option.bind_some]
    rfl
  · simp [h.len]
  · simpa using hkept
  · simpa using hkept'

/-- Pairs are added one by one. -/
def appendAll (l : PairList α β) (qs : List (α × β)) : Option (PairList α β) :=
  qs.foldlM (fun l q => append l q.1 q.2) l

theorem appendAll_spec (h : Shows l ps) (qs : List (α × β)) : ∃ l', appendAll l qs = some l' ∧ Shows l' (ps ++ qs) := by
  induction qs generalizing l ps with
  | nil => exact ⟨l, rfl, by rwa [List.append_nil]⟩
  | cons q qs ih =>
    obtain ⟨l₁, hadd, hshows₁⟩ := append_spec h q.1 q.2
    obtain ⟨l', hrun, hshows⟩ := ih hshows₁
    refine ⟨l', ?_, by simpa using hshows⟩
    rw [appendAll, List.foldlM_cons, hadd]
    exact hrun

/-- Nothing is added to arrays that are full, except where they are made larger. -/
theorem append_full (hfull : l.key.length = l.len) (hmod : ¬ PTR_ARRAY_MALLOC_LEN ∣ l.len) (a : α) (b : β) :
    append l a b = none := by
  have hgrown : Cells.grown PTR_ARRAY_MALLOC_LEN l.len l.key = some l.key :=
    if_neg fun hzero => hmod (Nat.dvd_of_mod_eq_zero hzero)
  have hput : Cells.put l.key l.len (some a) = none := if_neg (by omega)
  simp only [append, hgrown, hput, Option.bind_eq_bind, Option.bind_some, Option.bind_none]
  cases Cells.grown PTR_ARRAY_MALLOC_LEN l.len l.value <;> rfl

end Adding

end PairList

/-! ## keyValPair_t -/

abbrev KeyValPair := PairList Text Text

namespace KeyValPair

open PairList (Shows)
open List (length_append map_cons mem_cons mem_cons_self)

/-- The first cell from `i` on, among `n`, for which the test holds. -/
def search (test : Option Text → Option Bool) (keyWord : Cells Text) (i : Nat) : Nat → Option (Option Nat)
  | 0 => some none
  | n + 1 => do
    if ← test (← keyWord[i]?) then some (some i)
    else search test keyWord (i + 1) n

def getValByKey (condInput : KeyValPair) (keyWord : Text) : Option (Option Text) := do
  match ← search (fun c => c.map (· == keyWord)) condInput.key 0 condInput.len with
  | none => return none
  | some i => condInput.value[i]?

/-- Where `addKeyVal` puts a pair. -/
inductive Place where
  | found (i : Nat)
  | unused (emptyInx : Nat)
  | next
  deriving DecidableEq

/-- The cell of the key, or the last one of an empty key. -/
def findPlace (keyWord : Text) (key : Cells Text) (i : Nat) (emptyInx : Option Nat) : Nat → Option Place
  | 0 => some (emptyInx.elim .next .unused)
  | n + 1 => do
    let k ← (key[i]?).join
    if keyWord = k then some (.found i)
    else findPlace keyWord key (i + 1) (if k = [] then some i else emptyInx) n

def addKeyVal (condInput : KeyValPair) (keyWord value : Text) : Option KeyValPair := do
  match ← findPlace keyWord condInput.key 0 none condInput.len with
  | .found i => return { condInput with value := ← Cells.put condInput.value i (some value) }
  | .unused emptyInx =>
    let key ← Cells.put condInput.key emptyInx (some keyWord)
    return { condInput with key, value := ← Cells.put condInput.value emptyInx (some value) }
  | .next => condInput.append keyWord value

def rmKeyVal (condInput : KeyValPair) (keyWord : Text) : Option KeyValPair := do
  match ← search (fun c => some (c == some keyWord)) condInput.key 0 condInput.len with
  | none => return condInput
  | some i =>
    let len := condInput.len - 1
    let key ← Cells.shift condInput.key i (len - i)
    let value ← Cells.shift condInput.value i (len - i)
    return if len ≤ 0 then .empty else ⟨len, key, value⟩

/-- The pairs of the source from `i` on, `n` of them, are added to the destination. -/
def addAll (src : KeyValPair) (dest : KeyValPair) (i : Nat) : Nat → Option KeyValPair
  | 0 => some dest
  | n + 1 => do
    let dest ← addKeyVal dest (← (src.key[i]?).join) (← (src.value[i]?).join)
    addAll src dest (i + 1) n

/-! ## Looking for a key -/

section Searching

variable (test : Option Text → Option Bool) {key : Cells Text} (front : List Text) {mid back : List Text} {k : Text}

theorem search_absent (h : Cells.Holds key (front ++ back)) (hback : ∀ k ∈ back, test (some k) = some false) :
    search test key front.length back.length = some none := by
  induction back generalizing front with
  | nil => rfl
  | cons k back ih =>
    have hcell : key[front.length]? = some (some k) := h.getElem?_length
    have hrest := ih (front ++ [k]) (by simpa using h) fun k hk => hback k (List.mem_cons_of_mem _ hk)
    simpa [search, hcell, hback k mem_cons_self] using hrest

theorem search_found (h : Cells.Holds key (front ++ (mid ++ k :: back))) (hmid : ∀ k ∈ mid, test (some k) = some false)
    (hk : test (some k) = some true) :
    search test key front.length (mid ++ k :: back).length = some (some (front.length + mid.length)) := by
  induction mid generalizing front with
  | nil =>
    have hcell : key[front.length]? = some (some k) := h.getElem?_length
    simp [search, hcell, hk]
  | cons c mid ih =>
    have hcell : key[front.length]? = some (some c) := h.getElem?_length
    have hrest := ih (front ++ [c]) (by simpa using h) fun k hk => hmid k (List.mem_cons_of_mem _ hk)
    rw [length_append, List.length_singleton, Nat.add_assoc, Nat.add_comm 1] at hrest
    simpa [search, hcell, hmid c mem_cons_self] using hrest

theorem findPlace_next (h : Cells.Holds key (front ++ back)) (hback : ∀ c ∈ back, c ≠ [] ∧ k ≠ c) :
    findPlace k key front.length none back.length = some .next := by
  induction back generalizing front with
  | nil => rfl
  | cons c back ih =>
    obtain ⟨hne, hk⟩ := hback c mem_cons_self
    have hcell : key[front.length]? = some (some c) := h.getElem?_length
    have hrest := ih (front ++ [c]) (by simpa using h) fun c hc => hback c (List.mem_cons_of_mem _ hc)
    simpa [findPlace, hcell, hne, hk] using hrest

/-- A key that is there is found, whatever came in front of it. -/
theorem findPlace_found (h : Cells.Holds key (front ++ (mid ++ k :: back))) (hmid : k ∉ mid) (emptyInx : Option Nat) :
    findPlace k key front.length emptyInx (mid ++ k :: back).length = some (.found (front.length + mid.length)) := by
  induction mid generalizing front emptyInx with
  | nil =>
    have hcell : key[front.length]? = some (some k) := h.getElem?_length
    simp [findPlace, hcell]
  | cons c mid ih =>
    obtain ⟨hk, hmid⟩ := not_or.mp fun hmem => hmid (mem_cons.mpr hmem)
    have hcell : key[front.length]? = some (some c) := h.getElem?_length
    have hrest := ih (front ++ [c]) (by simpa using h) hmid (if c = [] then some front.length else emptyInx)
    rw [length_append, List.length_singleton, Nat.add_assoc, Nat.add_comm 1] at hrest
    simpa [findPlace, hcell, hk] using hrest

/-- The cell of an empty key is taken for a new key. -/
theorem findPlace_unused (h : Cells.Holds key (front ++ back)) (hk : k ∉ back) (emptyInx : Option Nat)
    (hempty : emptyInx ≠ none ∨ [] ∈ back) : ∃ j, (emptyInx = some j ∨ (front ++ back)[j]? = some []) ∧
      findPlace k key front.length emptyInx back.length = some (.unused j) := by
  induction back generalizing front emptyInx with
  | nil =>
    obtain ⟨j, rfl⟩ := Option.ne_none_iff_exists'.mp (hempty.resolve_right List.not_mem_nil)
    exact ⟨j, .inl rfl, rfl⟩
  | cons c back ih =>
    obtain ⟨hc, hk⟩ := not_or.mp fun hmem => hk (mem_cons.mpr hmem)
    have hcell : key[front.length]? = some (some c) := h.getElem?_length
    have hstep : findPlace k key front.length emptyInx (c :: back).length =
        findPlace k key (front.length + 1) (if c = [] then some front.length else emptyInx) back.length := by
      simp [findPlace, hcell, hc]
    have hnext : (if c = [] then some front.length else emptyInx) ≠ none ∨ [] ∈ back := by
      by_cases hc : c = []
      · exact .inl (by rw [if_pos hc]; nofun)
      · rw [if_neg hc]
        exact hempty.imp_right fun hmem => (mem_cons.mp hmem).resolve_left fun heq => hc heq.symm
    obtain ⟨j, hj, hrest⟩ := ih (front ++ [c]) (by simpa using h) hk _ hnext
    rw [length_append, List.length_singleton] at hrest
    refine ⟨j, ?_, hstep.trans hrest⟩
    rw [List.append_assoc] at hj
    by_cases hc : c = []
    · rw [if_pos hc] at hj
      refine .inr (hj.elim (fun heq => ?_) id)
      rw [← Option.some.inj heq, List.getElem?_append_right le_rfl, Nat.sub_self, hc]
      rfl
    · rwa [if_neg hc] at hj

end Searching

/-! ## Lists with distinct keys -/

def keys (ps : List (Text × Text)) : List Text := ps.map Prod.fst

/-- The value of the key is replaced in place; a new key goes behind the others. -/
def insertPair (k v : Text) : List (Text × Text) → List (Text × Text)
  | [] => [(k, v)]
  | p :: ps => if p.1 = k then (k, v) :: ps else p :: insertPair k v ps

def removePair (k : Text) (ps : List (Text × Text)) : List (Text × Text) := ps.filter fun p => p.1 ≠ k

section Pairs

variable {ps front back : List (Text × Text)} {k v v' : Text}

theorem insertPair_absent (h : k ∉ keys ps) : insertPair k v ps = ps ++ [(k, v)] := by
  induction ps with
  | nil => rfl
  | cons p ps ih =>
    obtain ⟨hne, hrest⟩ := not_or.mp fun hmem => h (mem_cons.mpr hmem)
    rw [insertPair, if_neg fun heq => hne heq.symm, ih hrest]
    rfl

theorem insertPair_present (h : k ∉ keys front) :
    insertPair k v (front ++ (k, v') :: back) = front ++ (k, v) :: back := by
  induction front with
  | nil => exact if_pos rfl
  | cons p front ih =>
    obtain ⟨hne, hrest⟩ := not_or.mp fun hmem => h (mem_cons.mpr hmem)
    rw [List.cons_append, insertPair, if_neg fun heq => hne heq.symm, ih hrest]
    rfl

theorem removePair_absent (h : k ∉ keys ps) : removePair k ps = ps := by
  refine List.filter_eq_self.mpr fun p hp => decide_eq_true fun heq => h ?_
  exact heq ▸ List.mem_map_of_mem hp

theorem removePair_present (h : (keys (front ++ (k, v) :: back)).Nodup) :
    removePair k (front ++ (k, v) :: back) = front ++ back := by
  rw [keys, List.map_append, map_cons] at h
  have hfront : k ∉ keys front := fun hmem => (List.nodup_append.mp h).2.2 k hmem k mem_cons_self rfl
  have hback : k ∉ keys back := (List.nodup_cons.mp (List.nodup_append.mp h).2.1).1
  have hparts := congrArg₂ (· ++ ·) (removePair_absent hfront) (removePair_absent hback)
  simpa [removePair] using hparts

/-- The pair of a key is the only one. -/
theorem absent_or_present (k : Text) (ps : List (Text × Text)) :
    k ∉ keys ps ∨ ∃ front v back, ps = front ++ (k, v) :: back ∧ k ∉ keys front := by
  induction ps with
  | nil => exact .inl nofun
  | cons p ps ih =>
    by_cases hp : p.1 = k
    · exact .inr ⟨[], p.2, ps, by rw [← hp]; rfl, nofun⟩
    · have hcons {l : List (Text × Text)} (hl : k ∉ keys l) : k ∉ keys (p :: l) := fun hmem =>
        (mem_cons.mp hmem).elim (fun heq => hp heq.symm) hl
      obtain habsent | ⟨front, v, back, rfl, hfront⟩ := ih
      · exact .inl (hcons habsent)
      · exact .inr ⟨p :: front, v, back, rfl, hcons hfront⟩

theorem lookup_absent (h : k ∉ keys ps) : ps.lookup k = none := by
  refine List.lookup_eq_none_iff.mpr fun p hp => bne_iff_ne.mpr fun heq => h ?_
  exact heq ▸ List.mem_map_of_mem hp

theorem lookup_present (h : k ∉ keys front) : (front ++ (k, v) :: back).lookup k = some v := by
  rw [List.lookup_append, lookup_absent h, List.lookup_cons_self]
  rfl

theorem lookup_pair (p : Text × Text) (k : Text) (ps : List (Text × Text)) :
    (p :: ps).lookup k = if p.1 = k then some p.2 else ps.lookup k := by
  rw [List.lookup_cons]
  split
  · rename_i h
    rw [if_pos (eq_of_beq h).symm]
  · rename_i h
    rw [if_neg fun heq : p.1 = k => beq_eq_false_iff_ne.mp h heq.symm]

theorem lookup_insertPair (k v k' : Text) (ps : List (Text × Text)) :
    (insertPair k v ps).lookup k' = if k = k' then some v else ps.lookup k' := by
  induction ps with
  | nil => exact lookup_pair (k, v) k' []
  | cons p ps ih =>
    by_cases hp : p.1 = k
    · rw [insertPair, if_pos hp, lookup_pair, lookup_pair, hp]
      split_ifs <;> rfl
    · rw [insertPair, if_neg hp, lookup_pair, lookup_pair, ih]
      by_cases h : p.1 = k'
      · rw [if_pos h, if_neg fun heq => hp (h.trans heq.symm), if_pos h]
      · rw [if_neg h, if_neg h]

theorem lookup_removePair (k k' : Text) (ps : List (Text × Text)) :
    (removePair k ps).lookup k' = if k = k' then none else ps.lookup k' := by
  induction ps with
  | nil => split_ifs <;> rfl
  | cons p ps ih =>
    by_cases hp : p.1 = k
    · rw [removePair, List.filter_cons_of_neg (by simp [hp]), lookup_pair, hp]
      refine ih.trans ?_
      split_ifs <;> rfl
    · rw [removePair, List.filter_cons_of_pos (by simp [hp]), lookup_pair, lookup_pair]
      by_cases h : p.1 = k'
      · rw [if_pos h, if_neg fun heq => hp (h.trans heq.symm), if_pos h]
      · rw [if_neg h, if_neg h]
        exact ih

end Pairs

/-! ## The operations on lists with distinct keys -/

/-- A list of pairs with distinct and non-empty keys. -/
structure Represents (l : KeyValPair) (ps : List (Text × Text)) : Prop where
  shows : Shows l ps
  nodup : (keys ps).Nodup
  nonempty : ∀ k ∈ keys ps, k ≠ []

section Operations

variable {l : KeyValPair} {ps : List (Text × Text)} {k v : Text}

theorem represents_empty : Represents .empty [] := ⟨PairList.shows_empty, List.nodup_nil, nofun⟩

theorem search_eq (test : Option Text → Option Bool) (p : Text → Bool) (htest : ∀ c, test (some c) = some (p c))
    (h : Shows l ps) (hp : ∀ c, p c = true ↔ c = k) :
    (k ∉ keys ps ∧ search test l.key 0 l.len = some none) ∨
      ∃ front v back, ps = front ++ (k, v) :: back ∧ k ∉ keys front ∧
      search test l.key 0 l.len = some (some front.length) := by
  have hne {c : Text} (hc : c ≠ k) : test (some c) = some false := by
    rw [htest, Bool.eq_false_iff.mpr (fun htrue => hc ((hp c).mp htrue))]
  obtain habsent | ⟨front, v, back, rfl, hfront⟩ := absent_or_present k ps
  · left
    have := search_absent test [] h.key.holds fun c hc => hne fun heq => habsent (heq ▸ hc)
    rw [List.length_map, ← h.len] at this
    exact ⟨habsent, this⟩
  · right
    refine ⟨front, v, back, rfl, hfront, ?_⟩
    have hholds := h.key.holds
    rw [List.map_append, map_cons] at hholds
    have := search_found test [] hholds
      (fun c hc => hne fun heq => hfront (heq ▸ hc)) (by rw [htest, (hp k).mpr rfl])
    simpa [keys, h.len] using this

theorem getValByKey_spec (h : Shows l ps) (k : Text) : getValByKey l k = some (ps.lookup k) := by
  unfold getValByKey
  obtain ⟨habsent, hsearch⟩ | ⟨front, v, back, rfl, hfront, hsearch⟩ :=
    search_eq (fun c => c.map (· == k)) (· == k) (fun _ => rfl) h (fun c => beq_iff_eq)
  · rw [hsearch, lookup_absent habsent]
    rfl
  · rw [hsearch, lookup_present hfront]
    have hvalue := h.value.holds
    rw [List.map_append, map_cons] at hvalue
    have := hvalue.getElem?_length
    rwa [List.length_map] at this

theorem keys_append_cons (front back : List (Text × Text)) (k v : Text) :
    keys (front ++ (k, v) :: back) = keys front ++ k :: keys back := by
  rw [keys, List.map_append, map_cons]
  rfl

/-- The value of a key that is there is replaced; a new key goes behind the others where none of them is empty. -/
theorem addKeyVal_insertPair (h : Shows l ps) (hk : k ∈ keys ps ∨ [] ∉ keys ps) (v : Text) :
    ∃ l', addKeyVal l k v = some l' ∧ Shows l' (insertPair k v ps) := by
  obtain habsent | ⟨front, v', back, rfl, hfront⟩ := absent_or_present k ps
  · have hplace : findPlace k l.key 0 none l.len = some .next := by
      have := findPlace_next [] h.key.holds fun c hc =>
        ⟨fun (heq : c = []) => (hk.resolve_left habsent) (heq ▸ hc), fun (heq : k = c) => habsent (heq ▸ hc)⟩
      rwa [List.length_map, ← h.len] at this
    obtain ⟨l', happend, hshows⟩ := PairList.append_spec h k v
    refine ⟨l', ?_, by rwa [insertPair_absent habsent]⟩
    rw [addKeyVal, hplace]
    exact happend
  · have hplace : findPlace k l.key 0 none l.len = some (.found front.length) := by
      have hholds : Cells.Holds l.key (keys front ++ k :: keys back) := keys_append_cons front back k v' ▸ h.key.holds
      have := findPlace_found [] hholds hfront none
      simpa [keys, h.len] using this
    have hlt : front.length < ((front ++ (k, v') :: back).map Prod.snd).length := by simp
    have hput := Cells.put_eq (hlt.trans_le h.value.holds.length_le) (some v)
    refine ⟨{ l with value := l.value.set front.length (some v) }, ?_, ?_⟩
    · rw [addKeyVal, hplace]
      dsimp only [Option.bind_eq_bind, Option.bind_some]
      rw [hput]
      rfl
    · rw [insertPair_present hfront]
      refine ⟨?_, ?_, ?_⟩
      · simpa using h.len
      · simpa using h.key
      · simpa [List.set_append_right] using h.value.set (x := v) hlt

/-- A new key takes the cell of an empty one. -/
theorem addKeyVal_unused (h : Shows l ps) (hk : k ∉ keys ps) (hempty : [] ∈ keys ps) (v : Text) :
    ∃ l' i, addKeyVal l k v = some l' ∧ (keys ps)[i]? = some [] ∧ Shows l' (ps.set i (k, v)) := by
  obtain ⟨i, hi, hplace⟩ := findPlace_unused [] h.key.holds hk none (.inr hempty)
  have hi : (keys ps)[i]? = some [] := hi.resolve_left nofun
  have hkey : i < (ps.map Prod.fst).length := (List.getElem?_eq_some_iff.mp hi).1
  have hvalue : i < (ps.map Prod.snd).length := by rwa [List.length_map] at hkey ⊢
  rw [List.length_map, ← h.len] at hplace
  refine ⟨⟨l.len, l.key.set i (some k), l.value.set i (some v)⟩, i, ?_, hi, ?_, ?_, ?_⟩
  · rw [addKeyVal, show findPlace k l.key 0 none l.len = _ from hplace]
    dsimp only [Option.bind_eq_bind, Option.bind_some]
    rw [Cells.put_eq (hkey.trans_le h.key.holds.length_le)]
    rw [Cells.put_eq (hvalue.trans_le h.value.holds.length_le)]
    rfl
  · rw [List.length_set, h.len]
  · rw [List.map_set]
    exact h.key.set hkey
  · rw [List.map_set]
    exact h.value.set hvalue

theorem addKeyVal_spec (h : Represents l ps) (hk : k ≠ []) (v : Text) :
    ∃ l', addKeyVal l k v = some l' ∧ Represents l' (insertPair k v ps) := by
  obtain ⟨l', hadd, hshows⟩ := addKeyVal_insertPair h.shows (.inr fun hmem => h.nonempty [] hmem rfl) v
  suffices h' : (keys (insertPair k v ps)).Nodup ∧ ∀ c ∈ keys (insertPair k v ps), c ≠ [] from
    ⟨l', hadd, hshows, h'.1, h'.2⟩
  obtain habsent | ⟨front, v', back, rfl, hfront⟩ := absent_or_present k ps
  · rw [insertPair_absent habsent, keys, List.map_append]
    refine ⟨List.nodup_append.mpr ⟨h.nodup, List.pairwise_singleton _ _,
      fun c hc d hd heq => habsent ?_⟩, fun c hc => ?_⟩
    · obtain rfl := List.mem_singleton.mp hd
      exact heq ▸ hc
    · exact (List.mem_append.mp hc).elim (h.nonempty c) fun hc => List.mem_singleton.mp hc ▸ hk
  · rw [insertPair_present hfront, keys_append_cons, ← keys_append_cons front back k v']
    exact ⟨h.nodup, h.nonempty⟩

theorem rmKeyVal_spec (h : Represents l ps) (k : Text) :
    ∃ l', rmKeyVal l k = some l' ∧ Represents l' (removePair k ps) := by
  unfold rmKeyVal
  obtain ⟨habsent, hsearch⟩ | ⟨front, v, back, rfl, hfront, hsearch⟩ :=
    search_eq (fun c => some (c == some k)) (· == k) (fun c => by simp) h.shows
      (fun c => beq_iff_eq)
  · rw [hsearch, removePair_absent habsent]
    exact ⟨l, rfl, h⟩
  · have hlen : l.len - 1 - front.length = back.length := by
      rw [h.shows.len, length_append, List.length_cons]
      omega
    have hkeys : Cells.Kept PTR_ARRAY_MALLOC_LEN l.key (keys front ++ k :: keys back) := by
      simpa [keys] using h.shows.key
    have hvalues : Cells.Kept PTR_ARRAY_MALLOC_LEN l.value (front.map Prod.snd ++ v :: back.map Prod.snd) := by
      simpa using h.shows.value
    obtain ⟨key, hkey, hkept⟩ := hkeys.shifted
    obtain ⟨value, hvalue, hkept'⟩ := hvalues.shifted
    simp only [keys, List.length_map] at hkey hvalue hkept
    have hsub : (keys (front ++ back)).Sublist (keys (front ++ (k, v) :: back)) :=
      ((List.Sublist.refl front).append (List.sublist_cons_self _ _)).map _
    have hshows : Shows ⟨l.len - 1, key, value⟩ (front ++ back) := by
      refine ⟨?_, by rwa [List.map_append], by rwa [List.map_append]⟩
      rw [h.shows.len]
      simp
    have hresult : Shows (if l.len - 1 ≤ 0 then PairList.empty else ⟨l.len - 1, key, value⟩) (front ++ back) := by
      split
      · rename_i hzero
        have : (front ++ back).length = 0 := hshows.len ▸ Nat.le_zero.mp hzero
        rw [List.length_eq_zero_iff.mp this]
        exact PairList.shows_empty
      · exact hshows
    rw [hsearch, removePair_present h.nodup]
    refine ⟨_, ?_, hresult, h.nodup.sublist hsub, fun c hc => h.nonempty c (hsub.subset hc)⟩
    simp only [Option.bind_eq_bind, Option.bind_some, hlen, hkey, hvalue]
    rfl

end Operations

end KeyValPair
