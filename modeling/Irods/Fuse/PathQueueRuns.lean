-- SUMMARY: Runs of the path cache in memory.
import Mathlib.Data.List.Find
import Irods.Fuse.PathQueue

/-!
# Runs of the path cache

Whatever is added, looked for and removed, each queue is a list that its links hold in both
directions, in the order of the times at which its entries were cached. That is why the expiry
may stop at the first entry that is not expired. An operation does to this list what its name
says, and frees no other entry.
-/

namespace Fuse

open LinkedQueue Queue
open Function (update update_eq_self update_of_ne update_self)
open Option (bind_eq_bind bind_some isSome_iff_exists map_some)

/-- What can be called at a time, for a path in one of the arrays. -/
inductive PathOp where
  /-- `malloc` gives `x` for the new entry. -/
  | add (stbuf : Option Nat) (x : Addr)
  | find
  | rm

structure PathCall where
  time : Nat
  array : PathQueArray
  inPath : Path
  op : PathOp

inductive PathReply where
  | added
  | found (outPathCache : Option Addr)
  | removed (status : Bool)
  deriving DecidableEq

namespace PathMem

def step (s : PathMem) (fuel : Nat) (c : PathCall) : Option (PathReply × PathMem) :=
  match c.op with
  | .add stbuf x => (s.addPathToCache c.time c.inPath c.array stbuf x).map fun s => (.added, s)
  | .find => (s.matchPathInPathCache fuel c.time c.inPath c.array).map fun (found, s) => (.found found, s)
  | .rm => (s.rmPathFromCache fuel c.inPath c.array).map fun (status, s) => (.removed status, s)

/-- The clock does not go back and stays off its end, the path hashes into the array, and `malloc`
gives free memory. -/
structure Allowed (s : PathMem) (last : Nat) (c : PathCall) : Prop where
  clock : last ≤ c.time
  bound : c.time + cacheExpireTime < uintBound
  inRange : (hashSlot c.inPath).isSome
  fresh : ∀ stbuf x, c.op = .add stbuf x → s.cache x = none

/-- The loops of the call end, whatever fuel they are given beyond what they need. -/
def Steps (s : PathMem) (c : PathCall) (reply : PathReply) (s' : PathMem) : Prop :=
  ∃ n, ∀ fuel, n < fuel → s.step fuel c = some (reply, s')

/-- The states of all runs, with the time of the last call. -/
inductive Reaches (files : Nat → LocalFile) : PathMem → Nat → Prop where
  | init : Reaches files (init files) 0
  | step {s s' : PathMem} {last : Nat} {c : PathCall} {reply : PathReply} (h : Reaches files s last)
      (hallowed : s.Allowed last c) (hstep : s.Steps c reply s') : Reaches files s' c.time

/-! ## What the queues hold -/

/-- An entry that has not been cached for too long. -/
def young (s : PathMem) (now : Nat) (x : Addr) : Bool :=
  match s.cache x with
  | none => false
  | some e => now < e.cachedTime + cacheExpireTime

def isFor (s : PathMem) (inPath : Path) (x : Addr) : Bool :=
  match s.cache x with
  | none => false
  | some e => e.filePath = inPath

def cachedTime (s : PathMem) (x : Addr) : Nat :=
  match s.cache x with
  | none => 0
  | some e => e.cachedTime

/-- The queues hold these lists, and the lists hold all entries there are. -/
structure Represents (s : PathMem) (l : QueSlot → List Addr) (last : Nat) : Prop where
  holds : ∀ k, (s.que k).Holds (l k)
  disjoint : ∀ k k', k ≠ k' → (l k).Disjoint (l k')
  entry : ∀ k, ∀ x ∈ l k, ∃ e, s.cache x = some e ∧ hashSlot e.filePath = some k.2
  only : ∀ x e, s.cache x = some e → ∃ k, x ∈ l k
  ordered : ∀ k, (l k).Pairwise fun x y => s.cachedTime x ≤ s.cachedTime y
  past : ∀ x e, s.cache x = some e → e.cachedTime ≤ last
  bound : last + cacheExpireTime < uintBound

variable {s s' : PathMem} {l : QueSlot → List Addr} {last : Nat} {k : QueSlot} {x : Addr}

@[simp] theorem que_setQue_self (s : PathMem) (k : QueSlot) (q : Queue Addr) : (s.setQue k q).que k = q := by
  unfold que setQue
  simp

theorem que_setQue_ne (s : PathMem) (q : Queue Addr) {k' : QueSlot} (h : k' ≠ k) :
    (s.setQue k q).que k' = ⟨q.next, q.prev, (s.ends k').top, (s.ends k').bottom⟩ := by
  unfold que setQue
  simp only [update_of_ne h]

@[simp] theorem cache_freePathCache (s : PathMem) (x : Addr) (e : PathCache) :
    (s.freePathCache x e).cache = update s.cache x none := rfl

@[simp] theorem cache_setQue (s : PathMem) (k : QueSlot) (q : Queue Addr) : (s.setQue k q).cache = s.cache := rfl

variable {q : Queue Addr}

/-- One queue is changed among nodes that no other queue has. -/
theorem holds_setQue (h : ∀ k, (s.que k).Holds (l k)) {xs m : List Addr} (hq : q.Holds xs)
    (hsame : SameOff m (s.que k) q) (hdisj : ∀ k', k' ≠ k → (l k').Disjoint m) (k' : QueSlot) :
    ((s.setQue k q).que k').Holds (update l k xs k') := by
  by_cases hk : k' = k
  · subst hk
    rwa [que_setQue_self, update_self]
  · rw [que_setQue_ne s q hk, update_of_ne hk]
    exact (h k').disjoint hsame (hdisj k' hk)

theorem Represents.not_mem_of_free (h : Represents s l last) (hx : s.cache x = none) (k : QueSlot) : x ∉ l k := by
  intro hmem
  obtain ⟨e, he, -⟩ := h.entry k x hmem
  rw [hx] at he
  cases he

theorem Represents.later (h : Represents s l last) {now : Nat} (hclock : last ≤ now)
    (hbound : now + cacheExpireTime < uintBound) : Represents s l now :=
  { h with past := fun x e he => Nat.le_trans (h.past x e he) hclock, bound := hbound }

/-- A node is taken out of its queue and freed. -/
theorem Represents.free (h : Represents s l last) {l₁ l₂ : List Addr} (e : PathCache) (hl : l k = l₁ ++ x :: l₂)
    (hq : q.Holds (l₁ ++ l₂)) (hsame : SameOff (l k) (s.que k) q) :
    Represents ((s.setQue k q).freePathCache x e) (update l k (l₁ ++ l₂)) last := by
  have hsub : (l₁ ++ l₂).Sublist (l k) := by
    rw [hl]
    exact List.Sublist.append_left (List.sublist_cons_self x l₂) l₁
  have hout : x ∉ l₁ ++ l₂ := by
    have hnodup := (h.holds k).nodup
    rw [hl, List.nodup_middle] at hnodup
    exact (List.nodup_cons.mp hnodup).1
  have hmem : ∀ k' y, y ∈ update l k (l₁ ++ l₂) k' → y ∈ l k' ∧ y ≠ x := by
    intro k' y hy
    by_cases hk : k' = k
    · subst hk
      rw [update_self] at hy
      exact ⟨hsub.subset hy, ne_of_mem_of_not_mem hy hout⟩
    · rw [update_of_ne hk] at hy
      have hx : x ∈ l k := by rw [hl]; simp
      refine ⟨hy, ?_⟩
      rintro rfl
      exact h.disjoint k' k hk hy hx
  have hcache : ∀ y, y ≠ x → ((s.setQue k q).freePathCache x e).cache y = s.cache y :=
    fun y hy => update_of_ne hy _ _
  have hlive : ∀ y e', ((s.setQue k q).freePathCache x e).cache y = some e' → y ≠ x ∧ s.cache y = some e' := by
    intro y e' he'
    have hyx : y ≠ x := by
      rintro rfl
      rw [cache_freePathCache, update_self] at he'
      cases he'
    exact ⟨hyx, hcache y hyx ▸ he'⟩
  refine ⟨?_, ?_, ?_, ?_, ?_, ?_, h.bound⟩
  · exact holds_setQue h.holds hq hsame fun k' hk => h.disjoint k' k hk
  · exact fun k₁ k₂ hne y hy₁ hy₂ => h.disjoint k₁ k₂ hne (hmem k₁ y hy₁).1 (hmem k₂ y hy₂).1
  · intro k' y hy
    obtain ⟨hy, hyx⟩ := hmem k' y hy
    rw [hcache y hyx]
    exact h.entry k' y hy
  · intro y e' he'
    obtain ⟨hyx, he'⟩ := hlive y e' he'
    obtain ⟨k', hy⟩ := h.only y e' he'
    refine ⟨k', ?_⟩
    by_cases hk : k' = k
    · subst hk
      rw [hl] at hy
      rw [update_self]
      simp only [List.mem_append, List.mem_cons] at hy ⊢
      tauto
    · rwa [update_of_ne hk]
  · intro k'
    have hold : (update l k (l₁ ++ l₂) k').Pairwise fun y z => s.cachedTime y ≤ s.cachedTime z := by
      by_cases hk : k' = k
      · subst hk
        rw [update_self]
        exact (h.ordered k').sublist hsub
      · rw [update_of_ne hk]
        exact h.ordered k'
    refine hold.imp_of_mem fun {y z} hy hz hyz => ?_
    unfold cachedTime
    rwa [hcache y (hmem k' y hy).2, hcache z (hmem k' z hz).2]
  · exact fun y e' he' => h.past y e' (hlive y e' he').2

/-! ## Expiry -/

/-- No time is near the end of the clock, and the test is what it looks like. -/
theorem Represents.expired_eq (h : Represents s l last) {e : PathCache} (he : s.cache x = some e) (now : Nat) :
    e.expired now = ! s.young now x := by
  have hpast := h.past x e he
  have hbound := h.bound
  unfold PathCache.expired young
  rw [Nat.mod_eq_of_lt (by omega), he]
  rw [← decide_not, decide_eq_decide]
  omega

/-- The expired entries at the top are freed, and nothing else. The induction is on the list of the
slot; `old` tells which entries were expired at first. -/
theorem chkCacheExpire_spec (old : Addr → Bool) {now : Nat} (xs : List Addr) :
    ∀ {s : PathMem} {l : QueSlot → List Addr}, Represents s l last → l k = xs → (∀ y ∈ xs, old y = ! s.young now y) →
      ∃ s', (∀ fuel, xs.length < fuel → chkCacheExpire now k fuel s = some s') ∧
        Represents s' (update l k (xs.dropWhile old)) last ∧
        ∀ y, s'.cache y = if y ∈ xs.takeWhile old then none else s.cache y := by
  induction xs with
  | nil =>
    intro s l h hl _
    have htop : (s.ends k).top = none := by
      have hhead := (h.holds k).head
      rwa [hl] at hhead
    refine ⟨s, fun fuel hfuel => ?_, ?_, fun y => rfl⟩
    · obtain ⟨fuel, rfl⟩ : ∃ n, fuel = n + 1 := ⟨fuel - 1, by omega⟩
      rw [chkCacheExpire, htop]
    · rwa [List.dropWhile_nil, ← hl, update_eq_self]
  | cons x xs ih =>
    intro s l h hl hold
    have htop : (s.ends k).top = some x := by
      have hhead := (h.holds k).head
      rwa [hl] at hhead
    obtain ⟨e, he, -⟩ := h.entry k x (by rw [hl]; simp)
    have hexpired : e.expired now = old x := by
      rw [h.expired_eq he now, hold x List.mem_cons_self]
    have hrun : ∀ fuel, chkCacheExpire now k (fuel + 1) s = if old x then
        chkCacheExpire now k fuel ((s.setQue k ((s.que k).popFront x)).freePathCache x e) else some s := by
      intro fuel
      rw [chkCacheExpire, htop]
      dsimp only
      rw [he]
      dsimp only
      rw [hexpired]
    cases hx : old x with
    | false =>
      refine ⟨s, fun fuel hfuel => ?_, ?_, fun y => ?_⟩
      · obtain ⟨fuel, rfl⟩ : ∃ n, fuel = n + 1 := ⟨fuel - 1, by omega⟩
        rw [hrun, if_neg (by simp [hx])]
      · rwa [List.dropWhile_cons_of_neg (by simp [hx]), ← hl, update_eq_self]
      · rw [List.takeWhile_cons_of_neg (by simp [hx]), if_neg List.not_mem_nil]
    | true =>
      have hholds := h.holds k
      rw [hl] at hholds
      obtain ⟨hpop, hsame⟩ := hholds.popFront
      have hsame' : SameOff (l k) (s.que k) ((s.que k).popFront x) := by
        intro y hy
        rw [hl] at hy
        exact hsame y (List.not_mem_of_not_mem_cons hy)
      have hfree := h.free e (hl.trans (List.nil_append _).symm) hpop hsame'
      have hnot : x ∉ xs := (List.nodup_cons.mp hholds.nodup).1
      obtain ⟨s', hrest, hrep, hcache⟩ := ih hfree (update_self ..) (fun y hy => by
        have hyx : y ≠ x := ne_of_mem_of_not_mem hy hnot
        rw [hold y (List.mem_cons_of_mem x hy), young, young, cache_freePathCache, cache_setQue,
          update_of_ne hyx])
      refine ⟨s', fun fuel hfuel => ?_, ?_, fun y => ?_⟩
      · obtain ⟨fuel, rfl⟩ : ∃ n, fuel = n + 1 := ⟨fuel - 1, by omega⟩
        rw [hrun, if_pos hx]
        exact hrest fuel (Nat.lt_of_succ_lt_succ hfuel)
      · rwa [Function.update_idem, ← List.dropWhile_cons_of_pos hx] at hrep
      · rw [hcache y, List.takeWhile_cons_of_pos hx, cache_freePathCache, cache_setQue]
        by_cases hyx : y = x
        · subst hyx
          simp
        · simp [hyx]

variable {p : Addr → Bool} {xs : List Addr}

/-- In a list in the order of the times, the expired entries are those at the top. -/
theorem dropWhile_eq_filter (h : xs.Pairwise fun x y => p y = true → p x = true) :
    xs.dropWhile p = xs.filter fun x => ! p x := by
  induction xs with
  | nil => rfl
  | cons x xs ih =>
    obtain ⟨hx, hxs⟩ := List.pairwise_cons.mp h
    by_cases hp : p x = true
    · rw [List.dropWhile_cons_of_pos hp, List.filter_cons_of_neg (by simp [hp]), ih hxs]
    · have hall : ∀ y ∈ x :: xs, (! p y) = true := by
        intro y hy
        rw [Bool.not_eq_true', Bool.eq_false_iff]
        rcases List.mem_cons.mp hy with rfl | hy
        · exact hp
        · exact fun hpy => hp (hx y hy hpy)
      rw [List.dropWhile_cons_of_neg hp, List.filter_eq_self.mpr hall]

theorem takeWhile_eq_filter (h : xs.Pairwise fun x y => p y = true → p x = true) : xs.takeWhile p = xs.filter p := by
  induction xs with
  | nil => rfl
  | cons x xs ih =>
    obtain ⟨hx, hxs⟩ := List.pairwise_cons.mp h
    by_cases hp : p x = true
    · rw [List.takeWhile_cons_of_pos hp, List.filter_cons_of_pos hp, ih hxs]
    · have hnone : ∀ y ∈ x :: xs, ¬ p y = true := by
        intro y hy
        rcases List.mem_cons.mp hy with rfl | hy
        · exact hp
        · exact fun hpy => hp (hx y hy hpy)
      rw [List.takeWhile_cons_of_neg hp, List.filter_eq_nil_iff.mpr hnone]

theorem find?_filter_and (p q : Addr → Bool) (xs : List Addr) :
    (xs.filter p).find? q = xs.find? fun x => p x && q x := by
  rw [List.find?_filter]
  congr 1
  funext x
  simp

theorem Represents.old_pairwise (h : Represents s l last) (now : Nat) (k : QueSlot) :
    (l k).Pairwise fun x y => (! s.young now y) = true → (! s.young now x) = true := by
  refine (h.ordered k).imp_of_mem fun {x y} hx hy hxy => ?_
  obtain ⟨e, he, -⟩ := h.entry k x hx
  obtain ⟨e', he', -⟩ := h.entry k y hy
  unfold cachedTime at hxy
  rw [he, he'] at hxy
  dsimp only at hxy
  unfold young
  rw [he, he']
  simp only [Bool.not_eq_true', decide_eq_false_iff_not]
  omega

/-! ## The operations -/

variable {inPath : Path} {now : Nat}

/-- The loop finds the first entry for the path. -/
theorem findFrom_spec : ∀ {p : Option Addr} {fuel : Nat},
    Chain.Path s.next p xs none → (∀ x ∈ xs, (s.cache x).isSome) → xs.length < fuel →
    findFrom s inPath fuel p =
      some ((xs.find? (s.isFor inPath)).bind fun x => (s.cache x).map fun e => (x, e)) := by
  induction xs with
  | nil =>
    intro p fuel hpath _ hfuel
    obtain ⟨fuel, rfl⟩ : ∃ n, fuel = n + 1 := ⟨fuel - 1, by omega⟩
    obtain rfl := Chain.path_nil.mp hpath
    rfl
  | cons x xs ih =>
    intro p fuel hpath hsome hfuel
    obtain ⟨fuel, rfl⟩ : ∃ n, fuel = n + 1 := ⟨fuel - 1, by omega⟩
    obtain ⟨rfl, hrest⟩ := Chain.path_cons.mp hpath
    obtain ⟨e, he⟩ := isSome_iff_exists.mp (hsome x List.mem_cons_self)
    have hfor : s.isFor inPath x = decide (e.filePath = inPath) := by
      unfold isFor
      rw [he]
    rw [findFrom, he]
    dsimp only
    by_cases hpathx : e.filePath = inPath
    · rw [if_pos hpathx, List.find?_cons_of_pos (by simp [hfor, hpathx]), bind_some, he, map_some]
    · rw [if_neg hpathx, List.find?_cons_of_neg (by simp [hfor, hpathx])]
      exact ih hrest (fun y hy => hsome y (List.mem_cons_of_mem x hy)) (by simp only [List.length_cons] at hfuel; omega)

theorem Represents.findFrom_top (h : Represents s l last) (inPath : Path) {fuel : Nat} (hfuel : (l k).length < fuel) :
    findFrom s inPath fuel (s.ends k).top =
      some (((l k).find? (s.isFor inPath)).bind fun x => (s.cache x).map fun e => (x, e)) := by
  refine findFrom_spec (h.holds k).path (fun x hx => ?_) hfuel
  obtain ⟨e, he, -⟩ := h.entry k x hx
  exact isSome_iff_exists.mpr ⟨e, he⟩

theorem Represents.add (h : Represents s l last) (stbuf : Option Nat) (hk : hashSlot inPath = some k.2)
    (hx : s.cache x = none) (hclock : last ≤ now) (hbound : now + cacheExpireTime < uintBound) :
    ∃ s', s.addToCacheSlot now k inPath stbuf x = some s' ∧
      Represents s' (update l k (l k ++ [x])) now ∧
      s'.cache = update s.cache x (some (newPathCache now inPath stbuf)) := by
  obtain ⟨q, hpush, hq, hsame⟩ := (h.holds k).pushBack (h.not_mem_of_free hx k)
  have hcache : ∀ y, y ≠ x →
      update s.cache x (some (newPathCache now inPath stbuf)) y = s.cache y :=
    fun y hy => update_of_ne hy _ _
  have hne : ∀ k', ∀ y ∈ l k', y ≠ x := fun k' y hy => ne_of_mem_of_not_mem hy (h.not_mem_of_free hx k')
  have hmem : ∀ k' y, y ∈ update l k (l k ++ [x]) k' → y ∈ l k' ∨ k' = k ∧ y = x := by
    intro k' y hy
    by_cases hk' : k' = k
    · subst hk'
      simpa using hy
    · rw [update_of_ne hk'] at hy
      exact .inl hy
  refine ⟨_, by rw [addToCacheSlot, hpush, map_some], ⟨?_, ?_, ?_, ?_, ?_, ?_, hbound⟩, rfl⟩
  · refine holds_setQue h.holds hq hsame fun k' hk' y hy hy' => ?_
    rcases List.mem_append.mp hy' with hy' | hy'
    · exact h.disjoint k' k hk' hy hy'
    · exact hne k' y hy (List.mem_singleton.mp hy')
  · intro k₁ k₂ hk₁₂ y hy₁ hy₂
    rcases hmem k₁ y hy₁ with hm₁ | ⟨heq₁, hyx⟩
    · rcases hmem k₂ y hy₂ with hm₂ | ⟨-, hyx⟩
      · exact h.disjoint k₁ k₂ hk₁₂ hm₁ hm₂
      · exact hne k₁ y hm₁ hyx
    · rcases hmem k₂ y hy₂ with hm₂ | ⟨heq₂, -⟩
      · exact hne k₂ y hm₂ hyx
      · exact hk₁₂ (heq₁.trans heq₂.symm)
  · intro k' y hy
    rcases hmem k' y hy with hy | ⟨rfl, rfl⟩
    · obtain ⟨e, he, hslot⟩ := h.entry k' y hy
      exact ⟨e, (hcache y (hne k' y hy)).trans he, hslot⟩
    · exact ⟨_, update_self .., hk⟩
  · intro y e he
    by_cases hyx : y = x
    · exact ⟨k, by rw [hyx, update_self]; simp⟩
    · obtain ⟨k', hy⟩ := h.only y e ((hcache y hyx).symm.trans he)
      refine ⟨k', ?_⟩
      by_cases hk' : k' = k
      · subst hk'
        rw [update_self]
        exact List.mem_append_left _ hy
      · rwa [update_of_ne hk']
  · intro k'
    have hold : ∀ k', (l k').Pairwise fun y z =>
        cachedTime { s.setQue k q with cache := update s.cache x (some (newPathCache now inPath stbuf)) } y ≤
        cachedTime { s.setQue k q with cache := update s.cache x (some (newPathCache now inPath stbuf)) } z := by
      refine fun k' => (h.ordered k').imp_of_mem fun {y z} hy hz hyz => ?_
      unfold cachedTime
      dsimp only
      rwa [hcache y (hne k' y hy), hcache z (hne k' z hz)]
    by_cases hk' : k' = k
    · subst hk'
      rw [update_self]
      refine List.pairwise_append.mpr ⟨hold k', List.pairwise_singleton _ _, fun y hy z hz => ?_⟩
      obtain rfl := List.mem_singleton.mp hz
      obtain ⟨e, he, -⟩ := h.entry k' y hy
      unfold cachedTime
      dsimp only
      rw [hcache y (hne k' y hy), he, update_self]
      exact Nat.le_trans (h.past y e he) hclock
    · rw [update_of_ne hk']
      exact hold k'
  · intro y e he
    by_cases hyx : y = x
    · subst hyx
      have heq : newPathCache now inPath stbuf = e := by simpa using he
      exact heq ▸ Nat.le_refl now
    · exact Nat.le_trans (h.past y e ((hcache y hyx).symm.trans he)) hclock

/-- The expired entries of the slot go, and the first of the others for the path is found. -/
theorem Represents.find (h : Represents s l last) (inPath : Path) (hclock : last ≤ now)
    (hbound : now + cacheExpireTime < uintBound) :
    ∃ s', (∀ fuel, (l k).length < fuel → s.matchPathInSlot fuel now k inPath =
        some ((l k).find? fun x => s.young now x && s.isFor inPath x, s')) ∧
      Represents s' (update l k ((l k).filter (s.young now))) now ∧
      ∀ y, s'.cache y = if y ∈ l k ∧ s.young now y = false then none else s.cache y := by
  have hold := h.old_pairwise now k
  obtain ⟨s', hrun, hrep, hcache⟩ := chkCacheExpire_spec (fun y => ! s.young now y) (l k) h rfl fun _ _ => rfl
  have hfilter : (l k).filter (fun y => ! ! s.young now y) = (l k).filter (s.young now) :=
    List.filter_congr fun y _ => Bool.not_not _
  rw [dropWhile_eq_filter hold, hfilter] at hrep
  have hsame : ∀ y ∈ (l k).filter (s.young now), s'.cache y = s.cache y := by
    intro y hy
    rw [hcache y, takeWhile_eq_filter hold, if_neg]
    intro hy'
    simp [(List.mem_filter.mp hy).2] at hy'
  have hfind : ((l k).filter (s.young now)).find? (s'.isFor inPath) =
      (l k).find? fun x => s.young now x && s.isFor inPath x := by
    rw [← find?_filter_and]
    exact List.find?_congr fun y hy => by unfold isFor; rw [hsame y hy]
  refine ⟨s', fun fuel hfuel => ?_, hrep.later hclock hbound, fun y => ?_⟩
  · have hmatch := hrep.findFrom_top (k := k) inPath (by
      rw [update_self]
      exact Nat.lt_of_le_of_lt (List.length_filter_le _ _) hfuel)
    rw [update_self, hfind] at hmatch
    rw [matchPathInSlot, hrun fuel hfuel, bind_eq_bind, bind_some, matchPathInPathSlot, hmatch, bind_eq_bind,
      bind_some]
    cases hx : (l k).find? fun x => s.young now x && s.isFor inPath x with
    | none => rfl
    | some x =>
      have hmem : x ∈ (l k).filter (s.young now) := by
        rw [← find?_filter_and] at hx
        exact List.mem_of_find?_eq_some hx
      obtain ⟨e, he, -⟩ := h.entry k x (List.mem_filter.mp hmem).1
      rw [bind_some, hsame x hmem, he]
      rfl
  · rw [hcache y]
    refine if_congr ?_ rfl rfl
    rw [takeWhile_eq_filter hold, List.mem_filter, Bool.not_eq_true']

theorem Represents.rm (h : Represents s l last) (inPath : Path) :
    ∃ s', (∀ fuel, (l k).length < fuel → s.rmPathFromSlot fuel k inPath =
        some (((l k).find? (s.isFor inPath)).isSome, s')) ∧
      Represents s' (update l k ((l k).eraseP (s.isFor inPath))) last ∧
      ∀ y, s'.cache y = if (l k).find? (s.isFor inPath) = some y then none else s.cache y := by
  cases hfind : (l k).find? (s.isFor inPath) with
  | none =>
    have hnone : ∀ y ∈ l k, ¬ s.isFor inPath y = true := List.find?_eq_none.mp hfind
    refine ⟨s, fun fuel hfuel => ?_, ?_, fun y => ?_⟩
    · rw [rmPathFromSlot, h.findFrom_top inPath hfuel, hfind]
      rfl
    · rwa [List.eraseP_of_forall_not hnone, update_eq_self]
    · rw [if_neg nofun]
  | some x =>
    obtain ⟨hfor, l₁, l₂, hl, hbefore⟩ := List.find?_eq_some_iff_append.mp hfind
    obtain ⟨e, he, -⟩ := h.entry k x (by rw [hl]; simp)
    have hholds := h.holds k
    rw [hl] at hholds
    obtain ⟨hq, hsame⟩ := hholds.unlink
    rw [← hl] at hsame
    have herase : (l k).eraseP (s.isFor inPath) = l₁ ++ l₂ := by
      rw [hl, List.eraseP_append_right, List.eraseP_cons_of_pos hfor]
      exact fun y hy => by simpa using hbefore y hy
    refine ⟨(s.setQue k ((s.que k).unlink x)).freePathCache x e, fun fuel hfuel => ?_, ?_, fun y => ?_⟩
    · rw [rmPathFromSlot, h.findFrom_top inPath hfuel, hfind, bind_some, he]
      rfl
    · rw [herase]
      exact h.free e hl hq hsame
    · rw [cache_freePathCache, cache_setQue]
      by_cases hyx : y = x
      · subst hyx
        rw [update_self, if_pos rfl]
      · rw [update_of_ne hyx, if_neg fun heq => hyx (Option.some.inj heq).symm]

/-! ## Runs -/

/-- What an operation on slot `k` answers, and what it does to the queues and to the entries. -/
def Answers (s : PathMem) (l : QueSlot → List Addr) (c : PathCall) (k : QueSlot) (reply : PathReply) (s' : PathMem) :
    Prop :=
  match c.op with
  | .add stbuf x =>
    reply = .added ∧ Represents s' (update l k (l k ++ [x])) c.time ∧
      s'.cache = update s.cache x (some (newPathCache c.time c.inPath stbuf))
  | .find =>
    reply = .found ((l k).find? fun x => s.young c.time x && s.isFor c.inPath x) ∧
      Represents s' (update l k ((l k).filter (s.young c.time))) c.time ∧
      ∀ y, s'.cache y = if y ∈ l k ∧ s.young c.time y = false then none else s.cache y
  | .rm =>
    reply = .removed ((l k).find? (s.isFor c.inPath)).isSome ∧
      Represents s' (update l k ((l k).eraseP (s.isFor c.inPath))) c.time ∧
      ∀ y, s'.cache y = if (l k).find? (s.isFor c.inPath) = some y then none else s.cache y

variable {c : PathCall}

/-- An operation ends, with enough fuel for its queue. -/
theorem Represents.step (h : Represents s l last) (hallowed : s.Allowed last c) :
    ∃ k reply s', hashSlot c.inPath = some k ∧ s.Steps c reply s' ∧ Answers s l c (c.array, k) reply s' := by
  obtain ⟨k, hk⟩ := isSome_iff_exists.mp hallowed.inRange
  refine ⟨k, ?_⟩
  obtain ⟨time, array, inPath, op⟩ := c
  cases op with
  | add stbuf x =>
    obtain ⟨s', hrun, hrep, hcache⟩ := h.add (k := (array, k)) stbuf hk (hallowed.fresh stbuf x rfl) hallowed.clock
      hallowed.bound
    refine ⟨.added, s', hk, ⟨0, fun fuel _ => ?_⟩, rfl, hrep, hcache⟩
    simp only [PathMem.step, addPathToCache, hk, bind_eq_bind, bind_some, hrun, map_some]
  | find =>
    obtain ⟨s', hrun, hrep, hcache⟩ := h.find (k := (array, k)) inPath hallowed.clock hallowed.bound
    refine ⟨.found _, s', hk, ⟨(l (array, k)).length, fun fuel hfuel => ?_⟩, rfl, hrep, hcache⟩
    simp only [PathMem.step, matchPathInPathCache, hk, bind_eq_bind, bind_some, hrun fuel hfuel,
      map_some]
  | rm =>
    obtain ⟨s', hrun, hrep, hcache⟩ := h.rm (k := (array, k)) inPath
    refine ⟨.removed _, s', hk, ⟨(l (array, k)).length, fun fuel hfuel => ?_⟩, rfl,
      hrep.later hallowed.clock hallowed.bound, hcache⟩
    simp only [PathMem.step, rmPathFromCache, hk, bind_eq_bind, bind_some, hrun fuel hfuel,
      map_some]

variable {reply : PathReply}

theorem Steps.unique {reply' : PathReply} {s₁ s₂ : PathMem} (h₁ : s.Steps c reply s₁) (h₂ : s.Steps c reply' s₂) :
    reply = reply' ∧ s₁ = s₂ := by
  obtain ⟨n, h₁⟩ := h₁
  obtain ⟨m, h₂⟩ := h₂
  have hrun := h₁ (max n m + 1) (by omega)
  rw [h₂ (max n m + 1) (by omega)] at hrun
  obtain ⟨rfl, rfl⟩ := Prod.mk.inj (Option.some.inj hrun)
  exact ⟨rfl, rfl⟩

theorem Answers.represents (h : Answers s l c k reply s') : ∃ l', Represents s' l' c.time := by
  unfold Answers at h
  split at h
  · exact ⟨_, h.2.1⟩
  · exact ⟨_, h.2.1⟩
  · exact ⟨_, h.2.1⟩

theorem represents_init (files : Nat → LocalFile) : Represents (init files) (fun _ => []) 0 where
  holds := fun _ => ⟨List.nodup_nil, rfl, rfl, linked_nil⟩
  disjoint := fun _ _ _ => List.disjoint_nil_left _
  entry := fun _ _ hx => absurd hx List.not_mem_nil
  only := nofun
  ordered := fun _ => List.Pairwise.nil
  past := nofun
  bound := by decide

theorem Reaches.represents {files : Nat → LocalFile} (h : Reaches files s last) : ∃ l, Represents s l last := by
  induction h with
  | init => exact ⟨_, represents_init files⟩
  | step _ hallowed hstep ih =>
    obtain ⟨l, hrep⟩ := ih
    obtain ⟨k, reply, s', -, hstep', hanswers⟩ := hrep.step hallowed
    obtain ⟨-, rfl⟩ := hstep.unique hstep'
    exact hanswers.represents

/-- In every run the queues are linked, ordered by time and hold an entry once, and every call ends:
a new entry goes to the bottom, the first for the path that is not expired is found, and the
expired ones, or the first for a removed path, are freed. -/
theorem queues_in_every_run {files : Nat → LocalFile} (h : Reaches files s last) : ∃ l, Represents s l last ∧
    ∀ c, s.Allowed last c →
      ∃ k reply s', hashSlot c.inPath = some k ∧ s.Steps c reply s' ∧ Answers s l c (c.array, k) reply s' := by
  obtain ⟨l, hrep⟩ := h.represents
  exact ⟨l, hrep, fun c hallowed => hrep.step hallowed⟩

/-- A call that adds "/a". -/
def addA (time : Nat) (x : Addr) : PathCall := ⟨time, .pathArray, [0x2f, 0x61], .add none x⟩

theorem queues_in_every_run_one : ∃ s, (init fun _ => ⟨false, []⟩).Steps (addA 7 3) .added s ∧
    ∃ l, Represents s l 7 ∧ ∀ c, s.Allowed 7 c →
      ∃ k reply s', hashSlot c.inPath = some k ∧ s.Steps c reply s' ∧ Answers s l c (c.array, k) reply s' := by
  have hallowed : (init fun _ => ⟨false, []⟩).Allowed 0 (addA 7 3) :=
    ⟨by decide, by decide, by decide, fun _ _ _ => rfl⟩
  have hstep : (init fun _ => ⟨false, []⟩).Steps (addA 7 3) .added _ := ⟨0, fun _ _ => rfl⟩
  exact ⟨_, hstep, queues_in_every_run (.step .init hallowed hstep)⟩

/-- Of two entries for one path only the first is found. -/
theorem young_entry_not_found : ¬ ∀ (files : Nat → LocalFile) (s : PathMem) (last : Nat), Reaches files s last →
    ∀ l, Represents s l last → ∀ c k, s.Allowed last c → c.op = .find → hashSlot c.inPath = some k →
      ∀ x ∈ l (c.array, k), s.isFor c.inPath x → s.young c.time x → ∃ s', s.Steps c (.found (some x)) s' := by
  intro hfound
  let files : Nat → LocalFile := fun _ => ⟨false, []⟩
  have hallowed₁ : (init files).Allowed 0 (addA 0 0) := ⟨by decide, by decide, by decide, fun _ _ _ => rfl⟩
  obtain ⟨k, _, s₁, hk, hstep₁, rfl, hrep₁, hcache₁⟩ := (represents_init files).step hallowed₁
  have hallowed₂ : s₁.Allowed 0 (addA 0 1) := by
    refine ⟨by decide, by decide, by decide, fun stbuf x hop => ?_⟩
    obtain ⟨-, rfl⟩ := PathOp.add.inj hop
    rw [hcache₁]
    rfl
  obtain ⟨k₂, _, s₂, hk₂, hstep₂, rfl, hrep₂, hcache₂⟩ := hrep₁.step hallowed₂
  obtain rfl : k = k₂ := Option.some.inj (hk.symm.trans hk₂)
  let c : PathCall := ⟨1, .pathArray, [0x2f, 0x61], .find⟩
  have hallowed₃ : s₂.Allowed 0 c := ⟨by decide, by decide, by decide, nofun⟩
  obtain ⟨k₃, _, s₃, hk₃, hstep₃, rfl, -, -⟩ := hrep₂.step hallowed₃
  obtain rfl : k = k₃ := Option.some.inj (hk.symm.trans hk₃)
  have hentry : s₂.cache 0 = some (newPathCache 0 [0x2f, 0x61] none) ∧
      s₂.cache 1 = some (newPathCache 0 [0x2f, 0x61] none) := by
    rw [hcache₂, hcache₁]
    exact ⟨rfl, rfl⟩
  have hyoung : ∀ x, s₂.cache x = some (newPathCache 0 [0x2f, 0x61] none) →
      s₂.young 1 x = true ∧ s₂.isFor [0x2f, 0x61] x = true := by
    intro x hx
    unfold young isFor
    rw [hx]
    decide
  have hmem : (1 : Addr) ∈ update (update (fun _ : QueSlot => ([] : List Addr)) (.pathArray, k) ([] ++ [0]))
      (.pathArray, k) (update (fun _ => []) (PathQueArray.pathArray, k) ([] ++ [0]) (.pathArray, k) ++ [1])
      (.pathArray, k) := by
    simp
  obtain ⟨s', hstep⟩ := hfound files s₂ 0 (.step (.step .init hallowed₁ hstep₁) hallowed₂ hstep₂)
    _ hrep₂ c k hallowed₃ rfl
    hk 1 hmem (hyoung 1 hentry.2).2 (hyoung 1 hentry.2).1
  have hreply := (hstep.unique hstep₃).1
  simp [addA, c, (hyoung 0 hentry.1).1, (hyoung 0 hentry.1).2] at hreply

end PathMem

end Fuse
