-- SUMMARY: The path cache in memory: slots of doubly linked queues.
import Irods.Base.LinkedQueue
import Irods.Fuse.PathCache

/-!
# The path cache in memory

Each array of the path cache has a queue for every hash slot, a `top` and a `bottom`, and the
entries are linked by `next` and `prev`. An address without an entry is free memory. An
operation that follows a null pointer or one into free memory, or that takes a slot outside of
the array, stops the model with `none`, and so does a loop that uses up its fuel.
-/

namespace Fuse

open LinkedQueue

abbrev Addr := Nat

/-! ## Memory -/

/-- A `pathCacheQue_t`. -/
structure QueEnds where
  top : Option Addr := none
  bottom : Option Addr := none

/-- A slot of one of the two arrays. -/
abbrev QueSlot := PathQueArray × HashSlot

structure PathMem where
  cache : Addr → Option PathCache
  next : Addr → Option Addr
  prev : Addr → Option Addr
  ends : QueSlot → QueEnds
  files : Nat → LocalFile

namespace PathMem

/-- The arrays as they are at first. -/
def init (files : Nat → LocalFile) : PathMem where
  cache := fun _ => none
  next := fun _ => none
  prev := fun _ => none
  ends := fun _ => {}
  files := files

def que (s : PathMem) (k : QueSlot) : Queue Addr := ⟨s.next, s.prev, (s.ends k).top, (s.ends k).bottom⟩

def setQue (s : PathMem) (k : QueSlot) (q : Queue Addr) : PathMem :=
  { s with next := q.next, prev := q.prev, ends := Function.update s.ends k ⟨q.head, q.tail⟩ }

/-- The entry `e` at `x` is freed, with the local cache file it owns. -/
def freePathCache (s : PathMem) (x : Addr) (e : PathCache) : PathMem :=
  { s with cache := Function.update s.cache x none, files := Cache.freePathCache s.files e }

/-! ## The operations on a slot -/

/-- Frees the expired entries at the top. -/
def chkCacheExpire (now : Nat) (k : QueSlot) : (fuel : Nat) → PathMem → Option PathMem
  | 0, _ => none
  | fuel + 1, s =>
    match (s.ends k).top with
    | none => some s
    | some x =>
      match s.cache x with
      | none => none
      | some e =>
        if e.expired now then chkCacheExpire now k fuel ((s.setQue k ((s.que k).popFront x)).freePathCache x e)
        else some s

/-- The loop over the entries from one of them on: the first for the path. -/
def findFrom (s : PathMem) (inPath : Path) : (fuel : Nat) → Option Addr → Option (Option (Addr × PathCache))
  | 0, _ => none
  | _ + 1, none => some none
  | fuel + 1, some x =>
    match s.cache x with
    | none => none
    | some e => if e.filePath = inPath then some (some (x, e)) else findFrom s inPath fuel (s.next x)

def matchPathInPathSlot (s : PathMem) (inPath : Path) (fuel : Nat) (k : QueSlot) :
    Option (Option (Addr × PathCache)) := findFrom s inPath fuel (s.ends k).top

/-- The new entry, of which `stbuf` may give the size. -/
def newPathCache (now : Nat) (inPath : Path) (stbuf : Option Nat) : PathCache where
  filePath := inPath
  locCachePath := none
  stSize := stbuf.getD 0
  cachedTime := now
  locCacheState := .noFileCache

/-- Queues the new entry, at `x`, to the bottom. -/
def addToCacheSlot (s : PathMem) (now : Nat) (k : QueSlot) (inPath : Path) (stbuf : Option Nat) (x : Addr) :
    Option PathMem :=
  ((s.que k).pushBack x).map fun q =>
    { s.setQue k q with cache := Function.update s.cache x (some (newPathCache now inPath stbuf)) }

/-- Whether there was an entry to remove. -/
def rmPathFromSlot (s : PathMem) (fuel : Nat) (k : QueSlot) (inPath : Path) : Option (Bool × PathMem) :=
  (findFrom s inPath fuel (s.ends k).top).map fun
    | none => (false, s)
    | some (x, e) => (true, (s.setQue k ((s.que k).unlink x)).freePathCache x e)

def matchPathInSlot (s : PathMem) (fuel now : Nat) (k : QueSlot) (inPath : Path) :
    Option (Option Addr × PathMem) := do
  let s ← chkCacheExpire now k fuel s
  let found ← s.matchPathInPathSlot inPath fuel k
  return (found.map Prod.fst, s)

/-! ## The operations on an array -/

def matchPathInPathCache (s : PathMem) (fuel now : Nat) (inPath : Path) (w : PathQueArray) :
    Option (Option Addr × PathMem) := do
  let myslot ← hashSlot inPath
  s.matchPathInSlot fuel now (w, myslot) inPath

def addPathToCache (s : PathMem) (now : Nat) (inPath : Path) (w : PathQueArray) (stbuf : Option Nat) (x : Addr) :
    Option PathMem := do
  let myslot ← hashSlot inPath
  s.addToCacheSlot now (w, myslot) inPath stbuf x

def rmPathFromCache (s : PathMem) (fuel : Nat) (inPath : Path) (w : PathQueArray) : Option (Bool × PathMem) := do
  let myslot ← hashSlot inPath
  s.rmPathFromSlot fuel (w, myslot) inPath

end PathMem

/-! ## Paths that hash into the array -/

/-- The bytes that are positive as a `char`. -/
def lowSum (inPath : Path) : Nat := ((inPath.filter (·.toNat < 128)).map (·.toNat)).sum

/-- What the other bytes take away. -/
def highSum (inPath : Path) : Nat := ((inPath.filter (128 ≤ ·.toNat)).map (256 - ·.toNat)).sum

theorem pathSum_eq (inPath : Path) : pathSum inPath = (lowSum inPath : Int) - highSum inPath := by
  unfold pathSum lowSum highSum
  induction inPath with
  | nil => rfl
  | cons b bs ih =>
    rw [List.map_cons, List.sum_cons, ih, charVal]
    by_cases hlow : b.toNat < 128
    · rw [if_pos hlow, List.filter_cons_of_pos (by simpa using hlow), List.filter_cons_of_neg (by simpa using hlow),
        List.map_cons, List.sum_cons]
      omega
    · have hbyte : b.toNat < 256 := b.toNat_lt
      rw [if_neg hlow, List.filter_cons_of_neg (by simpa using hlow),
        List.filter_cons_of_pos (by simpa using Nat.le_of_not_lt hlow), List.map_cons, List.sum_cons]
      omega

/-- Wrapping at every byte comes to wrapping once. -/
theorem intPathSum_eq (inPath : Path) : intPathSum inPath = int32 (pathSum inPath) := by
  have hfold : ∀ (bs : Path) (mysum : Int),
      bs.foldl (fun mysum b => int32 (mysum + charVal b)) (int32 mysum) = int32 (mysum + (bs.map charVal).sum) := by
    intro bs
    induction bs with
    | nil =>
      intro mysum
      rw [List.foldl_nil, List.map_nil, List.sum_nil, Int.add_zero]
    | cons b bs ih =>
      intro mysum
      have hwrap : int32 (int32 mysum + charVal b) = int32 (mysum + charVal b) := Int.bmod_add_bmod
      rw [List.foldl_cons, hwrap, ih, List.map_cons, List.sum_cons, Int.add_assoc]
  have h := hfold inPath 0
  rwa [Int.zero_add] at h

/-- C's remainder is negative exactly for a negative number that does not divide. -/
theorem getHashSlot_range (value : Int) {n : Nat} (hn : 0 < n) :
    (0 ≤ getHashSlot value n ∧ getHashSlot value n < n) ↔ 0 ≤ value ∨ (n : Int) ∣ value := by
  have hlt : value.tmod n < n := Int.tmod_lt_of_pos value (by omega)
  unfold getHashSlot
  constructor
  · rintro ⟨hnonneg, -⟩
    by_contra hnot
    rw [not_or, Int.not_le] at hnot
    obtain ⟨hneg, hdvd⟩ := hnot
    have hle : 0 ≤ (-value).tmod n := Int.tmod_nonneg _ (by omega)
    rw [Int.neg_tmod] at hle
    exact hdvd (Int.dvd_of_tmod_eq_zero (by omega))
  · rintro (hnonneg | hdvd)
    · exact ⟨Int.tmod_nonneg _ hnonneg, hlt⟩
    · rw [Int.tmod_eq_zero_of_dvd hdvd]
      omega

theorem hashSlot_isSome (inPath : Path) : (hashSlot inPath).isSome ↔
    0 ≤ intPathSum inPath ∨ (numPathHashSlot : Int) ∣ intPathSum inPath := by
  rw [← getHashSlot_range (intPathSum inPath) (by decide : 0 < numPathHashSlot), hashSlot]
  split <;> simp_all

variable {inPath : Path}

variable {k : HashSlot}

theorem hashSlot_eq_some (h : hashSlot inPath = some k) :
    getHashSlot (intPathSum inPath) numPathHashSlot = (k.val : Int) := by
  unfold hashSlot at h
  dsimp only at h
  split at h
  case isTrue hrange =>
    obtain rfl := Option.some.inj h
    exact (Int.toNat_of_nonneg hrange.1).symm
  case isFalse hrange => cases h

/-- The hash of the path is an index into the array, and finding, adding and removing the path
work on the queue there. -/
def InsideOneSlot (inPath : Path) : Prop :=
  ∃ k : HashSlot, getHashSlot (intPathSum inPath) numPathHashSlot = (k.val : Int) ∧
    ∀ (s : PathMem) (fuel now : Nat) (w : PathQueArray) (stbuf : Option Nat) (x : Addr),
      s.matchPathInPathCache fuel now inPath w = s.matchPathInSlot fuel now (w, k) inPath ∧
      s.addPathToCache now inPath w stbuf x = s.addToCacheSlot now (w, k) inPath stbuf x ∧
      s.rmPathFromCache fuel inPath w = s.rmPathFromSlot fuel (w, k) inPath

theorem InsideOneSlot.isSome (h : InsideOneSlot inPath) : (hashSlot inPath).isSome := by
  obtain ⟨k, hk, -⟩ := h
  rw [hashSlot_isSome, ← getHashSlot_range _ (by decide : 0 < numPathHashSlot), hk]
  omega

theorem insideOneSlot_of_some (h : hashSlot inPath = some k) : InsideOneSlot inPath := by
  refine ⟨k, hashSlot_eq_some h, fun s fuel now w stbuf x => ⟨?_, ?_, ?_⟩⟩
  · rw [PathMem.matchPathInPathCache, h, Option.bind_eq_bind, Option.bind_some]
  · rw [PathMem.addPathToCache, h, Option.bind_eq_bind, Option.bind_some]
  · rw [PathMem.rmPathFromCache, h, Option.bind_eq_bind, Option.bind_some]

/-- A byte from 128 on counts as a negative number. -/
theorem insideOneSlot_iff (inPath : Path) : InsideOneSlot inPath ↔
    0 ≤ int32 (lowSum inPath - highSum inPath) ∨ (numPathHashSlot : Int) ∣ int32 (lowSum inPath - highSum inPath) := by
  rw [← pathSum_eq, ← intPathSum_eq, ← hashSlot_isSome]
  constructor
  · exact fun h => h.isSome
  · intro h
    obtain ⟨k, hk⟩ := Option.isSome_iff_exists.mp h
    exact insideOneSlot_of_some hk

theorem not_insideOneSlot_utf8 : ¬ InsideOneSlot [0x2f, 0xc3, 0xa9, 0xc3, 0xa9] := by
  intro h
  exact absurd h.isSome (by decide)

end Fuse
