-- SUMMARY: The FUSE path cache: hashed queues of cached paths.
import Irods.Base.CInt
import Irods.Base.ByteFile
import Irods.Base.HashQueues

/-!
# The path cache

`clients/fuse/src/iFuseLib.c` remembers which paths exist (`PathArray`) and which
do not (`NonExistPathArray`), each as an array of queues addressed by a hash of the
path. An entry may own a local cache file, which goes away with the entry.

The hash is formed from signed `char`s, so that a path with bytes from 128 on can hash to a
negative number. The code indexes its arrays with it all the same; here such a path has no
slot.

A slot's doubly linked queue is the list of its entries from `top` to `bottom`. Of
an entry's `stbuf` only the size is kept. Local cache files are numbered in the order
of their creation, so that a random name that is used again is a new number.
-/

namespace Fuse

open Function (update update_of_ne update_self)

/-- A path is a C string. -/
abbrev Path := List Byte

def numPathHashSlot : Nat := 201
def cacheExpireTime : Nat := 600

/-- The value of a `char`, which is signed. -/
def charVal (b : Byte) : Int := if b.toNat < 128 then b.toNat else b.toNat - 256

def pathSum (inPath : Path) : Int := (inPath.map charVal).sum

/-- The sum as the code forms it, in an `int`. The length of a path is taken to fit in one too. -/
def intPathSum (inPath : Path) : Int := inPath.foldl (fun mysum b => int32 (mysum + charVal b)) 0

/-- C's `%`, which rounds towards zero. -/
def getHashSlot (value : Int) (numHashSlot : Nat) : Int := value.tmod numHashSlot

/-- An index into an array of `numPathHashSlot` queues. -/
abbrev HashSlot := Fin numPathHashSlot

/-- The slot of a path, if it is in the array. -/
def hashSlot (inPath : Path) : Option HashSlot :=
  let myslot := getHashSlot (intPathSum inPath) numPathHashSlot
  if h : 0 ≤ myslot ∧ myslot < numPathHashSlot then some ⟨myslot.toNat, by omega⟩ else none

/-- The slot of a path that has one. No operation is run on another path. -/
def pathSlot (inPath : Path) : HashSlot := (hashSlot inPath).getD ⟨0, by decide⟩

inductive ReadCacheState where
  | noFileCache
  | haveReadCache
  | haveNewlyCreatedCache
  deriving DecidableEq

structure PathCache where
  filePath : Path
  locCachePath : Option Nat
  stSize : Nat
  cachedTime : Nat
  locCacheState : ReadCacheState
  deriving DecidableEq

/-- The queues of one array. -/
abbrev PathCacheQue := HashSlot → List PathCache

/-- The two arrays of queues. -/
inductive PathQueArray where
  | nonExistPathArray
  | pathArray
  deriving DecidableEq

/-- Times are `uint`s. -/
def uintBound : Nat := 2 ^ 32

/-- `chkCacheExpire`'s test. -/
def PathCache.expired (now : Nat) (e : PathCache) : Bool :=
  (e.cachedTime + cacheExpireTime) % uintBound ≤ now

/-- The local cache file that goes away with the entry: `freePathCache`. -/
def PathCache.owned (e : PathCache) : Option Nat :=
  if e.locCacheState = .noFileCache then none else e.locCachePath

/-- The entry without its local cache file. -/
def PathCache.withoutFile (e : PathCache) : PathCache :=
  { e with locCachePath := none, locCacheState := .noFileCache }

/-- A local cache file; its content outlives its name while it is open. -/
structure LocalFile where
  linked : Bool
  content : List Byte
  deriving DecidableEq

/-- The path cache and the local cache files. -/
structure Cache where
  que : PathQueArray → PathCacheQue
  files : Nat → LocalFile

namespace Cache

/-- What array `w` holds for a path, from the top of its queue. -/
def entries (c : Cache) (w : PathQueArray) (p : Path) : List PathCache :=
  HashQueues.entries PathCache.filePath pathSlot (c.que w) p

/-- Remove a local file's name. -/
def unlink (files : Nat → LocalFile) (f : Nat) : Nat → LocalFile :=
  update files f { files f with linked := false }

def freePathCache (files : Nat → LocalFile) (e : PathCache) : Nat → LocalFile :=
  match e.owned with
  | none => files
  | some f => unlink files f

/-- `chkCacheExpire`: free the expired entries at the top of the slot of `p`. -/
def chkCacheExpire (c : Cache) (now : Nat) (w : PathQueArray) (p : Path) : Cache :=
  { que := update c.que w
      (HashQueues.expire (PathCache.expired now) (c.que w) (pathSlot p))
    files := ((c.que w (pathSlot p)).takeWhile (PathCache.expired now)).foldl freePathCache c.files }

def matchPathInPathCache (c : Cache) (now : Nat) (p : Path) (w : PathQueArray) :
    Cache × Option PathCache :=
  let c := c.chkCacheExpire now w p
  (c, HashQueues.find PathCache.filePath pathSlot (c.que w) p)

/-- `addPathToCache`; the entry is queued without looking for an older one. -/
def addPathToCache (c : Cache) (w : PathQueArray) (e : PathCache) : Cache :=
  { c with que := update c.que w (HashQueues.push PathCache.filePath pathSlot (c.que w) e) }

/-- `rmPathFromCache`: the first entry for the path goes, a second one stays. -/
def rmPathFromCache (c : Cache) (p : Path) (w : PathQueArray) : Cache :=
  { que := update c.que w (HashQueues.remove PathCache.filePath pathSlot (c.que w) p)
    files :=
      match HashQueues.find PathCache.filePath pathSlot (c.que w) p with
      | none => c.files
      | some e => freePathCache c.files e }

/-- Change the entry that `matchPathInPathCache` found for `p`, through its pointer. -/
def setPathCache (c : Cache) (p : Path) (f : PathCache → PathCache) : Cache :=
  let que := HashQueues.modify PathCache.filePath pathSlot (c.que .pathArray) p f
  { c with que := update c.que .pathArray que }

/-- Update the size of the entry found for `p`. -/
def setSize (c : Cache) (p : Path) (size : Nat) : Cache :=
  c.setPathCache p fun e => { e with stSize := size }

/-- `freeFileCache` on the entry found for `p`, whose local file is `f`. -/
def freeFileCache (c : Cache) (p : Path) (f : Nat) : Cache :=
  { c.setPathCache p PathCache.withoutFile with files := unlink c.files f }

/-! ## What the operations do to the entries of a path -/

variable (c : Cache) (now : Nat) (w : PathQueArray) (q : Path) (v : PathQueArray) (p : Path)

theorem entries_chkCacheExpire_suffix : (c.chkCacheExpire now w q).entries v p <:+ c.entries v p := by
  unfold entries chkCacheExpire
  dsimp only
  by_cases hv : v = w
  · subst hv
    rw [update_self]
    exact HashQueues.entries_expire_suffix _ _ _ _
  · rewrite [update_of_ne hv]
    exact List.suffix_rfl

theorem entries_chkCacheExpire_of_fresh {c : Cache} {now : Nat} {v : PathQueArray} {p : Path}
    (h : ∀ e ∈ c.entries v p, e.expired now = false) (w : PathQueArray) (q : Path) :
    (c.chkCacheExpire now w q).entries v p = c.entries v p := by
  unfold entries chkCacheExpire
  dsimp only
  by_cases hv : v = w
  · subst hv
    rw [update_self]
    exact HashQueues.entries_expire_of_fresh h _
  · rw [update_of_ne hv]

theorem matchPathInPathCache_snd (w : PathQueArray) :
    (c.matchPathInPathCache now p w).2 = ((c.chkCacheExpire now w p).entries w p).head? :=
  HashQueues.find_eq_head? _ _

theorem entries_addPathToCache (e : PathCache) (v : PathQueArray) (p : Path) :
    (c.addPathToCache w e).entries v p =
      if v = w ∧ e.filePath = p then c.entries v p ++ [e] else c.entries v p := by
  unfold entries addPathToCache
  dsimp only
  by_cases hv : v = w
  · subst hv
    rw [update_self, HashQueues.entries_push]
    simp
  · rw [update_of_ne hv, if_neg (by simp [hv])]

theorem entries_rmPathFromCache (w v : PathQueArray) (p : Path) : (c.rmPathFromCache q w).entries v p =
      if v = w ∧ p = q then (c.entries w q).tail else c.entries v p := by
  unfold entries rmPathFromCache
  dsimp only
  by_cases hv : v = w
  · subst hv
    rw [update_self, HashQueues.entries_remove]
    simp
  · rw [update_of_ne hv, if_neg (by simp [hv])]

theorem entries_setPathCache {f : PathCache → PathCache}
    (hf : ∀ e, (f e).filePath = e.filePath) (v : PathQueArray) (p : Path) :
    (c.setPathCache q f).entries v p =
      if v = .pathArray ∧ p = q then (c.entries .pathArray q).modifyHead f else c.entries v p := by
  unfold entries setPathCache
  dsimp only
  by_cases hv : v = .pathArray
  · subst hv
    rw [update_self, HashQueues.entries_modify _ _ _ hf]
    simp
  · rw [update_of_ne hv, if_neg (by simp [hv])]

end Cache

end Fuse
