-- SUMMARY: The path cache agrees with completed namespace operations.
import Irods.Fuse.Oper

/-!
# The path cache and the namespace

A consistent cache has at most one entry per path and array, and no path in both
arrays. Only `addPathToCache` can break that; everything else the client does to the
cache takes entries away or changes them in place (`Shrinks`). `CacheOk` says in
which states an operation keeps the cache consistent and leaves it in agreement with
what it has just done.
-/

namespace Fuse

/-! ## Taking entries away -/

/-- `c'` has no more entries than `c` for any path. -/
def Cache.Shrinks (c c' : Cache) : Prop :=
  ∀ w p, (c'.entries w p).length ≤ (c.entries w p).length

variable {a b c c' : Cache} {e : PathCache} {p : Path} {w : PathQueArray}

namespace Cache

theorem Shrinks.refl (c : Cache) : c.Shrinks c := fun _ _ => Nat.le_refl _

theorem Shrinks.trans (h₁ : a.Shrinks b) (h₂ : b.Shrinks c) : a.Shrinks c :=
  fun w p => Nat.le_trans (h₂ w p) (h₁ w p)

/-- The local files do not matter for the entries. -/
theorem Shrinks.of_que_eq (h : c'.que = c.que) : c.Shrinks c' := by
  intro w p
  simp only [entries, h]
  exact Nat.le_refl _

theorem Shrinks.nil (h : c.Shrinks c') (hp : c.entries w p = []) : c'.entries w p = [] := by
  have hle := h w p
  rw [hp] at hle
  exact List.length_eq_zero_iff.mp (Nat.le_zero.mp hle)

theorem shrinks_chkCacheExpire (c : Cache) (now : Nat) (w : PathQueArray) (q : Path) :
    c.Shrinks (c.chkCacheExpire now w q) :=
  fun v p => (entries_chkCacheExpire_suffix c now w q v p).length_le

theorem shrinks_rmPathFromCache (c : Cache) (q : Path) (w : PathQueArray) :
    c.Shrinks (c.rmPathFromCache q w) := by
  intro v p
  rw [entries_rmPathFromCache]
  split
  · rename_i h
    rw [h.1, h.2, List.length_tail]
    omega
  · exact Nat.le_refl _

theorem shrinks_setPathCache (c : Cache) (q : Path) {f : PathCache → PathCache}
    (hf : ∀ e, (f e).filePath = e.filePath) : c.Shrinks (c.setPathCache q f) := by
  intro v p
  rw [entries_setPathCache c q hf]
  split
  · rename_i h
    rewrite [h.1, h.2, List.length_modifyHead]
    exact Nat.le_refl _
  · exact Nat.le_refl _

theorem shrinks_setSize (c : Cache) (q : Path) (size : Nat) : c.Shrinks (c.setSize q size) :=
  shrinks_setPathCache c q fun _ => rfl

theorem shrinks_freeFileCache (c : Cache) (q : Path) (f : Nat) : c.Shrinks (c.freeFileCache q f) := by
  have hset : c.Shrinks (c.setPathCache q PathCache.withoutFile) :=
    shrinks_setPathCache c q fun _ => rfl
  exact hset.trans (Shrinks.of_que_eq rfl)

/-- At most one entry per path and array, and no path in both. -/
structure Consistent (c : Cache) : Prop where
  unique : ∀ w p, (c.entries w p).length ≤ 1
  disjoint : ∀ p, c.entries .pathArray p = [] ∨ c.entries .nonExistPathArray p = []

theorem Consistent.shrink (h : c.Consistent) (hs : c.Shrinks c') : c'.Consistent where
  unique := fun w p => Nat.le_trans (hs w p) (h.unique w p)
  disjoint := fun p => (h.disjoint p).imp hs.nil hs.nil

/-- A path without entries can be added to either array. -/
theorem Consistent.add (h : c.Consistent) (hp : ∀ v, c.entries v e.filePath = []) :
    (c.addPathToCache w e).Consistent where
  unique := by
    intro v p
    rw [entries_addPathToCache]
    split
    · rename_i hvp
      rw [← hvp.2, hp v]
      simp
    · exact h.unique v p
  disjoint := by
    intro p
    rw [entries_addPathToCache, entries_addPathToCache]
    by_cases hep : e.filePath = p
    · subst hep
      cases w <;> simp [hp]
    · simpa [hep] using h.disjoint p

/-- Removing the only entry of a path removes the path. -/
theorem entries_rm_of_unique (h : (c.entries w p).length ≤ 1) : (c.rmPathFromCache p w).entries w p = [] := by
  rw [entries_rmPathFromCache, if_pos ⟨rfl, rfl⟩]
  exact List.length_eq_zero_iff.mp (by rw [List.length_tail]; omega)

theorem Consistent.entries_rm (h : c.Consistent) (p : Path) (w : PathQueArray) :
    (c.rmPathFromCache p w).entries w p = [] :=
  entries_rm_of_unique (h.unique w p)

/-- A path can be added to `PathArray` while it is still known as missing, if that is
forgotten in the end. -/
theorem Consistent.add_exists (h : c.Consistent) (hp : c.entries .pathArray e.filePath = [])
    (hs : (c.addPathToCache .pathArray e).Shrinks c') (hn : c'.entries .nonExistPathArray e.filePath = []) :
    c'.Consistent where
  unique := by
    intro w p
    refine Nat.le_trans (hs w p) ?_
    rw [entries_addPathToCache]
    split
    · rename_i hwp
      rw [hwp.1, ← hwp.2, hp]
      exact Nat.le_refl 1
    · exact h.unique w p
  disjoint := by
    intro p
    by_cases hep : e.filePath = p
    · exact .inr (hep ▸ hn)
    · refine (h.disjoint p).imp (fun hnil => hs.nil ?_) (fun hnil => hs.nil ?_)
      · rw [entries_addPathToCache, if_neg (by simp [hep])]; exact hnil
      · rw [entries_addPathToCache, if_neg (by simp [hep])]; exact hnil

theorem entries_match_none (c : Cache) (now : Nat) (p : Path) (w : PathQueArray)
    (h : (c.matchPathInPathCache now p w).2 = none) :
    (c.matchPathInPathCache now p w).1.entries w p = [] := by
  rw [matchPathInPathCache_snd] at h
  exact List.head?_eq_none_iff.mp h

theorem entries_match_some (c : Cache) (now : Nat) (p : Path) (w : PathQueArray)
    (h : (c.matchPathInPathCache now p w).2 = some e) : (c.matchPathInPathCache now p w).1.entries w p ≠ [] := by
  rw [matchPathInPathCache_snd] at h
  intro hnil
  have : (c.chkCacheExpire now w p).entries w p = [] := hnil
  rw [this] at h
  cases h

theorem shrinks_matchPathInPathCache (c : Cache) (now : Nat) (p : Path) (w : PathQueArray) :
    c.Shrinks (c.matchPathInPathCache now p w).1 :=
  shrinks_chkCacheExpire c now w p

end Cache

/-! ## Closing only takes entries away -/

variable {d : Nat} {path : Path} {s t : State}

namespace State

open Cache

variable (parse : Path → Option Path)

theorem ifusePut_cache (s : State) (path : Path) (f : Nat) (put : Reply) :
    (s.ifusePut parse path f put).1.cache = s.cache := by
  unfold ifusePut
  split
  · rfl
  · dsimp only
    split <;> rfl

theorem closeEntry_shrinks (s : State) (now : Nat) (path : Path) :
    s.cache.Shrinks (s.closeEntry now path).1.cache := by
  unfold closeEntry
  dsimp only
  split <;> exact shrinks_matchPathInPathCache _ _ _ _

theorem closeNewlyCreated_shrinks (s : State) (now : Nat) (path : Path) (put : Reply) :
    s.cache.Shrinks (s.closeNewlyCreated parse now path put).1.cache := by
  have hentry := s.closeEntry_shrinks now path
  unfold closeNewlyCreated
  generalize s.closeEntry now path = r at hentry
  obtain ⟨t, _ | ⟨e, f⟩⟩ := r
  · exact hentry
  · refine hentry.trans ?_
    dsimp only
    generalize ((t.updatePathCacheStat e).getD e).stSize = size
    have hput := ifusePut_cache parse (t.onCache fun c => c.setSize path size) path f put
    generalize ifusePut parse (t.onCache fun c => c.setSize path size) path f put = u at hput
    have hset : t.cache.Shrinks u.1.cache := hput ▸ shrinks_setSize t.cache path size
    split
    · exact hset.trans (shrinks_freeFileCache _ _ _)
    · exact hset

theorem ifuseClose_shrinks (s : State) (now : Nat) (path : Path) (d : Nat) (put : Reply) :
    s.cache.Shrinks (s.ifuseClose parse now path d put).1.cache := by
  have hfile : s.cache.Shrinks (s.closeFile parse now path d put).1.cache := by
    unfold closeFile
    split
    · exact Shrinks.refl _
    · split
      · exact s.closeNewlyCreated_shrinks parse now path put
      · exact Shrinks.refl _
  unfold ifuseClose
  dsimp only
  split
  · exact hfile.trans (shrinks_rmPathFromCache _ _ _)
  · exact hfile

theorem closeNewlyCreatedCache_shrinks (s : State) (now : Nat) (i : Slot) (put : Reply) :
    s.cache.Shrinks (s.closeNewlyCreatedCache parse now i put).1.cache := by
  unfold closeNewlyCreatedCache
  split
  · exact Shrinks.refl _
  · split
    · exact s.ifuseClose_shrinks parse now _ _ put
    · exact Shrinks.refl _

theorem chooseSlotStep_shrinks (now : Nat) (puts : Slot → Reply) (acc : State × Option Slot)
    (i : Slot) : acc.1.cache.Shrinks (chooseSlotStep parse now puts acc i).1.cache := by
  obtain ⟨s, newlyInx⟩ := acc
  unfold chooseSlotStep
  dsimp only
  split
  · exact Shrinks.refl _
  · split
    · have hclose := s.closeNewlyCreatedCache_shrinks parse now i (puts i)
      split <;> exact hclose
    · exact Shrinks.refl _

theorem chooseSlot_shrinks (s : State) (now : Nat) (puts : Slot → Reply) :
    s.cache.Shrinks (s.chooseSlot parse now puts).1.cache := by
  have hloop : ∀ (is : List Slot) (acc : State × Option Slot),
      acc.1.cache.Shrinks (is.foldl (chooseSlotStep parse now puts) acc).1.cache := by
    intro is
    induction is with
    | nil => exact fun acc => Shrinks.refl _
    | cons i is ih => exact fun acc => (chooseSlotStep_shrinks parse now puts acc i).trans (ih _)
  have h := hloop (List.finRange numNewlyCreatedSlot) (s, none)
  unfold chooseSlot
  generalize (List.finRange numNewlyCreatedSlot).foldl (chooseSlotStep parse now puts) (s, none) = r at h
  obtain ⟨t, _ | i⟩ := r
  · exact h.trans (t.closeNewlyCreatedCache_shrinks parse now _ _)
  · exact h

/-! ## Lookups and creation -/

theorem lookupCached_spec (h : s.cache.Consistent) (now : Nat) (path : Path) :
    s.cache.Shrinks (s.lookupCached now path).1.cache ∧
    ((s.lookupCached now path).2 = none →
      (s.lookupCached now path).1.cache.entries .pathArray path = []) := by
  have hmatch := shrinks_matchPathInPathCache s.cache now path .pathArray
  have hnone := entries_match_none s.cache now path .pathArray
  unfold lookupCached
  generalize s.cache.matchPathInPathCache now path .pathArray = r at hmatch hnone
  obtain ⟨c, _ | e⟩ := r
  · exact ⟨hmatch, fun _ => hnone rfl⟩
  · dsimp only
    split
    · -- the entry's local file is gone: the entry goes, and there was only one
      exact ⟨hmatch.trans (shrinks_rmPathFromCache _ _ _), fun _ => (h.shrink hmatch).entries_rm _ _⟩
    · exact ⟨hmatch.trans (shrinks_setSize _ _ _), nofun⟩

/-- What a lookup's answer says about the cache it leaves. -/
def LookupPost (c : Cache) (path : Path) : Lookup → Prop
  | .missing => c.entries .pathArray path = []
  | .badPath => c.entries .pathArray path = []
  | .hit _ => True
  | .fetched _ => ∀ w, c.entries w path = []

theorem addNonExist_spec (h : s.cache.Consistent) (now : Nat) (hp : ∀ w, s.cache.entries w path = []) :
    (s.addNonExist now path).cache.Consistent ∧
    (s.addNonExist now path).cache.entries .pathArray path = [] := by
  refine ⟨h.add hp, ?_⟩
  exact hp _

theorem lookupServer_spec (h : s.cache.Consistent) (now : Nat) (hp : ∀ w, s.cache.entries w path = [])
    (reply : StatReply) :
    (s.lookupServer parse now path reply).1.cache.Consistent ∧
    LookupPost (s.lookupServer parse now path reply).1.cache path
      (s.lookupServer parse now path reply).2 := by
  unfold lookupServer
  split
  · exact ⟨h, hp _⟩
  · split
    · split
      · exact ⟨h, hp⟩
      · exact ⟨h, hp⟩
      · exact addNonExist_spec h now hp
    · exact addNonExist_spec h now hp

theorem lookupPath_spec (h : s.cache.Consistent) (now : Nat) (path : Path) (reply : StatReply) :
    (s.lookupPath parse now path reply).1.cache.Consistent ∧
    LookupPost (s.lookupPath parse now path reply).1.cache path
      (s.lookupPath parse now path reply).2 := by
  have hmatch := shrinks_matchPathInPathCache s.cache now path .nonExistPathArray
  have hnone := entries_match_none s.cache now path .nonExistPathArray
  have hsome := fun e => entries_match_some s.cache now path
    .nonExistPathArray (e := e)
  unfold lookupPath
  generalize s.cache.matchPathInPathCache now path .nonExistPathArray = r at hmatch hnone hsome
  obtain ⟨c, _ | e⟩ := r
  · -- not known to be missing: look among the existing paths, then ask the server
    have hc : c.Consistent := h.shrink hmatch
    obtain ⟨hshrink, hgone⟩ := lookupCached_spec (s := { s with cache := c }) hc now path
    dsimp only
    generalize ({ s with cache := c } : State).lookupCached now path = t at hshrink hgone
    obtain ⟨t, _ | e⟩ := t
    · refine lookupServer_spec parse (hc.shrink hshrink) now ?_ reply
      intro w
      cases w with
      | nonExistPathArray => exact hshrink.nil (hnone rfl)
      | pathArray => exact hgone rfl
    · exact ⟨hc.shrink hshrink, trivial⟩
  · exact ⟨h.shrink hmatch, ((h.shrink hmatch).disjoint path).resolve_right (hsome e rfl)⟩

theorem irodsGetattr_spec (h : s.cache.Consistent) (now : Nat) (path : Path) (reply : StatReply) :
    (s.irodsGetattr parse now path reply).1.cache.Consistent ∧
    ((s.irodsGetattr parse now path reply).2 ≠ .ok →
      (s.irodsGetattr parse now path reply).1.cache.entries .pathArray path = []) := by
  obtain ⟨hc, hpost⟩ := lookupPath_spec parse h now path reply
  unfold irodsGetattr
  generalize s.lookupPath parse now path reply = r at hc hpost
  obtain ⟨t, _ | _ | e | size⟩ := r
  · exact ⟨hc, fun _ => hpost⟩
  · exact ⟨hc, fun _ => hpost⟩
  · exact ⟨hc, fun hne => absurd rfl hne⟩
  · exact ⟨hc.add hpost, fun hne => absurd rfl hne⟩

theorem createFile_que (s : State) (content : Option (List Byte)) :
    (s.createFile content).1.cache.que = s.cache.que := by
  cases content <;> rfl

theorem mknodHandle_que (s : State) (path : Path) (env : MknodEnv) :
    (s.mknodHandle parse path env).1.cache.que = s.cache.que := by
  unfold mknodHandle
  split
  · exact s.createFile_que _
  · dsimp only
    split
    · exact s.createFile_que _
    · split <;> exact s.createFile_que _

theorem allocIFuseDesc_cache (h : s.allocIFuseDesc = some (t, d)) : t.cache = s.cache := by
  unfold allocIFuseDesc at h
  split at h
  · cases h
  · cases h; rfl

/-- Before a new entry is made, the path has none; and a path that is created is no
longer known as missing. -/
theorem mknodDesc_spec (h : s.cache.Consistent) (now : Nat) (path : Path) (env : MknodEnv) :
    (s.mknodDesc parse now path env).1.cache.Consistent ∧
    match (s.mknodDesc parse now path env).2 with
    | .ok _ => ∀ w, (s.mknodDesc parse now path env).1.cache.entries w path = []
    | .error ret => ret = .ok →
        (s.mknodDesc parse now path env).1.cache.entries .nonExistPathArray path = [] := by
  obtain ⟨hc, hpath⟩ := irodsGetattr_spec parse h now path env.stat
  unfold mknodDesc
  generalize s.irodsGetattr parse now path env.stat = r at hc hpath
  obtain ⟨t, _ | err⟩ := r
  · exact ⟨hc, nofun⟩
  · dsimp only
    have hque := t.mknodHandle_que parse path env
    generalize t.mknodHandle parse path env = u at hque
    obtain ⟨u, f, _ | ⟨iFd, objPath⟩⟩ := u
    · exact ⟨hc.shrink (Shrinks.of_que_eq hque), nofun⟩
    · have hu : u.cache.Consistent := hc.shrink (Shrinks.of_que_eq hque)
      have hrm := shrinks_rmPathFromCache u.cache path .nonExistPathArray
      have hgone : ∀ w, (u.cache.rmPathFromCache path .nonExistPathArray).entries w path = [] := by
        intro w
        cases w with
        | nonExistPathArray => exact hu.entries_rm _ _
        | pathArray =>
          have := hpath (by simp)
          exact hrm.nil ((Shrinks.of_que_eq hque).nil this)
      dsimp only
      split
      · exact ⟨hu.shrink hrm, fun _ => hgone _⟩
      · rename_i v d halloc
        have hv := allocIFuseDesc_cache halloc
        have hfill : (v.fillIFuseDesc d iFd objPath path).cache =
            u.cache.rmPathFromCache path .nonExistPathArray := hv
        exact ⟨by rw [hfill]; exact hu.shrink hrm, fun w => by rw [hfill]; exact hgone w⟩

theorem irodsMknod_spec (h : s.cache.Consistent) (now : Nat) (path : Path) (env : MknodEnv) :
    (s.irodsMknod parse now path env).1.cache.Consistent ∧
    ((s.irodsMknod parse now path env).2 = .ok →
      (s.irodsMknod parse now path env).1.cache.entries .nonExistPathArray path = []) := by
  obtain ⟨hc, hpost⟩ := mknodDesc_spec parse h now path env
  unfold irodsMknod
  generalize s.mknodDesc parse now path env = r at hc hpost
  obtain ⟨t, ret | ⟨d, f⟩⟩ := r
  · exact ⟨hc, hpost⟩
  · have hslot := t.chooseSlot_shrinks parse now env.puts
    dsimp only
    unfold addNewlyCreatedToCache
    generalize t.chooseSlot parse now env.puts = u at hslot
    obtain ⟨u, i⟩ := u
    have hpath : ∀ w, u.cache.entries w path = [] := fun w => hslot.nil (hpost w)
    refine ⟨(hc.shrink hslot).add hpath, fun _ => ?_⟩
    exact hpath _

/-! ## Rename -/

/-- The cache updates of a rename that never reaches the server. -/
theorem moveFile_spec (h : c.Consistent) (now : Nat) (e : PathCache) (dest : Path) :
    (c.moveFile now e dest).Consistent ∧
    (c.moveFile now e dest).entries .nonExistPathArray dest = [] := by
  have hrm₁ := shrinks_rmPathFromCache c dest .pathArray
  have hc₁ : (c.rmPathFromCache dest .pathArray).Consistent := h.shrink hrm₁
  have hrm₂ := shrinks_rmPathFromCache (c.rmPathFromCache dest .pathArray) dest .nonExistPathArray
  have hgone : ∀ w, ((c.rmPathFromCache dest .pathArray).rmPathFromCache dest
      .nonExistPathArray).entries w dest = [] := by
    intro w
    cases w with
    | nonExistPathArray => exact hc₁.entries_rm _ _
    | pathArray => exact hrm₂.nil (h.entries_rm _ _)
  have hset : ∀ c : Cache, c.Shrinks (c.setPathCache e.filePath PathCache.withoutFile) :=
    fun c => shrinks_setPathCache c _ fun _ => rfl
  refine ⟨((hc₁.shrink hrm₂).add hgone).shrink (hset _), (hset _).nil ?_⟩
  rw [entries_addPathToCache, if_neg (by simp)]
  exact hgone _

theorem renmeOpenedIFuseDesc_spec (h : s.cache.Consistent) (now : Nat) (e : PathCache) (dest : Path) :
    (s.renmeOpenedIFuseDesc parse now e dest).1.cache.Consistent ∧
    ((s.renmeOpenedIFuseDesc parse now e dest).2 = .ok →
      (s.renmeOpenedIFuseDesc parse now e dest).1.cache.entries .nonExistPathArray dest = []) := by
  obtain ⟨hc, hdest⟩ := moveFile_spec h now e dest
  unfold renmeOpenedIFuseDesc
  split
  · exact ⟨h, nofun⟩
  · split
    · exact ⟨hc, nofun⟩
    · exact ⟨hc, fun _ => hdest⟩

theorem renameLocal_spec (h : s.cache.Consistent) (now : Nat) (src dest : Path) :
    (s.renameLocal parse now src dest).1.cache.Consistent ∧
    ((s.renameLocal parse now src dest).2 = true →
      (s.renameLocal parse now src dest).1.cache.entries .pathArray src = [] ∧
      (s.renameLocal parse now src dest).1.cache.entries .nonExistPathArray dest = []) := by
  have hmatch := shrinks_matchPathInPathCache s.cache now src .pathArray
  unfold renameLocal
  generalize s.cache.matchPathInPathCache now src .pathArray = r at hmatch
  obtain ⟨c, _ | e⟩ := r
  · exact ⟨h.shrink hmatch, nofun⟩
  · dsimp only
    split
    · obtain ⟨hc, hpost⟩ := renmeOpenedIFuseDesc_spec parse (s := { s with cache := c })
        (h.shrink hmatch) now e dest
      generalize ({ s with cache := c } : State).renmeOpenedIFuseDesc parse now e dest = t at hc hpost
      obtain ⟨t, _ | err⟩ := t
      · have hrm := shrinks_rmPathFromCache t.cache src .pathArray
        exact ⟨hc.shrink hrm, fun _ => ⟨hc.entries_rm _ _, hrm.nil (hpost rfl)⟩⟩
      · exact ⟨hc, nofun⟩
    · exact ⟨h.shrink hmatch, nofun⟩

theorem renamed_spec (h : s.cache.Consistent) (now : Nat) (src dest : Path) :
    (s.renamed now src dest).cache.Consistent ∧
    (s.renamed now src dest).cache.entries .pathArray src = [] ∧
    (s.renamed now src dest).cache.entries .nonExistPathArray dest = [] := by
  have hrm := shrinks_rmPathFromCache s.cache dest .pathArray
  have hc : (s.cache.rmPathFromCache dest .pathArray).Consistent := h.shrink hrm
  have hdest := h.entries_rm dest .pathArray
  have hmatch := shrinks_matchPathInPathCache (s.cache.rmPathFromCache dest .pathArray) now src
    .pathArray
  have hnone := entries_match_none (s.cache.rmPathFromCache dest .pathArray) now
    src .pathArray
  unfold renamed
  dsimp only [onCache]
  generalize (s.cache.rmPathFromCache dest .pathArray).matchPathInPathCache now src .pathArray = r
    at hmatch hnone
  obtain ⟨c, _ | e⟩ := r
  · have hrm' := shrinks_rmPathFromCache c dest .nonExistPathArray
    have hc' := hc.shrink hmatch
    exact ⟨hc'.shrink hrm', hrm'.nil (hnone rfl), hc'.entries_rm _ _⟩
  · -- the new name is added while it may still be known as missing
    have hc' := hc.shrink hmatch
    have hadd : ∀ w p, ((c.addPathToCache .pathArray (.plain dest e.stSize now)).entries w p).length ≤ 1 := by
      intro w p
      rw [entries_addPathToCache]
      split
      · rename_i hwp
        obtain ⟨rfl, rfl⟩ := hwp
        have : c.entries .pathArray dest = [] := hmatch.nil hdest
        simp [PathCache.plain, this]
      · exact hc'.unique w p
    have hrm₁ := shrinks_rmPathFromCache (c.addPathToCache .pathArray (.plain dest e.stSize now)) src
      .pathArray
    have hrm₂ := shrinks_rmPathFromCache
      ((c.addPathToCache .pathArray (.plain dest e.stSize now)).rmPathFromCache src .pathArray) dest
      .nonExistPathArray
    have hgone := entries_rm_of_unique (w := .nonExistPathArray) (p := dest)
      (Nat.le_trans (hrm₁ _ _) (hadd _ _))
    refine ⟨hc'.add_exists (hmatch.nil hdest) (hrm₁.trans hrm₂) hgone, ?_, hgone⟩
    exact hrm₂.nil (entries_rm_of_unique (hadd _ _))

/-! ## Open, write, release -/

theorem getDescInxInNewlyCreatedCache_shrinks (s : State) (now : Nat) (path : Path) (write : Bool)
    (put : Reply) :
    s.cache.Shrinks (s.getDescInxInNewlyCreatedCache parse now path write put).1.cache := by
  unfold getDescInxInNewlyCreatedCache
  split
  · exact Shrinks.refl _
  · split
    · exact s.closeNewlyCreatedCache_shrinks parse now _ put
    · split <;> exact Shrinks.refl _

theorem readCacheFile_consistent (h : s.cache.Consistent) (now : Nat) (path : Path) (env : OpenEnv) :
    (s.readCacheFile parse now path env).1.cache.Consistent := by
  obtain ⟨hc, hpost⟩ := lookupPath_spec parse h now path env.stat
  unfold readCacheFile
  generalize s.lookupPath parse now path env.stat = r at hc hpost
  obtain ⟨t, _ | _ | e | size⟩ := r
  · exact hc
  · exact hc
  · dsimp only
    split
    · exact hc
    · split
      · exact hc
      · rename_i copy _ _ _
        refine hc.shrink ((Shrinks.of_que_eq (t.createFile_que (some copy))).trans ?_)
        exact shrinks_setPathCache _ _ fun _ => rfl
      · exact hc
  · dsimp only
    split
    · exact hc.add hpost
    · split
      · rename_i copy _ _
        have hque := Shrinks.of_que_eq (t.createFile_que (some copy))
        exact (hc.shrink hque).add fun w => hque.nil (hpost w)
      · exact hc.add hpost

theorem irodsOpenWithReadCache_consistent (h : s.cache.Consistent) (now : Nat) (path : Path) (env : OpenEnv) :
    (s.irodsOpenWithReadCache parse now path env).1.cache.Consistent := by
  have hc := readCacheFile_consistent parse h now path env
  unfold irodsOpenWithReadCache
  generalize s.readCacheFile parse now path env = r at hc
  obtain ⟨t, _ | f⟩ := r
  · exact hc
  · dsimp only
    split
    · exact hc
    · split
      · exact hc
      · rename_i u d halloc
        have hu : u.cache.Consistent := (allocIFuseDesc_cache halloc) ▸ hc
        exact hu

theorem irodsOpenRemote_consistent (h : s.cache.Consistent) (path : Path) (env : OpenEnv) :
    (s.irodsOpenRemote parse path env).1.cache.Consistent := by
  have hc := h.shrink (shrinks_rmPathFromCache s.cache path .nonExistPathArray)
  unfold irodsOpenRemote
  split
  · exact h
  · split
    · dsimp only
      split
      · exact hc
      · rename_i u d halloc
        have hu : u.cache.Consistent := (allocIFuseDesc_cache halloc) ▸ hc
        exact hu
    · exact h

theorem irodsOpen_consistent (h : s.cache.Consistent) (now : Nat) (path : Path) (write : Bool) (env : OpenEnv) :
    (s.irodsOpen parse now path write env).1.cache.Consistent := by
  have hc := h.shrink (s.getDescInxInNewlyCreatedCache_shrinks parse now path write env.put)
  unfold irodsOpen
  generalize s.getDescInxInNewlyCreatedCache parse now path write env.put = r at hc
  obtain ⟨t, _ | d⟩ := r
  · have hread : (if write then (t, none) else t.irodsOpenWithReadCache parse now path env).1.cache.Consistent := by
      split
      · exact hc
      · exact irodsOpenWithReadCache_consistent parse hc now path env
    dsimp only
    generalize (if write then (t, none) else t.irodsOpenWithReadCache parse now path env) = u at hread
    obtain ⟨u, _ | d⟩ := u
    · have hremote := irodsOpenRemote_consistent parse hread path env
      dsimp only
      generalize u.irodsOpenRemote parse path env = v at hremote
      obtain ⟨v, e | d⟩ := v <;> exact hremote
    · exact hread
  · exact hc

theorem ifuseLseek_cache {offset : Nat} {reply : Reply} (h : s.ifuseLseek d offset reply = some t) :
    t.cache = s.cache := by
  unfold ifuseLseek at h
  split at h
  · cases h; rfl
  · split at h
    · cases h; rfl
    · cases h

theorem switchToIrods_shrinks (s : State) (path : Path) (d file : Nat) (env : WriteEnv) :
    s.cache.Shrinks (s.switchToIrods parse path d file env).1.cache := by
  have hrm := shrinks_rmPathFromCache s.cache path .pathArray
  unfold switchToIrods
  dsimp only
  split
  · exact hrm
  · split
    · exact hrm
    · split
      · exact hrm
      · split
        · exact hrm
        · rename_i t hseek
          rw [ifuseLseek_cache hseek]
          exact hrm

theorem writeLocal_shrinks (s : State) (path : Path) (d f pos n : Nat) (data : List Byte)
    (env : WriteEnv) : s.cache.Shrinks (s.writeLocal parse path d f pos n data env).1.cache := by
  have hlocal : s.cache.Shrinks (s.localWritten d f pos n data).cache := Shrinks.of_que_eq rfl
  unfold writeLocal
  dsimp only
  split
  · have hswitch := hlocal.trans ((s.localWritten d f pos n data).switchToIrods_shrinks
      parse path d f env)
    generalize (s.localWritten d f pos n data).switchToIrods parse path d f env = u at hswitch
    obtain ⟨u, _ | e⟩ := u <;> exact hswitch
  · exact hlocal

theorem ifuseWrite_shrinks (s : State) (path : Path) (d : Nat) (data : List Byte) (env : WriteEnv) :
    s.cache.Shrinks (s.ifuseWrite parse path d data env).1.cache := by
  unfold ifuseWrite
  split
  · unfold writeRemote
    split <;> exact Shrinks.refl _
  · exact Shrinks.refl _
  · exact s.writeLocal_shrinks parse path d _ _ _ data env
  · exact Shrinks.refl _

theorem irodsWrite_shrinks (s : State) (path : Path) (d : Nat) (data : List Byte) (offset : Nat)
    (env : WriteEnv) : s.cache.Shrinks (s.irodsWrite parse path d data offset env).1.cache := by
  unfold irodsWrite
  split
  · exact Shrinks.refl _
  · split
    · exact Shrinks.refl _
    · rename_i t hseek
      rw [← ifuseLseek_cache hseek]
      split
      · exact Shrinks.refl _
      · exact t.ifuseWrite_shrinks parse path d data env

theorem irodsRelease_shrinks (s : State) (now : Nat) (path : Path) (d : Nat) (put : Reply) :
    s.cache.Shrinks (s.irodsRelease parse now path d put).1.cache := by
  unfold irodsRelease
  split
  · exact Shrinks.refl _
  · exact s.ifuseClose_shrinks parse now path d put

end State

/-! ## Live entries -/

/-- Array `w` has an entry for `p` that has not expired. -/
def Cache.Live (c : Cache) (now : Nat) (w : PathQueArray) (p : Path) : Prop :=
  ∃ e ∈ c.entries w p, e.expired now = false

instance (c : Cache) (now : Nat) (w : PathQueArray) (p : Path) : Decidable (c.Live now w p) :=
  inferInstanceAs (Decidable (∃ e ∈ c.entries w p, e.expired now = false))

/-- No entry for `p` comes alive from `c` to `c'`. -/
def Cache.Fades (c c' : Cache) (w : PathQueArray) (p : Path) : Prop :=
  ∀ now, c'.Live now w p → c.Live now w p

variable {dest : Path}

namespace Cache

theorem not_live_of_nil {now : Nat} (h : c.entries w p = []) : ¬ c.Live now w p := by
  rintro ⟨e, he, -⟩
  rw [h] at he
  cases he

theorem Fades.trans (h₁ : a.Fades b w p) (h₂ : b.Fades c w p) :
    a.Fades c w p := fun now h => h₁ now (h₂ now h)

theorem Fades.of_subset (h : c'.entries w p ⊆ c.entries w p) : c.Fades c' w p :=
  fun _ ⟨e, he, hlive⟩ => ⟨e, h he, hlive⟩

theorem fades_matchPathInPathCache (c : Cache) (now : Nat) (q : Path) (w v : PathQueArray) (p : Path) :
    c.Fades (c.matchPathInPathCache now q w).1 v p :=
  .of_subset (entries_chkCacheExpire_suffix c now w q v p).subset

theorem fades_rmPathFromCache (c : Cache) (q : Path) (w v : PathQueArray) (p : Path) :
    c.Fades (c.rmPathFromCache q w) v p := by
  apply Fades.of_subset
  rw [entries_rmPathFromCache]
  split
  · rename_i h
    rw [h.1, h.2]
    exact (List.tail_suffix _).subset
  · exact List.Subset.refl _

theorem fades_addPathToCache {v : PathQueArray} (h : e.filePath ≠ p) : c.Fades (c.addPathToCache w e) v p := by
  apply Fades.of_subset
  rw [entries_addPathToCache, if_neg (by simp [h])]
  exact List.Subset.refl _

theorem fades_withoutFile (c : Cache) (q : Path) (v : PathQueArray) (p : Path) :
    c.Fades (c.setPathCache q PathCache.withoutFile) v p := by
  rintro now ⟨e, he, hlive⟩
  have hf : ∀ e : PathCache, e.withoutFile.filePath = e.filePath := fun _ => rfl
  rw [entries_setPathCache c q hf] at he
  split at he
  · rename_i h
    rw [h.1, h.2]
    unfold Live
    cases hl : c.entries .pathArray q with
    | nil => rw [hl] at he; cases he
    | cons a l =>
      rw [hl, List.modifyHead_cons] at he
      rcases List.mem_cons.mp he with rfl | he
      · exact ⟨a, List.mem_cons_self, hlive⟩
      · exact ⟨e, List.mem_cons_of_mem a he, hlive⟩
  · exact ⟨e, he, hlive⟩

theorem fades_moveFile (c : Cache) (now : Nat) (e : PathCache) (h : dest ≠ p) :
    c.Fades (c.moveFile now e dest) .pathArray p :=
  (fades_rmPathFromCache c dest _ _ p).trans <| (fades_rmPathFromCache _ dest _ _ p).trans <|
    (fades_addPathToCache h).trans <| fades_withoutFile _ _ _ p

end Cache

namespace State

open Cache

variable (parse : Path → Option Path)

variable {obj : Path}

theorem renameLocal_fades (s : State) (now : Nat) (src : Path) (h : dest ≠ p) :
    s.cache.Fades (s.renameLocal parse now src dest).1.cache .pathArray p := by
  have hmatch := fades_matchPathInPathCache s.cache now src .pathArray .pathArray p
  unfold renameLocal
  generalize s.cache.matchPathInPathCache now src .pathArray = r at hmatch
  obtain ⟨c, _ | e⟩ := r
  · exact hmatch
  · dsimp only
    split
    · have hmove : s.cache.Fades
          (({ s with cache := c } : State).renmeOpenedIFuseDesc parse now e dest).1.cache .pathArray p := by
        unfold renmeOpenedIFuseDesc
        split
        · exact hmatch
        · split <;> exact hmatch.trans (fades_moveFile c now e h)
      generalize ({ s with cache := c } : State).renmeOpenedIFuseDesc parse now e dest = t at hmove
      obtain ⟨t, _ | err⟩ := t
      · exact hmove.trans (fades_rmPathFromCache _ _ _ _ p)
      · exact hmove
    · exact hmatch

/-- `renmeOpenedIFuseDesc` with a good destination fails only for want of a descriptor. -/
theorem renmeOpenedIFuseDesc_refused {now : Nat} {err : Errno} (hobj : parse dest = some obj)
    (h : s.renmeOpenedIFuseDesc parse now e dest = (t, .fail err)) : t = s := by
  unfold renmeOpenedIFuseDesc at h
  split at h
  · cases h; rfl
  · rw [hobj] at h
    cases h

/-- A local rename that is refused for another reason than its destination's name has
changed nothing. -/
theorem renameLocal_refused (s : State) (now : Nat) (src : Path) (hobj : parse dest = some obj)
    (h : (s.renameLocal parse now src dest).2 = false) :
    (s.renameLocal parse now src dest).1 =
      { s with cache := (s.cache.matchPathInPathCache now src .pathArray).1 } := by
  unfold renameLocal at h ⊢
  generalize s.cache.matchPathInPathCache now src .pathArray = r at h
  obtain ⟨c, _ | e⟩ := r
  · rfl
  · dsimp only at h ⊢
    split at h
    · rename_i hcond
      rw [if_pos hcond]
      generalize hr : ({ s with cache := c } : State).renmeOpenedIFuseDesc parse now e dest = t at h
      obtain ⟨t, _ | err⟩ := t
      · cases h
      · exact renmeOpenedIFuseDesc_refused parse hobj hr
    · rename_i hcond
      rw [if_neg hcond]

theorem renamed_fades (s : State) (now : Nat) (src : Path) (h : dest ≠ p) :
    s.cache.Fades (s.renamed now src dest).cache .pathArray p := by
  have hrm := fades_rmPathFromCache s.cache dest .pathArray .pathArray p
  have hmatch := fades_matchPathInPathCache (s.cache.rmPathFromCache dest .pathArray) now src
    .pathArray .pathArray p
  unfold renamed
  dsimp only [onCache]
  generalize (s.cache.rmPathFromCache dest .pathArray).matchPathInPathCache now src .pathArray = r
    at hmatch
  obtain ⟨c, _ | e⟩ := r
  · exact (hrm.trans hmatch).trans (fades_rmPathFromCache _ _ _ _ p)
  · exact (hrm.trans hmatch).trans <| (fades_addPathToCache h).trans <|
      (fades_rmPathFromCache _ _ _ _ p).trans (fades_rmPathFromCache _ _ _ _ p)

end State

/-! ## Every operation, and every run -/

/-- `q` lies below the directory `p`. -/
def Below (p q : Path) : Prop := p ++ [47] <+: q

/-- What the cache must not contradict after an operation has returned 0. -/
def Agrees (c : Cache) : Op → Prop
  | .mkdir now p .. => ¬ c.Live now .nonExistPathArray p
  | .mknod now p _ => ¬ c.Live now .nonExistPathArray p
  | .unlink now p .. => ¬ c.Live now .pathArray p
  | .rmdir now p .. => ¬ c.Live now .pathArray p
  | .rename now src dest _ =>
    (∀ q, q = src ∨ Below src q → ¬ c.Live now .pathArray q) ∧ ¬ c.Live now .nonExistPathArray dest
  | _ => True

/-- When an operation leaves the caches in agreement with it: a directory is not cached twice, a retry
finds nothing to update, no entry is cached below a renamed path, nor is the new name below it.
Every path has a slot. -/
def CacheOk (s : State) : Op → Prop
  | .mkdir now p first retry =>
    (first = .ok → s.cache.entries .pathArray p = []) ∧
    (first ≠ .ok → first.retried retry = .ok → ¬ s.cache.Live now .nonExistPathArray p)
  | .unlink now p first retry =>
    first ≠ .ok → first.retried retry = .ok → ¬ s.cache.Live now .pathArray p
  | .rmdir now p first retry =>
    first ≠ .ok → first.retried retry = .ok → ¬ s.cache.Live now .pathArray p
  | .rename now src dest reply =>
    ¬ Below src dest ∧ (∀ q, Below src q → ¬ s.cache.Live now .pathArray q) ∧
    (reply.status ≠ .ok → reply.status.retried reply.retry = .ok →
      ¬ s.cache.Live now .pathArray src ∧ ¬ s.cache.Live now .nonExistPathArray dest)
  | .outside .. => False
  | _ => True

namespace State

open Cache

variable (parse : Path → Option Path)

variable {now : Nat}

variable {first retry : Reply}

theorem irodsMkdir_spec (h : s.cache.Consistent) (hok : CacheOk s (.mkdir now path first retry)) :
    (s.irodsMkdir parse now path first retry).1.cache.Consistent ∧
    ((s.irodsMkdir parse now path first retry).2 = .ok →
      ¬ (s.irodsMkdir parse now path first retry).1.cache.Live now .nonExistPathArray path) := by
  obtain ⟨hfirst, hretry⟩ := hok
  unfold irodsMkdir
  split
  · exact ⟨h, nofun⟩
  · split
    · rename_i hok
      have hnone : s.cache.entries .pathArray (PathCache.plain path dirSz now).filePath = [] := hfirst hok
      have hn : (s.cache.addPathToCache .pathArray (.plain path dirSz now)).entries
          .nonExistPathArray path = s.cache.entries .nonExistPathArray path := by
        rw [entries_addPathToCache, if_neg (by simp)]
      have hgone := entries_rm_of_unique (c := s.cache.addPathToCache .pathArray (.plain path dirSz now))
        (p := path) (w := .nonExistPathArray) (by rw [hn]; exact h.unique _ _)
      exact ⟨h.add_exists hnone (shrinks_rmPathFromCache _ _ _) hgone, fun _ => not_live_of_nil hgone⟩
    · rename_i hne
      split
      · rename_i hretried
        exact ⟨h, fun _ => hretry hne hretried⟩
      · exact ⟨h, nofun⟩

theorem removePath_spec (h : s.cache.Consistent)
    (hok : first ≠ .ok → first.retried retry = .ok → ¬ s.cache.Live now .pathArray path) :
    (s.removePath parse path first retry).1.cache.Consistent ∧
    ((s.removePath parse path first retry).2 = .ok →
      ¬ (s.removePath parse path first retry).1.cache.Live now .pathArray path) := by
  unfold removePath
  split
  · exact ⟨h, nofun⟩
  · split
    · exact ⟨h.shrink (shrinks_rmPathFromCache _ _ _), fun _ => not_live_of_nil (h.entries_rm _ _)⟩
    · rename_i hne
      split
      · rename_i hretried
        exact ⟨h, fun _ => hok hne hretried⟩
      · exact ⟨h, nofun⟩

theorem irodsRename_spec {src : Path} {reply : RenameReply} (h : s.cache.Consistent)
    (hok : CacheOk s (.rename now src dest reply)) :
    (s.irodsRename parse now src dest reply).1.cache.Consistent ∧
    ((s.irodsRename parse now src dest reply).2 = .ok →
      Agrees (s.irodsRename parse now src dest reply).1.cache (.rename now src dest reply)) := by
  obtain ⟨hnot, hbelow, hretry⟩ := hok
  have hne : ∀ q, Below src q → dest ≠ q := fun q hq hdest => hnot (hdest ▸ hq)
  obtain ⟨hc, hlocal⟩ := renameLocal_spec parse h now src dest
  have hfades := fun q hq => s.renameLocal_fades parse now src (hne q hq)
  have hrefused := fun obj (hobj : parse dest = some obj) => s.renameLocal_refused parse now src hobj
  unfold irodsRename
  generalize s.renameLocal parse now src dest = r at hc hlocal hfades hrefused
  obtain ⟨t, _ | _⟩ := r
  · dsimp only
    split
    · rename_i obj _ hobj
      split
      · obtain ⟨hc', hsrc, hdest⟩ := renamed_spec hc now src dest
        refine ⟨hc', fun _ => ⟨?_, not_live_of_nil hdest⟩⟩
        rintro q (rfl | hq)
        · exact not_live_of_nil hsrc
        · intro hlive
          exact hbelow q hq (hfades q hq now (t.renamed_fades now src (hne q hq) now hlive))
      · rename_i hstatus
        split
        · rename_i hretried
          -- a retry: the caches are as they were before, up to expiry
          have ht : t.cache = (s.cache.matchPathInPathCache now src .pathArray).1 :=
            congrArg State.cache (hrefused _ hobj rfl)
          obtain ⟨hsrc, hdest⟩ := hretry hstatus hretried
          refine ⟨hc, fun _ => ⟨?_, fun hlive => hdest ?_⟩⟩
          · rintro q (rfl | hq) hlive
            · rw [ht] at hlive
              exact hsrc (fades_matchPathInPathCache _ _ _ _ _ _ now hlive)
            · exact hbelow q hq (hfades q hq now hlive)
          · rw [ht] at hlive
            exact fades_matchPathInPathCache _ _ _ _ _ _ now hlive
        · exact ⟨hc, nofun⟩
    · exact ⟨hc, nofun⟩
  · obtain ⟨hsrc, hdest⟩ := hlocal rfl
    refine ⟨hc, fun _ => ⟨?_, not_live_of_nil hdest⟩⟩
    rintro q (rfl | hq)
    · exact not_live_of_nil hsrc
    · exact fun hlive => hbelow q hq (hfades q hq now hlive)

end State

/-- One operation keeps the cache consistent, and in agreement with what it did. -/
theorem step_agrees {parse : Path → Option Path} {op : Op} {r : State × Ret} (h : s.cache.Consistent)
    (hok : CacheOk s op) (hstep : step parse s op = some r) :
    r.1.cache.Consistent ∧ (r.2 = .ok → Agrees r.1.cache op) := by
  cases op with
  | getattr now path reply =>
    obtain rfl := Option.some.inj hstep
    have hspec := State.irodsGetattr_spec parse h now path reply
    exact ⟨hspec.1, fun _ => trivial⟩
  | mknod now path env =>
    obtain rfl := Option.some.inj hstep
    have hspec := State.irodsMknod_spec parse h now path env
    exact ⟨hspec.1, fun hret => Cache.not_live_of_nil (hspec.2 hret)⟩
  | mkdir now path first retry =>
    obtain rfl := Option.some.inj hstep
    exact State.irodsMkdir_spec parse h hok
  | unlink now path first retry =>
    obtain rfl := Option.some.inj hstep
    exact State.removePath_spec parse h hok
  | rmdir now path first retry =>
    obtain rfl := Option.some.inj hstep
    exact State.removePath_spec parse h hok
  | rename now src dest reply =>
    obtain rfl := Option.some.inj hstep
    exact State.irodsRename_spec parse h hok
  | open_ now path write env =>
    obtain rfl := Option.some.inj hstep
    exact ⟨State.irodsOpen_consistent parse h now path write env, fun _ => trivial⟩
  | write now path d data offset env =>
    simp only [step] at hstep
    split at hstep
    · obtain rfl := Option.some.inj hstep
      exact ⟨h.shrink (s.irodsWrite_shrinks parse path d data offset env), fun _ => trivial⟩
    · cases hstep
  | release now path d put =>
    simp only [step] at hstep
    split at hstep
    · obtain rfl := Option.some.inj hstep
      exact ⟨h.shrink (s.irodsRelease_shrinks parse now path d put), fun _ => trivial⟩
    · cases hstep
  | outside now path left ret => exact hok.elim

theorem init_consistent : State.init.cache.Consistent where
  unique := by intro w p; exact Nat.zero_le 1
  disjoint := by intro p; exact .inl rfl

/-- **The path cache does not contradict the namespace.** In every run whose operations meet
`CacheOk`, no path is live in both arrays, and no live entry contradicts a 0 just returned. -/
theorem pathCache_agrees (parse : Path → Option Path) (ops : List Op) {s : State} {rets : List Ret}
    (hok : (fuse parse).Guarded CacheOk State.init ops)
    (hrun : (fuse parse).run State.init ops = some (s, rets)) :
    (∀ now p, ¬ (s.cache.Live now .pathArray p ∧ s.cache.Live now .nonExistPathArray p)) ∧
    (∀ ops' op rets', ops = ops' ++ [op] → rets = rets' ++ [.ok] → Agrees s.cache op) := by
  have hstep : ∀ (s : State) (op : Op) (s' : State) (ret : Ret), s.cache.Consistent → CacheOk s op →
      (fuse parse).step s op = some (s', ret) → s'.cache.Consistent :=
    fun s op s' ret hs hop h => (step_agrees hs hop (step_of_fuse h)).1
  constructor
  · have hc := Machine.run_invariant (fun s : State => s.cache.Consistent) hstep
      init_consistent hok hrun
    rintro now p ⟨hexist, hmissing⟩
    rcases hc.disjoint p with hnil | hnil
    · exact Cache.not_live_of_nil hnil hexist
    · exact Cache.not_live_of_nil hnil hmissing
  · rintro ops' op rets' rfl rfl
    obtain ⟨t, o, os, ht, hop, hlast, heq⟩ := Machine.run_last (fun s : State => s.cache.Consistent)
      hstep init_consistent hok hrun
    have ho : o = .ok := by
      have := congrArg List.getLast? heq
      simpa using this.symm
    exact (step_agrees ht hop (step_of_fuse hlast)).2 ho

/-- `parseRodsPathStr` for paths without special components, with `/z` as the current
collection. -/
def parseInZone (path : Path) : Option Path := some (47 :: 122 :: path)

theorem pathCache_agrees_mkdir_rmdir :
    ∃ s, (fuse parseInZone).run State.init
        [.getattr 0 [47, 97] ⟨.error, .error, .unknown⟩, .mkdir 1 [47, 97] .ok .error,
          .rmdir 2 [47, 97] .ok .error] = some (s, [.fail .ENOENT, .ok, .ok]) ∧
      ¬ s.cache.Live 2 .pathArray [47, 97] := by
  refine ⟨_, rfl, ?_⟩
  refine (pathCache_agrees parseInZone
    [.getattr 0 [47, 97] ⟨.error, .error, .unknown⟩, .mkdir 1 [47, 97] .ok .error,
      .rmdir 2 [47, 97] .ok .error] ?_ rfl).2 [_, _] _ [_, _] rfl rfl
  refine .cons trivial rfl (.cons ⟨fun _ => by decide, fun h => absurd rfl h⟩ rfl (.cons ?_ rfl trivial))
  exact fun h => absurd rfl h

/-- A directory made on the second try stays known as missing. -/
theorem mkdir_retry_leaves_missing :
    ¬ ∀ (parse : Path → Option Path) (ops : List Op) (s : State) (rets : List Ret),
      (fuse parse).run State.init ops = some (s, rets) →
        (∀ now p, ¬ (s.cache.Live now .pathArray p ∧ s.cache.Live now .nonExistPathArray p)) ∧
        (∀ ops' op rets', ops = ops' ++ [op] → rets = rets' ++ [.ok] → Agrees s.cache op) := by
  intro h
  obtain ⟨s, hrun, hlive⟩ : ∃ s, (fuse parseInZone).run State.init
      [.getattr 0 [47, 97] ⟨.error, .error, .unknown⟩, .mkdir 1 [47, 97] .readMsgError .ok] =
        some (s, [.fail .ENOENT, .ok]) ∧ s.cache.Live 1 .nonExistPathArray [47, 97] :=
    ⟨_, rfl, by decide⟩
  exact (h _ _ _ _ hrun).2 [_] _ [_] rfl rfl hlive

end Fuse
