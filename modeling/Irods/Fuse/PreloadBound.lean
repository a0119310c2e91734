-- SUMMARY: When the preload cache stays within its size limit.
import Irods.Fuse.PreloadCache
import Mathlib.Algebra.Order.BigOperators.Group.List
import Mathlib.Algebra.Order.Ring.Nat

open Fuse (Path)

/-!
# The size of the preload cache

`preloadFile` measures what is on disk and not what running downloads will still write,
and eviction takes a `.part` file as any other. So two downloads can be started that
together do not fit, and a `.part` file can be evicted under its download.

While no other call is in `moveToPreloadedDir`, and a file is added either with no
download running or with room for everything that is there and still to come, the
limit is kept and eviction only meets files that nobody writes.
-/

namespace Preload

open List (filter_sublist forall_mem_cons map_cons mem_cons mem_cons_of_mem mem_cons_self mem_singleton sum_cons)

/-! ## Sizes -/

variable {α : Type} {l : List α} {x : α}

/-- Leaving elements out of a list takes at least what each of them counts. -/
theorem sum_filter_add_le (f : α → Nat) (p : α → Bool) (hx : x ∈ l) (hp : p x = false) :
    ((l.filter p).map f).sum + f x ≤ (l.map f).sum := by
  induction l with
  | nil => cases hx
  | cons y l ih =>
    have hrest : ((l.filter p).map f).sum ≤ (l.map f).sum := (filter_sublist.map f).sum_le_sum (by simp)
    rcases List.mem_cons.mp hx with rfl | hx'
    · rw [List.filter_cons_of_neg (by simp [hp])]
      simp only [map_cons, sum_cons]
      omega
    · have hx := ih hx'
      cases hy : p y with
      | true =>
        rw [List.filter_cons_of_pos hy]
        simp only [map_cons, sum_cons]
        omega
      | false =>
        rw [List.filter_cons_of_neg (by simp [hy])]
        simp only [map_cons, sum_cons]
        omega

variable {k : Nat}

/-- A sum goes down by at least what one of its terms does. -/
theorem sum_map_add_le {f g : α → Nat} (hx : x ∈ l) (hle : ∀ y ∈ l, f y ≤ g y) (hk : f x + k ≤ g x) :
    (l.map f).sum + k ≤ (l.map g).sum := by
  induction l with
  | nil => cases hx
  | cons y l ih =>
    have hy := hle y mem_cons_self
    have hrest : ∀ z ∈ l, f z ≤ g z := fun z hz => hle z (mem_cons_of_mem y hz)
    simp only [map_cons, sum_cons]
    rcases List.mem_cons.mp hx with rfl | hx'
    · have := List.sum_le_sum hrest
      omega
    · have := ih hx' hrest
      omega

namespace CacheDir

theorem size_unlink_le (d : CacheDir) (name : Path) :
    (d.unlink name).getFileSizeRecursive ≤ d.getFileSizeRecursive :=
  (filter_sublist.map CacheFile.size).sum_le_sum (by simp)

variable {d : CacheDir} {f : CacheFile}

theorem size_unlink_add_le (hf : f ∈ d) : (d.unlink f.name).getFileSizeRecursive + f.size ≤ d.getFileSizeRecursive :=
  sum_filter_add_le CacheFile.size _ hf (by simp)

theorem size_place (d : CacheDir) (slot : Nat) (f : CacheFile) :
    (d.place slot f).getFileSizeRecursive = (d.unlink f.name).getFileSizeRecursive + f.size := by
  have h := congrArg (fun l => (l.map CacheFile.size).sum) (List.take_append_drop slot (d.unlink f.name))
  simp only [List.map_append, List.sum_append] at h
  simp only [place, getFileSizeRecursive, List.map_append, map_cons, List.sum_append, sum_cons]
  omega

theorem size_grow_le (d : CacheDir) (ino k : Nat) :
    (d.grow ino k).getFileSizeRecursive ≤ d.getFileSizeRecursive + k := by
  induction d with
  | nil => exact Nat.zero_le _
  | cons f d ih =>
    simp only [getFileSizeRecursive] at ih ⊢
    simp only [grow]
    split
    · simp only [map_cons, sum_cons]
      omega
    · simp only [map_cons, sum_cons]
      omega

theorem size_invalidateCache_le (d : CacheDir) (path : Path) :
    (d.invalidateCache path).getFileSizeRecursive ≤ d.getFileSizeRecursive := by
  simp only [invalidateCache]
  split
  · exact (filter_sublist.map CacheFile.size).sum_le_sum (by simp)
  · exact Nat.le_trans (size_unlink_le _ _) (size_unlink_le _ _)

theorem mem_of_lookup {name : Path} (h : d.lookup name = some f) : f ∈ d ∧ f.name = name := by
  refine ⟨List.mem_of_find?_eq_some h, ?_⟩
  simpa using List.find?_some h

theorem lookup_isSome (h : f ∈ d) : (d.lookup f.name).isSome = true := by
  rw [lookup, List.find?_isSome]
  exact ⟨f, h, by simp⟩

/-- What is found is one of the files, none of which is older, and something is found if there is one. -/
theorem findOldestCache_spec (d : CacheDir) :
    (∀ f, d.findOldestCache = some f → f ∈ d ∧ ∀ g ∈ d, f.atime ≤ g.atime) ∧ (d.findOldestCache = none → d = []) := by
  have key : ∀ (d : CacheDir) (o : CacheFile), ∃ f,
      findOldestCache (o :: d) = some f ∧ f ∈ o :: d ∧ ∀ g ∈ o :: d, f.atime ≤ g.atime := by
    intro d
    induction d with
    | nil => exact fun o => ⟨o, rfl, mem_cons_self, fun g hg => le_of_eq (by rw [mem_singleton.mp hg])⟩
    | cons g d ih =>
      intro o
      have hstep : findOldestCache (o :: g :: d) =
          if g.atime < o.atime then findOldestCache (g :: d) else findOldestCache (o :: d) := by
        simp only [findOldestCache, List.foldl_cons]
        split <;> rfl
      rw [hstep]
      split
      · rename_i hlt
        obtain ⟨f, hf, hmem, hle⟩ := ih g
        refine ⟨f, hf, mem_cons_of_mem o hmem, forall_mem_cons.mpr ⟨?_, hle⟩⟩
        exact Nat.le_trans (hle g mem_cons_self) (Nat.le_of_lt hlt)
      · rename_i hnot
        obtain ⟨f, hf, hmem, hle⟩ := ih o
        obtain ⟨ho, hd⟩ := forall_mem_cons.mp hle
        refine ⟨f, hf, ?_, forall_mem_cons.mpr ⟨ho, forall_mem_cons.mpr ⟨?_, hd⟩⟩⟩
        · exact (mem_cons.mp hmem).elim (fun heq => heq ▸ mem_cons_self) fun h =>
            mem_cons_of_mem o (mem_cons_of_mem g h)
        · exact Nat.le_trans ho (Nat.le_of_not_lt hnot)
  cases d with
  | nil =>
    refine ⟨?_, fun _ => rfl⟩
    intro f h
    cases h
  | cons g d =>
    obtain ⟨f, hf, hspec⟩ := key d g
    rw [hf]
    refine ⟨?_, by simp⟩
    intro f' h
    cases h
    exact hspec

end CacheDir

/-! ## The condition -/

variable {ι : Type}

variable {atime : Nat} {ok : Bool} {t : ι}

namespace State

/-- No call is in progress. -/
def Quiet (s : State ι) : Prop := ∀ t, s.pc t = .idle

/-- What is on disk and what is still to come. -/
def Within (s : State ι) : Prop := s.cacheSize + s.toCome ≤ s.cacheMaxSize

/-- No call runs beside `moveToPreloadedDir`, and a call adds a file with no download
running or with room for it besides everything that is there and still to come; then
there is also space for it on the device. -/
def Roomy (s : State ι) : Event ι → Prop
  | .preloadFile _ _ => ∀ t, (s.pc t).moves = false
  | .measure t =>
    ∀ r, s.pc t = .measuring r → s.downloads = [] ∨ s.cacheSize + s.toCome + r.stSize ≤ s.cacheMaxSize
  | .getEmptySpace t freeSize => ∀ r, s.pc t = .spacing r → s.downloads = [] ∨ r.stSize ≤ freeSize
  | .moveToPreloadedDir _ path size _ _ _ _ =>
    s.Quiet ∧ (s.downloads = [] ∨
      (s.files.unlink path).getFileSizeRecursive + size + s.toCome ≤ s.cacheMaxSize)
  | _ => True

/-! ## The invariant -/

/-- What is left to evict brings the cache to where the evictor wants it. -/
def Needs (s : State ι) (sizeNeeded removedCacheSize : Nat) : Evictor → Prop
  | .limit r =>
    s.cacheSize ≤ s.cacheMaxSize ∧ r.stSize ≤ s.cacheMaxSize ∧
      s.cacheSize + r.stSize + removedCacheSize ≤ s.cacheMaxSize + sizeNeeded
  | .space r => s.cacheSize + r.stSize ≤ s.cacheMaxSize
  | .move => s.cacheSize + removedCacheSize ≤ s.cacheMaxSize + sizeNeeded

/-- What holds while the one call in progress is at a point. -/
def Fits (s : State ι) : Pc → Prop
  | .idle => True
  | .measuring r => s.Within ∧ r.stSize ≤ s.cacheMaxSize
  | .spacing r => s.cacheSize + s.toCome + r.stSize ≤ s.cacheMaxSize
  | .starting r => s.cacheSize + s.toCome + r.stSize ≤ s.cacheMaxSize
  | .moved => s.downloads = [] ∨ s.Within
  | .evicting e n k => s.downloads = [] ∧ s.Needs n k e
  | .unlinking e n k old => s.downloads = [] ∧ s.Needs n k e ∧ old ∈ s.files

/-- At most one call is in progress; eviction runs while nothing is downloaded. -/
structure Inv (s : State ι) : Prop where
  max : 0 < s.cacheMaxSize
  safe : s.evictedPart = false
  phase : (s.Quiet ∧ s.Within) ∨
    ∃ t, (∀ t', t' ≠ t → s.pc t' = .idle) ∧ s.pc t ≠ .idle ∧
      ((s.pc t).locked = true → s.lock = some t) ∧ s.Fits (s.pc t)

variable {s : State ι}

theorem Inv.within (h : s.Inv) (hq : s.Quiet) : s.Within := by
  rcases h.phase with ⟨-, hw⟩ | ⟨t, -, hne, -⟩
  · exact hw
  · exact absurd (hq t) hne

/-- The thread in a call is the only one. -/
theorem Inv.at (h : s.Inv) (ht : s.pc t ≠ .idle) :
    (∀ t', t' ≠ t → s.pc t' = .idle) ∧ ((s.pc t).locked = true → s.lock = some t) ∧ s.Fits (s.pc t) := by
  rcases h.phase with ⟨hq, -⟩ | ⟨t₀, hothers, -, hlock, hfits⟩
  · exact absurd (hq t) ht
  · have heq : t = t₀ := by
      by_contra hne
      exact ht (hothers t hne)
    subst heq
    exact ⟨hothers, hlock, hfits⟩

theorem toCome_of_nil (h : s.downloads = []) : s.toCome = 0 := by
  simp [toCome, h]

/-! ## The steps of a download -/

variable {s' : State ι} {path : Path}

/-- A step of a running download that takes no more than was counted. -/
theorem Inv.download (h : s.Inv) (hd : s.downloads ≠ []) (hmax : s'.cacheMaxSize = s.cacheMaxSize)
    (hsafe : s'.evictedPart = s.evictedPart) (hpc : s'.pc = s.pc) (hlock : s'.lock = s.lock)
    (hle : s'.cacheSize + s'.toCome ≤ s.cacheSize + s.toCome) : s'.Inv := by
  have hwithin : s.Within → s'.Within := by
    intro hw
    simp only [Within, hmax] at hw ⊢
    omega
  refine ⟨hmax ▸ h.max, hsafe ▸ h.safe, ?_⟩
  rcases h.phase with ⟨hq, hw⟩ | ⟨t, hothers, hne, hl, hfits⟩
  · exact .inl ⟨fun t => by rw [hpc]; exact hq t, hwithin hw⟩
  · refine .inr ⟨t, fun t' ht' => by rw [hpc]; exact hothers t' ht', by rw [hpc]; exact hne, ?_, ?_⟩
    · rw [hpc, hlock]
      exact hl
    · rw [hpc]
      cases hs : s.pc t with
      | idle => exact trivial
      | measuring r =>
        rw [hs] at hfits
        exact ⟨hwithin hfits.1, by rw [hmax]; exact hfits.2⟩
      | spacing r =>
        rw [hs] at hfits
        simp only [Fits, hmax] at hfits ⊢
        omega
      | starting r =>
        rw [hs] at hfits
        simp only [Fits, hmax] at hfits ⊢
        omega
      | moved =>
        rw [hs] at hfits
        exact .inr (hwithin (hfits.resolve_left hd))
      | evicting e n k =>
        rw [hs] at hfits
        exact absurd hfits.1 hd
      | unlinking e n k old =>
        rw [hs] at hfits
        exact absurd hfits.1 hd

variable {d : Download} {slot : Nat}

theorem mem_of_lookupDownload (h : s.lookupDownload path = some d) : d ∈ s.downloads ∧ d.path = path := by
  refine ⟨List.mem_of_find?_eq_some h, ?_⟩
  simpa using List.find?_some h

theorem downloads_ne_nil (h : s.lookupDownload path = some d) : s.downloads ≠ [] :=
  List.ne_nil_of_mem (mem_of_lookupDownload h).1

theorem toCome_endDownload_le (s : State ι) (path : Path) : (s.endDownload path).toCome ≤ s.toCome :=
  (filter_sublist.map _).sum_le_sum (by simp)

theorem Inv.createPart (h : s.Inv) (hstep : s.createPart path atime slot = some s') : s'.Inv := by
  simp only [State.createPart] at hstep
  split at hstep
  case h_1 hd =>
    cases hstep
    refine h.download (downloads_ne_nil hd) rfl rfl rfl rfl ?_
    have hsize := s.files.size_unlink_le (getCacheWorkPath path)
    have hcome : (s.downloads.map fun d => if d.path = path then { d with ino := some s.nextIno } else d).map
        (fun d => d.stSize - d.got) = s.downloads.map fun d => d.stSize - d.got := by
      rw [List.map_map]
      apply List.map_congr_left
      intro d _
      simp only [Function.comp_apply]
      split <;> rfl
    simp only [cacheSize, toCome, CacheDir.size_place, hcome]
    omega
  case h_2 => cases hstep

theorem Inv.growPart (h : s.Inv) (hstep : s.growPart path k = some s') : s'.Inv := by
  simp only [State.growPart] at hstep
  split at hstep
  case h_1 p stSize stMtime ino got hd =>
    split at hstep
    case isFalse => cases hstep
    case isTrue hle =>
      cases hstep
      refine h.download (downloads_ne_nil hd) rfl rfl rfl rfl ?_
      have hsize := s.files.size_grow_le ino k
      obtain ⟨hmem, hpath⟩ := mem_of_lookupDownload hd
      have hcome : ((s.downloads.map fun d => if d.path = path then { d with got := d.got + k } else d).map
          fun d => d.stSize - d.got).sum + k ≤ (s.downloads.map fun d => d.stSize - d.got).sum := by
        rw [List.map_map]
        refine sum_map_add_le hmem ?_ ?_
        · intro d _
          simp only [Function.comp_apply]
          split
          · simp only
            omega
          · exact le_rfl
        · simp only [Function.comp_apply]
          rw [if_pos hpath]
          simp only
          omega
      simp only [cacheSize, toCome]
      omega
  case h_2 => cases hstep

theorem Inv.failDownload (h : s.Inv) (hstep : s.failDownload path = some s') : s'.Inv := by
  simp only [State.failDownload] at hstep
  split at hstep
  case h_1 hd =>
    cases hstep
    refine h.download (downloads_ne_nil hd) rfl rfl rfl rfl ?_
    exact Nat.add_le_add_left (s.toCome_endDownload_le path) _
  case h_2 => cases hstep

theorem Inv.completeDownload {now : Nat} (h : s.Inv) (hstep : s.completeDownload path now slot ok = some s') :
    s'.Inv := by
  have hcome := s.toCome_endDownload_le path
  simp only [State.completeDownload] at hstep
  split at hstep
  case h_1 hd =>
    have hend : (s.endDownload path).Inv :=
      h.download (downloads_ne_nil hd) rfl rfl rfl rfl (Nat.add_le_add_left hcome _)
    split at hstep
    case isTrue => cases hstep
    case isFalse =>
      split at hstep
      case h_1 => cases hstep; exact hend
      case h_2 f hf =>
        split at hstep
        case isFalse => cases hstep; exact hend
        case isTrue =>
          cases hstep
          refine h.download (downloads_ne_nil hd) rfl rfl rfl rfl (Nat.add_le_add ?_ hcome)
          have hout := CacheDir.size_unlink_add_le (CacheDir.mem_of_lookup hf).1
          have hin := CacheDir.size_unlink_le (s.files.unlink f.name) path
          simp only [cacheSize, CacheDir.size_place]
          omega
  case h_2 => cases hstep

theorem Inv.finishThread (h : s.Inv) (hstep : s.finishThread path = some s') : s'.Inv := by
  simp only [State.finishThread] at hstep
  split at hstep
  case isTrue => cases hstep
  case isFalse =>
    cases hstep
    exact ⟨h.max, h.safe, h.phase⟩

/-! ## The steps of a call -/

variable [DecidableEq ι]

@[simp] theorem unlockPreload_files (s : State ι) (t : ι) : (s.unlockPreload t).files = s.files := by
  simp only [unlockPreload]
  split <;> rfl

@[simp] theorem unlockPreload_downloads (s : State ι) (t : ι) :
    (s.unlockPreload t).downloads = s.downloads := by
  simp only [unlockPreload]
  split <;> rfl

@[simp] theorem unlockPreload_cacheMaxSize (s : State ι) (t : ι) :
    (s.unlockPreload t).cacheMaxSize = s.cacheMaxSize := by
  simp only [unlockPreload]
  split <;> rfl

@[simp] theorem unlockPreload_evictedPart (s : State ι) (t : ι) :
    (s.unlockPreload t).evictedPart = s.evictedPart := by
  simp only [unlockPreload]
  split <;> rfl

@[simp] theorem unlockPreload_pc (s : State ι) (t : ι) : (s.unlockPreload t).pc = s.pc := by
  simp only [unlockPreload]
  split <;> rfl

theorem within_ret : (s.ret t).Within ↔ s.Within := by
  simp only [Within, cacheSize, toCome, ret, setPc, unlockPreload_files, unlockPreload_downloads,
    unlockPreload_cacheMaxSize]

variable {pc : Pc}

theorem Inv.goto (hmax : 0 < s.cacheMaxSize) (hsafe : s.evictedPart = false)
    (hothers : ∀ t', t' ≠ t → s.pc t' = .idle) (hne : pc ≠ .idle) (hlock : pc.locked = true → s.lock = some t)
    (hfits : s.Fits pc) : (s.setPc t pc).Inv := by
  refine ⟨hmax, hsafe, .inr ⟨t, ?_, ?_, ?_, ?_⟩⟩
  · intro t' ht'
    simp only [setPc, Function.update_of_ne ht']
    exact hothers t' ht'
  · simpa only [setPc, Function.update_self] using hne
  · simpa only [setPc, Function.update_self] using hlock
  · have hpc : (s.setPc t pc).pc t = pc := by simp only [setPc, Function.update_self]
    rw [hpc]
    cases pc <;> exact hfits

theorem Inv.return (hmax : 0 < s.cacheMaxSize) (hsafe : s.evictedPart = false)
    (hothers : ∀ t', t' ≠ t → s.pc t' = .idle) (hw : s.Within) : (s.ret t).Inv := by
  refine ⟨?_, ?_, .inl ⟨?_, within_ret.mpr hw⟩⟩
  · simpa only [ret, setPc, unlockPreload_cacheMaxSize] using hmax
  · simpa only [ret, setPc, unlockPreload_evictedPart] using hsafe
  · intro t'
    by_cases ht' : t' = t
    · subst ht'
      simp only [ret, setPc, Function.update_self]
    · simp only [ret, setPc, Function.update_of_ne ht', unlockPreload_pc]
      exact hothers t' ht'

theorem moves_of_not_locked (hne : pc ≠ .idle) (h : pc.locked = false) : pc.moves = true := by
  cases pc with
  | idle => exact absurd rfl hne
  | measuring _ => cases h
  | spacing _ => cases h
  | starting _ => cases h
  | moved => rfl
  | evicting e _ _ => simpa [Pc.locked, Pc.moves] using h
  | unlinking e _ _ _ => simpa [Pc.locked, Pc.moves] using h

omit [DecidableEq ι] in
/-- With the lock free and nobody in `moveToPreloadedDir`, no call is in progress. -/
theorem Inv.quiet_of_unlocked {s : State ι} (h : s.Inv) (hlock : s.lock = none)
    (hmoves : ∀ t, (s.pc t).moves = false) : s.Quiet := by
  rcases h.phase with ⟨hq, -⟩ | ⟨t, -, hne, hl, -⟩
  · exact hq
  · exfalso
    cases hb : (s.pc t).locked with
    | true =>
      rw [hl hb] at hlock
      cases hlock
    | false =>
      have hm := hmoves t
      rw [moves_of_not_locked hne hb] at hm
      cases hm

theorem Inv.preloadFile {r : Request} (h : s.Inv) (hg : s.Roomy (.preloadFile t r))
    (hstep : s.preloadFile t r = some s') : s'.Inv := by
  simp only [State.preloadFile] at hstep
  split at hstep
  case isTrue => cases hstep
  case isFalse hfree =>
    have hlock : s.lock = none := by
      by_contra hl
      exact hfree (.inr hl)
    have hq := h.quiet_of_unlocked hlock hg
    have hw : { s with files := s.files.invalidateCache r.path }.Within := by
      have hle := s.files.size_invalidateCache_le r.path
      have hs := h.within hq
      simp only [Within, cacheSize, toCome] at hs ⊢
      omega
    split at hstep
    case isTrue => cases hstep; exact h
    case isFalse =>
      split at hstep
      case isTrue => cases hstep; exact h
      case isFalse =>
        split at hstep
        case isTrue => cases hstep; exact ⟨h.max, h.safe, .inl ⟨hq, hw⟩⟩
        case isFalse =>
          rw [if_pos h.max] at hstep
          split at hstep
          case isTrue => cases hstep; exact ⟨h.max, h.safe, .inl ⟨hq, hw⟩⟩
          case isFalse hsize =>
            cases hstep
            refine Inv.goto h.max h.safe (fun t' _ => hq t') (by simp) (fun _ => rfl) ⟨hw, ?_⟩
            simp only
            omega

theorem Inv.measure (h : s.Inv) (hg : s.Roomy (.measure t)) (hstep : s.measure t = some s') : s'.Inv := by
  simp only [State.measure] at hstep
  split at hstep
  case h_1 r hpc =>
    obtain ⟨hothers, hlock, hfits⟩ := h.at (t := t) (by simp [hpc])
    rw [hpc] at hlock hfits
    obtain ⟨hw, hsize⟩ := hfits
    have hroom := hg r hpc
    split at hstep
    case isTrue hover =>
      cases hstep
      simp only [Within] at hw
      have hnone : s.downloads = [] := by
        rcases hroom with hnone | hle
        · exact hnone
        · omega
      refine Inv.goto h.max h.safe hothers (by simp) (fun _ => hlock rfl) ⟨hnone, ?_, hsize, ?_⟩
      · omega
      · omega
    case isFalse hunder =>
      cases hstep
      refine Inv.goto h.max h.safe hothers (by simp) (fun _ => hlock rfl) ?_
      simp only [Fits]
      rcases hroom with hnone | hle
      · rw [toCome_of_nil hnone]
        omega
      · exact hle
  case h_2 => cases hstep

theorem Inv.getEmptySpace {freeSize : Nat} (h : s.Inv) (hg : s.Roomy (.getEmptySpace t freeSize))
    (hstep : s.getEmptySpace t freeSize = some s') : s'.Inv := by
  simp only [State.getEmptySpace] at hstep
  split at hstep
  case h_1 r hpc =>
    obtain ⟨hothers, hlock, hfits⟩ := h.at (t := t) (by simp [hpc])
    rw [hpc] at hlock hfits
    simp only [Fits] at hfits
    split at hstep
    case isTrue hspace =>
      cases hstep
      have hnone : s.downloads = [] := by
        rcases hg r hpc with hnone | hle
        · exact hnone
        · omega
      refine Inv.goto h.max h.safe hothers (by simp) (fun _ => hlock rfl) ⟨hnone, ?_⟩
      simp only [Needs]
      omega
    case isFalse =>
      cases hstep
      exact Inv.goto h.max h.safe hothers (by simp) (fun _ => hlock rfl) hfits
  case h_2 => cases hstep

theorem Inv.startThread (h : s.Inv) (hstep : s.startThread t ok = some s') : s'.Inv := by
  simp only [State.startThread] at hstep
  split at hstep
  case h_1 r hpc =>
    obtain ⟨hothers, -, hfits⟩ := h.at (t := t) (by simp [hpc])
    rw [hpc] at hfits
    simp only [Fits, cacheSize, toCome] at hfits
    split at hstep
    case isTrue =>
      cases hstep
      refine Inv.return h.max h.safe hothers ?_
      simp only [Within, cacheSize, toCome, map_cons, sum_cons]
      omega
    case isFalse =>
      cases hstep
      refine Inv.return h.max h.safe hothers ?_
      simp only [Within, cacheSize, toCome]
      omega
  case h_2 => cases hstep

theorem Inv.moveToPreloadedDir {size mtime : Nat} (h : s.Inv)
    (hg : s.Roomy (.moveToPreloadedDir t path size atime mtime slot ok))
    (hstep : s.moveToPreloadedDir t path size atime mtime slot ok = some s') : s'.Inv := by
  obtain ⟨hq, hroom⟩ := hg
  simp only [State.moveToPreloadedDir] at hstep
  split at hstep
  case isTrue => cases hstep
  case isFalse =>
    split at hstep
    case isFalse => cases hstep; exact h
    case isTrue =>
      rw [if_pos h.max] at hstep
      cases hstep
      refine Inv.goto h.max h.safe (fun t' _ => hq t') (by simp) nofun ?_
      refine hroom.imp_right fun hle => ?_
      simp only [Within, cacheSize, toCome, CacheDir.size_place] at hle ⊢
      exact hle

theorem Inv.measureMoved (h : s.Inv) (hstep : s.measureMoved t = some s') : s'.Inv := by
  simp only [State.measureMoved] at hstep
  split at hstep
  case h_1 hpc =>
    obtain ⟨hothers, -, hfits⟩ := h.at (t := t) (by simp [hpc])
    rw [hpc] at hfits
    simp only [Fits, Within] at hfits
    split at hstep
    case isTrue hover =>
      cases hstep
      have hnone : s.downloads = [] := by
        rcases hfits with hnone | hle
        · exact hnone
        · omega
      refine Inv.goto h.max h.safe hothers (by simp) nofun ⟨hnone, ?_⟩
      simp only [Needs]
      omega
    case isFalse hunder =>
      cases hstep
      refine Inv.return h.max h.safe hothers ?_
      rcases hfits with hnone | hle
      · simp only [Within, toCome_of_nil hnone]
        omega
      · exact hle
  case h_2 => cases hstep

/-- Where an eviction ends that has removed enough. -/
theorem Inv.evicted {e : Evictor} {n : Nat} (h : s.Inv) (hpc : s.pc t = .evicting e n k) (hdone : n ≤ k) :
    (s.evicted t e).Inv := by
  obtain ⟨hothers, hlock, hfits⟩ := h.at (t := t) (by simp [hpc])
  rw [hpc] at hlock hfits
  obtain ⟨hnone, hneeds⟩ := hfits
  cases e with
  | limit r =>
    refine Inv.goto h.max h.safe hothers (by simp) (fun _ => hlock rfl) ?_
    simp only [Needs] at hneeds
    simp only [Fits, toCome_of_nil hnone]
    omega
  | space r =>
    refine Inv.goto h.max h.safe hothers (by simp) (fun _ => hlock rfl) ?_
    simp only [Needs] at hneeds
    simp only [Fits, toCome_of_nil hnone]
    omega
  | move =>
    refine Inv.return h.max h.safe hothers ?_
    simp only [Needs] at hneeds
    simp only [Within, toCome_of_nil hnone]
    omega

theorem Inv.findOldest (h : s.Inv) (hstep : s.findOldest t = some s') : s'.Inv := by
  simp only [State.findOldest] at hstep
  split at hstep
  case h_1 e n k hpc =>
    split at hstep
    case isTrue hdone => cases hstep; exact h.evicted hpc hdone
    case isFalse =>
      obtain ⟨hothers, hlock, hfits⟩ := h.at (t := t) (by simp [hpc])
      rw [hpc] at hlock hfits
      obtain ⟨hnone, hneeds⟩ := hfits
      split at hstep
      case h_1 hold =>
        cases hstep
        have hempty := s.files.findOldestCache_spec.2 hold
        refine Inv.return h.max h.safe hothers ?_
        simp [Within, toCome_of_nil hnone, cacheSize, hempty, CacheDir.getFileSizeRecursive]
      case h_2 old hold =>
        cases hstep
        exact Inv.goto h.max h.safe hothers (by simp) hlock
          ⟨hnone, hneeds, (s.files.findOldestCache_spec.1 old hold).1⟩
  case h_2 => cases hstep

theorem Inv.unlinkOldest (h : s.Inv) (hstep : s.unlinkOldest t = some s') : s'.Inv := by
  simp only [State.unlinkOldest] at hstep
  split at hstep
  case h_1 e n k old hpc =>
    obtain ⟨hothers, hlock, hfits⟩ := h.at (t := t) (by simp [hpc])
    rw [hpc] at hlock hfits
    obtain ⟨hnone, hneeds, hold⟩ := hfits
    rw [if_pos (CacheDir.lookup_isSome hold)] at hstep
    cases hstep
    have hsize := CacheDir.size_unlink_add_le hold
    refine Inv.goto h.max ?_ hothers (by simp) hlock ⟨hnone, ?_⟩
    · -- nothing is downloaded while a file is evicted
      simp [h.safe, isRunningPart, hnone]
    · cases e with
      | limit r =>
        simp only [Needs, cacheSize] at hneeds ⊢
        omega
      | space r =>
        simp only [Needs, cacheSize] at hneeds ⊢
        omega
      | move =>
        simp only [Needs, cacheSize] at hneeds ⊢
        omega
  case h_2 => cases hstep

theorem Inv.step {e : Event ι} (h : s.Inv) (hg : s.Roomy e) (hstep : s.step e = some s') : s'.Inv := by
  cases e with
  | preloadFile t r => exact h.preloadFile hg hstep
  | measure t => exact h.measure hg hstep
  | getEmptySpace t freeSize => exact h.getEmptySpace hg hstep
  | startThread t ok => exact h.startThread hstep
  | moveToPreloadedDir t path size atime mtime slot ok => exact h.moveToPreloadedDir hg hstep
  | measureMoved t => exact h.measureMoved hstep
  | findOldest t => exact h.findOldest hstep
  | unlinkOldest t => exact h.unlinkOldest hstep
  | createPart path atime slot => exact h.createPart hstep
  | growPart path k => exact h.growPart hstep
  | failDownload path => exact h.failDownload hstep
  | completeDownload path now slot ok => exact h.completeDownload hstep
  | finishThread path => exact h.finishThread hstep

end State

/-! ## Runs -/

variable [DecidableEq ι]

/-- Along every run that meets the condition, the cache with what is still to come stays
within the limit whenever no call is in progress, and no `.part` file of a running
download is evicted. -/
theorem preloadCache_within {s s' : State ι} {es : List (Event ι)} {os : List Unit}
    (hmax : 0 < s.cacheMaxSize) (hq : s.Quiet) (hw : s.Within) (hsafe : s.evictedPart = false)
    (hg : (machine ι).Guarded State.Roomy s es) (hrun : (machine ι).run s es = some (s', os)) :
    (s'.Quiet → s'.Within) ∧ s'.evictedPart = false := by
  have hinv : s'.Inv := by
    refine Machine.run_invariant State.Inv ?_ ⟨hmax, hsafe, .inl ⟨hq, hw⟩⟩ hg hrun
    intro t e t' o h he hstep
    obtain ⟨t'', ht'', heq⟩ := Option.map_eq_some_iff.mp hstep
    cases heq
    exact h.step he ht''
  exact ⟨hinv.within, hinv.safe⟩

/-- An empty cache of 100 bytes, with two threads that may call. -/
def emptyCache : State Bool where
  cacheMaxSize := 100
  preloadMinSize := 0
  files := []
  nextIno := 0
  threadTable := []
  threads := []
  downloads := []
  lock := none
  pc := fun _ => .idle
  evictedPart := false

/-- One download after the other, the second in place of the first. -/
def oneByOne : List (Event Bool) :=
  [.preloadFile true ⟨[97], 60, 5⟩, .measure true, .getEmptySpace true 1000, .startThread true true,
    .createPart [97] 1 0, .growPart [97] 60, .completeDownload [97] 2 0 true, .finishThread [97],
    .preloadFile false ⟨[98], 60, 6⟩, .measure false, .findOldest false, .unlinkOldest false,
    .findOldest false, .getEmptySpace false 1000, .startThread false true]

theorem preloadCache_within_oneByOne :
    ∃ s' os, (machine Bool).run emptyCache oneByOne = some (s', os) ∧ s'.Quiet ∧ s'.Within ∧
      s'.evictedPart = false := by
  have hg : (machine Bool).Guarded State.Roomy emptyCache oneByOne := by
    refine .cons (fun t => rfl) rfl (.cons (fun _ _ => .inl rfl) rfl (.cons (fun _ _ => .inl rfl) rfl ?_))
    refine .cons trivial rfl (.cons trivial rfl (.cons trivial rfl (.cons trivial rfl (.cons trivial rfl ?_))))
    refine .cons (fun t => by cases t <;> rfl) rfl (.cons (fun _ _ => .inl rfl) rfl ?_)
    refine .cons trivial rfl (.cons trivial rfl (.cons trivial rfl ?_))
    exact .cons (fun _ _ => .inl rfl) rfl (.cons trivial rfl trivial)
  have hend : ((machine Bool).run emptyCache oneByOne).any (fun r => decide (∀ t, r.1.pc t = .idle)) = true := by
    decide +kernel
  rcases hrun : (machine Bool).run emptyCache oneByOne with _ | ⟨s', os⟩
  · rw [hrun] at hend
    cases hend
  · rw [hrun] at hend
    have hq : ∀ t, s'.pc t = .idle := of_decide_eq_true hend
    have hw : emptyCache.Within := Nat.zero_le 100
    obtain ⟨hwithin, hsafe⟩ := preloadCache_within (by decide) (fun _ => rfl) hw rfl hg hrun
    exact ⟨s', os, rfl, hq, hwithin hq, hsafe⟩

/-- A download has written 50 of its 60 bytes when a file of 100 is preloaded. -/
def oneBesideTheOther : List (Event Bool) :=
  [.preloadFile true ⟨[97], 60, 5⟩, .measure true, .getEmptySpace true 1000, .startThread true true,
    .createPart [97] 1 0, .growPart [97] 50,
    .preloadFile false ⟨[98], 100, 6⟩, .measure false, .findOldest false, .unlinkOldest false,
    .findOldest false, .getEmptySpace false 1000, .startThread false true]

/-- The `.part` file of the first is evicted while it is downloaded, and 110 bytes are
still to come. -/
theorem preloadCache_not_within :
    ∃ s' os, (machine Bool).run emptyCache oneBesideTheOther = some (s', os) ∧ s'.Quiet ∧
      s'.evictedPart = true ∧ s'.cacheMaxSize = 100 ∧ s'.cacheSize + s'.toCome = 110 ∧ ¬ s'.Within := by
  have hend : ((machine Bool).run emptyCache oneBesideTheOther).any (fun r =>
      decide ((∀ t, r.1.pc t = .idle) ∧ r.1.evictedPart = true ∧ r.1.cacheMaxSize = 100 ∧
        r.1.cacheSize + r.1.toCome = 110)) = true := by
    decide +kernel
  rcases hrun : (machine Bool).run emptyCache oneBesideTheOther with _ | ⟨s', os⟩
  · rw [hrun] at hend
    cases hend
  · rw [hrun] at hend
    obtain ⟨hq, hpart, hmax, hsum⟩ := of_decide_eq_true hend
    refine ⟨s', os, rfl, hq, hpart, hmax, hsum, fun hw => ?_⟩
    have hle : 110 ≤ 100 := hsum ▸ hmax ▸ hw
    omega

end Preload
