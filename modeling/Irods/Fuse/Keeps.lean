-- SUMMARY: When the path cache keeps the local cache file of a path.
import Mathlib.Data.List.TakeWhile
import Irods.Fuse.Namespace

/-!
# The local cache file of a path

A newly created file lives in a local cache file until it is closed. The path cache
keeps it for the path `p` while `p` has one entry, that entry names the file, and no
other entry does: an entry that goes away takes its local cache file with it.
-/

namespace Fuse

open Function (update_of_ne update_self)

variable {a b c' : Cache} {e : PathCache} {g : Nat} {w : PathQueArray}

namespace Cache

/-- Local cache file `f` is kept for the newly created file `p`. -/
structure Keeps (c : Cache) (p : Path) (f : Nat) : Prop where
  entry : ∃ e, c.entries .pathArray p = [e] ∧ e.locCachePath = some f ∧
    e.locCacheState = .haveNewlyCreatedCache
  owner : ∀ w i e, e ∈ c.que w i → e.locCachePath = some f → w = .pathArray ∧ i = pathSlot p ∧ e.filePath = p
  linked : (c.files f).linked = true

/-- Nothing cached for `p` has expired. -/
def Fresh (c : Cache) (now : Nat) (p : Path) : Prop :=
  ∀ e ∈ c.entries .pathArray p, e.expired now = false

/-- What happens at time `now` leaves the local cache file of `p` alone. -/
def Carries (now : Nat) (p : Path) (f : Nat) (c c' : Cache) : Prop :=
  c.Keeps p f → c.Fresh now p → c'.Keeps p f ∧ c'.Fresh now p ∧ c'.files f = c.files f

variable {now : Nat} {p : Path} {f : Nat}

theorem Carries.refl (c : Cache) : Carries now p f c c := fun hk hf => ⟨hk, hf, rfl⟩

variable {c : Cache}

theorem Carries.trans (h₁ : Carries now p f a b) (h₂ : Carries now p f b c) : Carries now p f a c := by
  intro hk hf
  obtain ⟨hk₁, hf₁, hfile₁⟩ := h₁ hk hf
  obtain ⟨hk₂, hf₂, hfile₂⟩ := h₂ hk₁ hf₁
  exact ⟨hk₂, hf₂, hfile₂.trans hfile₁⟩

/-- The file is still kept when the entries of the path and the file stay, and no
entry elsewhere starts to name the file. -/
theorem Carries.of_entries (hent : c.Keeps p f → c.Fresh now p →
      c'.entries .pathArray p = c.entries .pathArray p)
    (hown : c.Keeps p f → ∀ w i e, e ∈ c'.que w i → e.locCachePath = some f → e ∈ c.que w i)
    (hfile : c.Keeps p f → c.Fresh now p → c'.files f = c.files f) : Carries now p f c c' := by
  intro hk hf
  refine ⟨⟨?_, ?_, ?_⟩, ?_, hfile hk hf⟩
  · rw [hent hk hf]
    exact hk.entry
  · intro w i e he ho
    exact hk.owner w i e (hown hk w i e he ho) ho
  · rw [hfile hk hf]
    exact hk.linked
  · unfold Fresh
    rw [hent hk hf]
    exact hf

/-- An entry of another path, or of the other array, does not name the file. -/
theorem Keeps.locCachePath_ne (h : c.Keeps p f) {i : HashSlot} (he : e ∈ c.que w i)
    (hne : w ≠ .pathArray ∨ e.filePath ≠ p) :
    e.locCachePath ≠ some f := by
  intro ho
  obtain ⟨hw, -, hp⟩ := h.owner w i e he ho
  exact hne.elim (fun h => h hw) (fun h => h hp)

variable (files : Nat → LocalFile)

theorem unlink_of_ne (h : f ≠ g) : unlink files g f = files f := by
  unfold unlink
  rw [update_of_ne h]

theorem freePathCache_of_ne (h : e.locCachePath ≠ some f) : freePathCache files e f = files f := by
  have hne : e.owned ≠ some f := by
    unfold PathCache.owned
    split
    · exact nofun
    · exact h
  unfold freePathCache
  generalize e.owned = o at hne
  cases o with
  | none => rfl
  | some g => exact unlink_of_ne files fun hfg => hne (hfg ▸ rfl)

theorem foldl_freePathCache_of_ne {es : List PathCache}
    (h : ∀ e ∈ es, e.locCachePath ≠ some f) : es.foldl freePathCache files f = files f := by
  induction es generalizing files with
  | nil => rfl
  | cons e es ih =>
    rw [List.foldl_cons, ih _ fun e' he' => h e' (List.mem_cons_of_mem e he')]
    exact freePathCache_of_ne files (h e List.mem_cons_self)

/-! ## The cache operations -/

theorem carries_match (c : Cache) (q : Path) (w : PathQueArray) :
    Carries now p f c (c.matchPathInPathCache now q w).1 := by
  refine .of_entries ?_ ?_ ?_
  · intro _ hf
    exact entries_chkCacheExpire_of_fresh hf w q
  · intro _ v i e he _
    unfold matchPathInPathCache chkCacheExpire at he
    dsimp only at he
    by_cases hv : v = w
    · subst hv
      rw [update_self] at he
      exact HashQueues.mem_expire he
    · rwa [update_of_ne hv] at he
  · -- an expired entry that names the file would be the fresh one of `p`
    intro hk hf
    apply foldl_freePathCache_of_ne
    intro e he ho
    have hmem := (List.takeWhile_prefix _).subset he
    obtain ⟨rfl, hi, hp⟩ := hk.owner _ _ e hmem ho
    have hold := List.mem_takeWhile_imp he
    have hfresh := hf e (HashQueues.mem_entries.mpr ⟨hi ▸ hmem, hp⟩)
    rw [hfresh] at hold
    cases hold

variable {q : Path}

theorem carries_rm (c : Cache) (h : w ≠ .pathArray ∨ q ≠ p) : Carries now p f c (c.rmPathFromCache q w) := by
  refine .of_entries ?_ ?_ ?_
  · intro _ _
    rw [entries_rmPathFromCache, if_neg]
    rintro ⟨rfl, rfl⟩
    exact h.elim (fun h => h rfl) fun h => h rfl
  · intro _ v i e he _
    unfold rmPathFromCache at he
    dsimp only at he
    by_cases hv : v = w
    · subst hv
      rw [update_self] at he
      exact HashQueues.mem_remove he
    · rwa [update_of_ne hv] at he
  · intro hk _
    unfold rmPathFromCache
    have hfind : HashQueues.find PathCache.filePath pathSlot (c.que w) q = (c.entries w q).head? :=
      HashQueues.find_eq_head? _ _
    generalize HashQueues.find PathCache.filePath pathSlot (c.que w) q = r at hfind
    cases r with
    | none => rfl
    | some e =>
      obtain ⟨hmem, hq⟩ := HashQueues.mem_entries.mp (List.mem_of_mem_head? hfind.symm)
      exact freePathCache_of_ne _ (hk.locCachePath_ne hmem (hq ▸ h))

theorem carries_add (c : Cache) (h : w ≠ .pathArray ∨ e.filePath ≠ p) (ho : e.locCachePath ≠ some f) :
    Carries now p f c (c.addPathToCache w e) := by
  refine .of_entries ?_ ?_ fun _ _ => rfl
  · intro _ _
    rw [entries_addPathToCache, if_neg]
    rintro ⟨rfl, rfl⟩
    exact h.elim (fun h => h rfl) fun h => h rfl
  · intro _ v i e' he ho'
    unfold addPathToCache at he
    dsimp only at he
    by_cases hv : v = w
    · subst hv
      rw [update_self] at he
      obtain hmem | ⟨rfl, -⟩ := HashQueues.mem_push he
      · exact hmem
      · exact absurd ho' ho
    · rwa [update_of_ne hv] at he

/-- Changing the entry of another path, without giving it the file. -/
theorem carries_set (c : Cache) {g : PathCache → PathCache} (hq : q ≠ p) (hg : ∀ e, (g e).filePath = e.filePath)
    (ho : ∀ e, (g e).locCachePath = some f → e.locCachePath = some f) : Carries now p f c (c.setPathCache q g) := by
  refine .of_entries ?_ ?_ fun _ _ => rfl
  · intro _ _
    rw [entries_setPathCache c q hg, if_neg fun h => hq h.2.symm]
  · intro hk v i e he hoe
    unfold setPathCache at he
    dsimp only at he
    by_cases hv : v = .pathArray
    · subst hv
      obtain hmem | ⟨-, a, ha, hkey, rfl⟩ := HashQueues.mem_modify he
      · exact hmem
      · exact absurd (ho a hoe) (hk.locCachePath_ne ha (.inr (hkey ▸ hq)))
    · rwa [update_of_ne hv] at he

/-- The size of an entry does not matter, be it the one of the path itself. -/
theorem carries_setSize (c : Cache) (q : Path) (size : Nat) :
    Carries now p f c (c.setSize q size) := by
  by_cases hq : q = p
  · subst hq
    intro hk hf
    obtain ⟨e, he, hloc, hstate⟩ := hk.entry
    have hent : (c.setSize q size).entries .pathArray q = [{ e with stSize := size }] := by
      unfold setSize
      rw [entries_setPathCache c q (f := fun e => { e with stSize := size }) fun _ => rfl,
        if_pos ⟨rfl, rfl⟩, he]
      rfl
    refine ⟨⟨⟨_, hent, hloc, hstate⟩, ?_, hk.linked⟩, ?_, rfl⟩
    · intro w i e' he' ho
      unfold setSize setPathCache at he'
      dsimp only at he'
      by_cases hw : w = .pathArray
      · subst hw
        obtain hmem | ⟨-, a, ha, -, rfl⟩ := HashQueues.mem_modify he'
        · exact hk.owner _ i e' hmem ho
        · exact hk.owner .pathArray i a ha ho
      · rw [update_of_ne hw] at he'
        exact hk.owner w i e' he' ho
    · intro e' he'
      rw [hent, List.mem_singleton] at he'
      subst he'
      exact hf e (by rw [he]; exact List.mem_singleton_self e)
  · exact carries_set c hq (fun _ => rfl) fun _ ho => ho

theorem carries_freeFileCache (c : Cache) (hq : q ≠ p) (hg : g ≠ f) : Carries now p f c (c.freeFileCache q g) := by
  have hset : Carries now p f c (c.setPathCache q PathCache.withoutFile) :=
    carries_set c hq (fun _ => rfl) nofun
  refine hset.trans (.of_entries (fun _ _ => rfl) (fun _ _ _ _ he _ => he) fun _ _ => ?_)
  exact unlink_of_ne _ hg.symm

theorem carries_files (c : Cache) (file : LocalFile) (hg : g ≠ f) :
    Carries now p f c { c with files := Function.update c.files g file } :=
  .of_entries (fun _ _ => rfl) (fun _ _ _ _ he _ => he) fun _ _ =>
    update_of_ne hg.symm file c.files

/-! ## The local cache files that entries name -/

/-- Some entry names local cache file `g`. -/
def Refs (c : Cache) (g : Nat) : Prop := ∃ w i e, e ∈ c.que w i ∧ e.locCachePath = some g

theorem refs_match (h : (c.matchPathInPathCache now q w).1.Refs g) : c.Refs g := by
  obtain ⟨v, i, e, he, hg⟩ := h
  refine ⟨v, i, e, ?_, hg⟩
  unfold matchPathInPathCache chkCacheExpire at he
  dsimp only at he
  by_cases hv : v = w
  · subst hv
    rw [update_self] at he
    exact HashQueues.mem_expire he
  · rwa [update_of_ne hv] at he

theorem refs_rm (h : (c.rmPathFromCache q w).Refs g) : c.Refs g := by
  obtain ⟨v, i, e, he, hg⟩ := h
  refine ⟨v, i, e, ?_, hg⟩
  unfold rmPathFromCache at he
  dsimp only at he
  by_cases hv : v = w
  · subst hv
    rw [update_self] at he
    exact HashQueues.mem_remove he
  · rwa [update_of_ne hv] at he

theorem refs_add (h : (c.addPathToCache w e).Refs g) : c.Refs g ∨ e.locCachePath = some g := by
  obtain ⟨v, i, e', he, hg⟩ := h
  unfold addPathToCache at he
  dsimp only at he
  by_cases hv : v = w
  · subst hv
    rw [update_self] at he
    obtain hmem | ⟨rfl, -⟩ := HashQueues.mem_push he
    · exact .inl ⟨v, i, e', hmem, hg⟩
    · exact .inr hg
  · rw [update_of_ne hv] at he
    exact .inl ⟨v, i, e', he, hg⟩

theorem refs_set {k : PathCache → PathCache} (h : (c.setPathCache q k).Refs g) :
    c.Refs g ∨ ∃ i, ∃ e ∈ c.que .pathArray i, (k e).locCachePath = some g := by
  obtain ⟨v, i, e, he, hg⟩ := h
  unfold setPathCache at he
  dsimp only at he
  by_cases hv : v = .pathArray
  · subst hv
    obtain hmem | ⟨-, a, ha, -, rfl⟩ := HashQueues.mem_modify he
    · exact .inl ⟨_, i, e, hmem, hg⟩
    · exact .inr ⟨i, a, ha, hg⟩
  · rw [update_of_ne hv] at he
    exact .inl ⟨v, i, e, he, hg⟩

theorem refs_setSize {size : Nat} (h : (c.setSize q size).Refs g) : c.Refs g := by
  obtain h | ⟨i, e, he, hg⟩ := refs_set h
  · exact h
  · exact ⟨.pathArray, i, e, he, hg⟩

variable {g' : Nat}

theorem refs_freeFileCache (h : (c.freeFileCache q g').Refs g) : c.Refs g := by
  have hset : (c.setPathCache q PathCache.withoutFile).Refs g := h
  obtain h | ⟨i, e, he, hg⟩ := refs_set hset
  · exact h
  · cases hg

/-- A local cache file that no entry names is left alone, and no entry starts to name it. -/
def Leaves (g : Nat) (c c' : Cache) : Prop := ¬ c.Refs g → ¬ c'.Refs g ∧ c'.files g = c.files g

theorem Leaves.trans (h₁ : Leaves g a b) (h₂ : Leaves g b c) : Leaves g a c := by
  intro h
  obtain ⟨hb, hfile⟩ := h₁ h
  obtain ⟨hc, hfile'⟩ := h₂ hb
  exact ⟨hc, hfile'.trans hfile⟩

theorem Leaves.refl (g : Nat) (c : Cache) : Leaves g c c := fun h => ⟨h, rfl⟩

theorem Leaves.refs (h : Leaves g c c') (hg : c'.Refs g) : c.Refs g := by
  by_contra hn
  exact (h hn).1 hg

theorem leaves_match (c : Cache) (now : Nat) (q : Path) (w : PathQueArray) (g : Nat) :
    Leaves g c (c.matchPathInPathCache now q w).1 := by
  refine fun h => ⟨fun hg => h (refs_match hg), foldl_freePathCache_of_ne _ fun e he hloc => ?_⟩
  exact h ⟨w, _, e, (List.takeWhile_prefix _).subset he, hloc⟩

theorem leaves_rm (c : Cache) (q : Path) (w : PathQueArray) (g : Nat) :
    Leaves g c (c.rmPathFromCache q w) := by
  refine fun h => ⟨fun hg => h (refs_rm hg), ?_⟩
  have hfind : HashQueues.find PathCache.filePath pathSlot (c.que w) q = (c.entries w q).head? :=
    HashQueues.find_eq_head? _ _
  unfold rmPathFromCache
  generalize HashQueues.find PathCache.filePath pathSlot (c.que w) q = r at hfind
  cases r with
  | none => rfl
  | some e =>
    obtain ⟨hmem, -⟩ := HashQueues.mem_entries.mp (List.mem_of_mem_head? hfind.symm)
    exact freePathCache_of_ne _ fun hloc => h ⟨w, _, e, hmem, hloc⟩

theorem leaves_freeFileCache (c : Cache) (q : Path) (hne : g' ≠ g) : Leaves g c (c.freeFileCache q g') :=
  fun h => ⟨fun hg => h (refs_freeFileCache hg), unlink_of_ne _ hne.symm⟩

/-! ## Renaming the local cache file -/

/-- A rename in the cache: the entry moves, with its local cache file. -/
def renameFile (c : Cache) (now : Nat) (e : PathCache) (dest : Path) : Cache :=
  (c.moveFile now e dest).rmPathFromCache e.filePath .pathArray

/-- The cache before the new entry is queued. -/
private def cleared (c : Cache) (dest : Path) : Cache :=
  (c.rmPathFromCache dest .pathArray).rmPathFromCache dest .nonExistPathArray

/-- The entry of `dest` after a rename. -/
private def movedEntry (e : PathCache) (now : Nat) (dest : Path) : PathCache :=
  { filePath := dest, locCachePath := e.locCachePath, stSize := e.stSize, cachedTime := now,
    locCacheState := .haveNewlyCreatedCache }

private theorem renameFile_eq (c : Cache) (now : Nat) (e : PathCache) (dest : Path) :
    c.renameFile now e dest =
      (((c.cleared dest).addPathToCache .pathArray (movedEntry e now dest)).setPathCache
        e.filePath PathCache.withoutFile).rmPathFromCache e.filePath .pathArray := rfl

variable {dest : Path}

theorem refs_renameFile (h : (c.renameFile now e dest).Refs g) : c.Refs g ∨ e.locCachePath = some g := by
  obtain h | ⟨_, _, _, h⟩ := refs_set (refs_rm h)
  · obtain h | h := refs_add h
    · exact .inl (refs_rm (refs_rm h))
    · exact .inr h
  · cases h

/-- A rename takes the local cache file to the new path. -/
theorem keeps_renameFile {src : Path} (h : c.Keeps src f) (hfresh : c.Fresh now src)
    (he : (c.entries .pathArray src).head? = some e) (hne : src ≠ dest)
    (hone : (c.entries .pathArray dest).length ≤ 1) :
    (c.renameFile now e dest).Keeps dest f ∧ (c.renameFile now e dest).files f = c.files f := by
  obtain ⟨e₀, hent, hloc, -⟩ := h.entry
  obtain rfl : e₀ = e := by simpa [hent] using he
  have hmem : e₀ ∈ c.entries .pathArray src := by rw [hent]; exact List.mem_singleton_self _
  obtain ⟨-, hpath⟩ := HashQueues.mem_entries.mp hmem
  have hclear : Carries now src f c (c.cleared dest) :=
    (carries_rm c (.inr hne.symm)).trans (carries_rm _ (.inl nofun))
  obtain ⟨hkeep, -, hfile⟩ := hclear h hfresh
  have hdest : (c.cleared dest).entries .pathArray dest = [] := by
    exact entries_rm_of_unique hone
  have hsrc : (c.cleared dest).entries .pathArray src = [e₀] := by
    unfold cleared
    rw [entries_rmPathFromCache, if_neg (by simp), entries_rmPathFromCache, if_neg fun h => hne h.2]
    exact hent
  rw [renameFile_eq, hpath]
  generalize c.cleared dest = c₁ at hkeep hfile hdest hsrc
  -- the old entry loses the file before it is removed
  have hset : ∀ p, ((c₁.addPathToCache .pathArray (movedEntry e₀ now dest)).setPathCache src
      PathCache.withoutFile).entries .pathArray p =
        if p = src then [e₀.withoutFile]
        else if dest = p then [movedEntry e₀ now dest] else c₁.entries .pathArray p := by
    intro p
    rw [entries_setPathCache _ src (f := PathCache.withoutFile) fun _ => rfl]
    simp only [entries_addPathToCache, true_and]
    by_cases hp : p = src
    · simp [hp, movedEntry, Ne.symm hne, hsrc]
    · by_cases hd : dest = p
      · simp [← hd, movedEntry, Ne.symm hne, hdest]
      · simp [hp, movedEntry, hd]
  have hque : ∀ w i x, x ∈ ((c₁.addPathToCache .pathArray (movedEntry e₀ now dest)).setPathCache src
      PathCache.withoutFile).que w i → x.locCachePath = some f →
        w = .pathArray ∧ i = pathSlot dest ∧ x.filePath = dest := by
    intro w i x hx hxf
    have hx' := hx
    unfold setPathCache at hx
    dsimp only at hx
    by_cases hw : w = .pathArray
    · subst hw
      obtain hx | ⟨-, a, -, -, rfl⟩ := HashQueues.mem_modify hx
      · obtain hx | ⟨rfl, hi⟩ := HashQueues.mem_push hx
        · obtain ⟨-, rfl, hxp⟩ := hkeep.owner _ i x hx hxf
          have hxe : x ∈ ((c₁.addPathToCache .pathArray (movedEntry e₀ now dest)).setPathCache src
              PathCache.withoutFile).entries .pathArray src := HashQueues.mem_entries.mpr ⟨hx', hxp⟩
          rw [hset src, if_pos rfl, List.mem_singleton] at hxe
          subst hxe
          cases hxf
        · exact ⟨rfl, hi, rfl⟩
      · cases hxf
    · rw [update_of_ne hw] at hx
      unfold addPathToCache at hx
      dsimp only at hx
      rw [update_of_ne hw] at hx
      exact absurd (hkeep.owner w i x hx hxf).1 hw
  have hfiles : ((c₁.addPathToCache .pathArray (movedEntry e₀ now dest)).setPathCache src
      PathCache.withoutFile).files f = c.files f := hfile
  generalize (c₁.addPathToCache .pathArray (movedEntry e₀ now dest)).setPathCache src
    PathCache.withoutFile = c₃ at hset hque hfiles
  have hlast : (c₃.rmPathFromCache src .pathArray).files f = c.files f := by
    have hfind : HashQueues.find PathCache.filePath pathSlot (c₃.que .pathArray) src =
        (c₃.entries .pathArray src).head? := HashQueues.find_eq_head? _ _
    rw [hset src, if_pos rfl] at hfind
    unfold rmPathFromCache
    rw [hfind]
    exact hfiles
  refine ⟨⟨?_, fun w i x hx hxf => ?_, ?_⟩, hlast⟩
  · rw [entries_rmPathFromCache, if_neg fun h => hne h.2.symm, hset dest, if_neg hne.symm, if_pos rfl]
    exact ⟨_, rfl, hloc, rfl⟩
  · refine hque w i x ?_ hxf
    unfold rmPathFromCache at hx
    dsimp only at hx
    by_cases hw : w = .pathArray
    · subst hw
      exact HashQueues.mem_remove hx
    · rwa [update_of_ne hw] at hx
  · rw [hlast]
    exact h.linked

theorem carries_renameFile (c : Cache) (hsrc : e.filePath ≠ p) (hdest : dest ≠ p) (hloc : e.locCachePath ≠ some f) :
    Carries now p f c (c.renameFile now e dest) := by
  have hclear : Carries now p f c (c.cleared dest) :=
    (carries_rm c (.inr hdest)).trans (carries_rm _ (.inl nofun))
  have hadd : Carries now p f (c.cleared dest)
      ((c.cleared dest).addPathToCache .pathArray (movedEntry e now dest)) := carries_add _ (.inr hdest) hloc
  have hset : Carries now p f ((c.cleared dest).addPathToCache .pathArray (movedEntry e now dest))
      (((c.cleared dest).addPathToCache .pathArray (movedEntry e now dest)).setPathCache e.filePath
        PathCache.withoutFile) := carries_set _ hsrc (fun _ => rfl) nofun
  exact ((hclear.trans hadd).trans hset).trans (carries_rm _ (.inr hsrc))

end Cache

/-! ## The library functions -/

namespace State

open Cache

variable (parse : Path → Option Path)
variable {now : Nat} {p : Path} {f : Nat}

theorem closeEntry_carries (s : State) (path : Path) :
    Carries now p f s.cache (s.closeEntry now path).1.cache := by
  have hmatch : Carries now p f s.cache (s.cache.matchPathInPathCache now path .pathArray).1 :=
    s.cache.carries_match path .pathArray
  unfold closeEntry
  generalize s.cache.matchPathInPathCache now path .pathArray = r at hmatch
  obtain ⟨c, _ | e⟩ := r <;> exact hmatch

variable {s : State} {path : Path}

variable {now : Nat} {reply : StatReply}

/-- A close works on an entry of its own path. -/
theorem closeEntry_some {t : State} (h : s.closeEntry now path = (t, some (e, g))) :
    e.locCachePath = some g ∧ (t.cache.entries .pathArray path).head? = some e := by
  have hhead := s.cache.matchPathInPathCache_snd now path .pathArray
  unfold closeEntry at h
  have hcache : (s.cache.matchPathInPathCache now path .pathArray).1 =
      s.cache.chkCacheExpire now .pathArray path := rfl
  rw [← hcache] at hhead
  generalize s.cache.matchPathInPathCache now path .pathArray = r at h hhead
  obtain ⟨c, _ | e'⟩ := r
  · cases h
  · dsimp only at h
    cases hloc : e'.locCachePath with
    | none => rw [hloc] at h; cases h
    | some g' =>
      rw [hloc] at h
      cases h
      exact ⟨hloc, hhead.symm⟩

theorem closeNewlyCreated_carries (s : State) (put : Reply) (hne : path ≠ p) :
    Carries now p f s.cache (s.closeNewlyCreated parse now path put).1.cache := by
  have hentry : Carries now p f s.cache (s.closeEntry now path).1.cache := s.closeEntry_carries path
  have hsome : ∀ t e g, s.closeEntry now path = (t, some (e, g)) →
      e.locCachePath = some g ∧ (t.cache.entries .pathArray path).head? = some e :=
    fun _ _ _ => closeEntry_some
  unfold closeNewlyCreated
  generalize s.closeEntry now path = r at hentry hsome
  obtain ⟨t, _ | ⟨e, g⟩⟩ := r
  · exact hentry
  · dsimp only
    obtain ⟨hloc, hhead⟩ := hsome t e g rfl
    obtain ⟨hmem, hpath⟩ := HashQueues.mem_entries.mp (List.mem_of_mem_head? hhead)
    generalize ((t.updatePathCacheStat e).getD e).stSize = size
    have hput := (t.onCache fun c => c.setSize path size).ifusePut_cache parse path g put
    generalize (t.onCache fun c => c.setSize path size).ifusePut parse path g put = u at hput
    obtain ⟨u, stored⟩ := u
    have hsize : Carries now p f t.cache u.cache := by
      rw [show u.cache = _ from hput]
      exact t.cache.carries_setSize path size
    split
    · refine hentry.trans fun hk hf => ?_
      have hg : g ≠ f := fun hgf =>
        hk.locCachePath_ne hmem (.inr (hpath ▸ hne)) (hgf ▸ hloc)
      exact (hsize.trans (u.cache.carries_freeFileCache hne hg)) hk hf
    · exact hentry.trans hsize

theorem ifuseClose_carries (s : State) (d : Nat) (put : Reply) (hne : path ≠ p) :
    Carries now p f s.cache (s.ifuseClose parse now path d put).1.cache := by
  have hfile : Carries now p f s.cache (s.closeFile parse now path d put).1.cache := by
    unfold closeFile
    split
    · exact .refl _
    · split
      · exact s.closeNewlyCreated_carries parse put hne
      · exact .refl _
  unfold ifuseClose
  dsimp only
  split
  · exact hfile.trans (carries_rm _ (.inr hne))
  · exact hfile

/-- Closing a descriptor that has nothing to store. -/
theorem ifuseClose_carries_clean (s : State) (path : Path) (d : Nat) (put : Reply)
    (hnew : (s.desc d).newFlag = false) (hstate : (s.desc d).locCacheState ≠ .haveNewlyCreatedCache)
    (hbytes : (s.desc d).bytesWritten = 0) :
    (s.ifuseClose parse now path d put).1.cache = s.cache := by
  have hfile : (s.closeFile parse now path d put).1.cache = s.cache := by
    unfold closeFile
    split
    · rfl
    · rw [if_neg (by simp [hnew, hstate])]
  unfold ifuseClose
  dsimp only
  rw [if_neg (by simp [hbytes])]
  exact hfile

/-- An entry whose local file is gone is not the one of the kept file. -/
theorem updatePathCacheStat_kept (hk : s.cache.Keeps p f) (he : (s.cache.entries .pathArray p).head? = some e) :
    ∃ e', s.updatePathCacheStat e = some e' ∧ e'.locCachePath = some f := by
  obtain ⟨e₀, hent, hloc, hstate⟩ := hk.entry
  obtain rfl : e₀ = e := by simpa [hent] using he
  have howned : e₀.owned = some f := by
    unfold PathCache.owned
    rw [if_neg (by rw [hstate]; exact nofun)]
    exact hloc
  unfold updatePathCacheStat
  rw [howned]
  dsimp only
  rw [if_pos hk.linked]
  exact ⟨_, rfl, hloc⟩

theorem lookupCached_carries (s : State) (now : Nat) (p : Path) (f : Nat) (path : Path) :
    Carries now p f s.cache (s.lookupCached now path).1.cache ∧
    (s.cache.Keeps p f → s.cache.Fresh now p → path = p →
      ∃ e, (s.lookupCached now path).2 = some e ∧ e.locCachePath = some f) := by
  have hmatch : Carries now p f s.cache (s.cache.matchPathInPathCache now path .pathArray).1 :=
    s.cache.carries_match path .pathArray
  have hhead : (s.cache.matchPathInPathCache now path .pathArray).2 =
      ((s.cache.matchPathInPathCache now path .pathArray).1.entries .pathArray path).head? :=
    s.cache.matchPathInPathCache_snd now path .pathArray
  unfold lookupCached
  generalize s.cache.matchPathInPathCache now path .pathArray = r at hmatch hhead
  obtain ⟨c, _ | e⟩ := r
  · refine ⟨hmatch, fun hk hf hp => ?_⟩
    obtain ⟨e, hent, -⟩ := (hmatch hk hf).1.entry
    rw [hp, hent] at hhead
    cases hhead
  · dsimp only
    have hkept := fun (hk : s.cache.Keeps p f) hf (hp : path = p) =>
      updatePathCacheStat_kept (s := { s with cache := c }) (hmatch hk hf).1 (hp ▸ hhead.symm)
    generalize ({ s with cache := c } : State).updatePathCacheStat e = stat at hkept
    cases stat with
    | none =>
      refine ⟨fun hk hf => ?_, fun hk hf hp => ?_⟩
      · by_cases hp : path = p
        · obtain ⟨e', he', -⟩ := hkept hk hf hp
          cases he'
        · exact hmatch.trans (carries_rm c (.inr hp)) hk hf
      · obtain ⟨e', he', -⟩ := hkept hk hf hp
        cases he'
    | some e' =>
      refine ⟨hmatch.trans (c.carries_setSize path e'.stSize), fun hk hf hp => ?_⟩
      obtain ⟨e'', he', hloc⟩ := hkept hk hf hp
      cases he'
      exact ⟨e', rfl, hloc⟩

theorem addNonExist_carries (s : State) (path : Path) :
    Carries now p f s.cache (s.addNonExist now path).cache :=
  carries_add _ (.inl nofun) nofun

/-- What looking up a path finds about the kept file: its own entry, unless the path is
known as missing. -/
theorem lookupPath_carries (s : State) (now : Nat) (p : Path) (f : Nat) (path : Path) (reply : StatReply) :
    Carries now p f s.cache (s.lookupPath parse now path reply).1.cache ∧
    (s.cache.Keeps p f → s.cache.Fresh now p → path = p →
      (s.lookupPath parse now path reply).2 = .missing ∨
      ∃ e, (s.lookupPath parse now path reply).2 = .hit e ∧ e.locCachePath = some f) := by
  have hmatch : Carries now p f s.cache (s.cache.matchPathInPathCache now path .nonExistPathArray).1 :=
    s.cache.carries_match path .nonExistPathArray
  unfold lookupPath
  generalize s.cache.matchPathInPathCache now path .nonExistPathArray = r at hmatch
  obtain ⟨c, _ | e⟩ := r
  · dsimp only
    obtain ⟨hcached, hhit⟩ := ({ s with cache := c } : State).lookupCached_carries now p f path
    generalize ({ s with cache := c } : State).lookupCached now path = r at hcached hhit
    obtain ⟨t, _ | e⟩ := r
    · have hserver : Carries now p f t.cache (t.lookupServer parse now path reply).1.cache := by
        unfold lookupServer
        split
        · exact .refl _
        · split
          · split
            · exact .refl _
            · exact .refl _
            · exact t.addNonExist_carries path
          · exact t.addNonExist_carries path
      refine ⟨(hmatch.trans hcached).trans hserver, fun hk hf hp => ?_⟩
      obtain ⟨hk', hf', -⟩ := hmatch hk hf
      obtain ⟨e, he, -⟩ := hhit hk' hf' hp
      cases he
    · refine ⟨hmatch.trans hcached, fun hk hf hp => ?_⟩
      obtain ⟨hk', hf', -⟩ := hmatch hk hf
      obtain ⟨e', he', hloc⟩ := hhit hk' hf' hp
      cases he'
      exact .inr ⟨e, rfl, hloc⟩
  · exact ⟨hmatch, fun _ _ _ => .inl rfl⟩

theorem irodsGetattr_carries (s : State) (path : Path) (reply : StatReply) :
    Carries now p f s.cache (s.irodsGetattr parse now path reply).1.cache := by
  obtain ⟨hlookup, hown⟩ := s.lookupPath_carries parse now p f path reply
  unfold irodsGetattr
  generalize s.lookupPath parse now path reply = r at hlookup hown
  obtain ⟨t, _ | _ | e | size⟩ := r
  · exact hlookup
  · exact hlookup
  · exact hlookup
  · intro hk hf
    have hne : path ≠ p := by
      intro hp
      obtain h | ⟨e, h, -⟩ := hown hk hf hp <;> cases h
    exact hlookup.trans (carries_add t.cache (.inr hne) nofun) hk hf

theorem closeNewlyCreated_leaves (s : State) (now : Nat) (path : Path) (put : Reply) (g : Nat) :
    Leaves g s.cache (s.closeNewlyCreated parse now path put).1.cache := by
  have hentry : Leaves g s.cache (s.closeEntry now path).1.cache := by
    unfold closeEntry
    dsimp only
    split <;> exact s.cache.leaves_match now path .pathArray g
  have hsome : ∀ t e f, s.closeEntry now path = (t, some (e, f)) →
      e.locCachePath = some f ∧ (t.cache.entries .pathArray path).head? = some e :=
    fun _ _ _ => closeEntry_some
  unfold closeNewlyCreated
  generalize s.closeEntry now path = r at hentry hsome
  obtain ⟨t, _ | ⟨e, f⟩⟩ := r
  · exact hentry
  · dsimp only
    obtain ⟨hloc, hhead⟩ := hsome t e f rfl
    obtain ⟨hmem, -⟩ := HashQueues.mem_entries.mp (List.mem_of_mem_head? hhead)
    generalize ((t.updatePathCacheStat e).getD e).stSize = size
    have hput := (t.onCache fun c => c.setSize path size).ifusePut_cache parse path f put
    generalize (t.onCache fun c => c.setSize path size).ifusePut parse path f put = u at hput
    obtain ⟨u, stored⟩ := u
    have hsize : Leaves g t.cache u.cache := by
      rw [show u.cache = _ from hput]
      exact fun h => ⟨fun hg => h (refs_setSize hg), rfl⟩
    split
    · refine hentry.trans fun h => ?_
      have hne : f ≠ g := fun hfg => h ⟨_, _, e, hmem, hfg ▸ hloc⟩
      exact hsize.trans (u.cache.leaves_freeFileCache path hne) h
    · exact hentry.trans hsize

theorem ifuseClose_leaves (s : State) (now : Nat) (path : Path) (d : Nat) (put : Reply) (g : Nat) :
    Leaves g s.cache (s.ifuseClose parse now path d put).1.cache := by
  have hfile : Leaves g s.cache (s.closeFile parse now path d put).1.cache := by
    unfold closeFile
    split
    · exact .refl g _
    · split
      · exact s.closeNewlyCreated_leaves parse now path put g
      · exact .refl g _
  unfold ifuseClose
  dsimp only
  split
  · exact hfile.trans (leaves_rm _ path .pathArray g)
  · exact hfile

theorem lookupPath_refs (h : (s.lookupPath parse now path reply).1.cache.Refs g) : s.cache.Refs g := by
  have hcached : ∀ t : State, (t.lookupCached now path).1.cache.Refs g → t.cache.Refs g := by
    intro t
    unfold lookupCached
    generalize hr : t.cache.matchPathInPathCache now path .pathArray = r
    have hmatch : r.1.Refs g → t.cache.Refs g := by
      rw [← hr]
      exact refs_match
    obtain ⟨c, _ | e⟩ := r
    · exact hmatch
    · dsimp only
      split
      · exact fun h => hmatch (refs_rm h)
      · exact fun h => hmatch (refs_setSize h)
  have hnone : ∀ t : State, (t.addNonExist now path).cache.Refs g → t.cache.Refs g := by
    intro t h
    exact (refs_add h).resolve_right nofun
  have hserver : ∀ t : State, (t.lookupServer parse now path reply).1.cache.Refs g → t.cache.Refs g := by
    intro t
    unfold lookupServer
    split
    · exact id
    · split
      · split
        · exact id
        · exact id
        · exact hnone t
      · exact hnone t
  unfold lookupPath at h
  generalize hr : s.cache.matchPathInPathCache now path .nonExistPathArray = r at h
  have hmatch : r.1.Refs g → s.cache.Refs g := by
    rw [← hr]
    exact refs_match
  obtain ⟨c, _ | e⟩ := r
  · have hc := hcached { s with cache := c }
    dsimp only at h
    generalize ({ s with cache := c } : State).lookupCached now path = r at h hc
    obtain ⟨t, _ | e⟩ := r
    · exact hmatch (hc (hserver t h))
    · exact hmatch (hc h)
  · exact hmatch h

theorem irodsGetattr_refs (h : (s.irodsGetattr parse now path reply).1.cache.Refs g) : s.cache.Refs g := by
  have hlookup : (s.lookupPath parse now path reply).1.cache.Refs g → s.cache.Refs g := lookupPath_refs parse
  unfold irodsGetattr at h
  generalize s.lookupPath parse now path reply = r at h hlookup
  obtain ⟨t, _ | _ | e | size⟩ := r
  · exact hlookup h
  · exact hlookup h
  · exact hlookup h
  · exact hlookup ((refs_add h).resolve_right nofun)

end State

end Fuse
