-- SUMMARY: Eviction from the preload cache by the least access time.
import Irods.Base.CNumber
import Irods.Fuse.Desc

/-!
# Eviction

`_findOldestCache` walks the directories of the preload cache and `_evictOldCache` removes
what it finds until enough is free. The file system is what each path names; a directory lists
its entries in any order, which may be another one in every round. The path of an entry is
printed into a buffer of `MAX_NAME_LEN` bytes, and what is looked up is what the buffer holds.
-/

namespace Fuse.Eviction

open List (filter_cons_of_neg filter_cons_of_pos flatMap_cons mem_cons_of_mem mem_cons_self mem_filter mem_singleton
  not_mem_nil prefix_nil)

structure FileStat where
  stSize : Int
  stAtime : Int
  deriving DecidableEq

inductive Node where
  | file (stat : FileStat)
  | dir (names : List Path)
  deriving DecidableEq

abbrev FileSys := Path → Option Node

abbrev CacheFile := Path × FileStat

def dot : Path := [0x2e]

def dotdot : Path := [0x2e, 0x2e]

/-- `%s/%s`. -/
def entryPath (path dName : Path) : Path := path ++ 0x2f :: dName

/-- A file's name is taken out of its directory. -/
def unlink (fs : FileSys) (q : Path) : FileSys := fun p =>
  if p = q then none
  else
    match fs p with
    | some (.dir names) => some (.dir (names.filter fun n => entryPath p n ≠ q))
    | node => node

/-! ## The oldest file -/

/-- Whether a path is set tells whether there is an oldest file yet. -/
def older (oldest found : CacheFile) : CacheFile :=
  if oldest.1.length = 0 then found
  else if oldest.2.stAtime > found.2.stAtime then found
  else oldest

/-- The loop over the entries of a directory, in which `find` is the walk through another one. -/
def visitEntries (fs : FileSys) (find : Path → Option (Option CacheFile)) (path : Path) :
    (names : List Path) → (oldest : CacheFile) → Option CacheFile
  | [], oldest => some oldest
  | n :: ns, oldest =>
    if n = dot ∨ n = dotdot then visitEntries fs find path ns oldest
    else
      let filepath := (entryPath path n).take (MAX_NAME_LEN - 1)
      match fs filepath with
      | none => visitEntries fs find path ns oldest
      | some (.file s) => visitEntries fs find path ns (older oldest (filepath, s))
      | some (.dir _) =>
        match find filepath with
        | none => none
        | some none => visitEntries fs find path ns oldest
        | some (some found) => visitEntries fs find path ns (older oldest found)

/-- `readdir` lists the names of a directory in some order. -/
def findOldestCache (fs : FileSys) (readdir : Path → List Path → List Path) :
    (fuel : Nat) → (path : Path) → Option (Option CacheFile)
  | 0, _ => none
  | fuel + 1, path =>
    match fs path with
    | some (.dir names) =>
      (visitEntries fs (findOldestCache fs readdir fuel) path (readdir path names) ([], ⟨0, 0⟩)).map fun oldest =>
        if oldest.1.length = 0 then none else some oldest
    | _ => some none

/-! ## The loop -/

/-- The status, the files that were removed, in their order, and what is left. -/
structure Evicted where
  status : Int
  removed : List CacheFile
  fs : FileSys

def evictFrom (readdir : Nat → Path → List Path → List Path) (cachePath : Path) (sizeNeeded : Int) (fuel : Nat) :
    (rounds : Nat) → (fs : FileSys) → (removedCacheSize : Int) → Option Evicted
  | 0, _, _ => none
  | rounds + 1, fs, removedCacheSize =>
    if sizeNeeded > removedCacheSize then
      match findOldestCache fs (readdir rounds) fuel cachePath with
      | none => none
      | some none => some ⟨-1, [], fs⟩
      | some (some found) =>
        let cacheSize := if found.2.stSize > 0 then found.2.stSize else 0
        (evictFrom readdir cachePath sizeNeeded fuel rounds (unlink fs found.1)
          (int64 (removedCacheSize + cacheSize))).map fun e => { e with removed := found :: e.removed }
    else some ⟨0, [], fs⟩

/-- Every `unlink` succeeds. -/
def evictOldCache (readdir : Nat → Path → List Path → List Path) (cachePath : Path) (fuel rounds : Nat)
    (fs : FileSys) (sizeNeeded : Int) : Option Evicted :=
  if sizeNeeded ≤ 0 then some ⟨0, [], fs⟩
  else evictFrom readdir cachePath sizeNeeded fuel rounds fs 0

/-! ## Trees -/

def entries (names : List Path) : List Path := names.filter fun n => ¬ (n = dot ∨ n = dotdot)

/-- A tree of files with paths that fit in the buffers, at most `depth` levels high. -/
def Tree (fs : FileSys) : (depth : Nat) → (path : Path) → Prop
  | 0, _ => False
  | depth + 1, path =>
    path.length < MAX_NAME_LEN ∧
      match fs path with
      | none => False
      | some (.file _) => True
      | some (.dir names) => ∀ n ∈ entries names, Tree fs depth (entryPath path n)

/-- The files in a tree. -/
def filesUnder (fs : FileSys) : (depth : Nat) → (path : Path) → List CacheFile
  | 0, _ => []
  | depth + 1, path =>
    match fs path with
    | none => []
    | some (.file s) => [(path, s)]
    | some (.dir names) => (entries names).flatMap fun n => filesUnder fs depth (entryPath path n)

/-- A file that no other one is older than, or none where there is no file. -/
def OldestOf (files : List CacheFile) : Option CacheFile → Prop
  | none => files = []
  | some f => f ∈ files ∧ ∀ g ∈ files, f.2.stAtime ≤ g.2.stAtime

variable {fs : FileSys} {depth : Nat} {path q : Path} {files more : List CacheFile} {f : CacheFile}

theorem OldestOf.congr {r : Option CacheFile} (h : OldestOf files r) (hmem : ∀ g, g ∈ more ↔ g ∈ files) :
    OldestOf more r := by
  cases r with
  | none =>
    obtain rfl : files = [] := h
    exact List.eq_nil_iff_forall_not_mem.mpr fun g hg => absurd ((hmem g).mp hg) not_mem_nil
  | some f => exact ⟨(hmem f).mpr h.1, fun g hg => h.2 g ((hmem g).mp hg)⟩

theorem filesUnder_file (h : f ∈ filesUnder fs depth path) : fs f.1 = some (.file f.2) := by
  induction depth generalizing path with
  | zero => exact absurd h not_mem_nil
  | succ depth ih =>
    rw [filesUnder] at h
    split at h
    · exact absurd h not_mem_nil
    · rename_i s hfile
      obtain rfl := mem_singleton.mp h
      exact hfile
    · obtain ⟨n, -, hn⟩ := List.mem_flatMap.mp h
      exact ih hn

theorem filesUnder_ne_nil (hpath : path ≠ []) (h : f ∈ filesUnder fs depth path) : f.1 ≠ [] := by
  induction depth generalizing path with
  | zero => exact absurd h not_mem_nil
  | succ depth ih =>
    rw [filesUnder] at h
    split at h
    · exact absurd h not_mem_nil
    · obtain rfl := mem_singleton.mp h
      exact hpath
    · obtain ⟨n, -, hn⟩ := List.mem_flatMap.mp h
      exact ih (by simp [entryPath]) hn

/-! ## The walk -/

/-- The oldest of the files so far, as the buffers tell it. -/
def soFar (oldest : CacheFile) : Option CacheFile := if oldest.1.length = 0 then none else some oldest

theorem older_oldestOf {oldest : CacheFile} (h : OldestOf files (soFar oldest)) (hfound : OldestOf more (some f))
    (hne : f.1 ≠ []) : OldestOf (files ++ more) (soFar (older oldest f)) := by
  have hset : soFar f = some f := if_neg fun hlen => hne (List.length_eq_zero_iff.mp hlen)
  obtain ⟨hmem, hle⟩ := hfound
  unfold older
  by_cases hunset : oldest.1.length = 0
  · rw [soFar, if_pos hunset] at h
    obtain rfl : files = [] := h
    rw [if_pos hunset, hset]
    exact ⟨hmem, hle⟩
  · rw [soFar, if_neg hunset] at h
    obtain ⟨hold, hleast⟩ := h
    rw [if_neg hunset]
    split
    case isTrue hlt =>
      rw [hset]
      refine ⟨List.mem_append_right _ hmem, fun g hg => ?_⟩
      rcases List.mem_append.mp hg with hg | hg
      · exact le_trans (le_of_lt hlt) (hleast g hg)
      · exact hle g hg
    case isFalse hge =>
      rw [soFar, if_neg hunset]
      refine ⟨List.mem_append_left _ hold, fun g hg => ?_⟩
      rcases List.mem_append.mp hg with hg | hg
      · exact hleast g hg
      · exact le_trans (not_lt.mp hge) (hle g hg)

/-- The walk through a tree, when the walks through the directories in it are right. -/
theorem visitEntries_spec {find : Path → Option (Option CacheFile)} (names : List Path)
    (htree : ∀ n ∈ entries names, Tree fs depth (entryPath path n))
    (hfind : ∀ n ∈ entries names, ∀ names', fs (entryPath path n) = some (.dir names') →
      ∃ r, find (entryPath path n) = some r ∧ OldestOf (filesUnder fs depth (entryPath path n)) r) :
    ∀ (oldest : CacheFile) (files : List CacheFile), OldestOf files (soFar oldest) →
      ∃ oldest', visitEntries fs find path names oldest = some oldest' ∧
        OldestOf (files ++ (entries names).flatMap fun n => filesUnder fs depth (entryPath path n))
        (soFar oldest') := by
  induction names with
  | nil =>
    intro oldest files h
    refine ⟨oldest, rfl, ?_⟩
    rwa [entries, List.filter_nil, List.flatMap_nil, List.append_nil]
  | cons n ns ih =>
    intro oldest files h
    by_cases hdot : n = dot ∨ n = dotdot
    · have hentries : entries (n :: ns) = entries ns := filter_cons_of_neg fun hkeep => of_decide_eq_true hkeep hdot
      rw [hentries] at htree hfind ⊢
      rw [visitEntries, if_pos hdot]
      exact ih htree hfind oldest files h
    · have hentries : entries (n :: ns) = n :: entries ns := filter_cons_of_pos (decide_eq_true hdot)
      rw [hentries] at htree hfind ⊢
      have hrest := @ih (fun m hm => htree m (mem_cons_of_mem n hm)) (fun m hm => hfind m (mem_cons_of_mem n hm))
      have hn := htree n mem_cons_self
      obtain ⟨depth, rfl⟩ : ∃ d, depth = d + 1 := by
        cases depth with
        | zero => exact absurd hn id
        | succ d => exact ⟨d, rfl⟩
      obtain ⟨hshort, hnode⟩ := hn
      have hcut : (entryPath path n).take (MAX_NAME_LEN - 1) = entryPath path n :=
        List.take_of_length_le (Nat.le_sub_one_of_lt hshort)
      rw [visitEntries, if_neg hdot, flatMap_cons, ← List.append_assoc]
      dsimp only
      rw [hcut]
      cases hfs : fs (entryPath path n) with
      | none =>
        rw [hfs] at hnode
        exact absurd hnode id
      | some node =>
        cases node with
        | file s =>
          have hfiles : filesUnder fs (depth + 1) (entryPath path n) = [(entryPath path n, s)] := by
            rw [filesUnder, hfs]
          have holdest : OldestOf (filesUnder fs (depth + 1) (entryPath path n)) (some (entryPath path n, s)) := by
            rw [hfiles]
            exact ⟨mem_cons_self, fun g hg => by rw [mem_singleton.mp hg]⟩
          exact hrest _ _ (older_oldestOf h holdest (by simp [entryPath]))
        | dir names' =>
          obtain ⟨r, hr, holdest⟩ := hfind n mem_cons_self names' hfs
          rw [hr]
          cases r with
          | none =>
            have hnil : filesUnder fs (depth + 1) (entryPath path n) = [] := holdest
            rw [hnil, List.append_nil]
            exact hrest _ _ h
          | some f =>
            exact hrest _ _ (older_oldestOf h holdest (filesUnder_ne_nil (by simp [entryPath]) holdest.1))

/-- The walk finds a file of the tree that no other one is older than. -/
theorem findOldestCache_spec {readdir : Path → List Path → List Path}
    (hperm : ∀ p names, (readdir p names).Perm names) : ∀ {path : Path} {names : List Path} {fuel : Nat},
    Tree fs depth path → fs path = some (.dir names) → depth ≤ fuel →
      ∃ r, findOldestCache fs readdir fuel path = some r ∧ OldestOf (filesUnder fs depth path) r := by
  induction depth with
  | zero => exact fun htree => absurd htree id
  | succ depth ih =>
    intro path names fuel htree hdir hfuel
    obtain ⟨fuel, rfl⟩ : ∃ n, fuel = n + 1 := ⟨fuel - 1, by omega⟩
    have hentries : (entries (readdir path names)).Perm (entries names) := (hperm path names).filter _
    have hsub := htree.2
    rw [hdir] at hsub
    have hsub' : ∀ n ∈ entries (readdir path names), Tree fs depth (entryPath path n) :=
      fun n hn => hsub n (hentries.mem_iff.mp hn)
    obtain ⟨oldest, hvisit, holdest⟩ := visitEntries_spec (readdir path names) hsub'
      (fun n hn names' hdir' => ih (hsub' n hn) hdir' (Nat.le_of_succ_le_succ hfuel)) ([], ⟨0, 0⟩) [] rfl
    refine ⟨soFar oldest, ?_, holdest.congr fun g => ?_⟩
    · rw [findOldestCache, hdir]
      dsimp only
      rw [hvisit]
      rfl
    · rw [filesUnder, hdir, List.nil_append]
      exact (hentries.flatMap_right _).mem_iff.symm

/-! ## Removing a file -/

theorem unlink_ne (h : path ≠ q) : unlink fs q path =
    match fs path with
    | some (.dir names) => some (.dir (names.filter fun n => entryPath path n ≠ q))
    | node => node := if_neg h

theorem unlink_tree (hne : path ≠ q) (h : Tree fs depth path) :
    Tree (unlink fs q) depth path := by
  induction depth generalizing path with
  | zero => exact h
  | succ depth ih =>
    obtain ⟨hshort, hnode⟩ := h
    refine ⟨hshort, ?_⟩
    rw [unlink_ne hne]
    cases hfs : fs path with
    | none =>
      rw [hfs] at hnode
      exact hnode
    | some node =>
      rw [hfs] at hnode
      cases node with
      | file s' => trivial
      | dir names =>
        intro n hn
        rw [entries, List.filter_filter, mem_filter] at hn
        obtain ⟨hn, hkeep⟩ := hn
        simp only [Bool.and_eq_true, decide_eq_true_eq] at hkeep
        exact ih hkeep.2 (hnode n (mem_filter.mpr ⟨hn, by simpa using hkeep.1⟩))

theorem flatMap_filter_eq {keep : Path → Bool} {g g' : Path → List CacheFile} {names : List Path}
    (hkeep : ∀ n ∈ names, keep n = true → g' n = g n) (hdrop : ∀ n ∈ names, keep n = false → g n = []) :
    (names.filter keep).flatMap g' = names.flatMap g := by
  induction names with
  | nil => rfl
  | cons n ns ih =>
    have hrest := ih (fun m hm => hkeep m (mem_cons_of_mem n hm)) (fun m hm => hdrop m (mem_cons_of_mem n hm))
    cases hn : keep n with
    | true =>
      rw [filter_cons_of_pos hn, flatMap_cons, flatMap_cons, hrest, hkeep n mem_cons_self hn]
    | false =>
      rw [filter_cons_of_neg (by simp [hn]), flatMap_cons, hrest, hdrop n mem_cons_self hn, List.nil_append]

theorem filesUnder_unlink (depth : Nat) (path : Path) {s : FileStat} (hfile : fs q = some (.file s)) :
    filesUnder (unlink fs q) depth path = (filesUnder fs depth path).filter fun f => f.1 ≠ q := by
  induction depth generalizing path with
  | zero => rfl
  | succ depth ih =>
    by_cases hne : path = q
    · subst hne
      have hgone : unlink fs path path = none := if_pos rfl
      rw [filesUnder, filesUnder, hgone, hfile]
      simp
    · rw [filesUnder, filesUnder, unlink_ne hne]
      cases hfs : fs path with
      | none => rfl
      | some node =>
        cases node with
        | file s' => simp [hne]
        | dir names =>
          dsimp only
          rw [List.filter_flatMap, entries, List.filter_comm]
          refine flatMap_filter_eq (fun n _ _ => ih (entryPath path n)) fun n _ hdrop => ?_
          have heq : entryPath path n = q := by simpa using hdrop
          rw [heq]
          cases depth with
          | zero => rfl
          | succ depth =>
            rw [filesUnder, hfile]
            simp

/-! ## Runs -/

def cacheSize (f : CacheFile) : Int := if f.2.stSize > 0 then f.2.stSize else 0

def totalSize (files : List CacheFile) : Int := (files.map cacheSize).sum

/-- Each file is, when it is removed, one of the tree that no other file of the tree is older than. -/
def OldestFirst (depth : Nat) (cachePath : Path) : FileSys → List CacheFile → FileSys → Prop
  | fs, [],           fs' => fs' = fs
  | fs, f :: removed, fs' =>
    OldestOf (filesUnder fs depth cachePath) (some f) ∧ OldestFirst depth cachePath (unlink fs f.1) removed fs'

/-- What eviction is for. -/
structure Evicts (depth : Nat) (cachePath : Path) (fs : FileSys) (sizeNeeded : Int) (e : Evicted) : Prop where
  oldestFirst : OldestFirst depth cachePath fs e.removed e.fs
  ordered : e.removed.Pairwise fun f g => f.2.stAtime ≤ g.2.stAtime
  /-- It succeeds only when enough is free. -/
  enough : e.status = 0 → sizeNeeded ≤ totalSize e.removed
  /-- No file is removed once enough is free. -/
  needed : ∀ before, before <+: e.removed → before ≠ e.removed → totalSize before < sizeNeeded
  /-- It fails only when no file is left. -/
  failed : e.status ≠ 0 → e.status = -1 ∧ filesUnder e.fs depth cachePath = []

theorem cacheSize_nonneg (f : CacheFile) : 0 ≤ cacheSize f := by
  unfold cacheSize
  split <;> omega

@[simp] theorem totalSize_cons (f : CacheFile) (files : List CacheFile) :
    totalSize (f :: files) = cacheSize f + totalSize files := by
  unfold totalSize
  rw [List.map_cons, List.sum_cons]

theorem totalSize_nonneg (files : List CacheFile) : 0 ≤ totalSize files := by
  induction files with
  | nil => exact le_refl _
  | cons f files ih =>
    have hf := cacheSize_nonneg f
    rw [totalSize_cons]
    omega

theorem totalSize_filter_le (p : CacheFile → Bool) (files : List CacheFile) :
    totalSize (files.filter p) ≤ totalSize files := by
  induction files with
  | nil => exact le_refl _
  | cons f files ih =>
    have hnonneg := cacheSize_nonneg f
    cases hp : p f with
    | true =>
      rw [filter_cons_of_pos hp, totalSize_cons, totalSize_cons]
      omega
    | false =>
      rw [filter_cons_of_neg (by simp [hp]), totalSize_cons]
      omega

/-- Taking a file away takes its size away, at least. -/
theorem totalSize_without (hf : f ∈ files) :
    totalSize (files.filter fun g => g.1 ≠ f.1) + cacheSize f ≤ totalSize files := by
  induction files with
  | nil => exact absurd hf not_mem_nil
  | cons g files ih =>
    have hnonneg := cacheSize_nonneg g
    rw [totalSize_cons]
    rcases List.mem_cons.mp hf with rfl | hf
    · rw [filter_cons_of_neg (by simp)]
      have hle := totalSize_filter_le (fun g => g.1 ≠ f.1) files
      omega
    · have hrest := ih hf
      by_cases hg : g.1 = f.1
      · rw [filter_cons_of_neg (by simp [hg])]
        omega
      · rw [filter_cons_of_pos (by simp [hg]), totalSize_cons]
        omega

theorem length_without (hf : f ∈ files) : (files.filter fun g => g.1 ≠ f.1).length < files.length :=
  List.length_filter_lt_length_iff_exists.mpr ⟨f, hf, by simp⟩

variable {cachePath : Path}

variable {removed : List CacheFile} {fs' : FileSys}

theorem OldestFirst.subset (h : OldestFirst depth cachePath fs removed fs') :
    ∀ g ∈ removed, g ∈ filesUnder fs depth cachePath := by
  induction removed generalizing fs with
  | nil => exact fun g hg => absurd hg not_mem_nil
  | cons f removed ih =>
    intro g hg
    obtain ⟨holdest, hrest⟩ := h
    rcases List.mem_cons.mp hg with rfl | hg
    · exact holdest.1
    · have hleft := ih hrest g hg
      rw [filesUnder_unlink _ _ (filesUnder_file holdest.1)] at hleft
      exact (mem_filter.mp hleft).1

/-- What is removed later was there before, and is not older. -/
theorem OldestFirst.ordered (h : OldestFirst depth cachePath fs removed fs') :
    removed.Pairwise fun f g => f.2.stAtime ≤ g.2.stAtime := by
  induction removed generalizing fs with
  | nil => exact List.Pairwise.nil
  | cons f removed ih =>
    refine List.pairwise_cons.mpr ⟨fun g hg => ?_, ih h.2⟩
    exact h.1.2 g (h.subset g (mem_cons_of_mem f hg))

variable {readdir : Nat → Path → List Path → List Path}

/-- The loop, from what was removed so far. The induction is on the rounds, of which there are more
than files. -/
theorem evictFrom_spec (hperm : ∀ round p names, (readdir round p names).Perm names) {sizeNeeded : Int} {fuel : Nat}
    (hneeded : sizeNeeded < longBound) (hfuel : depth ≤ fuel) (rounds : Nat) :
    ∀ {fs : FileSys} {names : List Path} (removedCacheSize : Int), Tree fs depth cachePath →
      fs cachePath = some (.dir names) → 0 ≤ removedCacheSize →
      removedCacheSize + totalSize (filesUnder fs depth cachePath) < longBound →
      (filesUnder fs depth cachePath).length < rounds →
      ∃ e, evictFrom readdir cachePath sizeNeeded fuel rounds fs removedCacheSize = some e ∧
        Evicts depth cachePath fs (sizeNeeded - removedCacheSize) e := by
  induction rounds with
  | zero => exact nofun
  | succ rounds ih =>
    intro fs names removedCacheSize htree hdir hnonneg htotal hrounds
    rw [evictFrom]
    by_cases hmore : sizeNeeded > removedCacheSize
    case neg =>
      rw [if_neg hmore]
      refine ⟨_, rfl, rfl, List.Pairwise.nil, fun _ => ?_, ?_, fun h => absurd rfl h⟩
      · show sizeNeeded - removedCacheSize ≤ 0
        omega
      · exact fun before hbefore hne => absurd (prefix_nil.mp hbefore) hne
    case pos =>
      obtain ⟨r, hfind, holdest⟩ := findOldestCache_spec (hperm rounds) htree hdir hfuel
      rw [if_pos hmore, hfind]
      cases r with
      | none =>
        have hnil : filesUnder fs depth cachePath = [] := holdest
        refine ⟨_, rfl, rfl, List.Pairwise.nil, nofun, ?_, fun _ => ⟨rfl, hnil⟩⟩
        exact fun before hbefore hne => absurd (prefix_nil.mp hbefore) hne
      | some f =>
        have hfile := filesUnder_file holdest.1
        have hne : cachePath ≠ f.1 := by
          rintro heq
          rw [← heq, hdir] at hfile
          cases hfile
        have hgone := filesUnder_unlink depth cachePath hfile
        have hsize := totalSize_without holdest.1
        have hlength := length_without holdest.1
        have hpart := totalSize_nonneg ((filesUnder fs depth cachePath).filter fun g => g.1 ≠ f.1)
        have hf := cacheSize_nonneg f
        have hwrap : int64 (removedCacheSize + cacheSize f) = removedCacheSize + cacheSize f :=
          int64_eq_self (by omega) (by omega)
        have hdir' : ∃ names', unlink fs f.1 cachePath = some (.dir names') := by
          rw [unlink_ne hne, hdir]
          exact ⟨_, rfl⟩
        obtain ⟨names', hdir'⟩ := hdir'
        obtain ⟨e, hrun, hevicts⟩ := ih (removedCacheSize + cacheSize f) (unlink_tree hne htree) hdir'
          (by omega) (by rw [hgone]; omega) (by rw [hgone]; omega)
        have hfirst : OldestFirst depth cachePath fs (f :: e.removed) e.fs := ⟨holdest, hevicts.oldestFirst⟩
        refine ⟨{ e with removed := f :: e.removed }, ?_, hfirst, hfirst.ordered, ?_, ?_, hevicts.failed⟩
        · show (evictFrom readdir cachePath sizeNeeded fuel rounds (unlink fs f.1)
            (int64 (removedCacheSize + cacheSize f))).map _ = _
          rw [hwrap, hrun]
          rfl
        · intro hstatus
          have henough := hevicts.enough hstatus
          rw [totalSize_cons]
          omega
        · intro before hbefore hne'
          cases before with
          | nil =>
            show (0 : Int) < _
            omega
          | cons g before =>
            obtain ⟨rfl, hrest⟩ := List.cons_prefix_cons.mp hbefore
            have hlt := hevicts.needed before hrest fun heq => hne' (by rw [heq])
            rw [totalSize_cons]
            omega

/-- Of a finite tree of files with short paths, whose sizes add up to an `off_t`, the oldest files
are removed until enough is free, or none is left. -/
theorem evictOldCache_evicts
    (hperm : ∀ round p names, (readdir round p names).Perm names) {depth : Nat} {cachePath : Path} {fs : FileSys}
    {names : List Path} (htree : Tree fs depth cachePath) (hdir : fs cachePath = some (.dir names))
    (htotal : totalSize (filesUnder fs depth cachePath) < longBound) {sizeNeeded : Int}
    (hneeded : sizeNeeded < longBound) :
    ∀ fuel rounds, depth ≤ fuel → (filesUnder fs depth cachePath).length < rounds →
      ∃ e, evictOldCache readdir cachePath fuel rounds fs sizeNeeded = some e ∧
      Evicts depth cachePath fs sizeNeeded e := by
  intro fuel rounds hfuel hrounds
  unfold evictOldCache
  by_cases hnone : sizeNeeded ≤ 0
  · rw [if_pos hnone]
    refine ⟨_, rfl, rfl, List.Pairwise.nil, fun _ => hnone, ?_, fun h => absurd rfl h⟩
    exact fun before hbefore hne => absurd (prefix_nil.mp hbefore) hne
  · rw [if_neg hnone]
    obtain ⟨e, hrun, hevicts⟩ := evictFrom_spec hperm hneeded hfuel rounds 0 htree hdir (le_refl 0) (by omega) hrounds
    rw [Int.sub_zero] at hevicts
    exact ⟨e, hrun, hevicts⟩

/-- "/c" with the files "/c/a" and "/c/b". -/
def smallCache : FileSys := fun p =>
  if p = [0x2f, 0x63] then some (.dir [dot, [0x61], [0x62]])
  else if p = [0x2f, 0x63, 0x2f, 0x61] then some (.file ⟨10, 5⟩)
  else if p = [0x2f, 0x63, 0x2f, 0x62] then some (.file ⟨10, 3⟩)
  else none

theorem evictOldCache_evicts_small : ∃ e, evictOldCache (fun _ _ names => names)
    [0x2f, 0x63] 2 3 smallCache 7 = some e ∧
    Evicts 2 [0x2f, 0x63] smallCache 7 e := by
  have htree : Tree smallCache 2 [0x2f, 0x63] := by
    refine ⟨by decide, fun n hn => ?_⟩
    have hnames : n = [0x61] ∨ n = [0x62] := by simpa [entries, dot, dotdot] using hn
    rcases hnames with rfl | rfl
    · exact ⟨by decide, trivial⟩
    · exact ⟨by decide, trivial⟩
  exact evictOldCache_evicts (fun _ _ _ => List.Perm.refl _) htree rfl (by decide) (by decide) 2 3
    (by decide) (by decide)

/-- A cache directory with a path of 1255 bytes, and a file in it. -/
def deepPath : Path := (List.replicate 5 (0x2f :: List.replicate 250 0x61)).flatten

def deepCache : FileSys := fun p =>
  if p = deepPath then some (.dir [[0x78]])
  else if p = entryPath deepPath [0x78] then some (.file ⟨10, 5⟩)
  else none

/-- Three files in "/c", of which the first two add up to 2^63 bytes. -/
def hugeCache : FileSys := fun p =>
  if p = [0x2f, 0x63] then some (.dir [[0x61], [0x62], [0x64]])
  else if p = [0x2f, 0x63, 0x2f, 0x61] then some (.file ⟨2 ^ 63 - 2, 1⟩)
  else if p = [0x2f, 0x63, 0x2f, 0x62] then some (.file ⟨2, 2⟩)
  else if p = [0x2f, 0x63, 0x2f, 0x64] then some (.file ⟨1, 3⟩)
  else none

/-- A path that is cut is not found, and the eviction fails with a file left. Sizes that add up to
more than an `off_t` are never enough. -/
theorem eviction_limits :
    (∃ e, evictOldCache (fun _ _ names => names) deepPath 2 2 deepCache 1 = some e ∧
      ¬ Evicts 2 deepPath deepCache 1 e) ∧
    ∃ e, evictOldCache (fun _ _ names => names) [0x2f, 0x63] 2 4 hugeCache (2 ^ 63 - 1) = some e ∧
      ¬ Evicts 2 [0x2f, 0x63] hugeCache (2 ^ 63 - 1) e := by
  constructor
  · have hrun : (evictOldCache (fun _ _ names => names) deepPath 2 2 deepCache 1).map (fun e => (e.status, e.removed)) =
        some (-1, []) := by decide +kernel
    obtain ⟨e, he, hfields⟩ := Option.map_eq_some_iff.mp hrun
    obtain ⟨hstatus, hremoved⟩ := Prod.mk.inj hfields
    refine ⟨e, he, fun h => ?_⟩
    have hfs := h.oldestFirst
    rw [hremoved] at hfs
    have hleft := (h.failed (by rw [hstatus]; decide)).2
    rw [show e.fs = deepCache from hfs] at hleft
    exact absurd hleft (by decide +kernel)
  · have hrun : (evictOldCache (fun _ _ names => names) [0x2f, 0x63] 2 4 hugeCache (2 ^ 63 - 1)).map (·.removed) =
        some [([0x2f, 0x63, 0x2f, 0x61], ⟨2 ^ 63 - 2, 1⟩), ([0x2f, 0x63, 0x2f, 0x62], ⟨2, 2⟩),
          ([0x2f, 0x63, 0x2f, 0x64], ⟨1, 3⟩)] := by decide +kernel
    obtain ⟨e, he, hremoved⟩ := Option.map_eq_some_iff.mp hrun
    refine ⟨e, he, fun h => ?_⟩
    have hlt := h.needed [([0x2f, 0x63, 0x2f, 0x61], ⟨2 ^ 63 - 2, 1⟩), ([0x2f, 0x63, 0x2f, 0x62], ⟨2, 2⟩)]
      ⟨_, hremoved.symm⟩ (by rw [hremoved]; decide)
    exact absurd hlt (by decide)

end Fuse.Eviction
