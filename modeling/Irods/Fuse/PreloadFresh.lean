-- SUMMARY: When a read from the preload cache is not served an outdated copy.
import Irods.Fuse.PreloadRead

open Fuse (Path)
open Bool (and_eq_true or_eq_true)

/-!
# No stale read from the preload cache

`invalidatePreloadedFile` and `renamePreloadedFile` deal with the cache file and leave the
handle in the table, so the next open is given the old copy. A download that has not yet
made its work file is not stopped either, and a rename never stops one.

What is needed is that the handle is closed first, that an invalidation finds the work
files of the downloads it is to stop, that a rename finds no download of the file, and
that no other file is put under the work path of a running download.
-/

namespace PreloadRead

open Preload (getCacheWorkPath isBelow)
open Function (update update_of_ne update_self)
open List (mem_cons mem_filter mem_map)

variable {ι : Type}

variable {c : Nat} {n path : Path} {ok : Bool} {s' : State ι}

namespace State

/-! ## The condition -/

/-- No handle is open for a path at or below `path`. -/
def Closed (s : State ι) (path : Path) : Prop :=
  ∀ n h, atOrBelow path n = true → s.handleTable n = some h → h = 0

/-- The work file of every download at or below `path` goes away with it. -/
def PartsGo (s : State ι) (path : Path) : Prop :=
  ∀ d ∈ s.downloads, atOrBelow path d.path = true →
    d.part ≠ none ∧ (s.isDirectory path = true → d.path ≠ path)

/-- No name at or below `path` is the work path of a running download. -/
def NoPart (s : State ι) (path : Path) : Prop :=
  ∀ d ∈ s.downloads, atOrBelow path (getCacheWorkPath d.path) = false

/-- A descriptor that a reader still means is not given to another file; what is
invalidated or moved is closed and its downloads are stopped by it; and nothing is put
under the work path of a running download. -/
def Settled (s : State ι) : Event ι → Prop
  | .openPreloadedFile _ _ fd => ∀ t r, s.reader t = some r → fd ≠ some r.fd
  | .invalidatePreloadedFile path =>
    s.isDirectory path = true ∨ (s.lookup path).isSome = true → s.Closed path ∧ s.PartsGo path
  | .renamePreloadedFile src dest ok =>
    src ≠ dest → s.renames src dest ok = true → s.Closed src ∧ s.PartsGo src ∧ s.NoPart dest ∧
      (s.isDirectory src = false → ∀ d ∈ s.downloads, d.path ≠ src)
  | .completeDownload path _ => ∀ d ∈ s.downloads, getCacheWorkPath d.path ≠ path
  | _ => True

/-! ## The invariant -/

structure Inv (s : State ι) : Prop where
  /-- a file is not gone from its own name -/
  files : ∀ n c, (n, c) ∈ s.files → s.gone n c = false
  /-- a handle is open, belongs to one path, and is not of a copy gone from it -/
  opened : ∀ n h, s.handleTable n = some h → 0 < h → s.fds h ≠ none
  unshared : ∀ n m h, s.handleTable n = some h → s.handleTable m = some h → 0 < h → n = m
  handle : ∀ n h c, s.handleTable n = some h → 0 < h → s.fds h = some (.copy c) → s.gone n c = false
  /-- the work file of a running download is not gone from the path it is for -/
  part : ∀ d ∈ s.downloads, d.part ≠ none → ∀ c, (getCacheWorkPath d.path, c) ∈ s.files → s.gone d.path c = false
  current : ∀ d ∈ s.downloads, d.part = none → d.stale = false
  /-- copies are numbered in the order they are made -/
  goneLt : ∀ n c, s.gone n c = true → c < s.nextCopy
  filesLt : ∀ n c, (n, c) ∈ s.files → c < s.nextCopy
  partLt : ∀ d ∈ s.downloads, ∀ c, d.part = some c → c < s.nextCopy
  reader : ∀ t r c, s.reader t = some r → s.fds r.fd = some (.copy c) → r.gone c = false

variable {s : State ι}

variable {name : Path}

theorem mem_of_lookup (h : s.lookup name = some c) : (name, c) ∈ s.files := by
  obtain ⟨f, hf, rfl⟩ := Option.map_eq_some_iff.mp h
  have hname : f.1 = name := by simpa using List.find?_some hf
  rw [← hname]
  exact List.mem_of_find?_eq_some hf

theorem mem_of_lookupDownload {d : Download} (h : s.lookupDownload path = some d) :
    d ∈ s.downloads ∧ d.path = path := by
  refine ⟨List.mem_of_find?_eq_some h, ?_⟩
  simpa using List.find?_some h

theorem isBelow_workPath (h : isBelow path name = true) : isBelow path (getCacheWorkPath name) = true := by
  simp only [isBelow, List.isPrefixOf_iff_prefix] at h ⊢
  exact h.trans (List.prefix_append _ _)

theorem workPath_inj {p q : Path} (h : getCacheWorkPath p = getCacheWorkPath q) : p = q :=
  List.append_cancel_right h

/-- Steps that only take files and downloads away and leave the rest. -/
theorem Inv.shrink (h : s.Inv) (hf : ∀ f ∈ s'.files, f ∈ s.files) (hd : ∀ d ∈ s'.downloads, d ∈ s.downloads)
    (hfds : s'.fds = s.fds) (ht : s'.handleTable = s.handleTable) (hn : s'.nextCopy = s.nextCopy)
    (hg : s'.gone = s.gone) (hr : s'.reader = s.reader) : s'.Inv where
  files n c hm := by rw [hg]; exact h.files n c (hf _ hm)
  opened n k hk h0 := by rw [hfds]; rw [ht] at hk; exact h.opened n k hk h0
  unshared n m k hk hk' h0 := by rw [ht] at hk hk'; exact h.unshared n m k hk hk' h0
  handle n k c hk h0 hc := by rw [hg]; rw [ht] at hk; rw [hfds] at hc; exact h.handle n k c hk h0 hc
  part d hm hp c hc := by rw [hg]; exact h.part d (hd d hm) hp c (hf _ hc)
  current d hm hp := h.current d (hd d hm) hp
  goneLt n c hc := by rw [hn]; rw [hg] at hc; exact h.goneLt n c hc
  filesLt n c hm := by rw [hn]; exact h.filesLt n c (hf _ hm)
  partLt d hm c hc := by rw [hn]; exact h.partLt d (hd d hm) c hc
  reader t r c hr' hc := by rw [hr] at hr'; rw [hfds] at hc; exact h.reader t r c hr' hc

theorem invalidateCache_subset (s : State ι) (path : Path) : ∀ f ∈ s.invalidateCache path, f ∈ s.files := by
  intro f hf
  simp only [invalidateCache] at hf
  split at hf
  · exact (mem_filter.mp hf).1
  · exact (mem_filter.mp hf).1

theorem endDownload_subset (s : State ι) (path : Path) : ∀ d ∈ (s.endDownload path).downloads, d ∈ s.downloads :=
  fun _ hd => (mem_filter.mp hd).1

/-! ## Open, read, close -/

theorem openCache_copy (h : s.openCache path = some (.copy c)) : (path, c) ∈ s.files := by
  simp only [openCache] at h
  split at h
  case h_1 c' hc =>
    cases h
    exact mem_of_lookup hc
  case h_2 =>
    split at h
    · cases h
    · cases h

variable {d : Nat} {fd : Option Nat} {desc : Int}

/-- A file at a descriptor that was closed and that no handle or reader means. -/
theorem Inv.openAt (h : s.Inv) (f : OpenFile) (hd : s.fds d = none) (hreader : ∀ t r, s.reader t = some r → r.fd ≠ d) :
    { s with fds := update s.fds d (some f) }.Inv := by
  have hne : ∀ n k, s.handleTable n = some k → 0 < k → k ≠ d := by
    rintro n k hk h0 rfl
    exact h.opened n k hk h0 hd
  refine { h with
    opened := fun n k hk h0 => ?_
    handle := fun n k c hk h0 hc => ?_
    reader := fun t r c hr hc => ?_ }
  · simp only [update_of_ne (hne n k hk h0)]
    exact h.opened n k hk h0
  · simp only [update_of_ne (hne n k hk h0)] at hc
    exact h.handle n k c hk h0 hc
  · simp only [update_of_ne (hreader t r hr)] at hc
    exact h.reader t r c hr hc

/-- The handle just opened goes into the table. -/
theorem Inv.keep (h : s.Inv) (hd : s.fds d ≠ none) (hnew : ∀ n, s.handleTable n ≠ some d)
    (hcopy : ∀ c, s.fds d = some (.copy c) → s.gone path c = false) :
    { s with handleTable := update s.handleTable path (some d) }.Inv := by
  refine { h with
    opened := fun n k hk h0 => ?_
    unshared := fun n m k hk hk' h0 => ?_
    handle := fun n k c hk h0 hc => ?_ }
  · by_cases hn : n = path
    · subst hn
      simp only [update_self, Option.some.injEq] at hk
      subst hk
      exact hd
    · simp only [update_of_ne hn] at hk
      exact h.opened n k hk h0
  · by_cases hn : n = path
    · by_cases hm : m = path
      · rw [hn, hm]
      · simp only [hn, update_self, Option.some.injEq] at hk
        simp only [update_of_ne hm, ← hk] at hk'
        exact absurd hk' (hnew m)
    · by_cases hm : m = path
      · simp only [hm, update_self, Option.some.injEq] at hk'
        simp only [update_of_ne hn, ← hk'] at hk
        exact absurd hk (hnew n)
      · simp only [update_of_ne hn] at hk
        simp only [update_of_ne hm] at hk'
        exact h.unshared n m k hk hk' h0
  · by_cases hn : n = path
    · subst hn
      simp only [update_self, Option.some.injEq] at hk
      subst hk
      exact hcopy c hc
    · simp only [update_of_ne hn] at hk
      exact h.handle n k c hk h0 hc

/-- What an open leaves, and that its descriptor is not of a copy gone from the path. -/
theorem Inv.openNew (h : s.Inv) (hreader : ∀ t r, s.reader t = some r → fd ≠ some r.fd)
    (hopen : s.openNew path fd = some (s', desc)) :
    s'.Inv ∧ s'.gone = s.gone ∧ s'.reader = s.reader ∧
      (0 < desc → ∀ c, s'.fds desc.toNat = some (.copy c) → s.gone path c = false) := by
  simp only [State.openNew] at hopen
  split at hopen
  case h_1 f d hf =>
    split at hopen
    case isTrue => cases hopen
    case isFalse hfree =>
      have hnone : s.fds d = none := by simpa using hfree
      have hopened := h.openAt f hnone fun t r hr hd => hreader t r hr (by rw [hd])
      have hcopy : ∀ c, update s.fds d (some f) d = some (.copy c) → s.gone path c = false := by
        intro c hc
        simp only [update_self, Option.some.injEq] at hc
        rw [hc] at hf
        exact h.files path c (openCache_copy hf)
      split at hopen
      case isTrue hpos =>
        cases hopen
        refine ⟨hopened.keep (by simp) ?_ hcopy, rfl, rfl, fun _ => hcopy⟩
        intro n hn
        exact h.opened n d hn hpos hnone
      case isFalse =>
        cases hopen
        exact ⟨hopened, rfl, rfl, fun h0 => absurd h0 (by omega)⟩
  case h_2 =>
    cases hopen
    exact ⟨h, rfl, rfl, fun h0 => absurd h0 (by omega)⟩

theorem Inv.openDesc (h : s.Inv) (hreader : ∀ t r, s.reader t = some r → fd ≠ some r.fd)
    (hopen : s.openDesc path fd = some (s', desc)) :
    s'.Inv ∧ s'.gone = s.gone ∧ s'.reader = s.reader ∧
      (0 < desc → ∀ c, s'.fds desc.toNat = some (.copy c) → s.gone path c = false) := by
  simp only [State.openDesc] at hopen
  split at hopen
  case h_1 k hk =>
    split at hopen
    case isTrue hpos =>
      cases hopen
      refine ⟨h, rfl, rfl, fun _ c hc => ?_⟩
      exact h.handle path k c hk hpos hc
    case isFalse => exact h.openNew hreader hopen
  case h_2 => exact h.openNew hreader hopen

/-- An entry of the table after one of them is dropped. -/
theorem handleTable_of_drop {k : Nat} (h : update s.handleTable path none n = some k) :
    n ≠ path ∧ s.handleTable n = some k := by
  by_cases hn : n = path
  · rw [hn, update_self] at h
    cases h
  · rw [update_of_ne hn] at h
    exact ⟨hn, h⟩

theorem Inv.drop (h : s.Inv) (path : Path) :
    { s with handleTable := update s.handleTable path none }.Inv := by
  refine { h with
    opened := fun n k hk h0 => h.opened n k (handleTable_of_drop hk).2 h0
    unshared := fun n m k hk hk' h0 => ?_
    handle := fun n k c hk h0 hc => h.handle n k c (handleTable_of_drop hk).2 h0 hc }
  exact h.unshared n m k (handleTable_of_drop hk).2 (handleTable_of_drop hk').2 h0

theorem Inv.closePreloadedFile (h : s.Inv) (path : Path) : (s.closePreloadedFile path).Inv := by
  simp only [State.closePreloadedFile]
  split
  case h_1 => exact h
  case h_2 k hk =>
    split
    case isFalse => exact h.drop path
    case isTrue hpos =>
      -- the other handles stay open, since none is shared
      have hne : ∀ n k', update s.handleTable path none n = some k' → 0 < k' → k' ≠ k := by
        rintro n k' hk' h0 rfl
        obtain ⟨hn, hk''⟩ := handleTable_of_drop hk'
        exact hn (h.unshared n path k' hk'' hk h0)
      refine { h.drop path with
        opened := fun n k' hk' h0 => ?_
        handle := fun n k' c hk' h0 hc => ?_
        reader := fun t r c hr hc => ?_ }
      · simp only [update_of_ne (hne n k' hk' h0)]
        exact h.opened n k' (handleTable_of_drop hk').2 h0
      · simp only [update_of_ne (hne n k' hk' h0)] at hc
        exact h.handle n k' c (handleTable_of_drop hk').2 h0 hc
      · by_cases hfd : r.fd = k
        · simp only [hfd, update_self] at hc
          cases hc
        · simp only [update_of_ne hfd] at hc
          exact h.reader t r c hr hc

/-! ## Invalidate and rename -/

theorem atOrBelow_of_invalidates (h : s.invalidates path n = true) : atOrBelow path n = true := by
  simp only [invalidates] at h
  split at h
  · simp [atOrBelow, h]
  · simp [atOrBelow, h]

variable {src dest : Path}

theorem isDirectory_of_mem (hm : (n, c) ∈ s.files) (hb : isBelow path n = true) : s.isDirectory path = true := by
  simp only [isDirectory, List.any_eq_true]
  exact ⟨(n, c), hm, hb⟩

/-- What an invalidation leaves is neither invalidated nor the work path. -/
theorem not_invalidates_of_mem (hm : (n, c) ∈ s.invalidateCache path) :
    s.invalidates path n = false ∧ (s.isDirectory path = false → n ≠ getCacheWorkPath path) := by
  simp only [invalidateCache] at hm
  simp only [invalidates]
  split at hm
  case isTrue hdir =>
    have hb := (mem_filter.mp hm).2
    rw [hdir]
    exact ⟨by simpa using hb, fun hf => by cases hf⟩
  case isFalse hdir =>
    have hb := (mem_filter.mp hm).2
    simp only [and_eq_true, bne_iff_ne] at hb
    rw [if_neg hdir]
    exact ⟨by simpa using hb.2, fun _ => hb.1⟩

/-- A file at or below a path is invalidated with it, except at a path that is a directory. -/
theorem invalidates_of_atOrBelow (h : atOrBelow path n = true)
    (hb : isBelow path n = true → s.isDirectory path = true) (hne : s.isDirectory path = true → n ≠ path) :
    s.invalidates path n = true := by
  simp only [atOrBelow, or_eq_true, beq_iff_eq] at h
  cases hdir : s.isDirectory path with
  | true =>
    simp only [invalidates, hdir, if_true]
    exact h.resolve_left (hne hdir)
  | false =>
    simp only [invalidates, hdir, Bool.false_eq_true, if_false, beq_iff_eq]
    refine h.resolve_right fun hbelow => ?_
    rw [hb hbelow] at hdir
    cases hdir

variable {d : Download}

theorem mem_staleDownloads (h : d ∈ s.staleDownloads path) :
    ∃ d₀ ∈ s.downloads, d.path = d₀.path ∧ d.part = d₀.part ∧
      (atOrBelow path d₀.path = false → d.stale = d₀.stale) := by
  simp only [staleDownloads, mem_map] at h
  obtain ⟨d₀, hd₀, rfl⟩ := h
  refine ⟨d₀, hd₀, ?_⟩
  split
  case isTrue hb => exact ⟨rfl, rfl, fun hf => by rw [hb] at hf; cases hf⟩
  case isFalse => exact ⟨rfl, rfl, fun _ => rfl⟩

theorem isPart_iff : s.isPart n c = true ↔ ∃ d ∈ s.downloads, d.path = n ∧ d.part = some c := by
  simp [isPart]

/-- A download at or below a path that is invalidated has no work file left. -/
theorem PartsGo.workFile (hp : s.PartsGo path) (hd : d ∈ s.downloads) (hb : atOrBelow path d.path = true)
    (hm : (getCacheWorkPath d.path, c) ∈ s.invalidateCache path) : False := by
  obtain ⟨-, hdir⟩ := hp d hd hb
  obtain ⟨hnot, hwork⟩ := not_invalidates_of_mem hm
  have hfile := s.invalidateCache_subset path _ hm
  simp only [atOrBelow, or_eq_true, beq_iff_eq] at hb
  rcases hb with heq | hbelow
  · cases hs : s.isDirectory path with
    | true => exact hdir hs heq
    | false => exact hwork hs (by rw [heq])
  · have hbelow' := isBelow_workPath hbelow
    have hs := isDirectory_of_mem hfile hbelow'
    rw [invalidates, hs, if_pos rfl, hbelow'] at hnot
    cases hnot

/-- What is withdrawn from a path: copies become gone at or below it, where no handle is
open, and the downloads there are marked. -/
theorem Inv.withdraw (h : s.Inv) (hclosed : s.Closed path) (hparts : s.PartsGo path) (hfds : s'.fds = s.fds)
    (ht : s'.handleTable = s.handleTable) (hn : s'.nextCopy = s.nextCopy) (hr : s'.reader = s.reader)
    (hd : s'.downloads = s.staleDownloads path) (hgone : ∀ n c, s'.gone n c = true → s.gone n c = true ∨
      (atOrBelow path n = true ∧ ((n, c) ∈ s.files ∨ s.isPart n c = true)))
    (hfiles : ∀ n c, (n, c) ∈ s'.files → s'.gone n c = false ∧ c < s.nextCopy)
    (hwork : ∀ d ∈ s.downloads, d.part ≠ none → ∀ c, (getCacheWorkPath d.path, c) ∈ s'.files →
      s'.gone d.path c = false) :
    s'.Inv where
  files n c hm := (hfiles n c hm).1
  opened n k hk h0 := by rw [hfds]; rw [ht] at hk; exact h.opened n k hk h0
  unshared n m k hk hk' h0 := by rw [ht] at hk hk'; exact h.unshared n m k hk hk' h0
  handle n k c hk h0 hc := by
    rw [ht] at hk
    rw [hfds] at hc
    have hold := h.handle n k c hk h0 hc
    by_contra hne
    rcases hgone n c (by simpa using hne) with hg | ⟨hb, -⟩
    · rw [hold] at hg
      cases hg
    · have := hclosed n k hb hk
      omega
  part d hm hp c hc := by
    rw [hd] at hm
    obtain ⟨d₀, hd₀, hpath, hpart, -⟩ := mem_staleDownloads hm
    rw [hpath] at hc ⊢
    exact hwork d₀ hd₀ (by rw [← hpart]; exact hp) c hc
  current d hm hp := by
    rw [hd] at hm
    obtain ⟨d₀, hd₀, -, hpart, hstale⟩ := mem_staleDownloads hm
    rw [hpart] at hp
    cases hb : atOrBelow path d₀.path with
    | true => exact absurd hp (hparts d₀ hd₀ hb).1
    | false => rw [hstale hb, h.current d₀ hd₀ hp]
  goneLt n c hc := by
    rw [hn]
    rcases hgone n c hc with hg | ⟨-, hm | hp⟩
    · exact h.goneLt n c hg
    · exact h.filesLt n c hm
    · obtain ⟨d, hd', -, hp'⟩ := isPart_iff.mp hp
      exact h.partLt d hd' c hp'
  filesLt n c hm := by rw [hn]; exact (hfiles n c hm).2
  partLt d hm c hc := by
    rw [hd] at hm
    obtain ⟨d₀, hd₀, -, hpart, -⟩ := mem_staleDownloads hm
    rw [hn]
    exact h.partLt d₀ hd₀ c (by rw [← hpart]; exact hc)
  reader t r c hr' hc := by rw [hr] at hr'; rw [hfds] at hc; exact h.reader t r c hr' hc

theorem Inv.invalidatePreloadedFile {n : Int} (h : s.Inv) (hg : s.Settled (.invalidatePreloadedFile path))
    (hstep : s.invalidatePreloadedFile path = (s', n)) : s'.Inv := by
  simp only [State.invalidatePreloadedFile] at hstep
  split at hstep
  case isFalse =>
    cases hstep
    exact h.shrink (s.invalidateCache_subset path) (fun _ hd => hd) rfl rfl rfl rfl rfl
  case isTrue hdone =>
    obtain ⟨hclosed, hparts⟩ := hg hdone
    cases hstep
    have hfiles : ∀ n c, (n, c) ∈ s.invalidateCache path → (s.gone n c ||
        (s.invalidates path n && s.files.contains (n, c)) || (atOrBelow path n && s.isPart n c)) = false := by
      intro n c hm
      have hmem := s.invalidateCache_subset path _ hm
      obtain ⟨hnot, -⟩ := not_invalidates_of_mem hm
      have hpart : (atOrBelow path n && s.isPart n c) = false := by
        by_contra hne
        simp only [Bool.not_eq_false, and_eq_true] at hne
        obtain ⟨hb, hpart⟩ := hne
        obtain ⟨d, hd, rfl, -⟩ := isPart_iff.mp hpart
        rw [invalidates_of_atOrBelow hb (isDirectory_of_mem hmem) (hparts d hd hb).2] at hnot
        cases hnot
      simp [h.files n c hmem, hnot, hpart]
    refine h.withdraw hclosed hparts rfl rfl rfl rfl rfl ?_ ?_ ?_
    · intro n c hc
      simp only [or_eq_true, and_eq_true, List.contains_iff_mem] at hc
      rcases hc with (hc | ⟨hinv, hmem⟩) | ⟨hb, hpart⟩
      · exact .inl hc
      · exact .inr ⟨atOrBelow_of_invalidates hinv, .inl hmem⟩
      · exact .inr ⟨hb, .inr hpart⟩
    · intro n c hm
      exact ⟨hfiles n c hm, h.filesLt n c (s.invalidateCache_subset path _ hm)⟩
    · intro d hd hp c hm
      have hnb : atOrBelow path d.path = false := by
        by_contra hb
        exact hparts.workFile hd (by simpa using hb) hm
      have hninv : s.invalidates path d.path = false := by
        by_contra hinv
        rw [atOrBelow_of_invalidates (by simpa using hinv)] at hnb
        cases hnb
      simp [h.part d hd hp c (s.invalidateCache_subset path _ hm), hnb, hninv]

/-- Where the files at or below `src` end up. -/
theorem mem_moved (h : (n, c) ∈ s.moved src dest) :
    ∃ m, (m, c) ∈ s.files ∧ atOrBelow src m = true ∧ n = dest ++ m.drop src.length := by
  simp only [moved, mem_map, mem_filter, Prod.mk.injEq] at h
  obtain ⟨f, ⟨hm, hb⟩, rfl, rfl⟩ := h
  exact ⟨f.1, hm, hb, rfl⟩

theorem atOrBelow_moved {m : Path} (h : atOrBelow src m = true) :
    atOrBelow dest (dest ++ m.drop src.length) = true := by
  simp only [atOrBelow, or_eq_true, beq_iff_eq, isBelow, List.isPrefixOf_iff_prefix] at h ⊢
  rcases h with rfl | ⟨rest, rfl⟩
  · simp
  · refine .inr ⟨rest, ?_⟩
    simp [List.append_assoc]

theorem Inv.renamePreloadedFile {n : Int} (h : s.Inv) (hg : s.Settled (.renamePreloadedFile src dest ok))
    (hstep : s.renamePreloadedFile src dest ok = (s', n)) : s'.Inv := by
  simp only [State.renamePreloadedFile] at hstep
  split at hstep
  case isTrue => cases hstep; exact h
  case isFalse hne =>
    split at hstep
    case isFalse => cases hstep; exact h
    case isTrue hdone =>
      obtain ⟨hclosed, hparts, hnoPart, hfile⟩ := hg hne hdone
      cases hstep
      refine h.withdraw hclosed hparts rfl rfl rfl rfl rfl ?_ ?_ ?_
      · intro n c hc
        simp only [and_eq_true, or_eq_true, List.contains_iff_mem] at hc
        exact hc.2
      · intro n c hm
        rcases List.mem_append.mp hm with hmoved | hrest
        · obtain ⟨m, hm', -, -⟩ := mem_moved hmoved
          refine ⟨?_, h.filesLt m c hm'⟩
          simp [hmoved]
        · obtain ⟨hm', hnot⟩ := mem_filter.mp hrest
          simp only [and_eq_true, Bool.not_eq_true'] at hnot
          refine ⟨?_, h.filesLt n c hm'⟩
          simp [h.files n c hm', hnot.1]
      · intro d hd hp c hm
        rcases List.mem_append.mp hm with hmoved | hrest
        · obtain ⟨m, -, hb, heq⟩ := mem_moved hmoved
          have hbelow := hnoPart d hd
          rw [heq, atOrBelow_moved hb] at hbelow
          cases hbelow
        · obtain ⟨hm', hnot⟩ := mem_filter.mp hrest
          simp only [and_eq_true, Bool.not_eq_true'] at hnot
          -- a work file that stays where it is has its path outside of `src`
          have hnb : atOrBelow src d.path = false := by
            by_contra hb
            simp only [Bool.not_eq_false, atOrBelow, or_eq_true, beq_iff_eq] at hb
            rcases hb with heq | hbelow
            · cases hs : s.isDirectory src with
              | true => exact (hparts d hd (by simp [atOrBelow, heq])).2 hs heq
              | false => exact hfile hs d hd heq
            · have := hnot.1
              rw [atOrBelow, isBelow_workPath hbelow, Bool.or_true] at this
              cases this
          simp [h.part d hd hp c hm', hnb]

/-! ## Downloads -/

theorem Inv.preloadFile (h : s.Inv) (path : Path) (start : Bool) : (s.preloadFile path start).Inv := by
  simp only [State.preloadFile]
  split
  case isTrue => exact h
  case isFalse =>
    have hsub : { s with files := s.invalidateCache path }.Inv :=
      h.shrink (s.invalidateCache_subset path) (fun _ hd => hd) rfl rfl rfl rfl rfl
    split
    case isFalse => exact hsub
    case isTrue =>
      refine { hsub with
        part := fun d hd hp c hc => ?_
        current := fun d hd hp => ?_
        partLt := fun d hd c hc => ?_ }
      · rcases mem_cons.mp hd with rfl | hd
        · exact absurd rfl hp
        · exact hsub.part d hd hp c hc
      · rcases mem_cons.mp hd with rfl | hd
        · rfl
        · exact hsub.current d hd hp
      · rcases mem_cons.mp hd with rfl | hd
        · cases hc
        · exact hsub.partLt d hd c hc

/-- A copy with a new number is not gone from anywhere. -/
theorem Inv.gone_nextCopy (h : s.Inv) (n : Path) : s.gone n s.nextCopy = false := by
  by_contra hne
  have := h.goneLt n s.nextCopy (by simpa using hne)
  omega

/-- A new work file is a copy of its own. -/
theorem Inv.createPart (h : s.Inv) (hstep : s.createPart path = some s') : s'.Inv := by
  simp only [State.createPart] at hstep
  split at hstep
  case h_2 => cases hstep
  case h_1 p stale hd =>
    obtain ⟨hmem, rfl⟩ := mem_of_lookupDownload hd
    have hstale : stale = false := h.current _ hmem rfl
    subst hstale
    cases hstep
    have hgone : ∀ n x, (s.gone n x || (n == p && x == s.nextCopy && false)) = s.gone n x := by
      intro n x
      simp
    have hfiles : ∀ n c, (n, c) ∈ (getCacheWorkPath p, s.nextCopy) ::
          s.files.filter (fun f => f.1 != getCacheWorkPath p) →
        (n = getCacheWorkPath p ∧ c = s.nextCopy) ∨ ((n, c) ∈ s.files ∧ n ≠ getCacheWorkPath p) := by
      intro n c hm
      rcases mem_cons.mp hm with heq | hm
      · cases heq
        exact .inl ⟨rfl, rfl⟩
      · obtain ⟨hm', hne⟩ := mem_filter.mp hm
        exact .inr ⟨hm', by simpa using hne⟩
    have hdown : ∀ d, d ∈ s.downloads.map (fun d => if d.path = p then { d with part := some s.nextCopy } else d) →
        (d.path = p ∧ d.part = some s.nextCopy) ∨ (d ∈ s.downloads ∧ d.path ≠ p) := by
      intro d hd
      obtain ⟨d₀, hd₀, rfl⟩ := mem_map.mp hd
      split
      case isTrue heq => exact .inl ⟨heq, rfl⟩
      case isFalse hne => exact .inr ⟨hd₀, hne⟩
    constructor
    case files =>
      intro n c hm
      simp only [hgone]
      rcases hfiles n c hm with ⟨-, rfl⟩ | ⟨hm', -⟩
      · exact h.gone_nextCopy n
      · exact h.files n c hm'
    case opened => exact h.opened
    case unshared => exact h.unshared
    case handle =>
      intro n k c hk h0 hc
      simp only [hgone]
      exact h.handle n k c hk h0 hc
    case part =>
      intro d hd' hp c hc
      simp only [hgone]
      rcases hdown d hd' with ⟨heq, -⟩ | ⟨hd₀, hne⟩
      · rcases hfiles _ c hc with ⟨-, rfl⟩ | ⟨-, hnot⟩
        · exact h.gone_nextCopy d.path
        · exact absurd (by rw [heq]) hnot
      · rcases hfiles _ c hc with ⟨hwork, -⟩ | ⟨hc', -⟩
        · exact absurd (workPath_inj hwork) hne
        · exact h.part d hd₀ hp c hc'
    case current =>
      intro d hd' hp
      rcases hdown d hd' with ⟨-, hpart⟩ | ⟨hd₀, -⟩
      · rw [hpart] at hp
        cases hp
      · exact h.current d hd₀ hp
    case goneLt =>
      intro n c hc
      simp only [hgone] at hc
      have := h.goneLt n c hc
      simp only
      omega
    case filesLt =>
      intro n c hm
      simp only
      rcases hfiles n c hm with ⟨-, rfl⟩ | ⟨hm', -⟩
      · omega
      · have := h.filesLt n c hm'
        omega
    case partLt =>
      intro d hd' c hc
      simp only
      rcases hdown d hd' with ⟨-, hpart⟩ | ⟨hd₀, -⟩
      · rw [hpart] at hc
        cases hc
        omega
      · have := h.partLt d hd₀ c hc
        omega
    case reader => exact h.reader

theorem Inv.withContent (h : s.Inv) (content : Nat → List Byte) : { s with content := content }.Inv :=
  { h with }

theorem Inv.writePart {data : List Byte} (h : s.Inv) (hstep : s.writePart path data = some s') : s'.Inv := by
  simp only [State.writePart] at hstep
  split at hstep
  case h_1 => cases hstep; exact h.withContent _
  case h_2 => cases hstep

theorem Inv.endDownload (h : s.Inv) (path : Path) : (s.endDownload path).Inv :=
  h.shrink (fun _ hf => hf) (s.endDownload_subset path) rfl rfl rfl rfl rfl

theorem Inv.failDownload (h : s.Inv) (hstep : s.failDownload path = some s') : s'.Inv := by
  simp only [State.failDownload] at hstep
  split at hstep
  case h_1 => cases hstep; exact h.endDownload path
  case h_2 => cases hstep

theorem Inv.completeDownload (h : s.Inv) (hg : s.Settled (.completeDownload path ok))
    (hstep : s.completeDownload path ok = some s') : s'.Inv := by
  simp only [State.completeDownload] at hstep
  split at hstep
  case h_2 => cases hstep
  case h_1 p c₀ stale hd =>
    obtain ⟨hmem, rfl⟩ := mem_of_lookupDownload hd
    split at hstep
    case h_1 => cases hstep; exact h.endDownload p
    case h_2 c hc =>
      split at hstep
      case isFalse => cases hstep; exact h.endDownload p
      case isTrue =>
        cases hstep
        have hwork := mem_of_lookup hc
        have hfiles : ∀ n x, (n, x) ∈ (p, c) :: s.files.filter (fun f => f.1 != getCacheWorkPath p && f.1 != p) →
            (n = p ∧ x = c) ∨ (n, x) ∈ s.files := by
          intro n x hm
          rcases mem_cons.mp hm with heq | hm
          · cases heq
            exact .inl ⟨rfl, rfl⟩
          · exact .inr (mem_filter.mp hm).1
        refine { h.endDownload p with
          files := fun n x hm => ?_
          part := fun d hd' hp x hx => ?_
          filesLt := fun n x hm => ?_ }
        · rcases hfiles n x hm with ⟨rfl, rfl⟩ | hm'
          · exact h.part _ hmem (by simp) x hwork
          · exact h.files n x hm'
        · have hd₀ := s.endDownload_subset p d hd'
          rcases hfiles _ x hx with ⟨heq, -⟩ | hx'
          · exact absurd heq (hg d hd₀)
          · exact h.part d hd₀ hp x hx'
        · rcases hfiles n x hm with ⟨-, rfl⟩ | hm'
          · exact h.filesLt _ x hwork
          · exact h.filesLt n x hm'

theorem Inv.finishThread (h : s.Inv) (hstep : s.finishThread path = some s') : s'.Inv := by
  simp only [State.finishThread] at hstep
  split at hstep
  case isTrue => cases hstep
  case isFalse =>
    cases hstep
    exact { h with }

theorem Inv.truncatePreloadedFile {size : Nat} {n : Int} (h : s.Inv)
    (hstep : s.truncatePreloadedFile path size = (s', n)) : s'.Inv := by
  simp only [State.truncatePreloadedFile] at hstep
  split at hstep
  case h_1 => cases hstep; exact h
  case h_2 => cases hstep; exact h.withContent _

/-! ## Every step, and every run -/

variable [DecidableEq ι]

variable {o : Out}

variable {t : ι}

theorem Inv.openPreloadedFile (h : s.Inv) (hg : s.Settled (.openPreloadedFile t path fd))
    (hstep : s.openPreloadedFile t path fd = some (s', o)) : s'.Inv := by
  simp only [State.openPreloadedFile] at hstep
  split at hstep
  case isTrue => cases hstep
  case isFalse =>
    split at hstep
    case h_1 => cases hstep
    case h_2 s₁ desc hopen =>
      obtain ⟨hinv, -, hreader, hfresh⟩ := h.openDesc hg hopen
      split at hstep
      case isFalse => cases hstep; exact hinv
      case isTrue hpos =>
        cases hstep
        refine { hinv with reader := fun t' r c hr hc => ?_ }
        by_cases ht : t' = t
        · subst ht
          simp only [update_self, Option.some.injEq] at hr
          subst hr
          exact hfresh hpos c hc
        · simp only [update_of_ne ht] at hr
          exact hinv.reader t' r c hr hc

theorem Inv.readPreloadedFile {size offset : Nat} (h : s.Inv)
    (hstep : s.readPreloadedFile t size offset = some (s', o)) : s'.Inv := by
  have hend : { s with reader := update s.reader t none }.Inv := by
    refine { h with reader := fun t' r c hr hc => ?_ }
    by_cases ht : t' = t
    · simp only [ht, update_self] at hr
      cases hr
    · simp only [update_of_ne ht] at hr
      exact h.reader t' r c hr hc
  simp only [State.readPreloadedFile] at hstep
  split at hstep
  case h_1 => cases hstep
  case h_2 =>
    split at hstep
    case h_1 => cases hstep; exact hend
    case h_2 => cases hstep; exact hend

/-- Every settled step keeps the invariant. -/
theorem Inv.step {e : Event ι} (h : s.Inv) (hg : s.Settled e) (hstep : s.step e = some (s', o)) : s'.Inv := by
  cases e with
  | openPreloadedFile t path fd => exact h.openPreloadedFile hg hstep
  | readPreloadedFile t size offset => exact h.readPreloadedFile hstep
  | closePreloadedFile path => cases hstep; exact h.closePreloadedFile path
  | invalidatePreloadedFile path => cases hstep; exact h.invalidatePreloadedFile hg rfl
  | renamePreloadedFile src dest ok => cases hstep; exact h.renamePreloadedFile hg rfl
  | truncatePreloadedFile path size => cases hstep; exact h.truncatePreloadedFile rfl
  | preloadFile path start => cases hstep; exact h.preloadFile path start
  | createPart path =>
    obtain ⟨t, ht, heq⟩ := Option.map_eq_some_iff.mp hstep
    cases heq
    exact h.createPart ht
  | writePart path data =>
    obtain ⟨t, ht, heq⟩ := Option.map_eq_some_iff.mp hstep
    cases heq
    exact h.writePart ht
  | failDownload path =>
    obtain ⟨t, ht, heq⟩ := Option.map_eq_some_iff.mp hstep
    cases heq
    exact h.failDownload ht
  | completeDownload path ok =>
    obtain ⟨t, ht, heq⟩ := Option.map_eq_some_iff.mp hstep
    cases heq
    exact h.completeDownload hg ht
  | finishThread path =>
    obtain ⟨t, ht, heq⟩ := Option.map_eq_some_iff.mp hstep
    cases heq
    exact h.finishThread ht

/-- Nothing is open or running, and nothing is recorded as gone. -/
structure Initial (s : State ι) : Prop where
  handleTable : ∀ n, s.handleTable n = none
  downloads : s.downloads = []
  reader : ∀ t, s.reader t = none
  gone : ∀ n c, s.gone n c = false
  files : ∀ n c, (n, c) ∈ s.files → c < s.nextCopy

omit [DecidableEq ι] in
theorem Initial.inv {s : State ι} (h : s.Initial) : s.Inv where
  files n c _ := h.gone n c
  opened n k hk _ := by rw [h.handleTable n] at hk; cases hk
  unshared n m k hk _ _ := by rw [h.handleTable n] at hk; cases hk
  handle n k c _ _ _ := h.gone n c
  part d hd := by rw [h.downloads] at hd; cases hd
  current d hd := by rw [h.downloads] at hd; cases hd
  goneLt n c hc := by rw [h.gone n c] at hc; cases hc
  filesLt := h.files
  partLt d hd := by rw [h.downloads] at hd; cases hd
  reader t r c hr _ := by rw [h.reader t] at hr; cases hr

end State

variable [DecidableEq ι]

/-- Along every run that meets the condition, a thread that has opened a path is never
served a copy that was invalidated or moved away under that path before it opened. -/
theorem served_not_gone {s s' : State ι} {es : List (Event ι)} {os : List Out} (hs : s.Initial)
    (hg : (machine ι).Guarded State.Settled s es) (hrun : (machine ι).run s es = some (s', os))
    {t : ι} {r : Reader} (hr : s'.reader t = some r) {size offset : Nat} {s'' : State ι} {c : Nat}
    {data : List Byte} (hread : s'.readPreloadedFile t size offset = some (s'', .served c data)) :
    r.gone c = false := by
  have hinv : s'.Inv :=
    Machine.run_invariant State.Inv (fun _ _ _ _ h he hstep => h.step he hstep) hs.inv hg hrun
  simp only [State.readPreloadedFile, hr] at hread
  split at hread
  case h_1 c' hc =>
    cases hread
    exact hinv.reader t r c hr hc
  case h_2 => cases hread

/-- A cache with one copy of the file `a`. -/
def oneCopy : State Unit where
  files := [([97], 0)]
  content := fun _ => [1, 2, 3]
  nextCopy := 1
  fds := fun _ => none
  handleTable := fun _ => none
  threadTable := []
  downloads := []
  reader := fun _ => none
  gone := fun _ _ => false

theorem oneCopy_initial : oneCopy.Initial where
  handleTable _ := rfl
  downloads := rfl
  reader _ := rfl
  gone _ _ := rfl
  files n c h := by
    simp only [oneCopy, List.mem_singleton, Prod.mk.injEq] at h ⊢
    omega

/-- The copy is read and closed, invalidated, and downloaded again. -/
def readAgain : List (Event Unit) :=
  [.openPreloadedFile () [97] (some 5), .readPreloadedFile () 3 0, .closePreloadedFile [97],
    .invalidatePreloadedFile [97], .preloadFile [97] true, .createPart [97], .writePart [97] [4],
    .completeDownload [97] true, .openPreloadedFile () [97] (some 5)]

theorem served_not_gone_readAgain :
    ∃ s' os, (machine Unit).run oneCopy readAgain = some (s', os) ∧ ∃ r, s'.reader () = some r ∧
      r.gone 0 = true ∧ ∃ s'', s'.readPreloadedFile () 3 0 = some (s'', .served 1 [4]) ∧ r.gone 1 = false := by
  have hg : (machine Unit).Guarded State.Settled oneCopy readAgain := by
    refine .cons (fun t r hr => by cases hr) rfl (.cons trivial rfl (.cons trivial rfl (.cons ?_ rfl ?_)))
    · intro _
      refine ⟨fun n h _ hh => ?_, fun d hd => by cases hd⟩
      obtain ⟨hn, hh'⟩ := State.handleTable_of_drop
        (s := { oneCopy with handleTable := update oneCopy.handleTable [97] (some 5) }) hh
      simp [update_of_ne hn, oneCopy] at hh'
    · refine .cons trivial rfl (.cons trivial rfl (.cons trivial rfl (.cons ?_ rfl ?_)))
      · intro d _ heq
        have hlen := congrArg List.length heq
        simp [getCacheWorkPath, Preload.filesInDownloadingExt] at hlen
      · exact .cons (fun t r hr => by cases hr) rfl trivial
  have hend : ((machine Unit).run oneCopy readAgain).any (fun x => (x.1.reader ()).any fun r =>
      r.gone 0 && (x.1.readPreloadedFile () 3 0).any fun y => y.2 == .served 1 [4]) = true := by
    decide +kernel
  simp only [Option.any_eq_true, and_eq_true, beq_iff_eq] at hend
  obtain ⟨⟨s', os⟩, hrun, r, hr, hgone, ⟨s'', o⟩, hread, rfl⟩ := hend
  exact ⟨s', os, hrun, r, hr, hgone, s'', hread, served_not_gone oneCopy_initial hg hrun hr hread⟩

/-- The handle is still in the table when the copy is invalidated, and the next open is
served that copy. -/
theorem served_gone :
    ∃ s', (machine Unit).run oneCopy
        [.openPreloadedFile () [97] (some 5), .readPreloadedFile () 3 0, .invalidatePreloadedFile [97],
          .openPreloadedFile () [97] none] =
        some (s', [.status 5, .served 0 [1, 2, 3], .status 0, .status 5]) ∧
      ∃ r, s'.reader () = some r ∧ r.path = [97] ∧ r.gone 0 = true ∧
        ∃ s'', s'.readPreloadedFile () 3 0 = some (s'', .served 0 [1, 2, 3]) :=
  ⟨_, rfl, _, rfl, rfl, rfl, _, rfl⟩

end PreloadRead
