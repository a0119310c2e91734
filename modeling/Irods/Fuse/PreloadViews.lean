-- SUMMARY: The models of the preload cache agree on what they share.
import Irods.Fuse.Eviction
import Irods.Fuse.PreloadBound
import Irods.Fuse.PreloadRead

open Fuse (Path)

/-!
# Views of the preload cache

The bound on the cache, the order of eviction and what a reader is served are three views of one
directory: a listing of files with sizes and times, a tree in the file system, and copies that are told
apart by numbers. The tree of a listing loses the same file, and the oldest file of the listing is one
of the oldest of the tree. A step of a download keeps the copies in line with the listing that has
the new file in front.
-/

namespace Preload

/-! ## The tree of a listing -/

open Fuse.Eviction (FileSys FileStat OldestOf filesUnder filesUnder_unlink)

/-- A file of the listing as the walk through the directory finds it. -/
def CacheFile.found (cachePath : Path) (f : CacheFile) : Path × FileStat := (cachePath ++ f.name, ⟨f.size, f.atime⟩)

/-- The listing has the files of the tree. -/
def Lists (d : CacheDir) (fs : FileSys) (depth : Nat) (cachePath : Path) : Prop :=
  ∀ g, g ∈ filesUnder fs depth cachePath ↔ g ∈ d.map (CacheFile.found cachePath)

section Tree

variable {d : CacheDir} {fs : FileSys} {depth : Nat} {cachePath : Path} {f : CacheFile}

/-- What the listing gives as the oldest is an oldest file of the tree. -/
theorem findOldestCache_oldestOf (h : Lists d fs depth cachePath) :
    OldestOf (filesUnder fs depth cachePath) (d.findOldestCache.map (CacheFile.found cachePath)) := by
  obtain ⟨hsome, hnone⟩ := d.findOldestCache_spec
  suffices OldestOf (d.map (CacheFile.found cachePath)) (d.findOldestCache.map (CacheFile.found cachePath)) from
    this.congr h
  cases hold : d.findOldestCache with
  | none =>
    rw [hnone hold]
    rfl
  | some old =>
    obtain ⟨hmem, hle⟩ := hsome old hold
    refine ⟨List.mem_map_of_mem hmem, fun g hg => ?_⟩
    obtain ⟨f, hf, rfl⟩ := List.mem_map.mp hg
    exact Int.ofNat_le.mpr (hle f hf)

/-- The listing and the tree lose the same file. -/
theorem unlink_lists (h : Lists d fs depth cachePath) (hf : f ∈ d) :
    Lists (d.unlink f.name) (Fuse.Eviction.unlink fs (cachePath ++ f.name)) depth cachePath := by
  have hfile : fs (cachePath ++ f.name) = some (.file ⟨f.size, f.atime⟩) :=
    Fuse.Eviction.filesUnder_file ((h (f.found cachePath)).mpr (List.mem_map_of_mem hf))
  intro g
  rw [filesUnder_unlink depth cachePath hfile, List.mem_filter, h g, List.mem_map, List.mem_map]
  constructor
  · rintro ⟨⟨x, hx, rfl⟩, hne⟩
    refine ⟨x, List.mem_filter.mpr ⟨hx, ?_⟩, rfl⟩
    simpa [CacheFile.found] using hne
  · rintro ⟨x, hx, rfl⟩
    obtain ⟨hx, hne⟩ := List.mem_filter.mp hx
    exact ⟨⟨x, hx, rfl⟩, by simpa [CacheFile.found] using hne⟩

end Tree

/-! ## The copies of a listing -/

/-- The files by their names and numbers. -/
def CacheDir.copies (d : CacheDir) : List (Path × Nat) := d.map fun f => (f.name, f.ino)

/-- Both states have the same copies, and the same downloads and threads. -/
structure Shares {ι κ : Type} (s : State ι) (p : PreloadRead.State κ) : Prop where
  files : p.files = s.files.copies
  nextCopy : p.nextCopy = s.nextIno
  threadTable : p.threadTable = s.threadTable
  downloads : p.downloads.map (fun d => (d.path, d.part)) = s.downloads.map fun d => (d.path, d.ino)

section Copies

variable {ι κ : Type} {s s' : State ι} {p : PreloadRead.State κ} {path name : Path}

theorem Shares.lookup (h : Shares s p) (name : Path) : p.lookup name = (s.files.lookup name).map CacheFile.ino := by
  rw [PreloadRead.State.lookup, h.files, CacheDir.copies, List.find?_map, CacheDir.lookup, Option.map_map]
  rfl

theorem Shares.isDirectory (h : Shares s p) : p.isDirectory path = s.files.isDirectory path := by
  rw [PreloadRead.State.isDirectory, h.files, CacheDir.copies, List.any_map, CacheDir.isDirectory]
  rfl

theorem copies_filter (d : CacheDir) (keep : Path → Bool) :
    CacheDir.copies (d.filter fun f => keep f.name) = d.copies.filter fun f => keep f.1 := by
  rw [CacheDir.copies, CacheDir.copies, List.filter_map]
  rfl

/-- The same files go when a path is invalidated. -/
theorem Shares.invalidateCache (h : Shares s p) : p.invalidateCache path = (s.files.invalidateCache path).copies := by
  rw [PreloadRead.State.invalidateCache, CacheDir.invalidateCache, h.isDirectory, h.files]
  split
  · exact (copies_filter s.files fun name => !isBelow path name).symm
  · rw [CacheDir.unlink, CacheDir.unlink, List.filter_filter]
    refine ((copies_filter s.files fun name => name != path && name != getCacheWorkPath path).trans ?_).symm
    exact List.filter_congr fun f _ => Bool.and_comm ..

theorem Shares.lookupDownload (h : Shares s p) (path : Path) :
    (p.lookupDownload path).map (fun d => (d.path, d.part)) =
      (s.lookupDownload path).map fun d => (d.path, d.ino) := by
  have hfind := congrArg (List.find? fun d => d.1 == path) h.downloads
  rwa [List.find?_map, List.find?_map] at hfind

theorem Shares.endDownload (h : Shares s p) : Shares (s.endDownload path) (p.endDownload path) := by
  refine ⟨h.files, h.nextCopy, h.threadTable, ?_⟩
  have hfilter := congrArg (List.filter fun d => d.1 != path) h.downloads
  rwa [List.filter_map, List.filter_map] at hfilter

/-- The directory with a file in front. -/
theorem copies_place (d : CacheDir) (f : CacheFile) :
    (d.place 0 f).copies = (f.name, f.ino) :: d.copies.filter fun g => g.1 != f.name :=
  congrArg ((f.name, f.ino) :: ·) (copies_filter d fun name => name != f.name)

/-- The work file is made in both. -/
theorem Shares.createPart {atime : Nat} (h : Shares s p) (hstep : s.createPart path atime 0 = some s') :
    ∃ p', p.createPart path = some p' ∧ Shares s' p' := by
  have hlook := h.lookupDownload path
  rw [State.createPart] at hstep
  split at hstep
  · rename_i hd
    rw [hd] at hlook
    cases hp : p.lookupDownload path with
    | none =>
      rw [hp] at hlook
      cases hlook
    | some d =>
      obtain ⟨q, part, stale⟩ := d
      rw [hp] at hlook
      obtain ⟨-, rfl⟩ : _ ∧ part = none := by simpa using hlook
      obtain rfl := Option.some.inj hstep
      rw [PreloadRead.State.createPart, hp]
      refine ⟨_, rfl, ?_, congrArg (· + 1) h.nextCopy, h.threadTable, ?_⟩
      · rw [copies_place, h.files, h.nextCopy]
      · have hmark := congrArg (List.map fun d => if d.1 = path then (d.1, some s.nextIno) else d) h.downloads
        rw [List.map_map, List.map_map] at hmark ⊢
        rw [h.nextCopy]
        convert hmark using 2 <;> funext d <;> simp only [Function.comp_apply] <;> split <;> rfl
  · cases hstep

theorem Shares.failDownload (h : Shares s p) (hstep : s.failDownload path = some s') :
    ∃ p', p.failDownload path = some p' ∧ Shares s' p' := by
  have hlook := h.lookupDownload path
  rw [State.failDownload] at hstep
  split at hstep
  · rename_i hd
    rw [hd] at hlook
    obtain ⟨d, hp, -⟩ := Option.map_eq_some_iff.mp hlook
    obtain rfl := Option.some.inj hstep
    rw [PreloadRead.State.failDownload, hp]
    exact ⟨_, rfl, h.endDownload⟩
  · cases hstep

/-- The work file becomes the copy in both; onto a directory it does not. -/
theorem Shares.completeDownload {now : Nat} {ok : Bool} (h : Shares s p) (hdir : ok → s.files.isDirectory path = false)
    (hstep : s.completeDownload path now 0 ok = some s') :
    ∃ p', p.completeDownload path ok = some p' ∧ Shares s' p' := by
  have hlook := h.lookupDownload path
  rw [State.completeDownload] at hstep
  split at hstep
  · rename_i hd
    rw [hd] at hlook
    obtain ⟨⟨q, part, stale⟩, hp, hpart⟩ := Option.map_eq_some_iff.mp hlook
    obtain rfl : part = _ := (Prod.mk.inj hpart).2
    split at hstep
    · cases hstep
    · have hwork := h.lookup (getCacheWorkPath path)
      rw [PreloadRead.State.completeDownload, hp]
      split at hstep
      · rename_i hfile
        rw [hfile] at hwork
        obtain rfl := Option.some.inj hstep
        exact ⟨_, by rw [hwork]; rfl, h.endDownload⟩
      · rename_i f hfile
        rw [hfile] at hwork
        rw [hwork]
        split at hstep
        · rename_i hok
          obtain rfl := Option.some.inj hstep
          refine ⟨_, if_pos ⟨hok, h.isDirectory.trans (hdir hok)⟩, ?_, h.nextCopy, h.threadTable,
            h.endDownload.downloads⟩
          obtain ⟨-, hname⟩ := CacheDir.mem_of_lookup hfile
          rw [copies_place, CacheDir.unlink, copies_filter s.files fun name => name != f.name, List.filter_filter,
            h.files, hname]
          refine congrArg _ (List.filter_congr fun g _ => ?_)
          exact Bool.and_comm ..
        · rename_i hok
          obtain rfl := Option.some.inj hstep
          exact ⟨_, if_neg fun hboth => hok hboth.1, h.endDownload⟩
  · cases hstep

end Copies

end Preload
