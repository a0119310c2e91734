-- SUMMARY: Reading from the preload cache, a call a step.
import Irods.Fuse.PreloadCache

open Fuse (Path)
open ByteFile

/-!
# Reading from the preload cache

A copy of a file is known in three places: the cache file under its path, the handle
that `openPreloadedFile` keeps in `PreloadFileHandleTable` under the path, and the
download that writes the next one under the work path. Every call runs under
`PreloadLock` and is one step; what `getUtil` does with the work file is not under it.

Copies are told apart by numbers. `gone p c` records that the copy `c` was invalidated or
moved away under the path `p`, a copy that is being downloaded included. A thread in
`irodsRead` is between its open and its read, and keeps what was gone when it opened.
-/

namespace PreloadRead

open Preload (getCacheWorkPath isBelow)
open Function (update)

def atOrBelow (path name : Path) : Bool := name == path || isBelow path name

inductive OpenFile where
  | copy (c : Nat)
  | directory
  deriving DecidableEq

/-- `stale` records that the path was invalidated or moved since the download started. -/
structure Download where
  path : Path
  part : Option Nat
  stale : Bool
  deriving DecidableEq

structure Reader where
  fd : Nat
  path : Path
  gone : Nat → Bool

/-- A handle 0 in the table stands for none. -/
structure State (ι : Type) where
  files : List (Path × Nat)
  content : Nat → List Byte
  nextCopy : Nat
  fds : Nat → Option OpenFile
  handleTable : Path → Option Nat
  threadTable : List Path
  downloads : List Download
  reader : ι → Option Reader
  gone : Path → Nat → Bool

/-- `fd` is what `open` gives; `start` is whether `preloadFile` gets as far as the thread. -/
inductive Event (ι : Type) where
  | openPreloadedFile (t : ι) (path : Path) (fd : Option Nat)
  | readPreloadedFile (t : ι) (size offset : Nat)
  | closePreloadedFile (path : Path)
  | invalidatePreloadedFile (path : Path)
  | renamePreloadedFile (src dest : Path) (ok : Bool)
  | truncatePreloadedFile (path : Path) (size : Nat)
  | preloadFile (path : Path) (start : Bool)
  | createPart (path : Path)
  | writePart (path : Path) (data : List Byte)
  | failDownload (path : Path)
  | completeDownload (path : Path) (ok : Bool)
  | finishThread (path : Path)
  deriving DecidableEq

/-- What a call returns: a status, or the bytes of a copy. -/
inductive Out where
  | status (n : Int)
  | served (c : Nat) (data : List Byte)
  deriving DecidableEq

variable {ι : Type}

namespace State

def lookup (s : State ι) (name : Path) : Option Nat := (s.files.find? fun f => f.1 == name).map Prod.snd

def isDirectory (s : State ι) (path : Path) : Bool := s.files.any fun f => isBelow path f.1

def lookupDownload (s : State ι) (path : Path) : Option Download := s.downloads.find? fun d => d.path == path

def endDownload (s : State ι) (path : Path) : State ι :=
  { s with downloads := s.downloads.filter fun d => d.path != path }

/-! ## Open, read, close -/

/-- `open` of the cache path, if `_hasCache` finds something there. -/
def openCache (s : State ι) (path : Path) : Option OpenFile :=
  match s.lookup path with
  | some c => some (.copy c)
  | none => if s.isDirectory path then some .directory else none

/-- Open a handle and keep it; a descriptor that is in use is not given again. -/
def openNew (s : State ι) (path : Path) (fd : Option Nat) : Option (State ι × Int) :=
  match s.openCache path, fd with
  | some f, some d =>
    if s.fds d ≠ none then none
    else
      let s := { s with fds := update s.fds d (some f) }
      if 0 < d then some ({ s with handleTable := update s.handleTable path (some d) }, d)
      else some (s, 0)
  | _, _ => some (s, -1)

def openDesc (s : State ι) (path : Path) (fd : Option Nat) : Option (State ι × Int) :=
  match s.handleTable path with
  | some h => if 0 < h then some (s, h) else s.openNew path fd
  | none => s.openNew path fd

variable [DecidableEq ι]

/-- `irodsRead` goes on to the read if there is a descriptor. -/
def openPreloadedFile (s : State ι) (t : ι) (path : Path) (fd : Option Nat) : Option (State ι × Out) :=
  if (s.reader t).isSome then none
  else
    match s.openDesc path fd with
    | none => none
    | some (s', desc) =>
      if 0 < desc then
        some ({ s' with reader := update s'.reader t (some ⟨desc.toNat, path, s.gone path⟩) }, .status desc)
      else some (s', .status desc)

def readPreloadedFile (s : State ι) (t : ι) (size offset : Nat) : Option (State ι × Out) :=
  match s.reader t with
  | none => none
  | some r =>
    let s' := { s with reader := update s.reader t none }
    match s.fds r.fd with
    | some (.copy c) => some (s', .served c (readAt (s.content c) offset size))
    | _ => some (s', .status (-1))

end State

namespace State

def closePreloadedFile (s : State ι) (path : Path) : State ι :=
  match s.handleTable path with
  | none => s
  | some h =>
    let s := { s with handleTable := update s.handleTable path none }
    if 0 < h then { s with fds := update s.fds h none } else s

/-! ## Invalidate, rename, truncate -/

/-- The names that `_invalidateCache` takes out besides the work path. -/
def invalidates (s : State ι) (path name : Path) : Bool :=
  if s.isDirectory path then isBelow path name else name == path

def invalidateCache (s : State ι) (path : Path) : List (Path × Nat) :=
  if s.isDirectory path then s.files.filter fun f => !isBelow path f.1
  else s.files.filter fun f => f.1 != getCacheWorkPath path && f.1 != path

/-- `c` is being downloaded for `name`. -/
def isPart (s : State ι) (name : Path) (c : Nat) : Bool :=
  s.downloads.any fun d => d.path == name && d.part == some c

/-- The downloads at or below a path that is invalidated or moved are of the old copy. -/
def staleDownloads (s : State ι) (path : Path) : List Download :=
  s.downloads.map fun d => if atOrBelow path d.path then { d with stale := true } else d

/-- `_invalidateCache` returns 0 for a directory, and for a file that is there. -/
def invalidatePreloadedFile (s : State ι) (path : Path) : State ι × Int :=
  let files := s.invalidateCache path
  if s.isDirectory path ∨ (s.lookup path).isSome then
    ({ s with
      files := files
      downloads := s.staleDownloads path
      gone := fun n c => s.gone n c || (s.invalidates path n && s.files.contains (n, c)) ||
        (atOrBelow path n && s.isPart n c) }, 0)
  else ({ s with files := files }, -1)

/-- The files at or below `src` under their new names. -/
def moved (s : State ι) (src dest : Path) : List (Path × Nat) :=
  (s.files.filter fun f => atOrBelow src f.1).map fun f => (dest ++ f.1.drop src.length, f.2)

/-- `rename` of something that is there, neither onto a directory nor of one onto a file,
and neither name below the other. `ok` is whether it finds the parent of `dest`. -/
def renames (s : State ι) (src dest : Path) (ok : Bool) : Bool :=
  ok && (s.isDirectory src || (s.lookup src).isSome) && !s.isDirectory dest &&
    !(s.isDirectory src && (s.lookup dest).isSome) && !isBelow src dest && !isBelow dest src

def renamePreloadedFile (s : State ι) (src dest : Path) (ok : Bool) : State ι × Int :=
  if src = dest then (s, if s.isDirectory src ∨ (s.lookup src).isSome then 0 else -1)
  else if s.renames src dest ok then
    ({ s with
      files := s.moved src dest ++ s.files.filter fun f => !atOrBelow src f.1 && f.1 != dest
      downloads := s.staleDownloads src
      gone := fun n c => !(s.moved src dest).contains (n, c) && (s.gone n c ||
        (atOrBelow src n && (s.files.contains (n, c) || s.isPart n c))) }, 0)
  else (s, -1)

def truncatePreloadedFile (s : State ι) (path : Path) (size : Nat) : State ι × Int :=
  match s.lookup path with
  | none => (s, -1)
  | some c =>
    let bytes := (s.content c).take size ++ List.replicate (size - (s.content c).length) 0
    ({ s with content := update s.content c bytes }, 0)

/-! ## Downloads -/

local instance : LawfulBEq Path := inferInstance

/-- `preloadFile` for a path whose copy is not valid. -/
def preloadFile (s : State ι) (path : Path) (start : Bool) : State ι :=
  if path ∈ s.threadTable then s
  else
    let s := { s with files := s.invalidateCache path }
    if start then
      { s with threadTable := path :: s.threadTable, downloads := ⟨path, none, false⟩ :: s.downloads }
    else s

/-- `getUtil` makes the work file, in place of one that is there. -/
def createPart (s : State ι) (path : Path) : Option (State ι) :=
  match s.lookupDownload path with
  | some ⟨_, none, stale⟩ =>
    let c := s.nextCopy
    some { s with
      files := (getCacheWorkPath path, c) :: s.files.filter fun f => f.1 != getCacheWorkPath path
      content := update s.content c []
      nextCopy := c + 1
      downloads := s.downloads.map fun d => if d.path = path then { d with part := some c } else d
      gone := fun n x => s.gone n x || (n == path && x == c && stale) }
  | _ => none

def writePart (s : State ι) (path : Path) (data : List Byte) : Option (State ι) :=
  match s.lookupDownload path with
  | some ⟨_, some c, _⟩ => some { s with content := update s.content c (s.content c ++ data) }
  | _ => none

def failDownload (s : State ι) (path : Path) : Option (State ι) :=
  match s.lookupDownload path with
  | some _ => some (s.endDownload path)
  | none => none

/-- `_completeDownload` fails without the work file, and onto a directory. -/
def completeDownload (s : State ι) (path : Path) (ok : Bool) : Option (State ι) :=
  match s.lookupDownload path with
  | some ⟨_, some _, _⟩ =>
    match s.lookup (getCacheWorkPath path) with
    | none => some (s.endDownload path)
    | some c =>
      if ok ∧ s.isDirectory path = false then
        some { s.endDownload path with
          files := (path, c) :: s.files.filter fun f => f.1 != getCacheWorkPath path && f.1 != path }
      else some (s.endDownload path)
  | _ => none

def finishThread (s : State ι) (path : Path) : Option (State ι) :=
  if path ∉ s.threadTable ∨ (s.lookupDownload path).isSome then none
  else some { s with threadTable := s.threadTable.erase path }

def step [DecidableEq ι] (s : State ι) : Event ι → Option (State ι × Out)
  | .openPreloadedFile t path fd => s.openPreloadedFile t path fd
  | .readPreloadedFile t size offset => s.readPreloadedFile t size offset
  | .closePreloadedFile path => some (s.closePreloadedFile path, .status 0)
  | .invalidatePreloadedFile path => let (s, n) := s.invalidatePreloadedFile path; some (s, .status n)
  | .renamePreloadedFile src dest ok => let (s, n) := s.renamePreloadedFile src dest ok; some (s, .status n)
  | .truncatePreloadedFile path size => let (s, n) := s.truncatePreloadedFile path size; some (s, .status n)
  | .preloadFile path start => some (s.preloadFile path start, .status 0)
  | .createPart path => (s.createPart path).map (·, .status 0)
  | .writePart path data => (s.writePart path data).map (·, .status 0)
  | .failDownload path => (s.failDownload path).map (·, .status 0)
  | .completeDownload path ok => (s.completeDownload path ok).map (·, .status 0)
  | .finishThread path => (s.finishThread path).map (·, .status 0)

end State

def machine (ι : Type) [DecidableEq ι] : Machine (State ι) (Event ι) Out := ⟨State.step⟩

end PreloadRead
