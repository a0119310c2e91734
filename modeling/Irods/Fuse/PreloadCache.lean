-- SUMMARY: The preload cache: preloading, downloads and eviction as steps.
import Irods.Base.Machine
import Irods.Fuse.PathCache

open Fuse (Path)

/-!
# The preload cache

`preloadFile` starts a download of a file into the directory `cachePath`: a thread writes
it under the name with `.part` and renames it in the end. `moveToPreloadedDir` puts a
file there that is already local. Both measure the directory and evict the files with
the oldest access time when it is above `cacheMaxSize`.

`preloadFile` and the end of a download hold `PreloadLock`; `moveToPreloadedDir` does
not, and a running download writes without it. A step is what happens between two looks
at the directory, and measuring the directory is one look. The files are listed in the
order `readdir` gives them, those of a directory among the others; a directory is there
when a file is below it, and `unlink` fails for a name that is not there.
-/

namespace Preload

/-! ## Names -/

/-- `.part` -/
def filesInDownloadingExt : Path := [46, 112, 97, 114, 116]

/-- The name of a file in the cache is its path. -/
def getCacheWorkPath (path : Path) : Path := path ++ filesInDownloadingExt

def isBelow (path name : Path) : Bool := (path ++ [47]).isPrefixOf name

/-! ## The directory -/

/-- `ino` tells the files apart when their names change. -/
structure CacheFile where
  name : Path
  ino : Nat
  size : Nat
  atime : Nat
  mtime : Nat
  deriving DecidableEq

abbrev CacheDir := List CacheFile

namespace CacheDir

def getFileSizeRecursive (d : CacheDir) : Nat := (d.map CacheFile.size).sum

def lookup (d : CacheDir) (name : Path) : Option CacheFile := d.find? fun f => f.name == name

def unlink (d : CacheDir) (name : Path) : CacheDir := d.filter fun f => f.name != name

/-- A file in place of one of the same name, at any place of the listing. -/
def place (d : CacheDir) (slot : Nat) (f : CacheFile) : CacheDir :=
  (d.unlink f.name).take slot ++ f :: (d.unlink f.name).drop slot

/-- `k` more bytes in the file `ino`. -/
def grow (ino k : Nat) : CacheDir → CacheDir
  | [] => []
  | f :: d => if f.ino = ino then { f with size := f.size + k } :: d else f :: grow ino k d

def hasValidCache (d : CacheDir) (path : Path) (stSize stMtime : Nat) : Bool :=
  match d.lookup path with
  | none => false
  | some f => f.size == stSize && f.mtime == stMtime

def isDirectory (d : CacheDir) (path : Path) : Bool := d.any fun f => isBelow path f.name

def invalidateCache (d : CacheDir) (path : Path) : CacheDir :=
  if d.isDirectory path then d.filter fun f => !isBelow path f.name
  else (d.unlink (getCacheWorkPath path)).unlink path

/-- The first of the files with the oldest access time. -/
def findOldestCache (d : CacheDir) : Option CacheFile :=
  d.foldl (fun oldest f =>
    match oldest with
    | none => some f
    | some o => if f.atime < o.atime then some f else some o) none

end CacheDir

/-! ## Calls and downloads -/

/-- What `preloadFile` was called with. -/
structure Request where
  path : Path
  stSize : Nat
  stMtime : Nat
  deriving DecidableEq

/-- Who is evicting: `preloadFile` for the limit or for the space on the device, or
`moveToPreloadedDir`. -/
inductive Evictor where
  | limit (r : Request)
  | space (r : Request)
  | move
  deriving DecidableEq

/-- What a thread does next. -/
inductive Pc where
  | idle
  /-- in `preloadFile`, before each look at the directory or the device -/
  | measuring (r : Request)
  | spacing (r : Request)
  | starting (r : Request)
  /-- in `moveToPreloadedDir`, after the rename -/
  | moved
  /-- in `_evictOldCache`, at the top of the loop -/
  | evicting (e : Evictor) (sizeNeeded removedCacheSize : Nat)
  /-- with the file that `_findOldestCache` has found -/
  | unlinking (e : Evictor) (sizeNeeded removedCacheSize : Nat) (old : CacheFile)
  deriving DecidableEq

def Evictor.locked : Evictor → Bool
  | .move => false
  | _ => true

/-- The thread holds `PreloadLock`. -/
def Pc.locked : Pc → Bool
  | .idle | .moved => false
  | .evicting e _ _ => e.locked
  | .unlinking e _ _ _ => e.locked
  | _ => true

/-- The thread is in `moveToPreloadedDir`. -/
def Pc.moves : Pc → Bool
  | .moved => true
  | .evicting e _ _ => !e.locked
  | .unlinking e _ _ _ => !e.locked
  | _ => false

/-- A thread in `_download`: the file it writes, once there is one, and how far it is. -/
structure Download where
  path : Path
  stSize : Nat
  stMtime : Nat
  ino : Option Nat
  got : Nat
  deriving DecidableEq

/-- `threads` are the threads that were created and have not ended, `downloads` those of
them that are still in `_download`. `evictedPart` records that the file of one of these
was evicted. -/
structure State (ι : Type) where
  cacheMaxSize : Nat
  preloadMinSize : Nat
  files : CacheDir
  nextIno : Nat
  threadTable : List Path
  threads : List Path
  downloads : List Download
  lock : Option ι
  pc : ι → Pc
  evictedPart : Bool

/-- `ok` is whether the system call of the step succeeds. -/
inductive Event (ι : Type) where
  | preloadFile (t : ι) (r : Request)
  | measure (t : ι)
  | getEmptySpace (t : ι) (freeSize : Nat)
  | startThread (t : ι) (ok : Bool)
  | moveToPreloadedDir (t : ι) (path : Path) (size atime mtime slot : Nat) (ok : Bool)
  | measureMoved (t : ι)
  | findOldest (t : ι)
  | unlinkOldest (t : ι)
  | createPart (path : Path) (atime slot : Nat)
  | growPart (path : Path) (k : Nat)
  | failDownload (path : Path)
  | completeDownload (path : Path) (now slot : Nat) (ok : Bool)
  | finishThread (path : Path)
  deriving DecidableEq

namespace State

variable {ι : Type} [DecidableEq ι]

def cacheSize (s : State ι) : Nat := s.files.getFileSizeRecursive

/-- The bytes still to come of the running downloads. -/
def toCome (s : State ι) : Nat := (s.downloads.map fun d => d.stSize - d.got).sum

def setPc (s : State ι) (t : ι) (pc : Pc) : State ι := { s with pc := Function.update s.pc t pc }

def unlockPreload (s : State ι) (t : ι) : State ι := if s.lock = some t then { s with lock := none } else s

/-- The call of `t` returns. -/
def ret (s : State ι) (t : ι) : State ι := (s.unlockPreload t).setPc t .idle

def lookupDownload (s : State ι) (path : Path) : Option Download := s.downloads.find? fun d => d.path == path

def endDownload (s : State ι) (path : Path) : State ι :=
  { s with downloads := s.downloads.filter fun d => d.path != path }

/-! ## Steps -/

/-- `preloadFile` up to the first look at the size of the cache. -/
def preloadFile (s : State ι) (t : ι) (r : Request) : Option (State ι) :=
  if s.pc t ≠ .idle ∨ s.lock ≠ none then none
  else if r.path ∈ s.threadTable then some s
  else if s.files.hasValidCache r.path r.stSize r.stMtime then some s
  else
    let s := { s with files := s.files.invalidateCache r.path }
    if r.stSize < s.preloadMinSize then some s
    else if 0 < s.cacheMaxSize then
      if s.cacheMaxSize < r.stSize then some s
      else some ({ s with lock := some t }.setPc t (.measuring r))
    else some ({ s with lock := some t }.setPc t (.spacing r))

def measure (s : State ι) (t : ι) : Option (State ι) :=
  match s.pc t with
  | .measuring r =>
    if s.cacheMaxSize < s.cacheSize + r.stSize then
      some (s.setPc t (.evicting (.limit r) (s.cacheSize + r.stSize - s.cacheMaxSize) 0))
    else some (s.setPc t (.spacing r))
  | _ => none

def getEmptySpace (s : State ι) (t : ι) (freeSize : Nat) : Option (State ι) :=
  match s.pc t with
  | .spacing r =>
    if freeSize < r.stSize then some (s.setPc t (.evicting (.space r) (r.stSize - freeSize) 0))
    else some (s.setPc t (.starting r))
  | _ => none

/-- The entry of the table stays when the thread cannot be created. -/
def startThread (s : State ι) (t : ι) (ok : Bool) : Option (State ι) :=
  match s.pc t with
  | .starting r =>
    let s := { s with threadTable := r.path :: s.threadTable }
    if ok then
      some ({ s with
        threads := r.path :: s.threads
        downloads := ⟨r.path, r.stSize, r.stMtime, none, 0⟩ :: s.downloads }.ret t)
    else some (s.ret t)
  | _ => none

def moveToPreloadedDir (s : State ι) (t : ι) (path : Path) (size atime mtime slot : Nat) (ok : Bool) :
    Option (State ι) :=
  if s.pc t ≠ .idle then none
  else if ok then
    let s := { s with files := s.files.place slot ⟨path, s.nextIno, size, atime, mtime⟩, nextIno := s.nextIno + 1 }
    if 0 < s.cacheMaxSize then some (s.setPc t .moved) else some s
  else some s

def measureMoved (s : State ι) (t : ι) : Option (State ι) :=
  match s.pc t with
  | .moved =>
    if s.cacheMaxSize < s.cacheSize then
      some (s.setPc t (.evicting .move (s.cacheSize - s.cacheMaxSize) 0))
    else some (s.ret t)
  | _ => none

/-- What follows an `_evictOldCache` that returns 0. -/
def evicted (s : State ι) (t : ι) : Evictor → State ι
  | .limit r => s.setPc t (.spacing r)
  | .space r => s.setPc t (.starting r)
  | .move => s.ret t

def findOldest (s : State ι) (t : ι) : Option (State ι) :=
  match s.pc t with
  | .evicting e sizeNeeded removedCacheSize =>
    if sizeNeeded ≤ removedCacheSize then some (s.evicted t e)
    else
      match s.files.findOldestCache with
      | none => some (s.ret t)
      | some old => some (s.setPc t (.unlinking e sizeNeeded removedCacheSize old))
  | _ => none

/-- The file that is there now under the name belongs to a running download. -/
def isRunningPart (s : State ι) (name : Path) : Bool :=
  s.downloads.any fun d => (s.files.lookup name).any fun f => d.ino = some f.ino

def unlinkOldest (s : State ι) (t : ι) : Option (State ι) :=
  match s.pc t with
  | .unlinking e sizeNeeded removedCacheSize old =>
    if (s.files.lookup old.name).isSome then
      some ({ s with files := s.files.unlink old.name,
                     evictedPart := s.evictedPart || s.isRunningPart old.name }.setPc t
        (.evicting e sizeNeeded (removedCacheSize + old.size)))
    else some (s.ret t)
  | _ => none

/-- `getUtil` makes the work file, in place of one that is there. -/
def createPart (s : State ι) (path : Path) (atime slot : Nat) : Option (State ι) :=
  match s.lookupDownload path with
  | some ⟨_, _, _, none, _⟩ =>
    some { s with
      files := s.files.place slot ⟨getCacheWorkPath path, s.nextIno, 0, atime, atime⟩
      nextIno := s.nextIno + 1
      downloads := s.downloads.map fun d => if d.path = path then { d with ino := some s.nextIno } else d }
  | _ => none

def growPart (s : State ι) (path : Path) (k : Nat) : Option (State ι) :=
  match s.lookupDownload path with
  | some ⟨_, stSize, _, some ino, got⟩ =>
    if got + k ≤ stSize then
      some { s with
        files := s.files.grow ino k
        downloads := s.downloads.map fun d => if d.path = path then { d with got := d.got + k } else d }
    else none
  | _ => none

/-- An exit of `_download` before the lock is taken. What was written stays. -/
def failDownload (s : State ι) (path : Path) : Option (State ι) :=
  match s.lookupDownload path with
  | some _ => some (s.endDownload path)
  | none => none

/-- The whole file is there; `_completeDownload` fails if its work file is not. -/
def completeDownload (s : State ι) (path : Path) (now slot : Nat) (ok : Bool) : Option (State ι) :=
  match s.lookupDownload path with
  | some ⟨_, stSize, stMtime, some _, got⟩ =>
    if s.lock ≠ none ∨ got ≠ stSize then none
    else
      match s.files.lookup (getCacheWorkPath path) with
      | none => some (s.endDownload path)
      | some f =>
        if ok then
          some { s.endDownload path with
            files := (s.files.unlink f.name).place slot { f with name := path, atime := now, mtime := stMtime } }
        else some (s.endDownload path)
  | _ => none

/-- The end of `_preloadThread`. -/
def finishThread (s : State ι) (path : Path) : Option (State ι) :=
  if s.lock ≠ none ∨ path ∉ s.threads ∨ (s.lookupDownload path).isSome then none
  else some { s with threadTable := s.threadTable.erase path, threads := s.threads.erase path }

def step (s : State ι) : Event ι → Option (State ι)
  | .preloadFile t r => s.preloadFile t r
  | .measure t => s.measure t
  | .getEmptySpace t freeSize => s.getEmptySpace t freeSize
  | .startThread t ok => s.startThread t ok
  | .moveToPreloadedDir t path size atime mtime slot ok =>
    s.moveToPreloadedDir t path size atime mtime slot ok
  | .measureMoved t => s.measureMoved t
  | .findOldest t => s.findOldest t
  | .unlinkOldest t => s.unlinkOldest t
  | .createPart path atime slot => s.createPart path atime slot
  | .growPart path k => s.growPart path k
  | .failDownload path => s.failDownload path
  | .completeDownload path now slot ok => s.completeDownload path now slot ok
  | .finishThread path => s.finishThread path

end State

def machine (ι : Type) [DecidableEq ι] : Machine (State ι) (Event ι) Unit :=
  ⟨fun s e => (s.step e).map fun s' => (s', ())⟩

end Preload
