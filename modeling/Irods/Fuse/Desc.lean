-- SUMMARY: FUSE descriptors, the newly-created table, and closing.
import Irods.Api.RodsDef
import Irods.Fuse.PathCache

open ByteFile

/-!
# Descriptors and newly created files

The state of the FUSE client: the path cache, the descriptor table `IFuseDesc`, the
table `NewlyCreatedFile` of files created but not opened yet, and what the client
has stored on the server. Replies of the server are arguments of the functions, and
so is the time of day. `parse` is `parseRodsPathStr` on the path without its leading
slash.

The lazy-upload and preload layers are compiled out. Connections and locks are not
part of the state; a lost connection is a failed reply.
-/

namespace Fuse

def maxIFuseDesc : Nat := 512
def maxReadCacheSize : Nat := 1024 * 1024
def maxNewlyCreatedCacheSize : Nat := 4 * 1024 * 1024
def numNewlyCreatedSlot : Nat := 5
def maxNewlyCreatedTime : Nat := 5

inductive Errno where
  | ENOENT
  | ENOTDIR
  | EEXIST
  | EBADF
  deriving DecidableEq

/-- What an operation returns: 0 or a negated error number. -/
inductive Ret where
  | ok
  | fail (e : Errno)
  deriving DecidableEq

/-- A reply of the server, as far as the client tells replies apart. -/
inductive Reply where
  | ok
  | readMsgError
  | nameExists
  | error
  deriving DecidableEq

/-- What an `iFd` refers to: an open local file or server object at a position, a
descriptor number that has been closed, or the number 0. -/
inductive Handle where
  | zero
  | closed
  | localFd (file : Nat) (pos : Nat)
  | l1desc (objPath : Path) (pos : Nat)
  deriving DecidableEq

structure IFuseDesc where
  inuseFlag : Bool
  iFd : Handle
  newFlag : Bool
  createMode : Nat
  offset : Nat
  bytesWritten : Nat
  objPath : Path
  localPath : Path
  locCacheState : ReadCacheState
  deriving DecidableEq

/-- A descriptor after `memset`. -/
def IFuseDesc.zeroed : IFuseDesc :=
  { inuseFlag := false, iFd := .zero, newFlag := false, createMode := 0, offset := 0,
    bytesWritten := 0, objPath := [], localPath := [], locCacheState := .noFileCache }

structure NewlyCreatedFile where
  descInx : Nat
  inuseFlag : Bool
  filePath : Path
  cachedTime : Nat
  deriving DecidableEq

/-- A slot after `bzero`. -/
def NewlyCreatedFile.zeroed : NewlyCreatedFile :=
  { descInx := 0, inuseFlag := false, filePath := [], cachedTime := 0 }

abbrev Slot := Fin numNewlyCreatedSlot

/-- The local cache file of the entry `fromPathCache` goes to a new entry for `dest`,
which replaces what was known about `dest`. -/
def Cache.moveFile (c : Cache) (now : Nat) (fromPathCache : PathCache) (dest : Path) : Cache :=
  let c := (c.rmPathFromCache dest .pathArray).rmPathFromCache dest .nonExistPathArray
  let c := c.addPathToCache .pathArray
    { filePath := dest, locCachePath := fromPathCache.locCachePath, stSize := fromPathCache.stSize,
      cachedTime := now, locCacheState := .haveNewlyCreatedCache }
  c.setPathCache fromPathCache.filePath PathCache.withoutFile

/-- `uploaded` is what the client has last stored under an iRODS path, and `opened`
the descriptors FUSE holds a file handle for. -/
structure State where
  cache : Cache
  nextFile : Nat
  desc : Nat → IFuseDesc
  inuseCnt : Int
  newly : Slot → NewlyCreatedFile
  uploaded : Path → Option (List Byte)
  opened : Nat → Bool

/-- The state after `initPathCache` and `initIFuseDesc`. -/
def State.init : State :=
  { cache := { que := fun _ _ => [], files := fun _ => { linked := false, content := [] } }
    nextFile := 0
    desc := fun _ => .zeroed
    inuseCnt := 0
    newly := fun _ => .zeroed
    uploaded := fun _ => none
    opened := fun _ => false }

namespace State

def setDesc (s : State) (d : Nat) (f : IFuseDesc → IFuseDesc) : State :=
  { s with desc := Function.update s.desc d (f (s.desc d)) }

def setSlot (s : State) (i : Slot) (f : NewlyCreatedFile → NewlyCreatedFile) : State :=
  { s with newly := Function.update s.newly i (f (s.newly i)) }

/-- The bytes behind a local file, written through an open descriptor. -/
def setContent (s : State) (f : Nat) (content : List Byte) : State :=
  { s with cache := { s.cache with
      files := Function.update s.cache.files f { s.cache.files f with content := content } } }

/-- Create a local file under the name `getFileCachePath` found; `none` is a name
whose file could not be created. -/
def createFile (s : State) (content : Option (List Byte)) : State × Nat :=
  match content with
  | none => ({ s with nextFile := s.nextFile + 1 }, s.nextFile)
  | some bs =>
    ({ s with
        cache := { s.cache with
          files := Function.update s.cache.files s.nextFile { linked := true, content := bs } }
        nextFile := s.nextFile + 1 }, s.nextFile)

def upload (s : State) (obj : Path) (content : List Byte) : State :=
  { s with uploaded := Function.update s.uploaded obj (some content) }

/-- Run a function of the path cache. -/
def onCache (s : State) (f : Cache → Cache) : State := { s with cache := f s.cache }

/-! ## The descriptor table -/

/-- The entries of the table that are ever used. -/
def descRange : List Nat := List.range' 3 (maxIFuseDesc - 3)

def allocIFuseDesc (s : State) : Option (State × Nat) :=
  match descRange.find? fun i => !(s.desc i).inuseFlag with
  | none => none
  | some i =>
    some ({ s.setDesc i fun d => { d with inuseFlag := true } with inuseCnt := s.inuseCnt + 1 }, i)

def freeIFuseDesc (s : State) (d : Nat) : State :=
  { s.setDesc d fun _ => .zeroed with inuseCnt := s.inuseCnt - 1 }

def checkFuseDesc (s : State) (d : Nat) : Bool :=
  3 ≤ d && d < maxIFuseDesc && (s.desc d).inuseFlag && (s.desc d).iFd != .zero

def fillIFuseDesc (s : State) (d : Nat) (iFd : Handle) (objPath localPath : Path) : State :=
  s.setDesc d fun r => { r with iFd := iFd, objPath := objPath, localPath := localPath }

/-- A scan of the table that stops after `cnt` entries in use. -/
def scanDesc (desc : Nat → IFuseDesc) (cnt : Int) (p : IFuseDesc → Bool) : Int → List Nat → Option Nat
  | _, [] => none
  | seen, i :: is =>
    if cnt ≤ seen then none
    else if (desc i).inuseFlag then
      if p (desc i) then some i else scanDesc desc cnt p (seen + 1) is
    else scanDesc desc cnt p seen is

def getNewlyCreatedDescByPath (s : State) (path : Path) : Option Nat :=
  scanDesc s.desc s.inuseCnt
    (fun d => d.locCacheState == .haveNewlyCreatedCache && d.localPath == path) 0 descRange

/-! ## Closing -/

/-- `updatePathCacheStat`: the size of the local cache file, where there is one. -/
def updatePathCacheStat (s : State) (e : PathCache) : Option PathCache :=
  match e.owned with
  | none => some e
  | some f =>
    let file := s.cache.files f
    if file.linked then some { e with stSize := file.content.length } else none

variable (parse : Path → Option Path)

/-- `ifusePut`: store a local file under the iRODS name of `path`. -/
def ifusePut (s : State) (path : Path) (locCachePath : Nat) (put : Reply) : State × Bool :=
  match parse path with
  | none => (s, false)
  | some obj =>
    let file := s.cache.files locCachePath
    if file.linked ∧ put = .ok then (s.upload obj file.content, true) else (s, false)

/-- The entry a close works on: the first one for the path, if it has a local file. -/
def closeEntry (s : State) (now : Nat) (path : Path) : State × Option (PathCache × Nat) :=
  let (cache, found) := s.cache.matchPathInPathCache now path .pathArray
  let s := { s with cache := cache }
  match found with
  | none => (s, none)
  | some e => (s, e.locCachePath.map fun f => (e, f))

/-- Store a newly created file: update the entry's size, put the local file, and drop
it when it is too big to keep. The flags are "stored" and "size known". -/
def closeNewlyCreated (s : State) (now : Nat) (path : Path) (put : Reply) : State × Bool × Bool :=
  match s.closeEntry now path with
  | (s, none) => (s, false, false)
  | (s, some (e, f)) =>
    let stat := s.updatePathCacheStat e
    let size := (stat.getD e).stSize
    let (s, stored) := (s.onCache fun c => c.setSize path size).ifusePut parse path f put
    (if maxReadCacheSize < size then s.onCache fun c => c.freeFileCache path f else s,
      stored, stat.isSome)

/-- What `_ifuseClose` does with the file behind the descriptor; `put` is the reply to
the transfer, or to the close of a server object. -/
def closeFile (s : State) (now : Nat) (path : Path) (d : Nat) (put : Reply) : State × Ret × Bool :=
  if (s.desc d).locCacheState = .noFileCache then
    (s, if put = .ok then .ok else .fail .ENOENT, false)
  else if (s.desc d).newFlag ∨ (s.desc d).locCacheState = .haveNewlyCreatedCache then
    let (s, stored, goodStat) := s.closeNewlyCreated parse now path put
    (s, if stored then .ok else .fail .EBADF, goodStat)
  else (s, .ok, false)

/-- `_ifuseClose` -/
def ifuseClose (s : State) (now : Nat) (path : Path) (d : Nat) (put : Reply) : State × Ret :=
  let bytesWritten := (s.desc d).bytesWritten
  let (s, ret, goodStat) := s.closeFile parse now path d put
  (if 0 < bytesWritten ∧ goodStat = false then s.onCache fun c => c.rmPathFromCache path .pathArray
    else s, ret)

/-! ## The table of newly created files -/

def closeNewlyCreatedCache (s : State) (now : Nat) (i : Slot) (put : Reply) : State × Ret :=
  if (s.newly i).filePath.isEmpty then (s, .ok)
  else if s.checkFuseDesc (s.newly i).descInx then
    let (s', ret) := s.ifuseClose parse now (s.newly i).filePath (s.newly i).descInx put
    let s' := s'.freeIFuseDesc (s.newly i).descInx
    (s'.setSlot i fun _ => .zeroed, ret)
  else (s, .fail .EBADF)

/-- The age of a slot; the difference of two `uint`s. -/
def slotExpired (now : Nat) (slot : NewlyCreatedFile) : Bool :=
  maxNewlyCreatedTime ≤ (now + uintBound - slot.cachedTime) % uintBound

/-- One round of the loop of `addNewlyCreatedToCache`: take the first free slot, close
expired ones on the way. -/
def chooseSlotStep (now : Nat) (puts : Slot → Reply) (acc : State × Option Slot) (i : Slot) :
    State × Option Slot :=
  let (s, newlyInx) := acc
  if newlyInx = none ∧ (s.newly i).inuseFlag = false then
    (s.setSlot i fun r => { r with inuseFlag := true }, some i)
  else if (s.newly i).inuseFlag = true ∧ slotExpired now (s.newly i) = true then
    let s := (s.closeNewlyCreatedCache parse now i (puts i)).1
    -- closing has zeroed the slot; one that is taken is not marked again
    if newlyInx = none then (s, some i)
    else (s.setSlot i fun r => { r with inuseFlag := false }, newlyInx)
  else (s, newlyInx)

/-- The slot for a new entry, and the state in which it is filled. With no slot free
or expired the last but one is closed. -/
def chooseSlot (s : State) (now : Nat) (puts : Slot → Reply) : State × Slot :=
  match (List.finRange numNewlyCreatedSlot).foldl (chooseSlotStep parse now puts) (s, none) with
  | (s, some i) => (s, i)
  | (s, none) =>
    let i : Slot := ⟨numNewlyCreatedSlot - 2, by decide⟩
    let s := (s.closeNewlyCreatedCache parse now i (puts i)).1
    (s.setSlot i fun r => { r with inuseFlag := true }, i)

/-- `rstrcpy`: a string that does not fit leaves the destination as it is. -/
def rstrcpy (dest src : Path) (maxLen : Nat) : Path := if src.length < maxLen then src else dest

/-- Fill slot `i`. The path cache entry gets its local cache file at once; the source
sets it through the pointer it gets back. -/
def fillSlot (s : State) (i : Slot) (now : Nat) (path : Path) (d : Nat) (locCachePath : Nat) : State :=
  let s := s.setSlot i fun r =>
    { r with filePath := rstrcpy r.filePath path MAX_NAME_LEN, descInx := d, cachedTime := now }
  let s := s.setDesc d fun r => { r with newFlag := true }
  s.onCache fun c => c.addPathToCache .pathArray
    { filePath := path, locCachePath := some locCachePath, stSize := 0, cachedTime := now,
      locCacheState := .haveNewlyCreatedCache }

def addNewlyCreatedToCache (s : State) (now : Nat) (path : Path) (d : Nat) (locCachePath : Nat)
    (puts : Slot → Reply) : State :=
  let (s, i) := s.chooseSlot parse now puts
  s.fillSlot i now path d locCachePath

/-- `getDescInxInNewlyCreatedCache`: hand out the descriptor of a newly created file
that is opened for writing; for reading, close it first. -/
def getDescInxInNewlyCreatedCache (s : State) (now : Nat) (path : Path) (write : Bool) (put : Reply) :
    State × Option Nat :=
  match (List.finRange numNewlyCreatedSlot).find? fun i => (s.newly i).filePath == path with
  | none => (s, none)
  | some i =>
    if !write then ((s.closeNewlyCreatedCache parse now i put).1, none)
    else if s.checkFuseDesc (s.newly i).descInx then
      (s.setSlot i fun _ => .zeroed, some (s.newly i).descInx)
    else (s.setSlot i fun _ => .zeroed, none)

/-- `renmeOpenedIFuseDesc`: the local cache file of a new file, and its descriptor, go to the path
`dest`. The slot that may name the file is not looked at; the tables change before `dest` is parsed. -/
def renmeOpenedIFuseDesc (s : State) (now : Nat) (fromPathCache : PathCache) (dest : Path) : State × Ret :=
  match s.getNewlyCreatedDescByPath fromPathCache.filePath with
  | none => (s, .fail .ENOTDIR)
  | some d =>
    let s := s.onCache fun c => c.moveFile now fromPathCache dest
    match parse dest with
    | none => (s.setDesc d fun r => { r with objPath := [] }, .fail .ENOTDIR)
    | some obj => (s.setDesc d fun r => { r with objPath := obj, localPath := dest }, .ok)

end State

end Fuse
