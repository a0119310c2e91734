-- SUMMARY: The FUSE operations as one step machine.
import Irods.Base.Machine
import Irods.Fuse.Desc

open ByteFile

/-!
# The FUSE operations

`clients/fuse/src/iFuseOper.c`. Every operation gets the time of day and the replies
of the server and of the local file system as arguments. Operations that lose their
connection reconnect and try once more; what they then do to the caches differs from
what they do when the first try succeeds.
-/

namespace Fuse

def dirSz : Nat := 4096

/-- The outcome of a call that is repeated once after a lost connection. -/
def Reply.retried (first retry : Reply) : Reply := if first = .readMsgError then retry else first

/-- The type of object `rcObjStat` reports. -/
inductive ObjStat where
  | coll
  | dataObj (size : Nat)
  | unknown
  deriving DecidableEq

structure StatReply where
  first : Reply
  retry : Reply
  obj : ObjStat
  deriving DecidableEq

/-- What `_irodsGetattr` learns about a path before it caches the answer. -/
inductive Lookup where
  | missing
  | badPath
  | hit (e : PathCache)
  | fetched (size : Nat)

/-- A cache entry without a local file. -/
def PathCache.plain (path : Path) (size now : Nat) : PathCache :=
  { filePath := path, locCachePath := none, stSize := size, cachedTime := now,
    locCacheState := .noFileCache }

namespace State

variable (parse : Path → Option Path)

/-! ## getattr -/

/-- The cached answer of `PathArray`; an entry whose local file is gone is removed. -/
def lookupCached (s : State) (now : Nat) (path : Path) : State × Option PathCache :=
  let (cache, found) := s.cache.matchPathInPathCache now path .pathArray
  let s := { s with cache := cache }
  match found with
  | none => (s, none)
  | some e =>
    match s.updatePathCacheStat e with
    | none => (s.onCache fun c => c.rmPathFromCache path .pathArray, none)
    | some e' => (s.onCache fun c => c.setSize path e'.stSize, some e')

def addNonExist (s : State) (now : Nat) (path : Path) : State :=
  s.onCache fun c => c.addPathToCache .nonExistPathArray (.plain path 0 now)

/-- Ask the server. -/
def lookupServer (s : State) (now : Nat) (path : Path) (reply : StatReply) : State × Lookup :=
  match parse path with
  | none => (s, .badPath)
  | some _ =>
    if reply.first.retried reply.retry = .ok then
      match reply.obj with
      | .coll => (s, .fetched dirSz)
      | .dataObj size => (s, .fetched size)
      | .unknown => (s.addNonExist now path, .missing)
    else (s.addNonExist now path, .missing)

/-- `_irodsGetattr` up to its last `addPathToCache`. -/
def lookupPath (s : State) (now : Nat) (path : Path) (reply : StatReply) : State × Lookup :=
  let (cache, missing) := s.cache.matchPathInPathCache now path .nonExistPathArray
  let s := { s with cache := cache }
  match missing with
  | some _ => (s, .missing)
  | none =>
    match s.lookupCached now path with
    | (s, some e) => (s, .hit e)
    | (s, none) => s.lookupServer parse now path reply

def irodsGetattr (s : State) (now : Nat) (path : Path) (reply : StatReply) : State × Ret :=
  match s.lookupPath parse now path reply with
  | (s, .missing) => (s, .fail .ENOENT)
  | (s, .badPath) => (s, .fail .ENOTDIR)
  | (s, .hit _) => (s, .ok)
  | (s, .fetched size) =>
    (s.onCache fun c => c.addPathToCache .pathArray (.plain path size now), .ok)

/-! ## mkdir, unlink, rmdir -/

def irodsMkdir (s : State) (now : Nat) (path : Path) (first retry : Reply) : State × Ret :=
  match parse path with
  | none => (s, .fail .ENOTDIR)
  | some _ =>
    if first = .ok then
      (s.onCache fun c => (c.addPathToCache .pathArray (.plain path dirSz now)).rmPathFromCache path
        .nonExistPathArray, .ok)
    -- the retry leaves the caches alone
    else if first.retried retry = .ok then (s, .ok)
    else (s, .fail .ENOENT)

/-- `irodsUnlink` and `irodsRmdir` treat the caches alike. -/
def removePath (s : State) (path : Path) (first retry : Reply) : State × Ret :=
  match parse path with
  | none => (s, .fail .ENOTDIR)
  | some _ =>
    if first = .ok then (s.onCache fun c => c.rmPathFromCache path .pathArray, .ok)
    else if first.retried retry = .ok then (s, .ok)
    else (s, .fail .ENOENT)

def irodsUnlink (s : State) (path : Path) (first retry : Reply) : State × Ret :=
  s.removePath parse path first retry

def irodsRmdir (s : State) (path : Path) (first retry : Reply) : State × Ret :=
  s.removePath parse path first retry

/-! ## rename -/

/-- Replies to `rcDataObjRename`: the first, the one after the destination was
unlinked, the one after a reconnect. -/
structure RenameReply where
  first : Reply
  second : Reply
  retry : Reply
  deriving DecidableEq

/-- The reply the client acts on. -/
def RenameReply.status (r : RenameReply) : Reply := if r.first = .nameExists then r.second else r.first

/-- Rename a file that only exists in the local cache. -/
def renameLocal (s : State) (now : Nat) (src dest : Path) : State × Bool :=
  let (cache, found) := s.cache.matchPathInPathCache now src .pathArray
  let s := { s with cache := cache }
  match found with
  | none => (s, false)
  | some e =>
    if e.locCacheState = .haveNewlyCreatedCache ∧ e.locCachePath.isSome then
      match s.renmeOpenedIFuseDesc parse now e dest with
      | (s, .ok) => (s.onCache fun c => c.rmPathFromCache src .pathArray, true)
      | (s, .fail _) => (s, false)
    else (s, false)

/-- The cache updates after the server has renamed. -/
def renamed (s : State) (now : Nat) (src dest : Path) : State :=
  let s := s.onCache fun c => c.rmPathFromCache dest .pathArray
  let (cache, found) := s.cache.matchPathInPathCache now src .pathArray
  let s := { s with cache := cache }
  let s :=
    match found with
    | none => s
    | some e => s.onCache fun c =>
      (c.addPathToCache .pathArray (.plain dest e.stSize now)).rmPathFromCache src .pathArray
  s.onCache fun c => c.rmPathFromCache dest .nonExistPathArray

def irodsRename (s : State) (now : Nat) (src dest : Path) (reply : RenameReply) : State × Ret :=
  match s.renameLocal parse now src dest with
  | (s, true) => (s, .ok)
  | (s, false) =>
    match parse src, parse dest with
    | some _, some _ =>
      if reply.status = .ok then (s.renamed now src dest, .ok)
      else if reply.status.retried reply.retry = .ok then (s, .ok)
      else (s, .fail .ENOENT)
    | _, _ => (s, .fail .ENOTDIR)

/-! ## mknod -/

/-- `localOk` says whether the local file could be created; `create` and `retry` are
the server's replies when it could not, `puts` those to the transfers of evicted files. -/
structure MknodEnv where
  stat : StatReply
  localOk : Bool
  create : Reply
  retry : Reply
  mode : Nat
  puts : Slot → Reply

/-- The file behind a new descriptor: a local one, or else an object on the server.
With it the name of the local file, which is noted in both cases. -/
def mknodHandle (s : State) (path : Path) (env : MknodEnv) : State × Nat × Option (Handle × Path) :=
  if env.localOk then
    let (s, f) := s.createFile (some [])
    (s, f, some (.localFd f 0, []))
  else
    let (s, f) := s.createFile none
    match parse path with
    | none => (s, f, none)
    | some obj =>
      if env.create.retried env.retry = .ok then (s.upload obj [], f, some (.l1desc obj 0, obj))
      else (s, f, none)

/-- Everything up to `addNewlyCreatedToCache`: the state it is called in, the new
descriptor and its local file, or what `irodsMknod` returns without it. -/
def mknodDesc (s : State) (now : Nat) (path : Path) (env : MknodEnv) : State × Except Ret (Nat × Nat) :=
  match s.irodsGetattr parse now path env.stat with
  | (s, .ok) => (s, .error (.fail .EEXIST))
  | (s, .fail _) =>
    match s.mknodHandle parse path env with
    | (s, _, none) => (s, .error (.fail .ENOENT))
    | (s, f, some (iFd, objPath)) =>
      let s := s.onCache fun c => c.rmPathFromCache path .nonExistPathArray
      match s.allocIFuseDesc with
      | none => (s, .error .ok)
      | some (s, d) => (s.fillIFuseDesc d iFd objPath path, .ok (d, f))

def irodsMknod (s : State) (now : Nat) (path : Path) (env : MknodEnv) : State × Ret :=
  match s.mknodDesc parse now path env with
  | (s, .error ret) => (s, ret)
  | (s, .ok (d, f)) =>
    let s := s.addNewlyCreatedToCache parse now path d f env.puts
    -- also when the descriptor is one of the server's
    (s.setDesc d fun r => { r with locCacheState := .haveNewlyCreatedCache, createMode := env.mode }, .ok)

/-! ## open -/

structure OpenEnv where
  put : Reply
  stat : StatReply
  get : Option (List Byte)
  first : Reply
  retry : Reply

/-- A local copy for reading: the one the entry has, or a new one from the server. -/
def readCacheFile (s : State) (now : Nat) (path : Path) (env : OpenEnv) : State × Option Nat :=
  match s.lookupPath parse now path env.stat with
  | (s, .missing) => (s, none)
  | (s, .badPath) => (s, none)
  | (s, .hit e) =>
    if maxReadCacheSize < e.stSize then (s, none)
    else
      match e.locCachePath, parse path, env.get with
      | some f, _, _ => (s, some f)
      | none, some _, some copy =>
        let (s, f) := s.createFile (some copy)
        (s.onCache fun c => c.setPathCache path fun r =>
          { r with locCachePath := some f, locCacheState := .haveReadCache }, some f)
      | none, _, _ => (s, none)
  | (s, .fetched size) =>
    let plain := PathCache.plain path size now
    if maxReadCacheSize < size then (s.onCache fun c => c.addPathToCache .pathArray plain, none)
    else
      match parse path, env.get with
      | some _, some copy =>
        let (s, f) := s.createFile (some copy)
        (s.onCache fun c => c.addPathToCache .pathArray
          { plain with locCachePath := some f, locCacheState := .haveReadCache }, some f)
      | _, _ => (s.onCache fun c => c.addPathToCache .pathArray plain, none)

def irodsOpenWithReadCache (s : State) (now : Nat) (path : Path) (env : OpenEnv) : State × Option Nat :=
  match s.readCacheFile parse now path env with
  | (s, none) => (s, none)
  | (s, some f) =>
    if !(s.cache.files f).linked then (s, none)
    else
      match s.allocIFuseDesc with
      | none => (s, none)
      | some (s, d) =>
        let s := s.fillIFuseDesc d (.localFd f 0) ((parse path).getD []) path
        (s.setDesc d fun r => { r with locCacheState := .haveReadCache }, some d)

/-- Open an object on the server. -/
def irodsOpenRemote (s : State) (path : Path) (env : OpenEnv) : State × Except Errno Nat :=
  match parse path with
  | none => (s, .error .ENOTDIR)
  | some obj =>
    if env.first.retried env.retry = .ok then
      let s := s.onCache fun c => c.rmPathFromCache path .nonExistPathArray
      match s.allocIFuseDesc with
      | none => (s, .error .ENOENT)
      | some (s, d) => (s.fillIFuseDesc d (.l1desc obj 0) obj path, .ok d)
    else (s, .error .ENOENT)

/-- FUSE gets a handle on the descriptor. -/
def handOut (s : State) (d : Nat) : State := { s with opened := Function.update s.opened d true }

def irodsOpen (s : State) (now : Nat) (path : Path) (write : Bool) (env : OpenEnv) : State × Ret :=
  match s.getDescInxInNewlyCreatedCache parse now path write env.put with
  | (s, some d) => (s.handOut d, .ok)
  | (s, none) =>
    match if write then (s, none) else s.irodsOpenWithReadCache parse now path env with
    | (s, some d) => (s.handOut d, .ok)
    | (s, none) =>
      match s.irodsOpenRemote parse path env with
      | (s, .ok d) => (s.handOut d, .ok)
      | (s, .error e) => (s, .fail e)

/-! ## write and release -/

/-- Replies during a write: to the seeks before and after the switch to the server, the
number of bytes the write itself reports, and the steps of the switch. -/
structure WriteEnv where
  seek : Reply
  written : Option Nat
  create : Reply
  read : Bool
  put : Reply
  reseek : Reply

/-- The file behind a descriptor after a seek; a seek on anything but the kind of file
the descriptor claims to have open fails. -/
def seekHandle (r : IFuseDesc) (offset : Nat) : Option Handle :=
  match r.locCacheState, r.iFd with
  | .noFileCache, .l1desc obj _ => some (.l1desc obj offset)
  | .haveReadCache, .localFd f _ => some (.localFd f offset)
  | .haveNewlyCreatedCache, .localFd f _ => some (.localFd f offset)
  | _, _ => none

def ifuseLseek (s : State) (d offset : Nat) (reply : Reply) : Option State :=
  if (s.desc d).offset = offset then some s
  else
    match reply, seekHandle (s.desc d) offset with
    | .ok, some h => some (s.setDesc d fun r => { r with iFd := h, offset := offset })
    | _, _ => none

/-- The local cache file has grown too large: move it to the server and go on there. -/
def switchToIrods (s : State) (path : Path) (d file : Nat) (env : WriteEnv) : State × Ret :=
  let content := (s.cache.files file).content
  let dropEntry (s : State) := s.onCache fun c => c.rmPathFromCache path .pathArray
  match parse path with
  | none => (dropEntry (s.setDesc d fun r => { r with iFd := .closed }), .fail .ENOENT)
  | some obj =>
    if env.create ≠ .ok ∨ env.read = false then
      (dropEntry (s.setDesc d fun r => { r with iFd := .closed }), .fail .ENOENT)
    else if env.put ≠ .ok then
      (dropEntry (s.setDesc d fun r => { r with iFd := .zero }), .fail .ENOENT)
    else
      let myoffset := (s.desc d).offset
      let s := dropEntry (s.upload obj content)
      let s := s.setDesc d fun r => { r with iFd := .l1desc obj content.length, offset := 0,
                                             locCacheState := .noFileCache, newFlag := false }
      match s.ifuseLseek d myoffset env.reseek with
      | none => (s, .fail .ENOENT)
      | some s => (s, .ok)

/-- `n` bytes have gone to the local cache file `f` at `pos`. -/
def localWritten (s : State) (d f pos n : Nat) (data : List Byte) : State :=
  (s.setContent f (writeAt (s.cache.files f).content pos (data.take n))).setDesc d fun r =>
    { r with iFd := .localFd f (pos + n), offset := r.offset + n }

def addBytesWritten (s : State) (d n : Nat) : State :=
  s.setDesc d fun r => { r with bytesWritten := r.bytesWritten + n }

/-- A write to the local cache file `f`, and the switch when it has grown too large. -/
def writeLocal (s : State) (path : Path) (d f pos n : Nat) (data : List Byte) (env : WriteEnv) :
    State × Ret :=
  let s := s.localWritten d f pos n data
  if maxNewlyCreatedCacheSize ≤ (s.desc d).offset then
    match s.switchToIrods parse path d f env with
    | (s, .ok) => (s.addBytesWritten d n, .ok)
    | (s, .fail e) => (s, .fail e)
  else (s.addBytesWritten d n, .ok)

/-- A write to the server object `obj`, of which the server takes `n` bytes. -/
def writeRemote (s : State) (d : Nat) (obj : Path) (pos n : Nat) (data : List Byte) : State × Ret :=
  let s := s.upload obj (writeAt ((s.uploaded obj).getD []) pos (data.take n))
  let s := s.setDesc d fun r => { r with iFd := .l1desc obj (pos + n) }
  if n = data.length then ((s.setDesc d fun r => { r with offset := r.offset + n }).addBytesWritten d n, .ok)
  else (s, .fail .ENOENT)

def ifuseWrite (s : State) (path : Path) (d : Nat) (data : List Byte) (env : WriteEnv) : State × Ret :=
  match (s.desc d).locCacheState, (s.desc d).iFd, env.written with
  | .noFileCache, .l1desc obj pos, some n => s.writeRemote d obj pos n data
  | .noFileCache, _, _ => (s, .fail .ENOENT)
  | _, .localFd f pos, some n => s.writeLocal parse path d f pos n data env
  | _, _, _ => (s, .fail .ENOENT)

def irodsWrite (s : State) (path : Path) (d : Nat) (data : List Byte) (offset : Nat) (env : WriteEnv) :
    State × Ret :=
  if !s.checkFuseDesc d then (s, .fail .EBADF)
  else
    match s.ifuseLseek d offset env.seek with
    | none => (s, .fail .ENOENT)
    | some s => if data.isEmpty then (s, .ok) else s.ifuseWrite parse path d data env

def irodsRelease (s : State) (now : Nat) (path : Path) (d : Nat) (put : Reply) : State × Ret :=
  if !s.checkFuseDesc d then (s, .fail .EBADF)
  else
    let (s, ret) := s.ifuseClose parse now path d put
    (s.freeIFuseDesc d, ret)

end State

/-! ## The machine -/

/-- `outside` is an operation on a path that hashes to no slot of the arrays: it reads and
writes what lies in front of them, and can leave anything. -/
inductive Op where
  | getattr (now : Nat) (path : Path) (reply : StatReply)
  | mknod (now : Nat) (path : Path) (env : State.MknodEnv)
  | mkdir (now : Nat) (path : Path) (first retry : Reply)
  | unlink (now : Nat) (path : Path) (first retry : Reply)
  | rmdir (now : Nat) (path : Path) (first retry : Reply)
  | rename (now : Nat) (src dest : Path) (reply : State.RenameReply)
  | open_ (now : Nat) (path : Path) (write : Bool) (env : State.OpenEnv)
  | write (now : Nat) (path : Path) (d : Nat) (data : List Byte) (offset : Nat) (env : State.WriteEnv)
  | release (now : Nat) (path : Path) (d : Nat) (put : Reply)
  | outside (now : Nat) (path : Path) (left : State) (ret : Ret)

/-- When an operation takes place. -/
def Op.now : Op → Nat
  | .getattr now .. => now
  | .mknod now .. => now
  | .mkdir now .. => now
  | .unlink now .. => now
  | .rmdir now .. => now
  | .rename now .. => now
  | .open_ now .. => now
  | .write now .. => now
  | .release now .. => now
  | .outside now .. => now

namespace Op

/-- The paths an operation is given. -/
def paths : Op → List Path
  | .getattr _ path _ => [path]
  | .mknod _ path _ => [path]
  | .mkdir _ path .. => [path]
  | .unlink _ path .. => [path]
  | .rmdir _ path .. => [path]
  | .rename _ src dest _ => [src, dest]
  | .open_ _ path .. => [path]
  | .write _ path .. => [path]
  | .release _ path .. => [path]
  | .outside _ path .. => [path]

/-- Those it can hash: its own, and the names of the newly created files that it may close. -/
def hashed (s : State) (op : Op) : List Path :=
  op.paths ++ (List.finRange numNewlyCreatedSlot).map fun i => (s.newly i).filePath

def inArrays (s : State) (op : Op) : Bool := (op.hashed s).all fun path => (hashSlot path).isSome

def isOutside : Op → Bool
  | .outside .. => true
  | _ => false

end Op

/-- One operation. FUSE writes to and releases only handles it was given, and a
released handle is gone whatever the operation returns. -/
def step (parse : Path → Option Path) (s : State) : Op → Option (State × Ret)
  | .getattr now path reply => some (s.irodsGetattr parse now path reply)
  | .mknod now path env => some (s.irodsMknod parse now path env)
  | .mkdir now path first retry => some (s.irodsMkdir parse now path first retry)
  | .unlink _ path first retry => some (s.irodsUnlink parse path first retry)
  | .rmdir _ path first retry => some (s.irodsRmdir parse path first retry)
  | .rename now src dest reply => some (s.irodsRename parse now src dest reply)
  | .open_ now path write env => some (s.irodsOpen parse now path write env)
  | .write _ path d data offset env =>
    if s.opened d then some (s.irodsWrite parse path d data offset env) else none
  | .release now path d put =>
    if s.opened d then
      let (s', ret) := s.irodsRelease parse now path d put
      some ({ s' with opened := Function.update s'.opened d false }, ret)
    else none
  | .outside _ _ left ret => some (left, ret)

/-- An operation is `outside` exactly if not every path it can hash has a slot. -/
def fuse (parse : Path → Option Path) : Machine State Op Ret :=
  ⟨fun s op => if op.inArrays s = !op.isOutside then step parse s op else none⟩

theorem step_of_fuse {parse : Path → Option Path} {s : State} {op : Op} {r : State × Ret}
    (h : (fuse parse).step s op = some r) : step parse s op = some r := by
  simp only [fuse] at h
  split at h
  case isTrue => exact h
  case isFalse => cases h

end Fuse
