-- SUMMARY: Seeking, reading and writing through one FUSE descriptor.
import Irods.Api.DataObj
import Irods.Base.Machine
import Irods.Fuse.PathCache

open ByteFile
open Fuse (ReadCacheState)

/-!
# The file behind a descriptor

`ifuseLseek`, `ifuseRead` and `ifuseWrite` on one allocated descriptor. `iFd` is a local
file descriptor or an open object on the server, as `locCacheState` says, and `offset`
is where the descriptor believes the file is positioned. A write that takes the local
cache file to `MAX_NEWLY_CREATED_CACHE_SIZE` copies it to the server and goes on there.

What the calls of the system and of the server report, and whether the connection is
there each time it is looked at, are arguments. A call that fails changes nothing.
-/

namespace DescFile

def maxNewlyCreatedCacheSize : Int := 4 * 1024 * 1024

def ENOENT : Int := 2

/-- What a call reports: the bytes it transferred, or the status `-(e + 1)`. -/
abbrev Reply := Except Nat Nat

def failure (e : Nat) : Int := -(e + 1)

def getErrno (irodError : Int) : Int := (irodError.tmod 1000).natAbs

theorem getErrno_nonneg (irodError : Int) : 0 ≤ getErrno irodError := Int.natCast_nonneg _

/-- What is returned for a status of the server. -/
def errnoOf (status : Int) : Int := if 0 < getErrno status then -getErrno status else -ENOENT

theorem errnoOf_neg (status : Int) : errnoOf status < 0 := by
  simp only [errnoOf]
  split
  · omega
  · simp [ENOENT]

/-- What is returned for `errno`. -/
def errnoRet (errno : Nat) : Int := if errno ≠ 0 then -errno else -1

/-- The descriptor, the local files and the objects it has open, and whether the path
cache has an entry with the local file. -/
structure State where
  iFd : Nat
  locCacheState : ReadCacheState
  offset : Int
  newFlag : Bool
  bytesWritten : Int
  fds : Nat → Option OpenedDataObj
  l1descs : Nat → Option OpenedDataObj
  cached : Bool

/-- `conn` is whether `iFuseConn->conn` is set. -/
structure SeekEnv where
  conn : Bool
  reply : Option Nat

structure ReadEnv where
  conn : Bool
  reply : Reply
  errno : Nat

/-- The replies to the write itself and to the steps of the switch. `read` is what the
local file gave, with `rest` in the part of the buffer that it did not fill. -/
structure WriteEnv where
  conn : Bool
  reply : Reply
  errno : Nat
  createConn : Bool
  create : Reply
  fstat : Bool
  read : Reply
  rest : Nat → Byte
  putConn : Bool
  put : Reply
  seek : SeekEnv

inductive Call where
  | lseek (offset : Int) (env : SeekEnv)
  | read (size : Nat) (env : ReadEnv)
  | write (data : List Byte) (env : WriteEnv)

namespace State

/-- The open file that `iFd` and `locCacheState` describe. -/
def handle (s : State) : Option OpenedDataObj :=
  if s.locCacheState = .noFileCache then s.l1descs s.iFd else s.fds s.iFd

def setHandle (s : State) (r : OpenedDataObj) : State :=
  if s.locCacheState = .noFileCache then { s with l1descs := Function.update s.l1descs s.iFd (some r) }
  else { s with fds := Function.update s.fds s.iFd (some r) }

/-! ## Seeking and reading -/

/-- `rcDataObjLseek` or `lseek`, with its status. -/
def seekFile (s : State) (offset : Int) (env : SeekEnv) : State × Int :=
  if s.locCacheState = .noFileCache ∧ env.conn = false then (s, -ENOENT)
  else
    match s.handle.bind fun r => r.rcDataObjLseek offset .seekSet, env.reply with
    | some r, none => (s.setHandle r, 0)
    | _, some e => (s, failure e)
    | none, none => (s, -1)

/-- The seek is left out when the offset is the one believed in. -/
def ifuseLseek (s : State) (offset : Int) (env : SeekEnv) : State × Int :=
  if s.offset = offset then (s, 0)
  else
    let (s, status) := s.seekFile offset env
    if status < 0 then (s, status) else ({ s with offset := offset }, 0)

/-- `rcDataObjRead` or `read` of a file that is open. -/
def readFile (s : State) (size : Nat) (reply : Reply) : Option (State × Nat) :=
  match s.handle, reply with
  | some r, .ok n =>
    let (r, bs) := r.rcDataObjRead (min n size)
    some (s.setHandle r, bs.length)
  | _, _ => none

/-- The failure of a call, or -1 for a file that is not open. -/
def readFailure (reply : Reply) : Int :=
  match reply with
  | .error e => failure e
  | .ok _ => -1

def addOffset (s : State) (status : Int) : State := { s with offset := s.offset + status }

def ifuseRead (s : State) (size : Nat) (env : ReadEnv) : State × Int :=
  if s.locCacheState = .noFileCache then
    if env.conn then
      match s.readFile size env.reply with
      | some (s, n) => (s.addOffset n, n)
      | none => (s, errnoOf (readFailure env.reply))
    -- the status goes on to the offset
    else (s.addOffset (-ENOENT), -ENOENT)
  else
    match s.readFile size env.reply with
    | some (s, n) => (s.addOffset n, n)
    | none => (s, errnoRet env.errno)

/-! ## Writing -/

/-- `rcDataObjWrite` or `write` of a file that is open: the first bytes of `data`. -/
def writeFile (s : State) (data : List Byte) (reply : Reply) : Option (State × Nat) :=
  match s.handle, reply with
  | some r, .ok n => some (s.setHandle (r.rcDataObjWrite (data.take n)), (data.take n).length)
  | _, _ => none

/-- Close the local file and drop the entry of the path cache. -/
def dropLocal (s : State) : State := { s with fds := Function.update s.fds s.iFd none, cached := false }

/-- The buffer the local file is read into. -/
def mybuf (content : List Byte) (n : Nat) (rest : Nat → Byte) : List Byte :=
  content.take n ++ (List.range (content.length - n)).map rest

/-- The object with what could be written to it is the file from now on. -/
def toObject (s : State) (irodsFd : Nat) (buf : List Byte) : State :=
  { s.dropLocal with
    l1descs := Function.update s.l1descs irodsFd
      (some (({ content := [], pos := 0 } : OpenedDataObj).rcDataObjWrite buf))
    iFd := irodsFd, locCacheState := .noFileCache, newFlag := false }

/-- What `dataObjCreateByFusePath` leaves. -/
def createObject (s : State) (irodsFd : Nat) : State :=
  { s with l1descs := Function.update s.l1descs irodsFd (some { content := [], pos := 0 }) }

/-- Everything from the check of the offset on, up to the last seek: the state and the
error, if it returns one. -/
def copyToIrods (s : State) (file : OpenedDataObj) (env : WriteEnv) : State × Option Int :=
  match if env.createConn then env.create else .error 1 with
  | .error _ => (s.dropLocal, some (-ENOENT))
  | .ok irodsFd =>
    let s := s.createObject irodsFd
    if env.fstat = false then (s.dropLocal, some (errnoRet env.errno))
    else
      match env.read with
      | .error _ => (s.dropLocal, some (errnoRet env.errno))
      | .ok n =>
        let buf := mybuf file.content n env.rest
        match if env.putConn then env.put else .error 1 with
        | .error e => ({ s.dropLocal with iFd := 0 }, some (errnoOf (failure e)))
        | .ok k => (s.toObject irodsFd (buf.take k), none)

/-- Seek to the right offset. -/
def seekBack (s : State) (env : SeekEnv) : State × Option Int :=
  let (s', status) := { s with offset := 0 }.ifuseLseek s.offset env
  (s', if status < 0 then some (errnoOf status) else none)

/-- The rest of `ifuseWrite` after a local write of `n` bytes. -/
def afterLocalWrite (s : State) (n : Nat) (env : WriteEnv) : State × Int :=
  match s.handle with
  | none => (s, n)
  | some file =>
    if s.offset < maxNewlyCreatedCacheSize then ({ s with bytesWritten := s.bytesWritten + n }, n)
    else
      match s.copyToIrods file env with
      | (s, some ret) => (s, ret)
      | (s, none) =>
        match s.seekBack env.seek with
        | (s, some ret) => (s, ret)
        | (s, none) => ({ s with bytesWritten := s.bytesWritten + n }, n)

def ifuseWrite (s : State) (data : List Byte) (env : WriteEnv) : State × Int :=
  if s.locCacheState = .noFileCache then
    if env.conn then
      match s.writeFile data env.reply with
      | none => (s, errnoOf (readFailure env.reply))
      | some (s, n) =>
        -- a short write is an error, and the offset stays
        if n ≠ data.length then (s, -ENOENT)
        else ({ s.addOffset n with bytesWritten := s.bytesWritten + n }, n)
    else (s, -ENOENT)
  else
    match s.writeFile data env.reply with
    | none => (s, errnoRet env.errno)
    | some (s, n) => (s.addOffset n).afterLocalWrite n env

def step (s : State) : Call → State × Int
  | .lseek offset env => s.ifuseLseek offset env
  | .read size env => s.ifuseRead size env
  | .write data env => s.ifuseWrite data env

end State

def machine : Machine State Call Int := ⟨fun s c => some (s.step c)⟩

end DescFile
