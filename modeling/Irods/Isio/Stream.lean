-- SUMMARY: The buffered isio layer and the calls on one stream.
import Irods.Api.DataObj
import Irods.Base.CInt
import Irods.Base.Machine

open ByteFile

/-!
# The isio stream

`lib/isio/src/isio.c` keeps one buffer per open iRODS file and uses it both for
prefetched bytes and for pending writes. `CacheInfo` is its `cacheInfo[i]`, with
`ptr` an offset from `base`; only the initialised part of the buffer is kept in
`base`. The remote calls succeed, with the one exception of a seek to a negative
position, which leaves the call without a result.

A long read makes the memory of its caller the buffer, and later calls go on using it.
So `memory`, which the application passed to its last `irodsfread`, is part of the state:
its owner can look at it and store to it between the calls. After the application has
freed it, that is whoever gets it next.
-/

namespace Isio

def initialBufSize : Nat := 65536
def maxBufSize : Nat := 2097152

structure CacheInfo where
  base : List Byte
  bufferSize : Nat
  ptr : Nat
  count : Int
  usingUsersBuffer : Bool
  written : Nat
  deriving DecidableEq

/-- An open stream: its cache, the server's side of its descriptor, and the memory of
the application. -/
structure Stream where
  cache : CacheInfo
  obj : OpenedDataObj
  memory : List Byte
  deriving DecidableEq

namespace Stream

/-- What is at `base`: bytes of the library's own, or those of the application. -/
def buffer (s : Stream) : List Byte := if s.cache.usingUsersBuffer then s.memory else s.cache.base

def setBuffer (s : Stream) (bs : List Byte) : Stream :=
  if s.cache.usingUsersBuffer then { s with memory := bs } else { s with cache := { s.cache with base := bs } }

end Stream

/-- The cache `isioFileOpen` sets up. -/
def isioFileOpen (obj : OpenedDataObj) : Stream :=
  { cache := { base := [], bufferSize := initialBufSize, ptr := 0, count := 0,
               usingUsersBuffer := false, written := 0 }
    obj := obj
    memory := [] }

/-! ## Flush and fill -/

def isioFlush (s : Stream) : Stream :=
  if 0 < s.cache.written then
    { s with
      cache := { s.cache with ptr := 0, written := 0 }
      obj := s.obj.rcDataObjWrite (s.buffer.take s.cache.written) }
  else s

def isioFillBuffer (s : Stream) : Stream :=
  let (obj, bs) := s.obj.rcDataObjRead s.cache.bufferSize
  let s := s.setBuffer (writeAt s.buffer 0 bs)
  { s with cache := { s.cache with ptr := 0, count := bs.length }, obj := obj }

def isioFileSeek (s : Stream) (offset : Int) (whence : Whence) : Option Stream :=
  (s.obj.rcDataObjLseek offset whence).map fun obj => { s with obj := obj }

/-! ## Read -/

/-- Copy everything that is prefetched; the request wants more than that. -/
def Stream.drain (s : Stream) : Stream × List Byte :=
  if 0 < s.cache.count then
    ({ s with cache := { s.cache with ptr := s.cache.ptr + s.cache.count.toNat, count := 0 } },
      readAt s.buffer s.cache.ptr s.cache.count.toNat)
  else (s, [])

/-- The size of the buffer a read of `maxToRead` bytes wants, as an `int`. -/
def readBufSize (maxToRead : Nat) : Int := int32 (2 * maxToRead + 8)

/-- The size of the present buffer; one of the caller's is not kept for the next read. -/
def CacheInfo.ownSize (c : CacheInfo) : Nat := if c.usingUsersBuffer then 0 else c.bufferSize

/-- Choose the buffer for a refill. `buffer` is what the caller's memory holds at
this point: the bytes that `drain` has copied there. -/
def Stream.resizeForRead (s : Stream) (maxToRead : Nat) (buffer : List Byte) : Stream :=
  if (s.cache.ownSize : Int) < readBufSize maxToRead then
    if readBufSize maxToRead ≤ maxBufSize then
      { s with cache := { s.cache with
          base := [], bufferSize := (readBufSize maxToRead).toNat, usingUsersBuffer := false, ptr := 0, count := 0 } }
    else
      { s with
        cache := { s.cache with
          base := [], bufferSize := maxToRead, usingUsersBuffer := true, ptr := 0, count := 0 }
        memory := buffer }
  else { s with cache := { s.cache with bufferSize := s.cache.ownSize } }

/-- Hand out what a refill brought, after the bytes in `head`. In the caller's own
buffer the bytes are already in place. -/
def isioDeliver (s : Stream) (maxToRead : Nat) (head : List Byte) : Stream × List Byte :=
  if s.cache.usingUsersBuffer then
    ({ s with cache := { s.cache with count := 0 } }, readAt s.memory 0 s.cache.count.toNat)
  else
    let toMove := min s.cache.count.toNat (maxToRead - head.length)
    ({ s with cache := { s.cache with ptr := s.cache.ptr + toMove
                                      count := s.cache.count - toMove } },
      head ++ readAt s.cache.base s.cache.ptr toMove)

def isioRefill (s : Stream) (maxToRead : Nat) (head : List Byte) : Stream × List Byte :=
  isioDeliver (isioFillBuffer (s.resizeForRead maxToRead head)) maxToRead head

def isioFileRead (s : Stream) (maxToRead : Nat) : Stream × List Byte :=
  let s := isioFlush s
  if 0 < s.cache.count ∧ (maxToRead : Int) ≤ s.cache.count then
    ({ s with cache := { s.cache with ptr := s.cache.ptr + maxToRead
                                      count := s.cache.count - maxToRead } },
      readAt s.buffer s.cache.ptr maxToRead)
  else
    let (s, head) := s.drain
    isioRefill s maxToRead head

/-! ## Write -/

/-- Before a write, discard prefetched bytes and go back to where the application
thinks it is. -/
def isioUnread (s : Stream) : Option Stream :=
  if 0 < s.cache.count then
    (isioFileSeek s (-s.cache.count) .seekCur).map fun s =>
      { s with cache := { s.cache with ptr := 0, count := 0 } }
  else some s

/-- Append `d` to the pending writes, at `ptr`. -/
def Stream.store (s : Stream) (d : List Byte) : Stream :=
  let t := s.setBuffer (writeAt s.buffer s.cache.ptr d)
  { t with cache := { t.cache with ptr := s.cache.ptr + d.length, written := s.cache.written + d.length } }

/-- The size of the buffer a write of `countToWrite` bytes wants. -/
def writeBufSize (countToWrite : Nat) : Nat := min (2 * countToWrite + 8) maxBufSize

def CacheInfo.resizeForWrite (c : CacheInfo) (countToWrite : Nat) : CacheInfo :=
  if c.bufferSize < writeBufSize countToWrite then
    { c with base := [], bufferSize := writeBufSize countToWrite, usingUsersBuffer := false,
             ptr := 0 }
  else c

/-- Does a write of `n` bytes fit behind the pending ones? -/
def CacheInfo.Fits (c : CacheInfo) (n : Nat) : Prop := (n : Int) < c.bufferSize - c.written

instance (c : CacheInfo) (n : Nat) : Decidable (c.Fits n) :=
  inferInstanceAs (Decidable ((n : Int) < c.bufferSize - c.written))

def isioFileWrite (s : Stream) (d : List Byte) : Option Stream :=
  (isioUnread s).map fun s =>
    if s.cache.Fits d.length then s.store d
    else
      let s := isioFlush s
      if maxBufSize < d.length then { s with obj := s.obj.rcDataObjWrite d }
      else
        let s := Stream.store { s with cache := s.cache.resizeForWrite d.length } d
        { s with cache := { s.cache with count := int32 (s.cache.count - d.length) } }

/-! ## The calls on one stream -/

/-- The calls an application can make, and what can happen in between: the owner of the
memory that was passed to the last `irodsfread` stores to it with `userStore` and looks at
it with `userLook`. Sizes are `itemsize * nitems`. -/
inductive Call where
  | irodsfread (size : Nat)
  | irodsfwrite (d : List Byte)
  | irodsfseek (offset : Int) (whence : Whence)
  | irodsfgetc
  | irodsfputc (inchar : Int)
  | irodsfflush
  | userStore (off : Nat) (d : List Byte)
  | userLook (off n : Nat)
  deriving DecidableEq

/-- What a call returns; `irodsfflush` returns no data. -/
inductive Reply where
  | bytes (bs : List Byte)
  | char (c : Int)
  | count (n : Nat)
  | done
  deriving DecidableEq

/-- The low-order byte of an `int`. -/
def lowByte (inchar : Int) : Byte := UInt8.ofNat (inchar % 256).toNat

/-- `isioFileGetc`: the byte read, or `EOF`. -/
def getcReply : List Byte → Reply
  | [] => .char (-1)
  | b :: _ => .char b.toNat

/-- The bytes of a read have been copied to the caller, unless they were read into its memory. -/
def Stream.handOver (s : Stream) (bs : List Byte) : Stream :=
  if s.cache.usingUsersBuffer then s else { s with memory := bs }

/-- One call on the buffered stream. `irodsfgetc` reads into a variable of its own, too short to
become the buffer. -/
def step (s : Stream) : Call → Option (Stream × Reply)
  | .irodsfread size =>
    let (s', bs) := isioFileRead s size
    some (s'.handOver bs, .bytes bs)
  | .irodsfwrite d => (isioFileWrite s d).map fun s' => (s', .count d.length)
  | .irodsfseek offset whence => (isioFileSeek s offset whence).map fun s' => (s', .done)
  | .irodsfgetc =>
    let (s', bs) := isioFileRead s 1
    some (s', getcReply bs)
  | .irodsfputc inchar => (isioFileWrite s [lowByte inchar]).map fun s' => (s', .count 1)
  | .irodsfflush => some (isioFlush s, .done)
  | .userStore off d => some ({ s with memory := writeAt s.memory off d }, .done)
  | .userLook off n => some (s, .bytes (readAt s.memory off n))

def buffered : Machine Stream Call Reply := ⟨step⟩

/-- `irodsfclose`: flush and close; what is left is the object's content. -/
def irodsfclose (s : Stream) : List Byte := (isioFlush s).obj.content

/-- A descriptor that is used without a buffer, and the memory of the application. -/
structure Direct where
  obj : OpenedDataObj
  memory : List Byte

/-- One call passed directly to the server: the source's code "without caching". -/
def directStep (r : Direct) : Call → Option (Direct × Reply)
  | .irodsfread size =>
    let (obj, bs) := r.obj.rcDataObjRead size
    some (⟨obj, bs⟩, .bytes bs)
  | .irodsfwrite d => some ({ r with obj := r.obj.rcDataObjWrite d }, .count d.length)
  | .irodsfseek offset whence =>
    (r.obj.rcDataObjLseek offset whence).map fun obj => ({ r with obj := obj }, .done)
  | .irodsfgetc =>
    let (obj, bs) := r.obj.rcDataObjRead 1
    some ({ r with obj := obj }, getcReply bs)
  | .irodsfputc inchar => some ({ r with obj := r.obj.rcDataObjWrite [lowByte inchar] }, .count 1)
  | .irodsfflush => some (r, .done)
  | .userStore off d => some ({ r with memory := writeAt r.memory off d }, .done)
  | .userLook off n => some (r, .bytes (readAt r.memory off n))

def direct : Machine Direct Call Reply := ⟨directStep⟩

end Isio
