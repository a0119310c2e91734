-- SUMMARY: The pool of server connections, a section under a lock a step.
import Irods.Base.Machine
import Irods.Base.Threads

/-!
# The connection pool

Threads take a connection from the list at `ConnHead`, or make one, use it and release
it; an open descriptor keeps referring to the connection it was opened with, without
using it between calls. `connManager` disposes of connections that are marked free.

A step is one section under `ConnLock` or `DescLock`, or one action of a thread between
two sections. `conn` is whether the connection is up; the connections themselves are
told apart by numbers, and one that has been freed is gone.
-/

namespace ConnPool

def maxNumConn : Nat := 10
def highNumConn : Nat := 5
def ifuseConnTimeout : Nat := 120

inductive Status where
  | free
  | inuse
  deriving DecidableEq

structure IFuseConn where
  conn : Bool
  status : Status
  inuseCnt : Int
  pendingCnt : Int
  actTime : Nat
  locked : Bool
  deriving DecidableEq

/-- What a thread does next. -/
inductive Pc where
  | idle
  /-- in `getIFuseConn`, at the top of the loop -/
  | scanning
  /-- queued in `ConnReqWaitQue`, with the `state` it waits for -/
  | waiting (state : Bool)
  /-- nothing was free -/
  | making
  /-- counted as pending, before the lock of the connection -/
  | pending (c : Nat) (new : Bool)
  /-- taken, to be put on the list -/
  | enqueuing (c : Nat)
  /-- a free one, counted as used, before its lock -/
  | locking (c : Nat)
  | holding (c : Nat)
  /-- `useIFuseConn` has found `conn` to be null -/
  | failed (c : Nat)
  /-- in `_relIFuseConn`, before each of its sections -/
  | releasing (c : Nat)
  | checking (c : Nat)
  | freeing (c : Nat)
  deriving DecidableEq

/-- `desc` is the connection of each allocated descriptor that has one; `freeCnt` is
kept by `connManager` from turn to turn. -/
structure Pool (ι : Type) where
  conns : Nat → Option IFuseConn
  connHead : List Nat
  nextConn : Nat
  desc : Nat → Option Nat
  waitQue : List ι
  freeCnt : Int

/-- `connManager` is signalling or about to sweep. -/
structure State (ι : Type) extends Pool ι where
  signalling : Bool
  pc : ι → Pc

inductive Event (ι : Type) where
  | getIFuseConn (t : ι)
  | scan (t : ι) (now : Nat)
  | wake (t : ι)
  | make (t : ι) (ok : Bool) (now : Nat)
  | take (t : ι)
  | lock (t : ι)
  | enqueue (t : ι)
  | useIFuseConn (t : ι) (d now : Nat)
  | getIFuseConnByPath (t : ι) (d now : Nat)
  | disconnect (t : ι)
  | reconnect (t : ι)
  | fillIFuseDesc (t : ι) (d : Nat)
  | unuseIFuseConn (t : ι) (now : Nat) (release : Bool)
  | freeIFuseDesc (t : ι) (d : Nat)
  | relCount (t : ι) (now : Nat)
  | relDesc (t : ι)
  | relFree (t : ι)
  | connManager (now : Nat)
  | signal
  deriving DecidableEq

/-! ## Sections -/

namespace IFuseConn

/-- What `ifuseConnect` leaves in zeroed memory. -/
def fresh : IFuseConn :=
  { conn := true, status := .free, inuseCnt := 0, pendingCnt := 0, actTime := 0, locked := false }

def useFree (now : Nat) (x : IFuseConn) : IFuseConn :=
  { x with actTime := now, status := .inuse, inuseCnt := x.inuseCnt + 1 }

/-- The first section of `_useIFuseConn`. -/
def pend (now : Nat) (x : IFuseConn) : IFuseConn :=
  { x with actTime := now, status := .inuse, pendingCnt := x.pendingCnt + 1 }

/-- Its second, after the lock of the connection. -/
def take (x : IFuseConn) : IFuseConn :=
  { x with locked := true, inuseCnt := x.inuseCnt + 1, pendingCnt := x.pendingCnt - 1 }

/-- A connection that is down is left as it is. -/
def unuse (now : Nat) (x : IFuseConn) : IFuseConn :=
  if x.conn then { x with actTime := now, inuseCnt := x.inuseCnt - 1, locked := false } else x

def isFree (x : IFuseConn) : Bool := decide (x.status = .free)

def expired (now : Nat) (x : IFuseConn) : Bool := decide (ifuseConnTimeout < now - x.actTime) && x.isFree

end IFuseConn

variable {ι : Type}

namespace Pool

def setConn (s : Pool ι) (c : Nat) (f : IFuseConn → IFuseConn) : Pool ι :=
  { s with conns := Function.update s.conns c ((s.conns c).map f) }

/-- The first connection on the list with the property. -/
def findConn (s : Pool ι) (p : IFuseConn → Bool) : Option Nat :=
  s.connHead.find? fun c => (s.conns c).any p

/-- One that is free, for `getIFuseConn`. -/
def findFree (s : Pool ι) : Option Nat := s.findConn fun x => x.isFree && x.conn

/-- One that is not in use, when there are too many to make another. -/
def findUnused (s : Pool ι) : Option Nat :=
  s.findConn fun x => decide (x.inuseCnt = 0 ∧ x.pendingCnt = 0) && x.conn

/-- `malloc` and `ifuseConnect`. -/
def connect (s : Pool ι) : Pool ι :=
  { s with conns := Function.update s.conns s.nextConn (some IFuseConn.fresh), nextConn := s.nextConn + 1 }

/-- Disconnect and free. -/
def dispose (s : Pool ι) (cs : List Nat) : Pool ι :=
  { s with
    conns := fun c => if c ∈ cs then none else s.conns c
    connHead := s.connHead.filter fun c => c ∉ cs }

/-- The connections on the list go down. -/
def disconnectAll (s : Pool ι) : Pool ι :=
  { s with
    conns := fun c =>
      if c ∈ s.connHead then (s.conns c).map fun x => { x with conn := false }
      else s.conns c }

/-- The first free ones, `excess` many. -/
def dropFree (free : Nat → Bool) : Nat → List Nat → List Nat
  | 0, _ => []
  | _ + 1, [] => []
  | excess + 1, c :: l => if free c then c :: dropFree free excess l else dropFree free (excess + 1) l

/-- Whether an allocated descriptor refers to the connection; `IFuseDesc` has 512, from 3 on. -/
def iFuseConnInuse (s : Pool ι) (c : Nat) : Bool := (List.range' 3 509).any fun d => s.desc d == some c

def expired (s : Pool ι) (now : Nat) : List Nat :=
  s.connHead.filter fun c => (s.conns c).any (IFuseConn.expired now)

def excess (s : Pool ι) : List Nat :=
  dropFree (fun c => (s.conns c).any IFuseConn.isFree) (s.connHead.length - highNumConn) s.connHead

/-- One turn of `connManager` up to the wait queue. `freeCnt` is not reset. -/
def sweep (s : Pool ι) (now : Nat) : Pool ι :=
  let freeCnt := s.freeCnt + (s.connHead.countP fun c => (s.conns c).any IFuseConn.isFree : Int)
  let s := s.dispose (s.expired now)
  let connCnt := s.connHead.length
  { s.dispose s.excess with
    freeCnt := if freeCnt < (maxNumConn : Int) - connCnt then (maxNumConn : Int) - connCnt else freeCnt }

end Pool

namespace State

def goto [DecidableEq ι] (s : State ι) (t : ι) (p : Pc) : State ι := { s with pc := Function.update s.pc t p }

def setConn (s : State ι) (c : Nat) (f : IFuseConn → IFuseConn) : State ι :=
  { s with toPool := s.toPool.setConn c f }

end State

/-- `_useIFuseConn` on a connection that is up. -/
def use {ι : Type} [DecidableEq ι] (s : State ι) (t : ι) (c now : Nat) : State ι :=
  (s.setConn c (IFuseConn.pend now)).goto t (.pending c false)

def step {ι : Type} [DecidableEq ι] (s : State ι) : Event ι → Option (State ι)
  | .getIFuseConn t =>
    if s.pc t = .idle then some (s.goto t .scanning) else none
  | .scan t now =>
    if s.pc t = .scanning then
      match s.findFree with
      | some c => some ((s.setConn c (IFuseConn.useFree now)).goto t (.locking c))
      | none =>
        if maxNumConn ≤ s.connHead.length then
          match s.findUnused with
          | some c => some (use s t c now)
          | none => some ({ s with waitQue := s.waitQue ++ [t] }.goto t (.waiting false))
        else some (s.goto t .making)
    else none
  | .wake t =>
    if s.pc t = .waiting true then some (s.goto t .scanning) else none
  | .make t ok now =>
    if s.pc t = .making then
      if ok then
        some (({ s with toPool := s.connect }.setConn s.nextConn (IFuseConn.pend now)).goto t
          (.pending s.nextConn true))
      else some (s.goto t .idle)
    else none
  | .take t =>
    match s.pc t with
    | .pending c new =>
      if (s.conns c).any fun x => !x.locked then
        some ((s.setConn c IFuseConn.take).goto t (if new then .enqueuing c else .holding c))
      else none
    | _ => none
  | .lock t =>
    match s.pc t with
    | .locking c =>
      if (s.conns c).any fun x => !x.locked then
        some ((s.setConn c fun x => { x with locked := true }).goto t (.holding c))
      else none
    | _ => none
  | .enqueue t =>
    match s.pc t with
    | .enqueuing c => some ({ s with connHead := c :: s.connHead }.goto t (.holding c))
    | _ => none
  | .useIFuseConn t d now =>
    if s.pc t = .idle then
      match s.desc d with
      | some c =>
        match s.conns c with
        | some x => some (if x.conn then use s t c now else s.goto t (.failed c))
        | none => none
      | none => none
    else none
  | .getIFuseConnByPath t d now =>
    -- without a descriptor of the path it goes on as `getIFuseConn`
    if s.pc t = .idle then
      match s.desc d with
      | some c =>
        match s.conns c with
        | some x => some (if x.conn then use s t c now else s.goto t .scanning)
        | none => none
      | none => some (s.goto t .scanning)
    else none
  | .disconnect t =>
    match s.pc t with
    | .holding c => some (s.setConn c fun x => { x with conn := false })
    | _ => none
  | .reconnect t =>
    match s.pc t with
    | .holding c => some (s.setConn c fun x => { x with conn := true })
    | _ => none
  | .fillIFuseDesc t d =>
    match s.pc t with
    | .holding c =>
      if 3 ≤ d ∧ d < 512 ∧ s.desc d = none then some { s with desc := Function.update s.desc d (some c) } else none
    | _ => none
  | .unuseIFuseConn t now release =>
    match s.pc t with
    | .holding c =>
      some ((s.setConn c (IFuseConn.unuse now)).goto t (if release then .releasing c else .idle))
    | .failed c => some ((s.setConn c (IFuseConn.unuse now)).goto t .idle)
    | _ => none
  | .freeIFuseDesc t d =>
    if s.pc t = .idle then
      match s.desc d with
      | some c => some ({ s with desc := Function.update s.desc d none }.goto t (.releasing c))
      | none => none
    else none
  | .relCount t now =>
    match s.pc t with
    | .releasing c =>
      let s' := s.setConn c fun x => { x with actTime := now }
      if (s.conns c).any fun x => !x.conn || decide (x.pendingCnt + x.inuseCnt ≤ 0) then
        some (s'.goto t (.checking c))
      else some (s'.goto t .idle)
    | _ => none
  | .relDesc t =>
    match s.pc t with
    | .checking c => some (s.goto t (if s.iFuseConnInuse c then .idle else .freeing c))
    | _ => none
  | .relFree t =>
    match s.pc t with
    | .freeing c => some ((s.setConn c fun x => { x with status := .free }).goto t .idle)
    | _ => none
  | .connManager now => if s.signalling then none else some { s with toPool := s.sweep now, signalling := true }
  | .signal =>
    if s.signalling then
      match s.waitQue with
      | t :: q =>
        if 0 < s.freeCnt then
          some ({ s with waitQue := q, freeCnt := s.freeCnt - 1 }.goto t (.waiting true))
        else some { s with signalling := false }
      | [] => some { s with signalling := false }
    else none

def machine (ι : Type) [DecidableEq ι] : Machine (State ι) (Event ι) Unit :=
  ⟨fun s e => (step s e).map fun s' => (s', ())⟩

def init (ι : Type) : State ι :=
  { conns := fun _ => none, connHead := [], nextConn := 0, desc := fun _ => none, waitQue := [],
    freeCnt := 0, signalling := false, pc := fun _ => .idle }

end ConnPool
