-- SUMMARY: Locking and unlocking of ConnLock, one operation a step.
import Irods.Fuse.ConnPool

/-!
# ConnLock

The functions of the connection pool with every lock and unlock of `ConnLock` as a step
of its own. A call is a walk through the points of `Pc`: before a lock, in a section,
before an unlock, and between sections.

`_useIFuseConn` is called with the lock held and returns without it, except when it
finds `conn` to be null. The loop in which `getIFuseConn` waits unlocks on every turn.
`disconnectAll` locks only.
-/

namespace ConnLock

open ConnPool (IFuseConn Pool maxNumConn)

/-- What is done with the lock held. `new` is set for a connection that is not on the
list yet, `rel` for `relIFuseConn`. -/
inductive Section where
  | scan
  | pend (c : Nat) (new : Bool)
  | take (c : Nat) (new : Bool)
  | enqueue (c : Nat)
  | unuse (c : Nat) (rel : Bool)
  | relCount (c : Nat)
  | relFree (c : Nat)
  | count
  | disconnectAll
  | sweep
  | signal
  deriving DecidableEq

/-- What is done without it. -/
inductive Between where
  | idle
  | relock (p : Section)
  | lockFree (c : Nat)
  | sleep
  | making
  | useTest (c : Nat) (new : Bool)
  | lockConn (c : Nat) (new : Bool)
  | unuseTest (c : Nat) (rel : Bool)
  | unlockConn (c : Nat) (rel : Bool)
  | relDesc (c : Nat)
  deriving DecidableEq

inductive Pc where
  | lock (p : Section)
  | inside (p : Section)
  | unlock (q : Between)
  | outside (q : Between)
  deriving DecidableEq

/-- `holder` is the thread that locked `ConnLock` last, and `woken` the `state` that a
waiting thread looks at. -/
structure State (ι : Type) extends Pool ι where
  holder : Option ι
  woken : ι → Bool
  pc : ι → Pc

inductive Call where
  | getIFuseConn
  | getIFuseConnByPath (d : Nat)
  | useIFuseConn (c : Nat)
  | unuseIFuseConn (c : Nat)
  | relIFuseConn (c : Nat)
  | disconnectAll
  | connManager
  deriving DecidableEq

/-- A thread that is outside calls a function or goes on; `ok` is whether a connection
is made. A connection can go down or come up at any time. Between its calls a thread can
leave a connection in a descriptor, and take it from there again: `freeIFuseDesc` goes on
in `_relIFuseConn`. -/
inductive Event (ι : Type) where
  | call (t : ι) (f : Call)
  | go (t : ι) (now : Nat) (ok : Bool)
  | setUp (c : Nat) (up : Bool)
  | fillIFuseDesc (t : ι) (c d : Nat)
  | freeIFuseDesc (t : ι) (d : Nat)
  deriving DecidableEq

section Step

variable {ι : Type} [DecidableEq ι]

def State.goto (s : State ι) (t : ι) (p : Pc) : State ι := { s with pc := Function.update s.pc t p }

def State.onPool (s : State ι) (pool : Pool ι) : State ι := { s with toPool := pool }

def isUp (s : Pool ι) (c : Nat) : Bool := (s.conns c).any IFuseConn.conn

def isUnlocked (s : Pool ι) (c : Nat) : Bool := (s.conns c).any fun x => !x.locked

def State.setDesc (s : State ι) (d : Nat) (c : Option Nat) : State ι :=
  { s with desc := Function.update s.desc d c }

/-- Where each function starts. `getIFuseConnByPath` has found the first descriptor of the
path, and still holds `DescLock` when it takes `ConnLock`. -/
def start (s : State ι) : Call → Pc
  | .getIFuseConn => .lock .scan
  | .getIFuseConnByPath d =>
    match s.desc d with
    | some c => if isUp s.toPool c then .lock (.pend c false) else .lock .scan
    | none => .lock .scan
  | .useIFuseConn c => .outside (.useTest c false)
  | .unuseIFuseConn c => .outside (.unuseTest c false)
  | .relIFuseConn c => .outside (.unuseTest c true)
  | .disconnectAll => .lock .disconnectAll
  | .connManager => .lock .sweep

/-- A section, run with the lock held. -/
def runSection (s : State ι) (t : ι) (now : Nat) : Section → State ι
  | .scan =>
    match s.findFree with
    | some c => (s.onPool (s.setConn c (IFuseConn.useFree now))).goto t (.unlock (.lockFree c))
    | none =>
      if maxNumConn ≤ s.connHead.length then
        match s.findUnused with
        | some c => s.goto t (.inside (.pend c false))
        | none =>
          { s with waitQue := s.waitQue ++ [t], woken := Function.update s.woken t false }.goto t (.unlock .sleep)
      else s.goto t (.unlock .making)
  | .pend c new =>
    if isUp s.toPool c then
      (s.onPool (s.setConn c (IFuseConn.pend now))).goto t (.unlock (.lockConn c new))
    -- `USER__NULL_INPUT_ERR` is returned with the lock held
    else s.goto t (if new then .lock (.enqueue c) else .outside .idle)
  | .take c new =>
    (s.onPool (s.setConn c IFuseConn.take)).goto t (.unlock (if new then .relock (.enqueue c) else .idle))
  | .enqueue c => { s with connHead := c :: s.connHead }.goto t (.unlock .idle)
  | .unuse c rel =>
    (s.onPool (s.setConn c fun x => { x with actTime := now, inuseCnt := x.inuseCnt - 1 })).goto t
      (.unlock (.unlockConn c rel))
  | .relCount c =>
    let s' := s.onPool (s.setConn c fun x => { x with actTime := now })
    if (s.conns c).any fun x => !x.conn || decide (x.pendingCnt + x.inuseCnt ≤ 0) then
      s'.goto t (.unlock (.relDesc c))
    else s'.goto t (.unlock (.relock .count))
  | .relFree c =>
    (s.onPool (s.setConn c fun x => { x with status := .free })).goto t (.unlock (.relock .count))
  | .count => s.goto t (.unlock .idle)
  | .disconnectAll => (s.onPool s.disconnectAll).goto t (.outside .idle)
  | .sweep => (s.onPool (s.sweep now)).goto t (.inside .signal)
  | .signal =>
    match s.waitQue with
    | u :: q =>
      if 0 < s.freeCnt then
        { s with waitQue := q, freeCnt := s.freeCnt - 1, woken := Function.update s.woken u true }.goto t
          (.unlock (.relock .signal))
      else s.goto t (.unlock .idle)
    | [] => s.goto t (.unlock .idle)

/-- What a thread does between its sections; a lock of a connection may be waited for. -/
def runBetween (s : State ι) (t : ι) (ok : Bool) : Between → Option (State ι)
  | .idle => none
  | .relock p => some (s.goto t (.lock p))
  | .lockFree c =>
    if isUnlocked s.toPool c then
      some ((s.onPool (s.setConn c fun x => { x with locked := true })).goto t (.outside .idle))
    else none
  -- the wait is over: it was signalled, or timed out
  | .sleep => some (s.goto t (if s.woken t then .lock .scan else .unlock .sleep))
  | .making =>
    if ok then some ((s.onPool s.connect).goto t (.outside (.useTest s.nextConn true)))
    else some (s.goto t (.outside .idle))
  | .useTest c new =>
    some (s.goto t (if isUp s.toPool c then .lock (.pend c new)
      else if new then .lock (.enqueue c) else .outside .idle))
  | .lockConn c new =>
    if isUnlocked s.toPool c then
      some ((s.onPool (s.setConn c fun x => { x with locked := true })).goto t (.lock (.take c new)))
    else none
  | .unuseTest c rel =>
    some (s.goto t (if isUp s.toPool c then .lock (.unuse c rel)
      else if rel then .lock (.relCount c) else .outside .idle))
  | .unlockConn c rel =>
    some ((s.onPool (s.setConn c fun x => { x with locked := false })).goto t
      (if rel then .lock (.relCount c) else .outside .idle))
  | .relDesc c => some (s.goto t (.lock (if s.iFuseConnInuse c then .count else .relFree c)))

def step (s : State ι) : Event ι → Option (State ι)
  | .call t f =>
    if s.pc t = .outside .idle then some (s.goto t (start s f)) else none
  | .go t now ok =>
    match s.pc t with
    | .lock p => if s.holder = none then some ({ s with holder := some t }.goto t (.inside p)) else none
    | .inside p => some (runSection s t now p)
    | .unlock q => some ({ s with holder := none }.goto t (.outside q))
    | .outside q => runBetween s t ok q
  | .setUp c up => some (s.onPool (s.setConn c fun x => { x with conn := up }))
  | .fillIFuseDesc t c d =>
    if s.pc t = .outside .idle ∧ 3 ≤ d ∧ d < 512 ∧ s.desc d = none then some (s.setDesc d (some c)) else none
  | .freeIFuseDesc t d =>
    if s.pc t = .outside .idle then
      match s.desc d with
      | some c => some ((s.setDesc d none).goto t (.lock (.relCount c)))
      | none => none
    else none

end Step

def machine (ι : Type) [DecidableEq ι] : Machine (State ι) (Event ι) Unit :=
  ⟨fun s e => (step s e).map fun s' => (s', ())⟩

def init (ι : Type) : State ι :=
  { conns := fun _ => none, connHead := [], nextConn := 0, desc := fun _ => none, waitQue := [], freeCnt := 0
    holder := none, woken := fun _ => false, pc := fun _ => .outside .idle }

end ConnLock
