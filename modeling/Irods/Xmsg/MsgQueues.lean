-- SUMMARY: The queues of messages: sending, receiving and clearing.
import Irods.Xmsg.TicketQueue

/-!
# Message queues

Every `irodsXmsg` is on the global queue `XmsgQue` by `next` and `prev`, newest first, and
on the queue of its ticket by `tnext` and `tprev`, oldest first. `rsRcvXmsg` delivers the
first message of a ticket that satisfies the condition, and frees it when it was the last
delivery. An address that is not in `msgs` is free memory; following it, or a null
pointer, stops the model with `none`.

Operations are whole. A receive finds its message under the lock and delivers it after; the
clears take no lock at all. None is taken to run between the two.
-/

namespace Xmsg

open LinkedQueue
open Function (update)

def SYS_NO_XMSG_FOR_MSG_NUMBER : Int := -63000

def INC_EXPIRE_INT : Nat := 3600 * 2

/-- A `sendXmsgInfo`; `numRcv` is unsigned. -/
structure SendXmsgInfo where
  msgNumber : BitVec 32
  msgType : String
  numRcv : BitVec 32
  msg : String
  numDeli : Int
  miscInfo : String
  deriving DecidableEq

/-- An `irodsXmsg` without its links. -/
structure IrodsXmsg where
  sendXmsgInfo : SendXmsgInfo
  sendTime : BitVec 32
  sendUserName : String
  sendAddr : String
  seqNumber : BitVec 32
  ticketMsgStruct : Addr
  deriving DecidableEq

structure RcvXmsgOut where
  msgType : String
  sendUserName : String
  sendAddr : String
  msgNumber : BitVec 32
  seqNumber : BitVec 32
  msg : String
  deriving DecidableEq

structure State where
  msgs : Addr → Option IrodsXmsg
  next : Addr → Option Addr
  prev : Addr → Option Addr
  tnext : Addr → Option Addr
  tprev : Addr → Option Addr
  XmsgQue : Ends
  /-- The `xmsgQue` of each ticket struct. -/
  xmsgQue : Addr → Ends
  expireTime : Addr → BitVec 32
  nxtSeqNumber : Addr → BitVec 32
  tickets : Tickets

namespace State

/-- The global queue. -/
def global (s : State) : Queue Addr := ⟨s.next, s.prev, s.XmsgQue.head, s.XmsgQue.tail⟩

def setGlobal (s : State) (q : Queue Addr) : State :=
  { s with next := q.next, prev := q.prev, XmsgQue := ⟨q.head, q.tail⟩ }

/-- The queue of a ticket struct. -/
def ticketQueue (s : State) (t : Addr) : Queue Addr :=
  ⟨s.tnext, s.tprev, (s.xmsgQue t).head, (s.xmsgQue t).tail⟩

def setTicketQueue (s : State) (t : Addr) (q : Queue Addr) : State :=
  { s with
    tnext := q.next
    tprev := q.prev
    xmsgQue := update s.xmsgQue t ⟨q.head, q.tail⟩ }

/-! ## Adding and removing -/

def addXmsgToXmsgQue (p : Addr) (s : State) : State := s.setGlobal (s.global.pushFront p)

def rmXmsgFromXmsgQue (p : Addr) (s : State) : State := s.setGlobal (s.global.unlink p)

def rmXmsgFromXmsgTcketQue (p t : Addr) (s : State) : State :=
  s.setTicketQueue t ((s.ticketQueue t).unlink p)

/-- The status is the sequence number. -/
def addXmsgToTicketMsgStruct (p t : Addr) (s : State) : Option (BitVec 32 × State) :=
  match s.msgs p, (s.ticketQueue t).pushBack p with
  | some xmsg, some q =>
    let expires := xmsg.sendTime + BitVec.ofNat 32 INC_EXPIRE_INT
    let s := s.setTicketQueue t q
    some (s.nxtSeqNumber t,
      { s with
        expireTime := if expires > s.expireTime t then update s.expireTime t expires
          else s.expireTime
        msgs := update s.msgs p
          (some { xmsg with ticketMsgStruct := t, seqNumber := s.nxtSeqNumber t })
        nxtSeqNumber := update s.nxtSeqNumber t (s.nxtSeqNumber t + 1) })
  | _, _ => none

def addXmsgToQues (p t : Addr) (s : State) : Option (BitVec 32 × State) :=
  addXmsgToTicketMsgStruct p t (addXmsgToXmsgQue p s)

def free (p : Addr) (s : State) : State := { s with msgs := update s.msgs p none }

/-! ## Receiving -/

/-- The loop of `getIrodsXmsg`; `cond` is what `checkMsgCondition` finds. -/
def findXmsg (s : State) (cond : IrodsXmsg → Bool) : Nat → Option Addr → Option (Option Addr)
  | 0, _ => none
  | _ + 1, none => some none
  | fuel + 1, some p =>
    match s.msgs p with
    | none => none
    | some xmsg => if cond xmsg then some (some p) else findXmsg s cond fuel (s.tnext p)

/-- The status and the message found. -/
def getIrodsXmsg (fuel rcvTicket : Nat) (cond : IrodsXmsg → Bool) (s : State) :
    Option (Int × Option Addr) :=
  match Tickets.getTicketMsgStructByTicket fuel rcvTicket s.tickets with
  | none => none
  | some (_, some t) =>
    (findXmsg s cond fuel (s.xmsgQue t).head).map fun
      | some p => (0, some p)
      | none => (SYS_NO_XMSG_FOR_MSG_NUMBER, none)
  | some (status, none) => some (status, none)

/-- What a receiver gets of a message. -/
def deliver (xmsg : IrodsXmsg) : RcvXmsgOut where
  msgType := xmsg.sendXmsgInfo.msgType
  sendUserName := xmsg.sendUserName
  sendAddr := xmsg.sendAddr
  msgNumber := xmsg.sendXmsgInfo.msgNumber
  seqNumber := xmsg.seqNumber
  msg := xmsg.sendXmsgInfo.msg

/-- A message after one more receiver. -/
def received (xmsg : IrodsXmsg) : IrodsXmsg :=
  { xmsg with
    sendXmsgInfo := { xmsg.sendXmsgInfo with numRcv := xmsg.sendXmsgInfo.numRcv - 1 } }

/-- `numRcv` and `numDeli` are used up. -/
def done (xmsg : IrodsXmsg) : Bool :=
  decide (xmsg.sendXmsgInfo.numRcv ≤ 0 ∧ xmsg.sendXmsgInfo.numDeli ≤ 0)

def _rsRcvXmsg (p : Addr) (s : State) : Option (RcvXmsgOut × State) :=
  match s.msgs p with
  | none => none
  | some xmsg =>
    let s := { s with msgs := update s.msgs p (some (received xmsg)) }
    if done (received xmsg) then
      some (deliver xmsg,
        free p (rmXmsgFromXmsgTcketQue p xmsg.ticketMsgStruct (rmXmsgFromXmsgQue p s)))
    else some (deliver xmsg, s)

def rsRcvXmsg (fuel rcvTicket : Nat) (cond : IrodsXmsg → Bool) (s : State) :
    Option ((Int × Option RcvXmsgOut) × State) :=
  match getIrodsXmsg fuel rcvTicket cond s with
  | none => none
  | some (status, none) => some ((status, none), s)
  | some (_, some p) => (_rsRcvXmsg p s).map fun (out, s) => ((0, some out), s)

/-! ## Clearing -/

/-- The loop of `clearOneXMessage`. -/
def clearOneFrom (t : Addr) (seqNum : Int) : Nat → Option Addr → State → Option State
  | 0, _, _ => none
  | _ + 1, none, s => some s
  | fuel + 1, some p, s =>
    match s.msgs p with
    | none => none
    | some xmsg =>
      if xmsg.seqNumber.toInt = seqNum then
        some (free p (rmXmsgFromXmsgTcketQue p t (rmXmsgFromXmsgQue p s)))
      else clearOneFrom t seqNum fuel (s.tnext p) s

def clearOneXMessage (fuel : Nat) (t : Addr) (seqNum : Int) (s : State) : Option State :=
  clearOneFrom t seqNum fuel (s.xmsgQue t).head s

/-- The loop of `clearAllXMessages`. -/
def clearFrom : Nat → Option Addr → State → Option State
  | 0, _, _ => none
  | _ + 1, none, s => some s
  | fuel + 1, some p, s =>
    match s.msgs p with
    | none => none
    | some _ => clearFrom fuel (s.tnext p) (free p (rmXmsgFromXmsgQue p s))

def clearAllXMessages (fuel : Nat) (t : Addr) (s : State) : Option State :=
  (clearFrom fuel (s.xmsgQue t).head s).map fun s =>
    { s with xmsgQue := update s.xmsgQue t ⟨none, none⟩ }

/-! ## Runs -/

inductive Op where
  /-- `rsSendXmsg` fills the new message `p` and adds it to the queues. -/
  | send (p t : Addr) (info : SendXmsgInfo) (sendTime : BitVec 32) (sendUserName sendAddr : String)
  | receive (rcvTicket : Nat) (cond : IrodsXmsg → Bool)
  | clearOne (t : Addr) (seqNum : Int)
  | clearAll (t : Addr)

/-- What a caller sees of an operation. -/
inductive Reply where
  | sent (seqNumber : BitVec 32)
  | got (status : Int) (out : Option RcvXmsgOut)
  | cleared
  deriving DecidableEq

def newXmsg (info : SendXmsgInfo) (sendTime : BitVec 32) (sendUserName sendAddr : String) :
    IrodsXmsg :=
  ⟨info, sendTime, sendUserName, sendAddr, 0, 0⟩

def step (fuel : Nat) (s : State) : Op → Option (Reply × State)
  | .send p t info sendTime sendUserName sendAddr =>
    let s := { s with
      msgs := update s.msgs p (some (newXmsg info sendTime sendUserName sendAddr)) }
    (addXmsgToQues p t s).map fun (seqNumber, s) => (.sent seqNumber, s)
  | .receive rcvTicket cond =>
    (rsRcvXmsg fuel rcvTicket cond s).map fun ((status, out), s) => (.got status out, s)
  | .clearOne t seqNum => (clearOneXMessage fuel t seqNum s).map fun s => (.cleared, s)
  | .clearAll t => (clearAllXMessages fuel t s).map fun s => (.cleared, s)

def run (fuel : Nat) (s : State) : List Op → Option (List Reply × State)
  | [] => some ([], s)
  | op :: ops =>
    (step fuel s op).bind fun (reply, s) =>
      (run fuel s ops).map fun (replies, s) => (reply :: replies, s)

end State

end Xmsg
