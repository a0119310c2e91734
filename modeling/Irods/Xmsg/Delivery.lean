-- SUMMARY: The linked message queues refine boxes of messages.
import Irods.Base.CInt
import Irods.Xmsg.MsgQueues

/-!
# Delivery

The queues stand for boxes: one list of messages for each ticket, in the order they were
sent, and one list of all messages, newest first. A message is in one box only. Every run
of the linked queues gives the replies of the boxes and stays in step with them.
-/

namespace Xmsg

open LinkedQueue State
open Function (update update_of_ne update_self)

/-- A message with its address. -/
structure Entry where
  id : Addr
  xmsg : IrodsXmsg

def ids (es : List Entry) : List Addr := es.map Entry.id

structure Boxes where
  all : List Addr
  box : Addr → List Entry
  /-- How many messages have been sent to a ticket. -/
  sentTo : Addr → Nat

namespace Boxes

def init : Boxes := ⟨[], fun _ => [], fun _ => 0⟩

def add (a : Boxes) (p t : Addr) (xmsg : IrodsXmsg) : Boxes where
  all := p :: a.all
  box := update a.box t (a.box t ++
    [⟨p, { xmsg with ticketMsgStruct := t, seqNumber := BitVec.ofNat 32 (a.sentTo t) }⟩])
  sentTo := update a.sentTo t (a.sentTo t + 1)

def remove (a : Boxes) (t p : Addr) : Boxes :=
  { a with
    all := a.all.erase p
    box := update a.box t ((a.box t).filter (fun e => e.id ≠ p)) }

/-- Changes a message in its place. -/
def replace (a : Boxes) (t p : Addr) (xmsg : IrodsXmsg) : Boxes :=
  { a with
    box := update a.box t ((a.box t).map fun e => if e.id = p then ⟨p, xmsg⟩ else e) }

def clear (a : Boxes) (t : Addr) : Boxes :=
  { a with
    all := a.all.filter (fun p => p ∉ ids (a.box t))
    box := update a.box t [] }

/-- One operation; `lookup` finds the ticket structs. -/
def step (lookup : Nat → Int × Option Addr) (a : Boxes) : Op → Reply × Boxes
  | .send p t info sendTime sendUserName sendAddr =>
    (.sent (BitVec.ofNat 32 (a.sentTo t)),
      a.add p t (newXmsg info sendTime sendUserName sendAddr))
  | .receive rcvTicket cond =>
    match lookup rcvTicket with
    | (status, none) => (.got status none, a)
    | (_, some t) =>
      match (a.box t).find? (fun e => cond e.xmsg) with
      | none => (.got SYS_NO_XMSG_FOR_MSG_NUMBER none, a)
      | some e =>
        (.got 0 (some (deliver e.xmsg)),
          if done (received e.xmsg) then a.remove t e.id
          else a.replace t e.id (received e.xmsg))
  | .clearOne t seqNum =>
    match (a.box t).find? (fun e => e.xmsg.seqNumber.toInt = seqNum) with
    | none => (.cleared, a)
    | some e => (.cleared, a.remove t e.id)
  | .clearAll t => (.cleared, a.clear t)

def run (lookup : Nat → Int × Option Addr) (a : Boxes) : List Op → List Reply × Boxes
  | [] => ([], a)
  | op :: ops =>
    let (reply, a) := step lookup a op
    let (replies, a) := run lookup a ops
    (reply :: replies, a)

/-- Every message sent is in memory that is not in use. -/
def Allocated (lookup : Nat → Int × Option Addr) (a : Boxes) : List Op → Prop
  | [] => True
  | op :: ops =>
    (match op with
      | .send p _ _ _ _ _ => p ∉ a.all
      | _ => True) ∧
    Allocated lookup (step lookup a op).2 ops

end Boxes

/-- How many of the operations send to a ticket. -/
def sendsTo (t : Addr) (ops : List Op) : Nat :=
  ops.countP fun
    | .send _ t' _ _ _ _ => t' = t
    | _ => false

/-- The linked queues stand for the boxes. -/
structure Represents (s : State) (a : Boxes) : Prop where
  global : s.global.Holds a.all
  ticketQueue : ∀ t, (s.ticketQueue t).Holds (ids (a.box t))
  content : ∀ t, ∀ e ∈ a.box t, s.msgs e.id = some e.xmsg ∧ e.xmsg.ticketMsgStruct = t
  mem_all : ∀ p, p ∈ a.all ↔ ∃ t, p ∈ ids (a.box t)
  free : ∀ p, p ∉ a.all → s.msgs p = none
  seqNumber : ∀ t, s.nxtSeqNumber t = BitVec.ofNat 32 (a.sentTo t)
  below : ∀ t, ∀ e ∈ a.box t, e.xmsg.seqNumber.toNat < a.sentTo t
  increasing : ∀ t, (a.box t).Pairwise (fun e e' => e.xmsg.seqNumber < e'.xmsg.seqNumber)

variable {a : Boxes} {es : List Entry} {q : Queue Addr} {s : State} {t' : Addr}

namespace Represents

variable {s' : State} {p t : Addr} {e : Entry}

theorem mem_ids : p ∈ ids es ↔ ∃ e ∈ es, e.id = p := List.mem_map

theorem unique (h : Represents s a) (ht : p ∈ ids (a.box t)) (ht' : p ∈ ids (a.box t')) : t = t' := by
  obtain ⟨e, he, rfl⟩ := mem_ids.1 ht
  obtain ⟨e', he', hid⟩ := mem_ids.1 ht'
  obtain ⟨hmsg, hown⟩ := h.content t e he
  obtain ⟨hmsg', hown'⟩ := h.content t' e' he'
  rw [hid, hmsg, Option.some.injEq] at hmsg'
  rw [← hown, ← hown', hmsg']

theorem mem_all_iff (h : Represents s a) : p ∈ a.all ↔ ∃! t, p ∈ ids (a.box t) := by
  rw [h.mem_all]
  exact ⟨fun ⟨t, ht⟩ => ⟨t, ht, fun t' ht' => h.unique ht' ht⟩, fun ⟨t, ht, _⟩ => ⟨t, ht⟩⟩

theorem nodup_box (h : Represents s a) (t : Addr) : (ids (a.box t)).Nodup := (h.ticketQueue t).nodup

theorem ids_remove (hnodup : (ids es).Nodup) : ids (es.filter (fun e => e.id ≠ p)) = (ids es).erase p := by
  rw [hnodup.erase_eq_filter, ids, ids, List.filter_map]
  refine congrArg (List.map Entry.id) (List.filter_congr fun e _ => ?_)
  by_cases heq : e.id = p <;> simp [heq]

/-! ## Sending -/

/-- The other boxes stay as they are while one box and its queue change. -/
theorem ticketQueue_update (h : Represents s a) (hnext : s'.tnext = q.next) (hprev : s'.tprev = q.prev)
    (hends : s'.xmsgQue = update s.xmsgQue t ⟨q.head, q.tail⟩) (hholds : q.Holds (ids es)) {l : List Addr}
    (hsame : Queue.SameOff l (s.ticketQueue t) q) (hdisj : ∀ t', t' ≠ t → (ids (a.box t')).Disjoint l) (t' : Addr) :
    (s'.ticketQueue t').Holds (ids (update a.box t es t')) := by
  by_cases ht' : t' = t
  · subst ht'
    rw [update_self]
    refine hholds.congr ?_ ?_ (fun y _ => ?_) (fun y _ => ?_)
    · simp [State.ticketQueue, hends]
    · simp [State.ticketQueue, hends]
    · exact congrFun hnext y
    · exact congrFun hprev y
  · rw [update_of_ne ht']
    have hother := (h.ticketQueue t').disjoint (q := s.ticketQueue t) hsame (hdisj t' ht')
    refine hother.congr ?_ ?_ (fun y _ => ?_) (fun y _ => ?_)
    · simp [State.ticketQueue, hends, ht']
    · simp [State.ticketQueue, hends, ht']
    · exact congrFun hnext y
    · exact congrFun hprev y

theorem addXmsgToQues_eq {xmsg : IrodsXmsg} (hmsg : s.msgs p = some xmsg)
    (hpush : (s.ticketQueue t).pushBack p = some q) :
    ∃ s', addXmsgToQues p t s = some (s.nxtSeqNumber t, s') ∧
      s'.msgs = update s.msgs p
        (some { xmsg with ticketMsgStruct := t, seqNumber := s.nxtSeqNumber t }) ∧
      s'.global = s.global.pushFront p ∧ s'.tnext = q.next ∧ s'.tprev = q.prev ∧
      s'.xmsgQue = update s.xmsgQue t ⟨q.head, q.tail⟩ ∧
      s'.nxtSeqNumber = update s.nxtSeqNumber t (s.nxtSeqNumber t + 1) ∧
      s'.tickets = s.tickets := by
  have hmsg' : (addXmsgToXmsgQue p s).msgs p = some xmsg := hmsg
  have hpush' : ((addXmsgToXmsgQue p s).ticketQueue t).pushBack p = some q := hpush
  have hrun : ∃ s', addXmsgToQues p t s = some (s.nxtSeqNumber t, s') := by
    simp only [addXmsgToQues, addXmsgToTicketMsgStruct, hmsg', hpush']
    exact ⟨_, rfl⟩
  obtain ⟨s', hrun⟩ := hrun
  refine ⟨s', hrun, ?_⟩
  simp only [addXmsgToQues, addXmsgToTicketMsgStruct, hmsg', hpush', Option.some.injEq,
    Prod.mk.injEq] at hrun
  obtain ⟨-, rfl⟩ := hrun
  exact ⟨rfl, rfl, rfl, rfl, rfl, rfl, rfl⟩

theorem send (h : Represents s a) (hp : p ∉ a.all) (hsent : a.sentTo t < 2 ^ 31) (xmsg : IrodsXmsg) :
    ∃ s', addXmsgToQues p t { s with msgs := update s.msgs p (some xmsg) } =
        some (BitVec.ofNat 32 (a.sentTo t), s') ∧
      s'.tickets = s.tickets ∧ Represents s' (a.add p t xmsg) := by
  have hbox : ∀ t', p ∉ ids (a.box t') := fun t' hmem => hp ((h.mem_all p).mpr ⟨t', hmem⟩)
  have hne : ∀ t', ∀ e ∈ a.box t', e.id ≠ p := fun t' e he heq => hbox t' (mem_ids.2 ⟨e, he, heq⟩)
  obtain ⟨q, hpush, hholds, hsame⟩ := (h.ticketQueue t).pushBack (hbox t)
  obtain ⟨s', hrun, hmsgs, hglobal, hnext, hprev, hends, hnxt, htickets⟩ :=
    addXmsgToQues_eq (s := { s with msgs := update s.msgs p (some xmsg) })
      (update_self ..) hpush
  have hseq : s.nxtSeqNumber t = BitVec.ofNat 32 (a.sentTo t) := h.seqNumber t
  simp only [hseq, Function.update_idem] at hrun hmsgs hnxt
  have hseqNat : (BitVec.ofNat 32 (a.sentTo t)).toNat = a.sentTo t := by
    rw [BitVec.toNat_ofNat]
    omega
  refine ⟨s', hrun, htickets, ?_⟩
  -- the box of the ticket has one more message, the others are the same
  have hcases : ∀ t' e, e ∈ (a.add p t xmsg).box t' → e ∈ a.box t' ∨ t' = t ∧
      e = ⟨p, { xmsg with ticketMsgStruct := t, seqNumber := BitVec.ofNat 32 (a.sentTo t) }⟩ := by
    intro t' e he
    by_cases ht' : t' = t
    · subst ht'
      simpa [Boxes.add] using he
    · exact .inl (by simpa [Boxes.add, ht'] using he)
  have hids : ∀ x, (∃ t', x ∈ ids ((a.add p t xmsg).box t')) ↔ x = p ∨ ∃ t', x ∈ ids (a.box t') := by
    intro x
    constructor
    · rintro ⟨t', hx⟩
      obtain ⟨e, he, rfl⟩ := mem_ids.1 hx
      rcases hcases t' e he with he | ⟨-, rfl⟩
      · exact .inr ⟨t', mem_ids.2 ⟨e, he, rfl⟩⟩
      · exact .inl rfl
    · rintro (rfl | ⟨t', hx⟩)
      · exact ⟨t, by simp [ids, Boxes.add]⟩
      · obtain ⟨e, he, rfl⟩ := mem_ids.1 hx
        refine ⟨t', mem_ids.2 ⟨e, ?_, rfl⟩⟩
        by_cases ht' : t' = t
        · subst ht'
          simp [Boxes.add, he]
        · simpa [Boxes.add, ht'] using he
  constructor
  case global =>
    rw [hglobal]
    exact h.global.pushFront hp
  case ticketQueue =>
    have hids : ids (a.box t) ++ [p] = ids (a.box t ++
        [⟨p, { xmsg with ticketMsgStruct := t, seqNumber := BitVec.ofNat 32 (a.sentTo t) }⟩]) := by
      simp [ids]
    rw [hids] at hholds
    refine h.ticketQueue_update hnext hprev hends hholds hsame (fun t' ht' x hx hx' => ?_)
    rcases List.mem_append.mp hx' with hx' | hx'
    · exact ht' (h.unique hx hx')
    · obtain rfl : x = p := by simpa using hx'
      exact hbox t' hx
  case content =>
    intro t' e he
    rw [hmsgs]
    rcases hcases t' e he with he | ⟨rfl, rfl⟩
    · rw [update_of_ne (hne t' e he)]
      exact h.content t' e he
    · exact ⟨update_self .., rfl⟩
  case mem_all =>
    intro x
    rw [hids, ← h.mem_all]
    exact List.mem_cons
  case free =>
    intro x hx
    simp only [Boxes.add, List.mem_cons, not_or] at hx
    rw [hmsgs, update_of_ne hx.1]
    exact h.free x hx.2
  case seqNumber =>
    intro t'
    rw [hnxt]
    by_cases ht' : t' = t
    · subst ht'
      simp [Boxes.add, BitVec.ofNat_add]
    · simp [Boxes.add, ht', h.seqNumber]
  case below =>
    intro t' e he
    rcases hcases t' e he with he | ⟨rfl, rfl⟩
    · refine Nat.lt_of_lt_of_le (h.below t' e he) ?_
      by_cases ht' : t' = t
      · subst ht'
        simp [Boxes.add]
      · simp [Boxes.add, ht']
    · simp only [hseqNat, Boxes.add, update_self]
      exact Nat.lt_succ_self _
  case increasing =>
    intro t'
    by_cases ht' : t' = t
    · subst ht'
      simp only [Boxes.add, update_self]
      refine List.pairwise_append.mpr ⟨h.increasing t', by simp, fun e he e' he' => ?_⟩
      obtain rfl := List.mem_singleton.mp he'
      have hlt := h.below t' e he
      rw [BitVec.lt_def, hseqNat]
      exact hlt
    · simp only [Boxes.add, update_of_ne ht']
      exact h.increasing t'

/-! ## Removing and keeping -/

/-- What a removed message held does not matter. -/
theorem free_update (m : Option IrodsXmsg) :
    State.free p (rmXmsgFromXmsgTcketQue p t
        (rmXmsgFromXmsgQue p { s with msgs := update s.msgs p m })) =
      State.free p (rmXmsgFromXmsgTcketQue p t (rmXmsgFromXmsgQue p s)) := by
  simp only [State.free, rmXmsgFromXmsgTcketQue, rmXmsgFromXmsgQue, setTicketQueue, setGlobal,
    State.ticketQueue, State.global, Function.update_idem]

theorem remove (h : Represents s a) (he : e ∈ a.box t) :
    Represents (State.free e.id (rmXmsgFromXmsgTcketQue e.id t (rmXmsgFromXmsgQue e.id s)))
      (a.remove t e.id) := by
  have hmem : e.id ∈ ids (a.box t) := mem_ids.2 ⟨e, he, rfl⟩
  have hall : e.id ∈ a.all := (h.mem_all _).mpr ⟨t, hmem⟩
  obtain ⟨hglobal, -⟩ := h.global.unlink_mem hall
  obtain ⟨hholds, hsame⟩ := (h.ticketQueue t).unlink_mem hmem
  rw [← ids_remove (h.nodup_box t)] at hholds
  have hcases : ∀ t' e', e' ∈ (a.remove t e.id).box t' ↔ e' ∈ a.box t' ∧ e'.id ≠ e.id := by
    intro t' e'
    by_cases ht' : t' = t
    · subst ht'
      simp [Boxes.remove]
    · simp only [Boxes.remove, update_of_ne ht', iff_self_and]
      exact fun he' heq => ht' (h.unique (mem_ids.2 ⟨e', he', heq⟩) hmem)
  constructor
  case global => exact hglobal
  case ticketQueue =>
    exact h.ticketQueue_update rfl rfl rfl hholds hsame
      (fun t' ht' x hx hx' => ht' (h.unique hx hx'))
  case content =>
    intro t' e' he'
    obtain ⟨he', hne⟩ := (hcases t' e').mp he'
    obtain ⟨hmsg, hown⟩ := h.content t' e' he'
    exact ⟨(update_of_ne hne _ _).trans hmsg, hown⟩
  case mem_all =>
    intro x
    simp only [Boxes.remove, h.global.nodup.mem_erase_iff, h.mem_all]
    constructor
    · rintro ⟨hne, t', hx⟩
      obtain ⟨e', he', rfl⟩ := mem_ids.1 hx
      exact ⟨t', mem_ids.2 ⟨e', (hcases t' e').mpr ⟨he', hne⟩, rfl⟩⟩
    · rintro ⟨t', hx⟩
      obtain ⟨e', he', rfl⟩ := mem_ids.1 hx
      obtain ⟨he', hne⟩ := (hcases t' e').mp he'
      exact ⟨hne, t', mem_ids.2 ⟨e', he', rfl⟩⟩
  case free =>
    intro x hx
    by_cases heq : x = e.id
    · subst heq
      exact update_self ..
    · refine (update_of_ne heq _ _).trans (h.free x fun hall => hx ?_)
      exact h.global.nodup.mem_erase_iff.mpr ⟨heq, hall⟩
  case seqNumber => exact h.seqNumber
  case below => exact fun t' e' he' => h.below t' e' ((hcases t' e').mp he').1
  case increasing =>
    intro t'
    by_cases ht' : t' = t
    · subst ht'
      simp only [Boxes.remove, update_self]
      exact (h.increasing t').sublist List.filter_sublist
    · simp only [Boxes.remove, update_of_ne ht']
      exact h.increasing t'

/-- The address says which message it is. -/
theorem entry_eq (h : Represents s a) {e' : Entry} (he : e ∈ a.box t) (he' : e' ∈ a.box t') (hid : e'.id = e.id) :
    e' = e := by
  have hmsg := (h.content t e he).1
  have hmsg' := (h.content t' e' he').1
  cases e
  cases e'
  simp_all

/-- A message that is kept, with another `numRcv`. -/
theorem replace (h : Represents s a) (he : e ∈ a.box t) (xmsg : IrodsXmsg)
    (hseq : xmsg.seqNumber = e.xmsg.seqNumber)
    (hown : xmsg.ticketMsgStruct = e.xmsg.ticketMsgStruct) :
    Represents { s with msgs := update s.msgs e.id (some xmsg) }
      (a.replace t e.id xmsg) := by
  have hids : ∀ t', ids ((a.replace t e.id xmsg).box t') = ids (a.box t') := by
    intro t'
    by_cases ht' : t' = t
    · subst ht'
      simp only [Boxes.replace, update_self, ids, List.map_map]
      refine List.map_congr_left fun e' _ => ?_
      by_cases hid : e'.id = e.id <;> simp [hid]
    · simp only [Boxes.replace, update_of_ne ht']
  have hcases : ∀ t' e', e' ∈ (a.replace t e.id xmsg).box t' →
      (e' ∈ a.box t' ∧ e'.id ≠ e.id) ∨ (t' = t ∧ e' = ⟨e.id, xmsg⟩) := by
    intro t' e' he'
    by_cases ht' : t' = t
    · subst ht'
      simp only [Boxes.replace, update_self, List.mem_map] at he'
      obtain ⟨e₁, he₁, rfl⟩ := he'
      by_cases hid : e₁.id = e.id
      · exact .inr ⟨rfl, by simp [hid]⟩
      · exact .inl (by simp [hid, he₁])
    · simp only [Boxes.replace, update_of_ne ht'] at he'
      refine .inl ⟨he', fun hid => ht' ?_⟩
      exact h.unique (mem_ids.2 ⟨e', he', hid⟩) (mem_ids.2 ⟨e, he, rfl⟩)
  constructor
  case global => exact h.global
  case ticketQueue =>
    intro t'
    rw [hids]
    exact h.ticketQueue t'
  case content =>
    intro t' e' he'
    rcases hcases t' e' he' with ⟨he', hne⟩ | ⟨rfl, rfl⟩
    · obtain ⟨hmsg, hown⟩ := h.content t' e' he'
      exact ⟨(update_of_ne hne _ _).trans hmsg, hown⟩
    · exact ⟨update_self .., hown.trans (h.content t' e he).2⟩
  case mem_all =>
    intro x
    simp only [hids]
    exact h.mem_all x
  case free =>
    intro x hx
    have hne : x ≠ e.id := fun heq => hx ((h.mem_all x).mpr ⟨t, mem_ids.2 ⟨e, he, heq.symm⟩⟩)
    exact (update_of_ne hne _ _).trans (h.free x hx)
  case seqNumber => exact h.seqNumber
  case below =>
    intro t' e' he'
    rcases hcases t' e' he' with ⟨he', -⟩ | ⟨rfl, rfl⟩
    · exact h.below t' e' he'
    · rw [hseq]
      exact h.below t' e he
  case increasing =>
    intro t'
    by_cases ht' : t' = t
    · subst ht'
      simp only [Boxes.replace, update_self, List.pairwise_map]
      refine (h.increasing t').imp_of_mem fun {e₁ e₂} he₁ he₂ hlt => ?_
      have hkeep : ∀ e₁ ∈ a.box t', (if e₁.id = e.id then ⟨e.id, xmsg⟩ else e₁).xmsg.seqNumber =
          e₁.xmsg.seqNumber := by
        intro e₁ he₁
        by_cases hid : e₁.id = e.id
        · rw [if_pos hid, h.entry_eq he he₁ hid]
          exact hseq
        · rw [if_neg hid]
      rw [hkeep e₁ he₁, hkeep e₂ he₂]
      exact hlt
    · simp only [Boxes.replace, update_of_ne ht']
      exact h.increasing t'

/-! ## The loops -/

variable {fuel : Nat} {from' : Option Addr}

theorem findXmsg_eq {cond : IrodsXmsg → Bool} (hpath : Chain.Path s.tnext from' (ids es) none)
    (hcontent : ∀ e ∈ es, s.msgs e.id = some e.xmsg) (hfuel : es.length < fuel) :
    findXmsg s cond fuel from' = some ((es.find? (fun e => cond e.xmsg)).map Entry.id) := by
  induction es generalizing from' fuel with
  | nil =>
    obtain rfl := Chain.path_nil.mp hpath
    obtain ⟨fuel, rfl⟩ : ∃ n, fuel = n + 1 := ⟨fuel - 1, by omega⟩
    rfl
  | cons e es ih =>
    obtain ⟨rfl, hrest⟩ := hpath
    obtain ⟨fuel, rfl⟩ : ∃ n, fuel = n + 1 := ⟨fuel - 1, by omega⟩
    have hmsg := hcontent e (by simp)
    cases hcond : cond e.xmsg with
    | true => simp [findXmsg, hmsg, hcond]
    | false =>
      have hrun := ih hrest (fun e' he' => hcontent e' (List.mem_cons_of_mem e he'))
        (by simpa using hfuel)
      simp [findXmsg, hmsg, hcond, hrun]

theorem clearOneFrom_eq {seqNum : Int} (hpath : Chain.Path s.tnext from' (ids es) none)
    (hcontent : ∀ e ∈ es, s.msgs e.id = some e.xmsg) (hfuel : es.length < fuel) :
    clearOneFrom t seqNum fuel from' s =
      some (match es.find? (fun e => e.xmsg.seqNumber.toInt = seqNum) with
        | none => s
        | some e => State.free e.id (rmXmsgFromXmsgTcketQue e.id t (rmXmsgFromXmsgQue e.id s))) := by
  induction es generalizing from' fuel with
  | nil =>
    obtain rfl := Chain.path_nil.mp hpath
    obtain ⟨fuel, rfl⟩ : ∃ n, fuel = n + 1 := ⟨fuel - 1, by omega⟩
    rfl
  | cons e es ih =>
    obtain ⟨rfl, hrest⟩ := hpath
    obtain ⟨fuel, rfl⟩ : ∃ n, fuel = n + 1 := ⟨fuel - 1, by omega⟩
    have hmsg := hcontent e (by simp)
    by_cases hseq : e.xmsg.seqNumber.toInt = seqNum
    · simp [clearOneFrom, hmsg, hseq]
    · have hrun := ih hrest (fun e' he' => hcontent e' (List.mem_cons_of_mem e he'))
        (by simpa using hfuel)
      simp [clearOneFrom, hmsg, hseq, hrun]

/-- The loop of `clearAllXMessages` takes its messages off the global queue and frees them. -/
theorem clearFrom_eq {g : List Addr} :
    ∀ {s : State}, Chain.Path s.tnext from' (ids es) none →
      (∀ e ∈ es, s.msgs e.id = some e.xmsg) → es.length < fuel → (ids es).Nodup →
      s.global.Holds g → (∀ x ∈ ids es, x ∈ g) →
      ∃ s', clearFrom fuel from' s = some s' ∧
        s'.global.Holds (g.filter (fun p => p ∉ ids es)) ∧
        s'.tnext = s.tnext ∧ s'.tprev = s.tprev ∧ s'.xmsgQue = s.xmsgQue ∧
        s'.nxtSeqNumber = s.nxtSeqNumber ∧ s'.tickets = s.tickets ∧
        ∀ x, s'.msgs x = if x ∈ ids es then none else s.msgs x := by
  induction es generalizing from' fuel g with
  | nil =>
    intro s hpath _ hfuel _ hg _
    obtain rfl := Chain.path_nil.mp hpath
    obtain ⟨fuel, rfl⟩ : ∃ n, fuel = n + 1 := ⟨fuel - 1, by omega⟩
    have hall : g.filter (fun p => p ∉ ids []) = g := by simp [ids]
    refine ⟨s, rfl, ?_, rfl, rfl, rfl, rfl, rfl, fun x => by simp [ids]⟩
    rwa [hall]
  | cons e es ih =>
    intro s hpath hcontent hfuel hnodup hg hsub
    obtain ⟨rfl, hrest⟩ := hpath
    obtain ⟨fuel, rfl⟩ : ∃ n, fuel = n + 1 := ⟨fuel - 1, by omega⟩
    obtain ⟨hnotin, hnodup⟩ := List.nodup_cons.mp hnodup
    obtain ⟨hg', -⟩ := hg.unlink_mem (hsub e.id (by simp [ids]))
    have hne : ∀ e' ∈ es, e'.id ≠ e.id := fun e' he' heq => hnotin (mem_ids.2 ⟨e', he', heq⟩)
    obtain ⟨s', hrun, hglobal, hnext, hprev, hends, hnxt, htickets, hmsgs⟩ :=
      ih (s := State.free e.id (rmXmsgFromXmsgQue e.id s)) (g := g.erase e.id) hrest
        (fun e' he' => (update_of_ne (hne e' he') _ _).trans
          (hcontent e' (List.mem_cons_of_mem e he')))
        (by simpa using hfuel) hnodup hg'
        (fun x hx => by
          obtain ⟨e', he', rfl⟩ := mem_ids.1 hx
          exact hg.nodup.mem_erase_iff.mpr
            ⟨hne e' he', hsub e'.id (mem_ids.2 ⟨e', List.mem_cons_of_mem e he', rfl⟩)⟩)
    refine ⟨s', ?_, ?_, hnext, hprev, hends, hnxt, htickets, fun x => ?_⟩
    · simp only [clearFrom, hcontent e (by simp)]
      exact hrun
    · have hfilter : (g.erase e.id).filter (fun p => p ∉ ids es) =
          g.filter (fun p => p ∉ ids (e :: es)) := by
        rw [hg.nodup.erase_eq_filter, List.filter_filter]
        refine List.filter_congr fun x _ => ?_
        by_cases hx : x = e.id <;> simp [ids, hx]
      rwa [← hfilter]
    · rw [hmsgs]
      by_cases hx : x = e.id
      · subst hx
        simp [ids, State.free]
      · simp [ids, State.free, rmXmsgFromXmsgQue, setGlobal, hx]

theorem clear (h : Represents s a) (hfuel : (a.box t).length < fuel) :
    ∃ s', clearAllXMessages fuel t s = some s' ∧ s'.tickets = s.tickets ∧
      Represents s' (a.clear t) := by
  obtain ⟨s', hrun, hglobal, hnext, hprev, hends, hnxt, htickets, hmsgs⟩ :=
    clearFrom_eq (h.ticketQueue t).path (fun e he => (h.content t e he).1) hfuel (h.nodup_box t)
      h.global (fun x hx => (h.mem_all x).mpr ⟨t, hx⟩)
  have hrun' : clearFrom fuel (s.xmsgQue t).head s = some s' := hrun
  refine ⟨{ s' with xmsgQue := update s'.xmsgQue t ⟨none, none⟩ }, ?_, htickets, ?_⟩
  · simp only [clearAllXMessages, hrun', Option.map_some]
  have hcases : ∀ t' e', e' ∈ (a.clear t).box t' ↔ e' ∈ a.box t' ∧ e'.id ∉ ids (a.box t) := by
    intro t' e'
    by_cases ht' : t' = t
    · subst ht'
      simp only [Boxes.clear, update_self, List.not_mem_nil, false_iff, not_and,
        Decidable.not_not]
      exact fun he' => mem_ids.2 ⟨e', he', rfl⟩
    · simp only [Boxes.clear, update_of_ne ht', iff_self_and]
      exact fun he' hmem => ht' (h.unique (mem_ids.2 ⟨e', he', rfl⟩) hmem)
  constructor
  case global => exact hglobal
  case ticketQueue =>
    refine h.ticketQueue_update (q := ⟨s.tnext, s.tprev, none, none⟩) hnext hprev ?_
      ⟨List.nodup_nil, rfl, rfl, linked_nil⟩ (l := []) (fun _ _ => ⟨rfl, rfl⟩)
      (fun _ _ => List.disjoint_nil_right _)
    exact congrArg (fun f => update f t ⟨none, none⟩) hends
  case content =>
    intro t' e' he'
    obtain ⟨he', hnot⟩ := (hcases t' e').mp he'
    obtain ⟨hmsg, hown⟩ := h.content t' e' he'
    exact ⟨by rw [← hmsg]; exact (hmsgs e'.id).trans (if_neg hnot), hown⟩
  case mem_all =>
    intro x
    simp only [Boxes.clear, List.mem_filter, decide_eq_true_eq, h.mem_all]
    constructor
    · rintro ⟨⟨t', hx⟩, hnot⟩
      obtain ⟨e', he', rfl⟩ := mem_ids.1 hx
      exact ⟨t', mem_ids.2 ⟨e', (hcases t' e').mpr ⟨he', hnot⟩, rfl⟩⟩
    · rintro ⟨t', hx⟩
      obtain ⟨e', he', rfl⟩ := mem_ids.1 hx
      obtain ⟨he', hnot⟩ := (hcases t' e').mp he'
      exact ⟨⟨t', mem_ids.2 ⟨e', he', rfl⟩⟩, hnot⟩
  case free =>
    intro x hx
    rw [show ({ s' with xmsgQue := update s'.xmsgQue t ⟨none, none⟩ } : State).msgs x =
      s'.msgs x from rfl, hmsgs]
    split
    · rfl
    · rename_i hnot
      refine h.free x fun hall => hx ?_
      exact List.mem_filter.mpr ⟨hall, by simpa using hnot⟩
  case seqNumber =>
    intro t'
    exact (congrFun hnxt t').trans (h.seqNumber t')
  case below => exact fun t' e' he' => h.below t' e' ((hcases t' e').mp he').1
  case increasing =>
    intro t'
    by_cases ht' : t' = t
    · subst ht'
      simp [Boxes.clear]
    · simp only [Boxes.clear, update_of_ne ht']
      exact h.increasing t'

/-! ## Steps and runs -/

theorem rcvXmsg (h : Represents s a) (he : e ∈ a.box t) :
    ∃ s', _rsRcvXmsg e.id s = some (deliver e.xmsg, s') ∧ s'.tickets = s.tickets ∧
      Represents s' (if done (received e.xmsg) then a.remove t e.id
        else a.replace t e.id (received e.xmsg)) := by
  obtain ⟨hmsg, hown⟩ := h.content t e he
  cases hdone : done (received e.xmsg) with
  | true =>
    refine ⟨State.free e.id (rmXmsgFromXmsgTcketQue e.id t (rmXmsgFromXmsgQue e.id s)), ?_, rfl, ?_⟩
    · simp only [_rsRcvXmsg, hmsg, hdone, if_true, hown, free_update]
    · simpa using h.remove he
  | false =>
    refine ⟨{ s with msgs := update s.msgs e.id (some (received e.xmsg)) }, ?_, rfl, ?_⟩
    · simp [_rsRcvXmsg, hmsg, hdone]
    · simpa using h.replace he (received e.xmsg) rfl rfl

end Represents

/-- The ticket structs a lookup finds, when it ends. -/
def ticketOf (fuel : Nat) (tickets : Tickets) (rcvTicket : Nat) : Int × Option Addr :=
  (tickets.getTicketMsgStructByTicket fuel rcvTicket).getD (SYS_UNMATCHED_XMSG_TICKET, none)

namespace Represents

variable {fuel : Nat}

theorem receive (h : Represents s a)
    (hlookup : ∀ rcvTicket, (s.tickets.getTicketMsgStructByTicket fuel rcvTicket).isSome)
    (hfuel : ∀ t, (a.box t).length < fuel) (rcvTicket : Nat) (cond : IrodsXmsg → Bool) :
    ∃ s', State.step fuel s (.receive rcvTicket cond) =
        some ((a.step (ticketOf fuel s.tickets) (.receive rcvTicket cond)).1, s') ∧
      s'.tickets = s.tickets ∧
      Represents s' (a.step (ticketOf fuel s.tickets) (.receive rcvTicket cond)).2 := by
  obtain ⟨⟨status, found⟩, hget⟩ := Option.isSome_iff_exists.mp (hlookup rcvTicket)
  have hticket : ticketOf fuel s.tickets rcvTicket = (status, found) := by
    rw [ticketOf, hget, Option.getD_some]
  cases found with
  | none =>
    simp only [Boxes.step, hticket]
    exact ⟨s, by simp [State.step, rsRcvXmsg, getIrodsXmsg, hget], rfl, h⟩
  | some t =>
    have hfind : findXmsg s cond fuel (s.xmsgQue t).head =
        some (((a.box t).find? (fun e => cond e.xmsg)).map Entry.id) :=
      findXmsg_eq (h.ticketQueue t).path (fun e he => (h.content t e he).1) (hfuel t)
    simp only [Boxes.step, hticket]
    cases hfirst : (a.box t).find? (fun e => cond e.xmsg) with
    | none =>
      exact ⟨s, by simp [State.step, rsRcvXmsg, getIrodsXmsg, hget, hfind, hfirst], rfl, h⟩
    | some e =>
      obtain ⟨s', hrun, htickets, h'⟩ := h.rcvXmsg (List.mem_of_find?_eq_some hfirst)
      refine ⟨s', ?_, htickets, h'⟩
      simp [State.step, rsRcvXmsg, getIrodsXmsg, hget, hfind, hfirst, hrun]

/-- One operation on the queues is one on the boxes. -/
theorem step (h : Represents s a) (op : Op)
    (hlookup : ∀ rcvTicket, (s.tickets.getTicketMsgStructByTicket fuel rcvTicket).isSome)
    (halloc : Boxes.Allocated (ticketOf fuel s.tickets) a [op])
    (hfuel : ∀ t, (a.box t).length < fuel) (hsent : ∀ t, a.sentTo t + sendsTo t [op] ≤ 2 ^ 31) :
    ∃ s', State.step fuel s op = some ((a.step (ticketOf fuel s.tickets) op).1, s') ∧
      s'.tickets = s.tickets ∧ Represents s' (a.step (ticketOf fuel s.tickets) op).2 := by
  cases op with
  | send p t info sendTime sendUserName sendAddr =>
    have ht := hsent t
    simp only [sendsTo, List.countP_cons, List.countP_nil, decide_true, if_true] at ht
    obtain ⟨s', hrun, htickets, h'⟩ := h.send halloc.1 (t := t) (by omega)
      (newXmsg info sendTime sendUserName sendAddr)
    exact ⟨s', by simp only [State.step, hrun, Option.map_some, Boxes.step], htickets, h'⟩
  | receive rcvTicket cond => exact h.receive hlookup hfuel rcvTicket cond
  | clearOne t seqNum =>
    have hclear : clearOneFrom t seqNum fuel (s.xmsgQue t).head s = _ :=
      clearOneFrom_eq (h.ticketQueue t).path (fun e he => (h.content t e he).1) (hfuel t)
    simp only [State.step, clearOneXMessage, hclear, Option.map_some, Boxes.step]
    cases hfirst : (a.box t).find? (fun e => e.xmsg.seqNumber.toInt = seqNum) with
    | none => exact ⟨s, rfl, rfl, h⟩
    | some e => exact ⟨_, rfl, rfl, h.remove (List.mem_of_find?_eq_some hfirst)⟩
  | clearAll t =>
    obtain ⟨s', hrun, htickets, h'⟩ := h.clear (hfuel t)
    exact ⟨s', by simp only [State.step, hrun, Option.map_some, Boxes.step], htickets, h'⟩

end Represents

namespace Boxes

variable (lookup : Nat → Int × Option Addr) (a : Boxes)

theorem step_sentTo (op : Op) (t : Addr) :
    (a.step lookup op).2.sentTo t = a.sentTo t + sendsTo t [op] := by
  cases op with
  | send p t' info sendTime sendUserName sendAddr =>
    by_cases ht : t = t'
    · subst ht
      simp [step, add, sendsTo]
    · simp [step, add, sendsTo, ht, Ne.symm ht]
  | receive rcvTicket cond =>
    simp only [step, sendsTo, List.countP_cons, List.countP_nil, Bool.false_eq_true, if_false]
    split
    · rfl
    · split
      · rfl
      · split <;> rfl
  | clearOne t' seqNum =>
    simp only [step, sendsTo, List.countP_cons, List.countP_nil, Bool.false_eq_true, if_false]
    split <;> rfl
  | clearAll t' => rfl

theorem length_update (f : Addr → List Entry) (t t' : Addr) {n : Nat} (hes : es.length ≤ (f t).length + n) :
    (update f t es t').length ≤ (f t').length + n := by
  by_cases ht : t' = t
  · subst ht
    simpa using hes
  · rw [update_of_ne ht]
    exact Nat.le_add_right _ _

theorem step_length (op : Op) (t : Addr) :
    ((a.step lookup op).2.box t).length ≤ (a.box t).length + 1 := by
  have hremove : ∀ t' p, ((a.remove t' p).box t).length ≤ (a.box t).length + 1 := fun t' p =>
    length_update a.box t' t (Nat.le_succ_of_le (List.length_filter_le _ _))
  cases op with
  | send p t' info sendTime sendUserName sendAddr =>
    refine length_update a.box t' t ?_
    simp
  | receive rcvTicket cond =>
    simp only [step]
    split
    · exact Nat.le_succ _
    · split
      · exact Nat.le_succ _
      · split
        · exact hremove _ _
        · refine length_update a.box _ t ?_
          simp
  | clearOne t' seqNum =>
    simp only [step]
    split
    · exact Nat.le_succ _
    · exact hremove _ _
  | clearAll t' =>
    refine length_update a.box t' t ?_
    simp

end Boxes

theorem sendsTo_cons (t : Addr) (op : Op) (ops : List Op) :
    sendsTo t (op :: ops) = sendsTo t [op] + sendsTo t ops := by
  rw [sendsTo, sendsTo, sendsTo, ← List.countP_append, List.singleton_append]

/-- The queues before any message. -/
structure State.Empty (s : State) : Prop where
  msgs : ∀ p, s.msgs p = none
  XmsgQue : s.XmsgQue = ⟨none, none⟩
  xmsgQue : ∀ t, s.xmsgQue t = ⟨none, none⟩
  nxtSeqNumber : ∀ t, s.nxtSeqNumber t = 0

namespace Represents

variable {fuel : Nat}

theorem holds_nil (hhead : q.head = none) (htail : q.tail = none) : q.Holds [] :=
  ⟨List.nodup_nil, hhead, htail, linked_nil⟩

theorem init (h : s.Empty) : Represents s Boxes.init := by
  constructor
  case global => exact holds_nil (congrArg Ends.head h.XmsgQue) (congrArg Ends.tail h.XmsgQue)
  case ticketQueue =>
    exact fun t => holds_nil (congrArg Ends.head (h.xmsgQue t)) (congrArg Ends.tail (h.xmsgQue t))
  case content => intro t e he; cases he
  case mem_all => simp [Boxes.init, ids]
  case free => exact fun p _ => h.msgs p
  case seqNumber => exact h.nxtSeqNumber
  case below => intro t e he; cases he
  case increasing => exact fun t => List.Pairwise.nil

/-- Any run; the boxes stay in step with the queues. -/
theorem run (h : Represents s a) {ops : List Op}
    (hlookup : ∀ rcvTicket, (s.tickets.getTicketMsgStructByTicket fuel rcvTicket).isSome)
    (halloc : Boxes.Allocated (ticketOf fuel s.tickets) a ops)
    (hfuel : ∀ t, (a.box t).length + ops.length ≤ fuel)
    (hsent : ∀ t, a.sentTo t + sendsTo t ops ≤ 2 ^ 31) :
    ∃ s', State.run fuel s ops = some ((a.run (ticketOf fuel s.tickets) ops).1, s') ∧
      s'.tickets = s.tickets ∧ Represents s' (a.run (ticketOf fuel s.tickets) ops).2 := by
  induction ops generalizing s a with
  | nil => exact ⟨s, rfl, rfl, h⟩
  | cons op ops ih =>
    obtain ⟨hfirst, hrest⟩ := halloc
    have hsplit := fun t => sendsTo_cons t op ops
    obtain ⟨s₁, hstep, htickets₁, h₁⟩ := h.step op hlookup ⟨hfirst, trivial⟩
      (fun t => by have := hfuel t; simp only [List.length_cons] at this; omega)
      (fun t => by have := hsent t; have := hsplit t; omega)
    have hrun := ih h₁ (by rwa [htickets₁]) (by rwa [htickets₁])
      (fun t => by
        have hlength := Boxes.step_length (ticketOf fuel s.tickets) a op t
        have := hfuel t
        simp only [List.length_cons] at this
        omega)
      (fun t => by
        rw [Boxes.step_sentTo]
        have := hsent t
        have := hsplit t
        omega)
    rw [htickets₁] at hrun
    obtain ⟨s', hrun, htickets, h'⟩ := hrun
    refine ⟨s', ?_, htickets, h'⟩
    simp only [State.run, hstep, Option.bind_some, hrun, Option.map_some, Boxes.run]

end Represents

/-! ## All runs -/

/-- The queues refine the boxes: a run replies as they do, both kinds of lists are linked
and ordered as they are, and a message is queued globally exactly while it is in one box,
which is while it is in memory. -/
theorem queues_refine_boxes {s : State} {ops : List Op} {fuel : Nat} (hempty : s.Empty)
    (hlookup : ∀ rcvTicket, (s.tickets.getTicketMsgStructByTicket fuel rcvTicket).isSome)
    (halloc : Boxes.Allocated (ticketOf fuel s.tickets) Boxes.init ops)
    (hfuel : ops.length ≤ fuel) (hsent : ∀ t, sendsTo t ops < 2 ^ 31) :
    ∃ s' a', State.run fuel s ops =
        some ((Boxes.init.run (ticketOf fuel s.tickets) ops).1, s') ∧
      a' = (Boxes.init.run (ticketOf fuel s.tickets) ops).2 ∧ Represents s' a' ∧
      (∀ p, p ∈ a'.all ↔ ∃! t, p ∈ ids (a'.box t)) ∧ ∀ p, p ∈ a'.all ↔ (s'.msgs p).isSome := by
  obtain ⟨s', hrun, -, h⟩ := (Represents.init hempty).run hlookup halloc
    (fun t => by simpa [Boxes.init] using hfuel)
    (fun t => by simpa [Boxes.init] using Nat.le_of_lt (hsent t))
  refine ⟨s', _, hrun, rfl, h, fun p => h.mem_all_iff, fun p => ⟨fun hp => ?_, fun hp => ?_⟩⟩
  · obtain ⟨t, ht⟩ := (h.mem_all p).mp hp
    obtain ⟨e, he, rfl⟩ := Represents.mem_ids.mp ht
    rw [(h.content t e he).1]
    rfl
  · by_contra hnot
    rw [h.free p hnot] at hp
    cases hp

/-- The queues of one ticket struct, at address 100 with the ticket 5. -/
def withTicket : State where
  msgs _ := none
  next _ := none
  prev _ := none
  tnext _ := none
  tprev _ := none
  XmsgQue := ⟨none, none⟩
  xmsgQue _ := ⟨none, none⟩
  expireTime _ := 0
  nxtSeqNumber _ := 0
  tickets :=
    { Tickets.withTickets [] with
      ticket := fun _ => ⟨5, 5, 0, 0⟩
      XmsgHashQue := fun i => if i = 5 then ⟨some 100, some 100⟩ else ⟨none, none⟩ }

def oneReceiver : SendXmsgInfo := ⟨1, "mesg", 1, "hello", 0, ""⟩

def hello : List Op :=
  [.send 1 100 oneReceiver 0 "rods" "host", .send 2 100 oneReceiver 0 "rods" "host",
    .receive 5 (fun xmsg => xmsg.seqNumber = 1), .clearOne 100 0]

/-- Two messages: the second is received and the first cleared. -/
theorem queues_refine_boxes_hello :
    ∃ s' a', State.run 4 withTicket hello =
        some ((Boxes.init.run (ticketOf 4 withTicket.tickets) hello).1, s') ∧
      a' = (Boxes.init.run (ticketOf 4 withTicket.tickets) hello).2 ∧ Represents s' a' ∧
      (∀ p, p ∈ a'.all ↔ ∃! t, p ∈ ids (a'.box t)) ∧ ∀ p, p ∈ a'.all ↔ (s'.msgs p).isSome := by
  refine queues_refine_boxes ⟨fun _ => rfl, rfl, fun _ => rfl, fun _ => rfl⟩ (fun rcvTicket => ?_)
    ⟨?_, ?_, trivial, trivial, trivial⟩ (by decide) (fun t => ?_)
  · simp only [Tickets.getTicketMsgStructByTicket, withTicket, Option.isSome_map]
    split
    · simp only [Tickets.findTicket, Tickets.withTickets]
      split
      · rfl
      · split <;> rfl
    · rfl
  · simp [Boxes.init]
  · simp [Boxes.init, Boxes.step, Boxes.add]
  · exact Nat.lt_of_le_of_lt List.countP_le_length (by decide)

end Xmsg
