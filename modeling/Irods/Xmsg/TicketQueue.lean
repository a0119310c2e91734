-- SUMMARY: The hash queues of message tickets.
import Irods.Base.LinkedQueue

/-!
# Ticket queues

`XmsgHashQue` has one doubly linked queue of `ticketMsgStruct`s for each hash slot, in
descending order of `rcvTicket`. A struct that goes between two others leaves a wrong link
back, so the queues are in order only in runs that never add in the middle.

A struct stands for one allocation; its ticket never changes.
-/

namespace Xmsg

open LinkedQueue

def SYS_DUPLICATE_XMSG_TICKET : Int := -61000
def SYS_UNMATCHED_XMSG_TICKET : Int := -62000

def NUM_HASH_SLOT : Nat := 47

/-- A `ticketMsgStruct` or an `irodsXmsg`, by its address. -/
abbrev Addr := Nat

structure TicketInfo where
  sendTicket : Nat
  rcvTicket : Nat
  expireTime : Nat
  flag : Nat

/-- The head and the tail of a queue. -/
structure Ends where
  head : Option Addr
  tail : Option Addr

/-- The ticket structs, field by field, and the hash queues. -/
structure Tickets where
  ticket : Addr → TicketInfo
  hprev : Addr → Option Addr
  hnext : Addr → Option Addr
  ticketHashQue : Addr → Option Nat
  nxtSeqNumber : Addr → Nat
  XmsgHashQue : Nat → Ends

namespace Tickets

def rcvTicket (s : Tickets) (p : Addr) : Nat := (s.ticket p).rcvTicket

/-- The queue of a slot. -/
def queue (s : Tickets) (i : Nat) : Queue Addr :=
  ⟨s.hnext, s.hprev, (s.XmsgHashQue i).head, (s.XmsgHashQue i).tail⟩

def setQueue (s : Tickets) (i : Nat) (q : Queue Addr) : Tickets :=
  { s with
    hnext := q.next
    hprev := q.prev
    XmsgHashQue := Function.update s.XmsgHashQue i ⟨q.head, q.tail⟩ }

/-! ## Operations -/

/-- Where the loop of `addTicketMsgStructToHQue` stops. -/
inductive Place where
  | duplicate
  | before (tmpTicketMsgStruct : Option Addr)
  deriving DecidableEq

/-- The loop of `addTicketMsgStructToHQue`; `none` when it takes more than `fuel` rounds. -/
def findPlace (s : Tickets) (rcvTicket : Nat) : Nat → Option Addr → Option Place
  | 0, _ => none
  | _ + 1, none => some (.before none)
  | fuel + 1, some p =>
    if rcvTicket = s.rcvTicket p then some .duplicate
    else if rcvTicket > s.rcvTicket p then some (.before (some p))
    else findPlace s rcvTicket fuel (s.hnext p)

/-- Links a struct in before `tmpTicketMsgStruct`; `none` when a null pointer is followed. -/
def linkBefore (s : Tickets) (p : Addr) (i : Nat) : Option Addr → Option Tickets
  | none =>
    -- reached the end
    (s.XmsgHashQue i).tail.map fun t =>
      { s with
        hnext := Function.update s.hnext t (some p)
        hprev := Function.update s.hprev p (some t)
        XmsgHashQue := Function.update s.XmsgHashQue i ⟨(s.XmsgHashQue i).head, some p⟩ }
  | some tmp =>
    if some tmp = (s.XmsgHashQue i).head then
      some
        { s with
          hprev := Function.update s.hprev tmp (some p)
          hnext := Function.update s.hnext p (some tmp)
          XmsgHashQue := Function.update s.XmsgHashQue i ⟨some p, (s.XmsgHashQue i).tail⟩ }
    else
      let s := { s with
        hprev := Function.update s.hprev p (s.hprev tmp)
        hnext := Function.update s.hnext p (some tmp) }
      (s.hprev tmp).map fun b =>
        { s with
          hnext := Function.update s.hnext b (some p)
          hprev := Function.update s.hprev tmp (some tmp) }

/-- The fields that `addTicketMsgStructToHQue` sets first. -/
def reset (s : Tickets) (p : Addr) (i : Nat) : Tickets :=
  { s with
    hnext := Function.update s.hnext p none
    hprev := Function.update s.hprev p none
    nxtSeqNumber := Function.update s.nxtSeqNumber p 0
    ticketHashQue := Function.update s.ticketHashQue p (some i) }

def addTicketMsgStructToHQue (fuel : Nat) (p : Addr) (i : Nat) (s : Tickets) :
    Option (Int × Tickets) :=
  let s := s.reset p i
  match (s.XmsgHashQue i).head with
  | none =>
    some (0, { s with XmsgHashQue := Function.update s.XmsgHashQue i ⟨some p, some p⟩ })
  | some h =>
    match findPlace s (s.rcvTicket p) fuel (some h) with
    | none => none
    | some .duplicate => some (SYS_DUPLICATE_XMSG_TICKET, s)
    | some (.before tmp) => (linkBefore s p i tmp).map fun s => (0, s)

def rmTicketMsgStructFromHQue (p : Addr) (i : Nat) (s : Tickets) : Int × Tickets :=
  (0, s.setQueue i ((s.queue i).unlink p))

def ticketHashFunc (rcvTicket : Nat) : Nat := rcvTicket % NUM_HASH_SLOT

/-- The loop of `getTicketMsgStructByTicket`. -/
def findTicket (s : Tickets) (rcvTicket : Nat) : Nat → Option Addr → Option (Option Addr)
  | 0, _ => none
  | _ + 1, none => some none
  | fuel + 1, some p =>
    if rcvTicket = s.rcvTicket p then some (some p)
    else if rcvTicket > s.rcvTicket p then some none
    else findTicket s rcvTicket fuel (s.hnext p)

/-- The status and the struct found; `none` when the loop takes more than `fuel` rounds. -/
def getTicketMsgStructByTicket (fuel rcvTicket : Nat) (s : Tickets) : Option (Int × Option Addr) :=
  (findTicket s rcvTicket fuel (s.XmsgHashQue (ticketHashFunc rcvTicket)).head).map fun
    | some p => (0, some p)
    | none => (SYS_UNMATCHED_XMSG_TICKET, none)

/-! ## Runs -/

inductive Op where
  | add (p : Addr) (i : Nat)
  | rm (p : Addr) (i : Nat)
  deriving DecidableEq

def step (fuel : Nat) (s : Tickets) : Op → Option (Int × Tickets)
  | .add p i => addTicketMsgStructToHQue fuel p i s
  | .rm p i => some (rmTicketMsgStructFromHQue p i s)

/-- The statuses and the last state. -/
def run (fuel : Nat) (s : Tickets) : List Op → Option (List Int × Tickets)
  | [] => some ([], s)
  | op :: ops =>
    (step fuel s op).bind fun (status, s) =>
      (run fuel s ops).map fun (statuses, s) => (status :: statuses, s)

/-- The structs that have been added to a queue and not been removed. -/
abbrev Members := Nat → List Addr

/-- What an operation does to the members, with its status: an add with the ticket of a
member is refused. -/
def memberStep (rcv : Addr → Nat) (mem : Members) : Op → Int × Members
  | .add p i =>
    if ∃ x ∈ mem i, rcv x = rcv p then (SYS_DUPLICATE_XMSG_TICKET, mem)
    else (0, Function.update mem i (p :: mem i))
  | .rm p i => (0, Function.update mem i ((mem i).erase p))

def memberRun (rcv : Addr → Nat) (mem : Members) : List Op → List Int × Members
  | [] => ([], mem)
  | op :: ops =>
    let (status, mem) := memberStep rcv mem op
    let (statuses, mem) := memberRun rcv mem ops
    (status :: statuses, mem)

/-- Only members are removed. -/
def Legal (rcv : Addr → Nat) (mem : Members) : List Op → Prop
  | [] => True
  | op :: ops =>
    (match op with
      | .add _ _ => True
      | .rm p i => p ∈ mem i) ∧
    Legal rcv (memberStep rcv mem op).2 ops

/-- The struct is on no queue, and its ticket is that of a member, or above or below those
of all members. -/
def AtEnd (rcv : Addr → Nat) (mem : Members) : Op → Prop
  | .add p i =>
    (∀ j, p ∉ mem j) ∧
      ((∃ x ∈ mem i, rcv x = rcv p) ∨ (∀ x ∈ mem i, rcv x < rcv p) ∨ ∀ x ∈ mem i, rcv p < rcv x)
  | .rm _ _ => True

/-- Every add of the run is one at an end. -/
def AtEnds (rcv : Addr → Nat) (mem : Members) : List Op → Prop
  | [] => True
  | op :: ops => AtEnd rcv mem op ∧ AtEnds rcv (memberStep rcv mem op).2 ops

/-- The queue of a slot, from its head, is `l`. -/
structure InOrder (s : Tickets) (i : Nat) (l : List Addr) : Prop where
  path : Chain.Path s.hnext (s.XmsgHashQue i).head l none
  descending : l.Pairwise (fun x y => s.rcvTicket x > s.rcvTicket y)
  back : ∀ x ∈ l, ∀ y ∈ l, s.hprev y = some x ↔ s.hnext x = some y
  first : ∀ x ∈ l.head?, s.hprev x = none
  tail : (s.XmsgHashQue i).tail = l.getLast?

/-- The queues have the members, and a lookup finds those. -/
structure Represents (s : Tickets) (mem : Members) : Prop where
  order : ∀ i, ∃ l, s.InOrder i l ∧ ∀ p, p ∈ l ↔ p ∈ mem i
  lookup : ∀ t fuel p, (mem (ticketHashFunc t)).length < fuel →
    (getTicketMsgStructByTicket fuel t s = some (0, some p) ↔
      p ∈ mem (ticketHashFunc t) ∧ s.rcvTicket p = t)
  ends : ∀ t fuel, (mem (ticketHashFunc t)).length < fuel →
    (getTicketMsgStructByTicket fuel t s).isSome

/-! ## The loops -/

variable {s s' : Tickets} {l : List Addr} {p : Addr} {i t fuel : Nat} {from' : Option Addr}

theorem findPlace_duplicate (hpath : Chain.Path s.hnext from' l none)
    (hdesc : l.Pairwise (fun x y => s.rcvTicket x > s.rcvTicket y)) (hfuel : l.length < fuel)
    (hdup : ∃ x ∈ l, s.rcvTicket x = t) : findPlace s t fuel from' = some .duplicate := by
  induction l generalizing from' fuel with
  | nil => simp at hdup
  | cons x xs ih =>
    obtain ⟨rfl, hrest⟩ := hpath
    obtain ⟨hx, hdesc⟩ := List.pairwise_cons.mp hdesc
    obtain ⟨fuel, rfl⟩ : ∃ n, fuel = n + 1 := ⟨fuel - 1, by omega⟩
    by_cases heq : t = s.rcvTicket x
    · simp only [findPlace, if_pos heq]
    · have hdup' : ∃ y ∈ xs, s.rcvTicket y = t := by
        obtain ⟨y, hy, hyt⟩ := hdup
        rcases List.mem_cons.mp hy with rfl | hy
        · exact absurd hyt.symm heq
        · exact ⟨y, hy, hyt⟩
      have hlt : ¬ t > s.rcvTicket x := by
        obtain ⟨y, hy, rfl⟩ := hdup'
        have := hx y hy
        omega
      simp only [findPlace, if_neg heq, if_neg hlt]
      exact ih hrest hdesc (by simpa using hfuel) hdup'

theorem findPlace_end (hpath : Chain.Path s.hnext from' l none) (hfuel : l.length < fuel)
    (hbelow : ∀ x ∈ l, t < s.rcvTicket x) : findPlace s t fuel from' = some (.before none) := by
  induction l generalizing from' fuel with
  | nil =>
    obtain rfl := Chain.path_nil.mp hpath
    obtain ⟨fuel, rfl⟩ : ∃ n, fuel = n + 1 := ⟨fuel - 1, by omega⟩
    rfl
  | cons x xs ih =>
    obtain ⟨rfl, hrest⟩ := hpath
    obtain ⟨fuel, rfl⟩ : ∃ n, fuel = n + 1 := ⟨fuel - 1, by omega⟩
    have hx := hbelow x (by simp)
    have heq : ¬ t = s.rcvTicket x := by omega
    have hlt : ¬ t > s.rcvTicket x := by omega
    simp only [findPlace, if_neg heq, if_neg hlt]
    exact ih hrest (by simpa using hfuel) (fun y hy => hbelow y (List.mem_cons_of_mem x hy))

/-- On a queue in order the lookup finds the member with the ticket. -/
theorem findTicket_eq (hpath : Chain.Path s.hnext from' l none)
    (hdesc : l.Pairwise (fun x y => s.rcvTicket x > s.rcvTicket y)) (hfuel : l.length < fuel) :
    findTicket s t fuel from' = some (l.find? (fun x => s.rcvTicket x = t)) := by
  induction l generalizing from' fuel with
  | nil =>
    obtain rfl := Chain.path_nil.mp hpath
    obtain ⟨fuel, rfl⟩ : ∃ n, fuel = n + 1 := ⟨fuel - 1, by omega⟩
    rfl
  | cons x xs ih =>
    obtain ⟨rfl, hrest⟩ := hpath
    obtain ⟨hx, hdesc⟩ := List.pairwise_cons.mp hdesc
    obtain ⟨fuel, rfl⟩ : ∃ n, fuel = n + 1 := ⟨fuel - 1, by omega⟩
    by_cases heq : t = s.rcvTicket x
    · simp [findTicket, heq]
    · have hne : ¬ s.rcvTicket x = t := fun h => heq h.symm
      by_cases hlt : t > s.rcvTicket x
      · -- everything behind is smaller
        have hnone : xs.find? (fun y => decide (s.rcvTicket y = t)) = none := by
          rw [List.find?_eq_none]
          intro y hy
          have := hx y hy
          simp
          omega
        simp [findTicket, heq, hlt, hne, hnone]
      · rw [findTicket, if_neg heq, if_neg hlt, ih hrest hdesc (by simpa using hfuel)]
        simp [hne]

/-! ## The invariant -/

/-- The queues hold the lists `ls`, which are the members in order. -/
structure Inv (s : Tickets) (mem : Members) (ls : Nat → List Addr) : Prop where
  holds : ∀ i, (s.queue i).Holds (ls i)
  descending : ∀ i, (ls i).Pairwise (fun x y => s.rcvTicket x > s.rcvTicket y)
  perm : ∀ i, (ls i).Perm (mem i)
  disjoint : ∀ i j, i ≠ j → (ls i).Disjoint (ls j)

variable {mem : Members} {ls : Nat → List Addr} {x : Addr}

theorem Inv.mem_iff (h : s.Inv mem ls) : x ∈ ls i ↔ x ∈ mem i :=
  (h.perm i).mem_iff

theorem Inv.path (h : s.Inv mem ls) (i : Nat) : Chain.Path s.hnext (s.XmsgHashQue i).head (ls i) none :=
  (h.holds i).path

/-- Two members of a queue have different tickets. -/
theorem Inv.rcvTicket_inj (h : s.Inv mem ls) {y : Addr} (hx : x ∈ ls i) (hy : y ∈ ls i)
    (heq : s.rcvTicket x = s.rcvTicket y) : y = x := by
  obtain ⟨l₁, l₂, hl⟩ := List.append_of_mem hx
  have hdesc := h.descending i
  rw [hl] at hdesc hy
  obtain ⟨-, hafter, hbefore⟩ := List.pairwise_append.mp hdesc
  rcases List.mem_append.mp hy with hy | hy
  · have := hbefore y hy x (by simp)
    omega
  · rcases List.mem_cons.mp hy with rfl | hy
    · rfl
    · have := (List.pairwise_cons.mp hafter).1 y hy
      omega

theorem Inv.represents (h : s.Inv mem ls) :
    s.Represents mem where
  order i := by
    refine ⟨ls i, ⟨(h.holds i).path, h.descending i, fun x hx y hy => ?_, fun x hx => ?_,
      (h.holds i).tail⟩, fun x => h.mem_iff⟩
    · exact (h.holds i).linked.prev_iff (h.holds i).nodup hx hy
    · have hlinked := (h.holds i).linked
      cases hl : ls i with
      | nil => simp [hl] at hx
      | cons y ys =>
        obtain rfl : y = x := by simpa [hl] using hx
        rw [hl] at hlinked
        exact hlinked.1
  lookup t fuel p hfuel := by
    have hlen := (h.perm (ticketHashFunc t)).length_eq
    rw [getTicketMsgStructByTicket, findTicket_eq (h.path _) (h.descending _) (by omega),
      Option.map_some, ← h.mem_iff]
    cases hfind : (ls (ticketHashFunc t)).find? (fun x => s.rcvTicket x = t) with
    | none =>
      rw [List.find?_eq_none] at hfind
      constructor
      · simp
      · rintro ⟨hp, hpt⟩
        exact absurd (decide_eq_true hpt) (hfind p hp)
    | some x =>
      have hx := List.mem_of_find?_eq_some hfind
      have hxt : s.rcvTicket x = t := by simpa using List.find?_some hfind
      simp only [Option.some.injEq, Prod.mk.injEq, true_and]
      constructor
      · rintro rfl
        exact ⟨hx, hxt⟩
      · rintro ⟨hp, hpt⟩
        exact h.rcvTicket_inj hp hx (hpt.trans hxt.symm)
  ends t fuel hfuel := by
    have hlen := (h.perm (ticketHashFunc t)).length_eq
    rw [getTicketMsgStructByTicket, findTicket_eq (h.path _) (h.descending _) (by omega)]
    rfl

/-- A queue that changes takes its list along, and the others stay. -/
theorem Inv.update (h : s.Inv mem ls) {l' m' : List Addr} (htickets : s'.ticket = s.ticket)
    (hends : ∀ j, j ≠ i → s'.XmsgHashQue j = s.XmsgHashQue j) (hsame : Queue.SameOff l' (s.queue i) (s'.queue i))
    (hholds : (s'.queue i).Holds l) (hsub : l ⊆ l') (hfresh : ∀ j, j ≠ i → (ls j).Disjoint l')
    (hdesc : l.Pairwise (fun x y => s.rcvTicket x > s.rcvTicket y)) (hperm : l.Perm m') :
    s'.Inv (Function.update mem i m') (Function.update ls i l) := by
  have hrcv : s'.rcvTicket = s.rcvTicket := by
    unfold rcvTicket
    rw [htickets]
  refine ⟨fun j => ?_, fun j => ?_, fun j => ?_, fun j k hjk => ?_⟩
  · by_cases hj : j = i
    · subst hj
      simpa using hholds
    · rw [Function.update_of_ne hj]
      have hother := (h.holds j).disjoint (q := s.queue i) hsame (hfresh j hj)
      exact hother.congr (by simp [queue, hends j hj]) (by simp [queue, hends j hj])
        (fun _ _ => rfl) (fun _ _ => rfl)
  · rw [hrcv]
    by_cases hj : j = i
    · subst hj
      simpa using hdesc
    · rw [Function.update_of_ne hj]
      exact h.descending j
  · by_cases hj : j = i
    · subst hj
      simpa using hperm
    · rw [Function.update_of_ne hj, Function.update_of_ne hj]
      exact h.perm j
  · by_cases hj : j = i
    · subst hj
      rw [Function.update_self, Function.update_of_ne hjk.symm]
      exact List.disjoint_of_subset_left hsub (List.disjoint_symm (hfresh k hjk.symm))
    · rw [Function.update_of_ne hj]
      by_cases hk : k = i
      · subst hk
        rw [Function.update_self]
        exact List.disjoint_of_subset_right hsub (hfresh j hj)
      · rw [Function.update_of_ne hk]
        exact h.disjoint j k hjk

theorem Inv.rm (h : s.Inv mem ls) (hp : p ∈ mem i) :
    ∃ ls', (rmTicketMsgStructFromHQue p i s).2.Inv
      (Function.update mem i ((mem i).erase p)) ls' := by
  obtain ⟨hafter, hsame⟩ := (h.holds i).unlink_mem (h.mem_iff.mpr hp)
  refine ⟨_, h.update (i := i) (l := (ls i).erase p) rfl (fun j hj => ?_) hsame ?_ List.erase_subset
    (fun j hj => h.disjoint j i hj) ((h.descending i).sublist List.erase_sublist)
    ((h.perm i).erase p)⟩
  · simp [rmTicketMsgStructFromHQue, setQueue, hj]
  · refine hafter.congr ?_ ?_ (fun _ _ => rfl) (fun _ _ => rfl)
    · simp [rmTicketMsgStructFromHQue, setQueue, queue]
    · simp [rmTicketMsgStructFromHQue, setQueue, queue]

/-- A struct on no queue can be reset. -/
theorem Inv.reset (h : s.Inv mem ls) (hnew : ∀ j, p ∉ mem j) (i : Nat) : (s.reset p i).Inv mem ls := by
  refine ⟨fun j => ?_, h.descending, h.perm, h.disjoint⟩
  have hne : ∀ y ∈ ls j, y ≠ p := fun y hy heq => hnew j (h.mem_iff.mp (heq ▸ hy))
  refine (h.holds j).congr rfl rfl (fun y hy => ?_) (fun y hy => ?_)
  · simp [queue, Tickets.reset, hne y hy]
  · simp [queue, Tickets.reset, hne y hy]

theorem Inv.insert (h : s.Inv mem ls) (hnew : ∀ j, p ∉ mem j) (htickets : s'.ticket = s.ticket)
    (hends : ∀ j, j ≠ i → s'.XmsgHashQue j = s.XmsgHashQue j) (hperm : l.Perm (p :: ls i))
    (hsame : Queue.SameOff l (s.queue i) (s'.queue i)) (hholds : (s'.queue i).Holds l)
    (hdesc : l.Pairwise (fun x y => s.rcvTicket x > s.rcvTicket y)) :
    s'.Inv (Function.update mem i (p :: mem i)) (Function.update ls i l) := by
  refine h.update htickets hends hsame hholds (List.Subset.refl l) (fun j hj x hx hx' => ?_) hdesc
    (hperm.trans ((h.perm i).cons p))
  rcases List.mem_cons.mp (hperm.mem_iff.mp hx') with rfl | hx'
  · exact hnew j (h.mem_iff.mp hx)
  · exact h.disjoint j i hj hx hx'

/-- A struct whose links are null goes to the top. -/
theorem linkBefore_top (hnext : s.hnext p = none) (hprev : s.hprev p = none) (hhead : (s.XmsgHashQue i).head = some x) :
    ∃ s', linkBefore s p i (some x) = some s' ∧ s'.ticket = s.ticket ∧
      (∀ j, j ≠ i → s'.XmsgHashQue j = s.XmsgHashQue j) ∧
      s'.queue i = (s.queue i).pushFront p := by
  have hnext' : Function.update s.hnext p none = s.hnext := by
    rw [← hnext, Function.update_eq_self]
  have hprev' : Function.update s.hprev p none = s.hprev := by
    rw [← hprev, Function.update_eq_self]
  refine ⟨_, if_pos hhead.symm, rfl, fun j hj => Function.update_of_ne hj _ _, ?_⟩
  simp only [Queue.pushFront, queue, hnext', hprev', hhead, Function.update_self]

/-- A struct whose links are null goes to the end. -/
theorem linkBefore_end {q : Queue Addr} (hnext : s.hnext p = none) (hhead : (s.XmsgHashQue i).head = some x)
    (htail : (s.XmsgHashQue i).tail ≠ some p) (hpush : (s.queue i).pushBack p = some q) :
    ∃ s', linkBefore s p i none = some s' ∧ s'.ticket = s.ticket ∧
      (∀ j, j ≠ i → s'.XmsgHashQue j = s.XmsgHashQue j) ∧ s'.queue i = q := by
  have hqhead : (s.queue i).head = some x := hhead
  simp only [Queue.pushBack, hqhead, Option.map_eq_some_iff] at hpush
  obtain ⟨t, ht, rfl⟩ := hpush
  have ht' : (s.XmsgHashQue i).tail = some t := ht
  have hne : p ≠ t := fun heq => htail (heq ▸ ht')
  have hnext' : Function.update (Function.update s.hnext t (some p)) p none =
      Function.update s.hnext t (some p) := by
    rw [Function.update_eq_self_iff, Function.update_of_ne hne, hnext]
  have hrun : linkBefore s p i none = some
      { s with
        hnext := Function.update s.hnext t (some p)
        hprev := Function.update s.hprev p (some t)
        XmsgHashQue := Function.update s.XmsgHashQue i ⟨(s.XmsgHashQue i).head, some p⟩ } := by
    rw [linkBefore, ht', Option.map_some]
  refine ⟨_, hrun, rfl, fun j hj => Function.update_of_ne hj _ _, ?_⟩
  simp only [queue, hnext', Function.update_self, hhead]

theorem Inv.addNew (h : s.Inv mem ls) (hnew : ∀ j, p ∉ mem j) (hnext : s.hnext p = none) (hprev : s.hprev p = none)
    (hplace : (∀ x ∈ ls i, s.rcvTicket x < s.rcvTicket p) ∨
      ∀ x ∈ ls i, s.rcvTicket p < s.rcvTicket x)
    (hfuel : (ls i).length < fuel) :
    ∃ s' l, (match (s.XmsgHashQue i).head with
        | none =>
          some ((0 : Int),
            { s with XmsgHashQue := Function.update s.XmsgHashQue i ⟨some p, some p⟩ })
        | some x =>
          match findPlace s (s.rcvTicket p) fuel (some x) with
          | none => none
          | some .duplicate => some (SYS_DUPLICATE_XMSG_TICKET, s)
          | some (.before tmp) => (linkBefore s p i tmp).map fun s => (0, s)) = some (0, s') ∧
      s'.ticket = s.ticket ∧
      s'.Inv (Function.update mem i (p :: mem i)) (Function.update ls i l) := by
  have hnotin : p ∉ ls i := fun hp => hnew i (h.mem_iff.mp hp)
  have hhead := (h.holds i).head
  cases hl : ls i with
  | nil =>
    have hnone : (s.XmsgHashQue i).head = none := by rwa [hl] at hhead
    rw [hnone]
    refine ⟨_, [p], rfl, rfl, h.insert hnew rfl (fun j hj => ?_) (by rw [hl])
      (fun _ _ => ⟨rfl, rfl⟩) ⟨by simp, ?_, ?_, ?_⟩ (by simp)⟩
    · exact Function.update_of_ne hj _ _
    · simp [queue]
    · simp [queue]
    · exact ⟨hprev, hnext, linked_nil⟩
  | cons x xs =>
    have hsome : (s.XmsgHashQue i).head = some x := by rwa [hl] at hhead
    have hpath := h.path i
    rw [hsome] at hpath ⊢
    rcases hplace with habove | hbelow
    · have hlt := habove x (by simp [hl])
      have hfind : findPlace s (s.rcvTicket p) fuel (some x) = some (.before (some x)) := by
        obtain ⟨fuel, rfl⟩ : ∃ n, fuel = n + 1 := ⟨fuel - 1, by omega⟩
        have heq : ¬ s.rcvTicket p = s.rcvTicket x := by omega
        simp only [findPlace, if_neg heq, if_pos hlt]
      obtain ⟨s', hlink, hticket, hends, hqueue⟩ := linkBefore_top hnext hprev hsome
      refine ⟨s', p :: ls i, by simp only [hfind, hlink, Option.map_some], hticket,
        h.insert hnew hticket hends (List.Perm.refl _) ?_ ?_ ?_⟩
      · rw [hqueue]
        exact Queue.sameOff_pushFront (h.holds i)
      · rw [hqueue]
        exact (h.holds i).pushFront hnotin
      · exact List.pairwise_cons.mpr ⟨habove, h.descending i⟩
    · have hfind := findPlace_end (t := s.rcvTicket p) hpath hfuel hbelow
      obtain ⟨q, hpush, hholds, hsame⟩ := (h.holds i).pushBack hnotin
      have htail : (s.XmsgHashQue i).tail ≠ some p := by
        have htail : (s.XmsgHashQue i).tail = (ls i).getLast? := (h.holds i).tail
        rw [htail]
        exact fun heq => hnotin (List.mem_of_getLast? heq)
      obtain ⟨s', hlink, hticket, hends, rfl⟩ := linkBefore_end hnext hsome htail hpush
      refine ⟨s', ls i ++ [p], by simp only [hfind, hlink, Option.map_some], hticket,
        h.insert hnew hticket hends (List.perm_append_singleton _ _) hsame hholds ?_⟩
      refine List.pairwise_append.mpr ⟨h.descending i, by simp, fun x hx y hy => ?_⟩
      obtain rfl : y = p := by simpa using hy
      exact hbelow x hx

theorem Inv.add (h : s.Inv mem ls) (hend : AtEnd s.rcvTicket mem (.add p i)) (hfuel : (mem i).length < fuel) :
    ∃ s' ls', addTicketMsgStructToHQue fuel p i s =
        some ((memberStep s.rcvTicket mem (.add p i)).1, s') ∧
      s'.ticket = s.ticket ∧ s'.Inv (memberStep s.rcvTicket mem (.add p i)).2 ls' := by
  obtain ⟨hnew, hplace⟩ := hend
  have h₁ := h.reset hnew i
  have hlen : (ls i).length < fuel := by rwa [(h.perm i).length_eq]
  have hrcv : (s.reset p i).rcvTicket = s.rcvTicket := rfl
  by_cases hdup : ∃ x ∈ mem i, s.rcvTicket x = s.rcvTicket p
  · -- refused
    have hdup' : ∃ x ∈ ls i, (s.reset p i).rcvTicket x = s.rcvTicket p := by
      obtain ⟨x, hx, hxp⟩ := hdup
      exact ⟨x, h.mem_iff.mpr hx, hxp⟩
    have hfind := findPlace_duplicate (h₁.path i) (h₁.descending i) hlen hdup'
    cases hl : ls i with
    | nil => simp [hl] at hdup'
    | cons x xs =>
      have hhead : ((s.reset p i).XmsgHashQue i).head = some x := by
        have := (h₁.holds i).head
        rwa [hl] at this
      rw [hhead] at hfind
      simp only [memberStep, if_pos hdup]
      exact ⟨s.reset p i, ls, by simp only [addTicketMsgStructToHQue, hhead, hrcv, hfind], rfl, h₁⟩
  · have hplace' : (∀ x ∈ ls i, s.rcvTicket x < s.rcvTicket p) ∨
        ∀ x ∈ ls i, s.rcvTicket p < s.rcvTicket x :=
      (hplace.resolve_left hdup).imp (fun h' x hx => h' x (h.mem_iff.mp hx))
        (fun h' x hx => h' x (h.mem_iff.mp hx))
    obtain ⟨s', l, hrun, hticket, hinv⟩ := h₁.addNew hnew (by simp [Tickets.reset])
      (by simp [Tickets.reset]) hplace' hlen
    simp only [memberStep, if_neg hdup]
    exact ⟨s', _, hrun, hticket, hinv⟩

/-! ## Runs stay in order -/

theorem memberStep_length (rcv : Addr → Nat) (mem : Members) (op : Op) (i : Nat) :
    ((memberStep rcv mem op).2 i).length ≤ (mem i).length + 1 := by
  cases op with
  | add p j =>
    simp only [memberStep]
    split
    · exact Nat.le_succ _
    · by_cases hij : i = j
      · subst hij
        simp
      · simp [hij]
  | rm p j =>
    by_cases hij : i = j
    · subst hij
      simp only [memberStep, Function.update_self]
      exact Nat.le_succ_of_le List.length_erase_le
    · simp [memberStep, hij]

/-- A legal run at the ends keeps the queues in order. -/
theorem Inv.run {ops : List Op} : ∀ {s : Tickets} {mem : Members} {ls : Nat → List Addr},
    s.Inv mem ls → Legal s.rcvTicket mem ops → AtEnds s.rcvTicket mem ops →
    (∀ i, (mem i).length + ops.length ≤ fuel) →
    ∃ s' ls', Tickets.run fuel s ops = some ((memberRun s.rcvTicket mem ops).1, s') ∧
      s'.ticket = s.ticket ∧ s'.Inv (memberRun s.rcvTicket mem ops).2 ls' := by
  induction ops with
  | nil => exact fun h _ _ _ => ⟨_, _, rfl, rfl, h⟩
  | cons op ops ih =>
    intro s mem ls h hlegal hends hfuel
    obtain ⟨hop, hlegal⟩ := hlegal
    obtain ⟨hend, hends⟩ := hends
    have hstep : ∃ s₁ ls₁, step fuel s op = some ((memberStep s.rcvTicket mem op).1, s₁) ∧
        s₁.ticket = s.ticket ∧ s₁.Inv (memberStep s.rcvTicket mem op).2 ls₁ := by
      cases op with
      | add p i =>
        have hi := hfuel i
        rw [List.length_cons] at hi
        exact h.add hend (by omega)
      | rm p i =>
        obtain ⟨ls₁, h₁⟩ := h.rm hop
        exact ⟨_, ls₁, rfl, rfl, h₁⟩
    obtain ⟨s₁, ls₁, hrun₁, hticket₁, h₁⟩ := hstep
    have hrcv : s₁.rcvTicket = s.rcvTicket := by
      unfold rcvTicket
      rw [hticket₁]
    obtain ⟨s', ls', hrun, hticket, h'⟩ := ih h₁ (hrcv ▸ hlegal) (hrcv ▸ hends) (fun i => by
      have hi := hfuel i
      have := memberStep_length s.rcvTicket mem op i
      rw [List.length_cons] at hi
      omega)
    rw [hrcv] at hrun h'
    refine ⟨s', ls', ?_, hticket.trans hticket₁, h'⟩
    simp only [Tickets.run, hrun₁, Option.bind_some, hrun, Option.map_some, memberRun]

/-- All queues are empty. -/
def Empty (s : Tickets) : Prop := ∀ i, s.XmsgHashQue i = ⟨none, none⟩

theorem Empty.inv (h : s.Empty) : s.Inv (fun _ => []) (fun _ => []) where
  holds i := ⟨List.nodup_nil, by simp [queue, h i], by simp [queue, h i], linked_nil⟩
  descending _ := .nil
  perm _ := List.Perm.refl _
  disjoint _ _ _ := List.disjoint_nil_left _

/-- In a run that adds at the ends only, the queues have the members in descending order,
linked both ways, and a lookup finds exactly the members. -/
theorem queues_in_order {s : Tickets} {ops : List Op} {fuel : Nat} (hempty : s.Empty)
    (hlegal : Legal s.rcvTicket (fun _ => []) ops) (hends : AtEnds s.rcvTicket (fun _ => []) ops)
    (hfuel : ops.length ≤ fuel) :
    ∃ s', run fuel s ops = some ((memberRun s.rcvTicket (fun _ => []) ops).1, s') ∧
      s'.ticket = s.ticket ∧ s'.Represents (memberRun s.rcvTicket (fun _ => []) ops).2 := by
  obtain ⟨s', ls', hrun, hticket, h⟩ := hempty.inv.run hlegal hends (fun i => by simpa using hfuel)
  exact ⟨s', hrun, hticket, h.represents⟩

/-- Structs with these tickets, and no queues yet. -/
def withTickets (rcvTickets : List Nat) : Tickets where
  ticket p := ⟨0, rcvTickets.getD p 0, 0, 0⟩
  hprev _ := none
  hnext _ := none
  ticketHashQue _ := none
  nxtSeqNumber _ := 0
  XmsgHashQue _ := ⟨none, none⟩

theorem queues_in_order_two :
    ∃ s', run 4 (withTickets [94, 47, 47]) [.add 0 0, .add 1 0, .add 2 0, .rm 0 0] =
        some ([0, 0, SYS_DUPLICATE_XMSG_TICKET, 0], s') ∧
      s'.ticket = (withTickets [94, 47, 47]).ticket ∧
      s'.Represents (memberRun (withTickets [94, 47, 47]).rcvTicket (fun _ => [])
        [.add 0 0, .add 1 0, .add 2 0, .rm 0 0]).2 :=
  queues_in_order (fun _ => rfl)
    ⟨trivial, trivial, trivial, by decide, trivial⟩
    ⟨⟨by simp, .inr (.inl (by simp))⟩,
      ⟨fun j => by
        by_cases hj : j = 0 <;> simp [memberStep, hj, withTickets, rcvTicket], .inr (.inr (by decide))⟩,
      ⟨fun j => by
        by_cases hj : j = 0 <;> simp [memberStep, hj, withTickets, rcvTicket], .inl (by decide)⟩, trivial,
        trivial⟩ (by decide)

/-- A third ticket between two others: the last one links back to itself. -/
theorem middle_links_back_to_itself :
    Legal (withTickets [141, 47, 94]).rcvTicket (fun _ => []) [.add 0 0, .add 1 0, .add 2 0] ∧
      ¬ ∃ s', run 3 (withTickets [141, 47, 94]) [.add 0 0, .add 1 0, .add 2 0] =
          some ((memberRun (withTickets [141, 47, 94]).rcvTicket (fun _ => [])
            [.add 0 0, .add 1 0, .add 2 0]).1, s') ∧
        s'.Represents (memberRun (withTickets [141, 47, 94]).rcvTicket (fun _ => [])
          [.add 0 0, .add 1 0, .add 2 0]).2 := by
  refine ⟨⟨trivial, trivial, trivial, trivial⟩, ?_⟩
  rintro ⟨s', hrun, hrep⟩
  have hlinks : (run 3 (withTickets [141, 47, 94]) [.add 0 0, .add 1 0, .add 2 0]).map
      (fun r => (r.2.hprev 1, r.2.hnext 1)) = some (some 1, none) := by decide
  rw [hrun] at hlinks
  obtain ⟨hprev, hnext⟩ : s'.hprev 1 = some 1 ∧ s'.hnext 1 = none := by simpa using hlinks
  obtain ⟨l, horder, hmem⟩ := hrep.order 0
  have hone : 1 ∈ l := (hmem 1).mpr (by decide)
  have := (horder.back 1 hone 1 hone).mp hprev
  rw [hnext] at this
  simp at this

end Tickets

end Xmsg
