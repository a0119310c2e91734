-- SUMMARY: checkObjIdByTicket, and the limits on the uses of a ticket.
import Irods.Base.CNumber

/-!
# Tickets

A check of access by ticket reads the ticket's row, tests it, and adds one to
`write_file_count` and `uses_count` where there is a limit on them. The object of the last
counted check is remembered in two statics, one for each counter, so that a check made
again for the same operation is not counted twice. The statics do not say which ticket it
was, and the limits are tested before they are looked at.

`cmlCheckTicketRestrictions` and `cmlAudit3` do not touch the counters; what they return
is part of what the database answers.
-/

namespace Ticket

open CString
open Function (update_self)

def CAT_TICKET_INVALID : Int := -890000
def CAT_TICKET_EXPIRED : Int := -891000
def CAT_TICKET_USES_EXCEEDED : Int := -892000
def CAT_TICKET_WRITE_USES_EXCEEDED : Int := -896000
def CAT_TICKET_WRITE_BYTES_EXCEEDED : Int := -897000

/-! ## The check -/

/-- The columns of `R_TICKET_MAIN` that count. -/
structure Counts where
  usesCount : Int
  writeFileCount : Int
  writeByteCount : Int
  deriving DecidableEq

/-- The other columns that are selected and used. The limits are columns of type `int`. -/
structure Row where
  ticketId : Text
  usesLimit : Int
  ticketExpiry : Text
  writeFileLimit : Int
  writeByteLimit : Int
  deriving DecidableEq

/-- The counters by ticket id, and the statics. -/
structure Session where
  counts : Text → Counts
  previousDataId1 : Int
  previousDataId2 : Int
  prevTicketId : Text

@[ext]
structure Check where
  dataId : Text
  accessLevel : Text
  ticketStr : Text
  ticketHost : Text
  userName : Text
  userZone : Text
  deriving DecidableEq

/-- What the calls that a check makes return: the row selected, `getNowStr`, and the
status of each of the others. -/
structure Answers where
  row : Option Row
  now : Text
  audit : Int
  restrictions : Int
  updateWriteFileCount : Int
  updateUsesCount : Int
  deriving DecidableEq

/-- `strncmp(accessLevel, "modify", 6) == 0`. -/
def Check.modify (x : Check) : Bool := "modify".toList.isPrefixOf x.accessLevel

/-- The object asked for, as `atoll` reads it. -/
def Check.intDataId (x : Check) : Int := atol x.dataId

def expired (ticketExpiry now : Text) : Bool :=
  ticketExpiry ≠ [] && 0 < atol ticketExpiry && atol ticketExpiry < atol now

/-- The room of `prevTicketId`. -/
def prevTicketIdSize : Nat := 50

/-- `if (status != 0) return(status)`. -/
def orReturn (r : Int × Session) (next : Session → Int × Session) : Int × Session :=
  if r.1 ≠ 0 then r else next r.2

/-- The audit of the first use of a ticket after another one. -/
def auditUse (w : Answers) (row : Row) (s : Session) : Int × Session :=
  if row.ticketId.take prevTicketIdSize ≠ s.prevTicketId.take prevTicketIdSize then
    (w.audit, { s with prevTicketId := row.ticketId.take prevTicketIdSize })
  else
    (0, s)

/-- The counters of one ticket change. -/
def Session.setCounts (s : Session) (ticketId : Text) (c : Counts) : Session :=
  { s with counts := Function.update s.counts ticketId c }

/-- The update of the counters of a ticket. -/
def update (status : Int) (ticketId : Text) (c : Counts) (s : Session) : Int × Session :=
  if status ≠ 0 then (status, s) else (0, s.setCounts ticketId c)

/-- The part for modify access. -/
def countWrite (x : Check) (w : Answers) (row : Row) (s : Session) : Int × Session :=
  let seen := s.counts row.ticketId
  if 0 < row.writeByteLimit ∧ row.writeByteLimit < seen.writeByteCount then
    (CAT_TICKET_WRITE_BYTES_EXCEEDED, s)
  else if 0 < row.writeFileLimit then
    if row.writeFileLimit ≤ seen.writeFileCount then
      (CAT_TICKET_WRITE_USES_EXCEEDED, s)
    else
      orReturn
        (if s.previousDataId1 ≠ x.intDataId then
          update w.updateWriteFileCount row.ticketId { seen with writeFileCount := seen.writeFileCount + 1 } s
        else
          (0, s))
        fun s => (0, { s with previousDataId1 := x.intDataId })
  else
    (0, s)

def countUse (x : Check) (w : Answers) (row : Row) (seen : Counts) (s : Session) : Int × Session :=
  if 0 < row.usesLimit then
    if row.usesLimit ≤ seen.usesCount then
      (CAT_TICKET_USES_EXCEEDED, s)
    else
      orReturn
        (if s.previousDataId2 ≠ x.intDataId then
          update w.updateUsesCount row.ticketId
            { s.counts row.ticketId with usesCount := seen.usesCount + 1 } s
        else
          (0, s))
        fun s => (0, { s with previousDataId2 := x.intDataId })
  else
    (0, s)

/-- Returns 0 where access is granted. -/
def checkObjIdByTicket (x : Check) (w : Answers) (s : Session) : Int × Session :=
  match w.row with
  | none => (CAT_TICKET_INVALID, s)
  | some row =>
    let seen := s.counts row.ticketId
    orReturn (auditUse w row s) fun s =>
    if expired row.ticketExpiry w.now then
      (CAT_TICKET_EXPIRED, s)
    else
      orReturn (w.restrictions, s) fun s =>
      orReturn (if x.modify then countWrite x w row s else (0, s)) fun s =>
      countUse x w row seen s

/-! ## When access is granted -/

/-- The tests that come before the counters. -/
structure Admits (w : Answers) (row : Row) (s : Session) : Prop where
  audit : row.ticketId.take prevTicketIdSize ≠ s.prevTicketId.take prevTicketIdSize → w.audit = 0
  notExpired : expired row.ticketExpiry w.now = false
  restrictions : w.restrictions = 0

/-- The write counters have room, and an update that is needed is made. -/
structure WritePasses (x : Check) (w : Answers) (row : Row) (s : Session) : Prop where
  bytes : 0 < row.writeByteLimit → (s.counts row.ticketId).writeByteCount ≤ row.writeByteLimit
  files : 0 < row.writeFileLimit → (s.counts row.ticketId).writeFileCount < row.writeFileLimit
  updated : 0 < row.writeFileLimit → s.previousDataId1 ≠ x.intDataId → w.updateWriteFileCount = 0

structure UsePasses (x : Check) (w : Answers) (row : Row) (s : Session) : Prop where
  uses : 0 < row.usesLimit → (s.counts row.ticketId).usesCount < row.usesLimit
  updated : 0 < row.usesLimit → s.previousDataId2 ≠ x.intDataId → w.updateUsesCount = 0

/-- `write_file_count` is raised. -/
def raisesWrite (x : Check) (row : Row) (s : Session) : Bool :=
  x.modify && 0 < row.writeFileLimit && s.previousDataId1 ≠ x.intDataId

/-- `uses_count` is raised. -/
def raisesUse (x : Check) (row : Row) (s : Session) : Bool :=
  0 < row.usesLimit && s.previousDataId2 ≠ x.intDataId

def Counts.raised (c : Counts) (files uses : Bool) : Counts :=
  { c with writeFileCount := c.writeFileCount + files.toNat, usesCount := c.usesCount + uses.toNat }

variable {x : Check} {w : Answers} {row : Row} {s : Session}

@[simp] theorem orReturn_zero (next : Session → Int × Session) : orReturn (0, s) next = next s := rfl

theorem orReturn_refused {r : Int × Session} (next : Session → Int × Session) (h : r.1 ≠ 0) :
    orReturn r next = r :=
  if_pos h

theorem auditUse_state (w : Answers) (row : Row) (s : Session) :
    ∃ p, (auditUse w row s).2 = { s with prevTicketId := p } := by
  unfold auditUse
  split
  · exact ⟨_, rfl⟩
  · exact ⟨s.prevTicketId, rfl⟩

theorem auditUse_status : (auditUse w row s).1 = 0 ↔
    (row.ticketId.take prevTicketIdSize ≠ s.prevTicketId.take prevTicketIdSize → w.audit = 0) := by
  unfold auditUse
  split
  case isTrue h => exact ⟨fun h' _ => h', fun h' => h' h⟩
  case isFalse h => exact ⟨fun _ h' => absurd h' h, fun _ => rfl⟩

/-- What the part for modify access leaves where it lets the check go on. -/
def Session.wrote (s : Session) (x : Check) (row : Row) : Session :=
  { s with
    counts := Function.update s.counts row.ticketId
      ((s.counts row.ticketId).raised (0 < row.writeFileLimit && s.previousDataId1 ≠ x.intDataId) false)
    previousDataId1 := if 0 < row.writeFileLimit then x.intDataId else s.previousDataId1 }

theorem countWrite_passes (h : WritePasses x w row s) : countWrite x w row s = (0, s.wrote x row) := by
  have hbytes : ¬ (0 < row.writeByteLimit ∧ row.writeByteLimit < (s.counts row.ticketId).writeByteCount) :=
    fun h' => absurd (h.bytes h'.1) (by omega)
  simp only [countWrite]
  rw [if_neg hbytes]
  by_cases hlimit : 0 < row.writeFileLimit
  · have hfiles := h.files hlimit
    rw [if_pos hlimit, if_neg (by omega)]
    by_cases hid : s.previousDataId1 ≠ x.intDataId
    · simp [hid, hlimit, update, h.updated hlimit hid, Session.setCounts, Session.wrote, Counts.raised]
    · simp [hid, hlimit, Session.wrote, Counts.raised]
  · simp [hlimit, Session.wrote, Counts.raised]

theorem countWrite_refuses (h : ¬ WritePasses x w row s) :
    (countWrite x w row s).1 ≠ 0 ∧ (countWrite x w row s).2 = s := by
  simp only [countWrite]
  split
  case isTrue => exact ⟨(by decide : CAT_TICKET_WRITE_BYTES_EXCEEDED ≠ 0), rfl⟩
  case isFalse hbytes =>
    split
    case isTrue hlimit =>
      split
      case isTrue => exact ⟨(by decide : CAT_TICKET_WRITE_USES_EXCEEDED ≠ 0), rfl⟩
      case isFalse hfiles =>
        by_cases hid : s.previousDataId1 ≠ x.intDataId
        · have hupdate : w.updateWriteFileCount ≠ 0 := by
            intro h'
            exact h ⟨fun hpos => by omega, fun _ => by omega, fun _ _ => h'⟩
          rw [if_pos hid, update, if_pos hupdate, orReturn_refused _ hupdate]
          exact ⟨hupdate, rfl⟩
        · exact absurd ⟨fun hpos => by omega, fun _ => by omega, fun _ h' => absurd h' hid⟩ h
    case isFalse hlimit =>
      exact absurd ⟨fun hpos => by omega, fun h' => absurd h' hlimit, fun h' => absurd h' hlimit⟩ h

variable {seen : Counts}

theorem countUse_passes (hseen : seen.usesCount = (s.counts row.ticketId).usesCount) (h : UsePasses x w row s) :
    (countUse x w row seen s).1 = 0 ∧
      (countUse x w row seen s).2.counts = Function.update s.counts row.ticketId
        ((s.counts row.ticketId).raised false (raisesUse x row s)) := by
  simp only [countUse, raisesUse]
  by_cases hlimit : 0 < row.usesLimit
  · have huses := h.uses hlimit
    rw [if_pos hlimit, if_neg (by omega)]
    by_cases hid : s.previousDataId2 ≠ x.intDataId
    · simp [hid, hlimit, update, h.updated hlimit hid, Session.setCounts, Counts.raised, hseen]
    · simp [hid, Counts.raised]
  · simp [hlimit, Counts.raised]

theorem countUse_refuses (hseen : seen.usesCount = (s.counts row.ticketId).usesCount) (h : ¬ UsePasses x w row s) :
    (countUse x w row seen s).1 ≠ 0 ∧ (countUse x w row seen s).2 = s := by
  simp only [countUse]
  split
  case isTrue hlimit =>
    split
    case isTrue => exact ⟨(by decide : CAT_TICKET_USES_EXCEEDED ≠ 0), rfl⟩
    case isFalse huses =>
      by_cases hid : s.previousDataId2 ≠ x.intDataId
      · have hupdate : w.updateUsesCount ≠ 0 := by
          intro h'
          exact h ⟨fun _ => by omega, fun _ _ => h'⟩
        rw [if_pos hid, update, if_pos hupdate, orReturn_refused _ hupdate]
        exact ⟨hupdate, rfl⟩
      · exact absurd ⟨fun _ => by omega, fun _ h' => absurd h' hid⟩ h
  case isFalse hlimit => exact absurd ⟨fun h' => absurd h' hlimit, fun h' => absurd h' hlimit⟩ h

/-- The check comes to the uses of the ticket. -/
def ReachesUses (x : Check) (w : Answers) (row : Row) (s : Session) : Prop :=
  Admits w row s ∧ (x.modify = true → WritePasses x w row s)

/-- The state in which the uses are looked at. -/
def Session.beforeUses (s : Session) (x : Check) (row : Row) : Session :=
  if x.modify then s.wrote x row else s

/-- A check that does not come to the uses is refused, and only the remembered ticket changes. -/
theorem refused_early (hrow : w.row = some row) (h : ¬ ReachesUses x w row s) :
    (checkObjIdByTicket x w s).1 ≠ 0 ∧ ∃ p, (checkObjIdByTicket x w s).2 = { s with prevTicketId := p } := by
  obtain ⟨p, hp⟩ := auditUse_state w row s
  simp only [checkObjIdByTicket, hrow]
  by_cases haudit : (auditUse w row s).1 = 0
  case neg =>
    rw [orReturn_refused _ haudit]
    exact ⟨haudit, p, hp⟩
  case pos =>
    rw [orReturn, if_neg (not_not.mpr haudit)]
    split
    case isTrue => exact ⟨(by decide : CAT_TICKET_EXPIRED ≠ 0), p, hp⟩
    case isFalse hexpired =>
      by_cases hres : w.restrictions = 0
      case neg =>
        rw [orReturn_refused _ hres]
        exact ⟨hres, p, hp⟩
      case pos =>
        have hadmits : Admits w row s := ⟨auditUse_status.mp haudit, by simpa using hexpired, hres⟩
        have hwrite : x.modify = true ∧ ¬ WritePasses x w row s := by
          by_contra hcon
          exact h ⟨hadmits, fun hm => by_contra fun hw => hcon ⟨hm, hw⟩⟩
        have hwrite' : ¬ WritePasses x w row (auditUse w row s).2 := by
          rw [hp]
          exact fun h' => hwrite.2 ⟨h'.bytes, h'.files, h'.updated⟩
        obtain ⟨hne, heq⟩ := countWrite_refuses hwrite'
        rw [hres, orReturn_zero, if_pos hwrite.1, orReturn_refused _ hne, heq]
        exact ⟨hne, p, hp⟩

theorem refused_early_counts (hrow : w.row = some row) (h : ¬ ReachesUses x w row s) :
    (checkObjIdByTicket x w s).2.counts = s.counts := by
  obtain ⟨-, p, hp⟩ := refused_early hrow h
  rw [hp]

/-- A check that comes to the uses does what is left with the counters as they are then. -/
theorem reaches_uses (hrow : w.row = some row) (h : ReachesUses x w row s) :
    ∃ p, checkObjIdByTicket x w s =
      countUse x w row (s.counts row.ticketId) { s.beforeUses x row with prevTicketId := p } := by
  obtain ⟨p, hp⟩ := auditUse_state w row s
  obtain ⟨hadmits, hwrite⟩ := h
  refine ⟨p, ?_⟩
  simp only [checkObjIdByTicket, hrow]
  rw [orReturn, if_neg (not_not.mpr (auditUse_status.mpr hadmits.audit)), hp,
    if_neg (by simp [hadmits.notExpired]), hadmits.restrictions, orReturn_zero]
  cases hm : x.modify with
  | false => simp [Session.beforeUses, hm]
  | true =>
    have hpasses : WritePasses x w row { s with prevTicketId := p } :=
      ⟨(hwrite hm).bytes, (hwrite hm).files, (hwrite hm).updated⟩
    rw [if_pos rfl, countWrite_passes hpasses, orReturn_zero]
    simp only [Session.beforeUses, hm, if_true, Session.wrote]

theorem beforeUses_counts (x : Check) (row : Row) (s : Session) :
    (s.beforeUses x row).counts = Function.update s.counts row.ticketId
      ((s.counts row.ticketId).raised (raisesWrite x row s) false) := by
  cases hm : x.modify with
  | false => simp [Session.beforeUses, raisesWrite, hm, Counts.raised]
  | true => simp [Session.beforeUses, raisesWrite, hm, Session.wrote]

theorem beforeUses_usesCount (x : Check) (row : Row) (s : Session) :
    ((s.beforeUses x row).counts row.ticketId).usesCount = (s.counts row.ticketId).usesCount := by
  rw [beforeUses_counts, update_self]
  simp [Counts.raised]

theorem beforeUses_previousDataId2 (x : Check) (row : Row) (s : Session) :
    (s.beforeUses x row).previousDataId2 = s.previousDataId2 := by
  unfold Session.beforeUses
  split <;> rfl

theorem usePasses_beforeUses {p : Text} :
    UsePasses x w row { s.beforeUses x row with prevTicketId := p } ↔ UsePasses x w row s := by
  have huses := beforeUses_usesCount x row s
  have hid := beforeUses_previousDataId2 x row s
  constructor
  · intro h
    exact ⟨huses ▸ h.uses, hid ▸ h.updated⟩
  · intro h
    exact ⟨huses.symm ▸ h.uses, hid.symm ▸ h.updated⟩

/-- Granted, both counters as they should be. -/
theorem granted_of_passes (hrow : w.row = some row) (h : ReachesUses x w row s) (huse : UsePasses x w row s) :
    (checkObjIdByTicket x w s).1 = 0 ∧
      (checkObjIdByTicket x w s).2.counts = Function.update s.counts row.ticketId
        ((s.counts row.ticketId).raised (raisesWrite x row s) (raisesUse x row s)) := by
  obtain ⟨p, hp⟩ := reaches_uses hrow h
  obtain ⟨hstatus, hcounts⟩ :=
    countUse_passes (s := { s.beforeUses x row with prevTicketId := p })
      (beforeUses_usesCount x row s).symm (usePasses_beforeUses.mpr huse)
  rw [hp]
  refine ⟨hstatus, hcounts.trans ?_⟩
  rw [raisesUse, beforeUses_previousDataId2, ← raisesUse, beforeUses_counts]
  simp [Counts.raised]

/-- Refused with `write_file_count` raised already where it is. -/
theorem refused_late (hrow : w.row = some row) (h : ReachesUses x w row s) (huse : ¬ UsePasses x w row s) :
    (checkObjIdByTicket x w s).1 ≠ 0 ∧
      (checkObjIdByTicket x w s).2.counts = Function.update s.counts row.ticketId
        ((s.counts row.ticketId).raised (raisesWrite x row s) false) := by
  obtain ⟨p, hp⟩ := reaches_uses hrow h
  obtain ⟨hstatus, heq⟩ :=
    countUse_refuses (s := { s.beforeUses x row with prevTicketId := p })
      (beforeUses_usesCount x row s).symm (usePasses_beforeUses.not.mpr huse)
  rw [hp]
  refine ⟨hstatus, ?_⟩
  rw [heq]
  exact beforeUses_counts x row s

theorem granted_iff (hrow : w.row = some row) :
    (checkObjIdByTicket x w s).1 = 0 ↔ ReachesUses x w row s ∧ UsePasses x w row s := by
  constructor
  · intro h
    by_cases hreach : ReachesUses x w row s
    case neg => exact absurd h (refused_early hrow hreach).1
    case pos =>
      by_cases huse : UsePasses x w row s
      case neg => exact absurd h (refused_late hrow hreach huse).1
      case pos => exact ⟨hreach, huse⟩
  · rintro ⟨hreach, huse⟩
    exact (granted_of_passes hrow hreach huse).1

theorem row_of_granted (h : (checkObjIdByTicket x w s).1 = 0) : ∃ row, w.row = some row := by
  cases hrow : w.row with
  | some row => exact ⟨row, rfl⟩
  | none =>
    simp only [checkObjIdByTicket, hrow] at h
    exact absurd h (by decide : CAT_TICKET_INVALID ≠ 0)

/-! ## Runs -/

/-- A check and what the database answers it. -/
structure Event where
  check : Check
  answers : Answers
  deriving DecidableEq

namespace Event

/-- The ticket that the check finds. -/
def ticketId (e : Event) : Option Text := e.answers.row.map Row.ticketId

def granted (e : Event) (s : Session) : Bool := (checkObjIdByTicket e.check e.answers s).1 = 0

def next (e : Event) (s : Session) : Session := (checkObjIdByTicket e.check e.answers s).2

/-- The same ticket and the same object. -/
def sameUse (e p : Event) : Bool := e.ticketId = p.ticketId && e.check.intDataId = p.check.intDataId

/-- The check is made again, and the database has only changed in the counters: it finds
the same ticket, of the same limits, as open to the caller as it was, and makes the
updates it is asked for. -/
structure Again (e p : Event) : Prop where
  check : e.check = p.check
  row : e.answers.row = p.answers.row
  notExpired : ∀ row ∈ e.answers.row, expired row.ticketExpiry e.answers.now = false
  restrictions : e.answers.restrictions = p.answers.restrictions
  audit : e.answers.audit = 0
  updateWriteFileCount : e.answers.updateWriteFileCount = 0
  updateUsesCount : e.answers.updateUsesCount = 0

end Event

/-- A session with the last check granted in it. -/
structure Run where
  session : Session
  last : Option Event

def Run.step (r : Run) (e : Event) : Run where
  session := e.next r.session
  last := if e.granted r.session then some e else r.last

def Run.steps (r : Run) (es : List Event) : Run := es.foldl Run.step r

/-- The check is a repetition of the granted check before it. -/
def Run.repeats (r : Run) (e : Event) : Bool := r.last.any e.sameUse

/-- What is expected of a check. -/
structure Run.Exact (r : Run) (e : Event) : Prop where
  /-- Granted on a limited ticket: counted once, a repetition not at all. -/
  counted : ∀ row ∈ e.answers.row, 0 < row.usesLimit → e.granted r.session = true →
    ((e.next r.session).counts row.ticketId).usesCount =
      (r.session.counts row.ticketId).usesCount + if r.repeats e then 0 else 1
  /-- A granted check made again is granted. -/
  again : ∀ p ∈ r.last, e.Again p → e.granted r.session = true
  /-- A refused check leaves the counters. -/
  refused : e.granted r.session = false → (e.next r.session).counts = r.session.counts

/-- The counters that the check would need room on have it. -/
structure Room (x : Check) (row : Row) (s : Session) : Prop where
  uses : 0 < row.usesLimit → (s.counts row.ticketId).usesCount < row.usesLimit
  files : x.modify = true → 0 < row.writeFileLimit →
    (s.counts row.ticketId).writeFileCount < row.writeFileLimit
  bytes : x.modify = true → 0 < row.writeByteLimit →
    (s.counts row.ticketId).writeByteCount ≤ row.writeByteLimit

/-- Where the code does what is expected. -/
structure Run.Sound (r : Run) (e : Event) : Prop where
  /-- The object remembered for uses is this one exactly when the check is a repetition. -/
  remembered : ∀ row ∈ e.answers.row, 0 < row.usesLimit →
    ReachesUses e.check e.answers row r.session → UsePasses e.check e.answers row r.session →
    (r.session.previousDataId2 = e.check.intDataId ↔ r.repeats e = true)
  /-- No limit has been reached when a granted check is made again. -/
  room : ∀ p ∈ r.last, e.Again p → ∀ row ∈ e.answers.row, Room e.check row r.session
  /-- Nothing refuses the check after `write_file_count` has been raised. -/
  whole : ∀ row ∈ e.answers.row, ReachesUses e.check e.answers row r.session →
    raisesWrite e.check row r.session = true → UsePasses e.check e.answers row r.session

theorem Event.granted_iff {e : Event} (hrow : e.answers.row = some row) : e.granted s = true ↔
    ReachesUses e.check e.answers row s ∧ UsePasses e.check e.answers row s := by
  rw [Event.granted, decide_eq_true_iff, Ticket.granted_iff hrow]

/-- The remembered check was granted once. -/
def Run.Remembers (r : Run) : Prop := ∀ p ∈ r.last, ∃ s, p.granted s = true

variable {r : Run}

theorem Run.Remembers.step (h : r.Remembers) (e : Event) : (r.step e).Remembers := by
  intro p hp
  simp only [Run.step] at hp
  split at hp
  case isTrue hgranted =>
    obtain rfl : e = p := by simpa using hp
    exact ⟨r.session, hgranted⟩
  case isFalse => exact h p hp

theorem Run.Remembers.steps (h : r.Remembers) (es : List Event) : (r.steps es).Remembers := by
  induction es generalizing r with
  | nil => exact h
  | cons e es ih => exact ih (h.step e)

variable {r : Run} {e : Event}

/-- A check made again passes the tests, and is granted where there is room. -/
theorem again_granted_iff (h : r.Remembers) {p : Event} (hp : p ∈ r.last) (hagain : e.Again p) :
    e.granted r.session = true ↔ ∀ row ∈ e.answers.row, Room e.check row r.session := by
  obtain ⟨s, hgranted⟩ := h p hp
  obtain ⟨row, hrow⟩ := row_of_granted (of_decide_eq_true hgranted)
  have hrow' : e.answers.row = some row := hagain.row.trans hrow
  have hadmits := ((Event.granted_iff hrow).mp hgranted).1.1
  rw [Event.granted_iff hrow']
  constructor
  · rintro ⟨⟨-, hwrite⟩, huse⟩ row' hrow''
    obtain rfl : row = row' := by simpa [hrow'] using hrow''
    exact ⟨huse.uses, fun hm => (hwrite hm).files, fun hm => (hwrite hm).bytes⟩
  · intro hroom
    have hroom := hroom row hrow'
    refine ⟨⟨⟨fun _ => hagain.audit, hagain.notExpired row hrow', ?_⟩, fun hm => ?_⟩, ?_⟩
    · exact hagain.restrictions.trans hadmits.restrictions
    · exact ⟨hroom.bytes hm, hroom.files hm, fun _ _ => hagain.updateWriteFileCount⟩
    · exact ⟨hroom.uses, fun _ _ => hagain.updateUsesCount⟩

theorem usesCount_granted (hrow : e.answers.row = some row) (hgranted : e.granted r.session = true) :
    ((e.next r.session).counts row.ticketId).usesCount =
      (r.session.counts row.ticketId).usesCount + (raisesUse e.check row r.session).toNat := by
  obtain ⟨hreach, huse⟩ := (Event.granted_iff hrow).mp hgranted
  rw [Event.next, (granted_of_passes hrow hreach huse).2, update_self]
  rfl

theorem Run.Sound.exact (h : r.Remembers) (hs : r.Sound e) : r.Exact e where
  counted row hrow hlimit hgranted := by
    obtain ⟨hreach, huse⟩ := (Event.granted_iff hrow).mp hgranted
    have hmem := hs.remembered row hrow hlimit hreach huse
    rw [usesCount_granted hrow hgranted, raisesUse]
    by_cases hrep : r.repeats e = true
    · simp [hrep, hmem.mpr hrep]
    · simp [hrep, hlimit, mt hmem.mp hrep]
  again p hp hagain := (again_granted_iff h hp hagain).mpr (hs.room p hp hagain)
  refused hrefused := by
    cases hrow : e.answers.row with
    | none => simp only [Event.next, checkObjIdByTicket, hrow]
    | some row =>
      by_cases hreach : ReachesUses e.check e.answers row r.session
      case neg => exact refused_early_counts hrow hreach
      case pos =>
        have huse : ¬ UsePasses e.check e.answers row r.session := by
          intro huse
          rw [(Event.granted_iff hrow).mpr ⟨hreach, huse⟩] at hrefused
          cases hrefused
        have hraise : raisesWrite e.check row r.session = false :=
          eq_false_of_ne_true fun hraise => huse (hs.whole row hrow hreach hraise)
        rw [Event.next, (refused_late hrow hreach huse).2, hraise]
        simp [Counts.raised]

theorem Run.Exact.sound (h : r.Remembers) (he : r.Exact e) : r.Sound e where
  remembered row hrow hlimit hreach huse := by
    have hgranted := (Event.granted_iff hrow).mpr ⟨hreach, huse⟩
    have hcount := he.counted row hrow hlimit hgranted
    rw [usesCount_granted hrow hgranted] at hcount
    constructor
    · intro hid
      have hkept : raisesUse e.check row r.session = false := by simp [raisesUse, hid]
      by_contra hrep
      rw [hkept, if_neg hrep, Bool.toNat_false] at hcount
      omega
    · intro hrep
      by_contra hid
      have hraised : raisesUse e.check row r.session = true := by simp [raisesUse, hid, hlimit]
      rw [hraised, if_pos hrep, Bool.toNat_true] at hcount
      omega
  room p hp hagain := (again_granted_iff h hp hagain).mp (he.again p hp hagain)
  whole row hrow hreach hraise := by
    by_contra huse
    obtain ⟨hne, hcounts⟩ := refused_late hrow hreach huse
    have hsame := he.refused (decide_eq_false hne)
    rw [Event.next, hcounts, hraise] at hsame
    have hfile := congrArg (fun c => (c row.ticketId).writeFileCount) hsame
    simp only [update_self, Counts.raised, Bool.toNat_true] at hfile
    omega

/-! ## Limits -/

/-- The two counters that a check raises. -/
inductive Counter where
  | uses
  | files
  deriving DecidableEq

namespace Counter

def count : Counter → Counts → Int
  | .uses => Counts.usesCount
  | .files => Counts.writeFileCount

def limit : Counter → Row → Int
  | .uses => Row.usesLimit
  | .files => Row.writeFileLimit

/-- The check is granted and raises the counter of the ticket. -/
def counts (k : Counter) (t : Text) (e : Event) (s : Session) : Bool :=
  e.granted s && k.count (s.counts t) < k.count ((e.next s).counts t)

/-- The counted uses of a ticket in a run. -/
def countedUses (k : Counter) (t : Text) : Session → List Event → Nat
  | _, [] => 0
  | s, e :: es => (k.counts t e s).toNat + countedUses k t (e.next s) es

end Counter

/-- A check that comes to the uses leaves each counter as it was, or one higher where
there was room for it. -/
theorem raised_bounded (k : Counter) (hrow : e.answers.row = some row)
    (h : ReachesUses e.check e.answers row s) :
    k.count ((e.next s).counts row.ticketId) = k.count (s.counts row.ticketId) ∨
      (k.count ((e.next s).counts row.ticketId) = k.count (s.counts row.ticketId) + 1 ∧
        k.count (s.counts row.ticketId) < k.limit row) := by
  have hfiles : raisesWrite e.check row s = true →
      (s.counts row.ticketId).writeFileCount < row.writeFileLimit := by
    intro hraise
    simp only [raisesWrite, Bool.and_eq_true, decide_eq_true_eq] at hraise
    exact (h.2 hraise.1.1).files hraise.1.2
  by_cases huse : UsePasses e.check e.answers row s
  · rw [Event.next, (granted_of_passes hrow h huse).2, update_self]
    cases k with
    | uses =>
      cases hraise : raisesUse e.check row s with
      | false => exact .inl (by simp [Counter.count, Counts.raised])
      | true =>
        simp only [raisesUse, Bool.and_eq_true, decide_eq_true_eq] at hraise
        exact .inr ⟨by simp [Counter.count, Counts.raised], huse.uses hraise.1⟩
    | files =>
      cases hraise : raisesWrite e.check row s with
      | false => exact .inl (by simp [Counter.count, Counts.raised])
      | true => exact .inr ⟨by simp [Counter.count, Counts.raised], hfiles hraise⟩
  · rw [Event.next, (refused_late hrow h huse).2, update_self]
    cases k with
    | uses => exact .inl (by simp [Counter.count, Counts.raised])
    | files =>
      cases hraise : raisesWrite e.check row s with
      | false => exact .inl (by simp [Counter.count, Counts.raised])
      | true => exact .inr ⟨by simp [Counter.count, Counts.raised], hfiles hraise⟩

variable {t : Text}

theorem next_counts_ne (h : ∀ row ∈ e.answers.row, row.ticketId ≠ t) : (e.next s).counts t = s.counts t := by
  cases hrow : e.answers.row with
  | none => simp only [Event.next, checkObjIdByTicket, hrow]
  | some row =>
    have hne := (h row hrow).symm
    by_cases hreach : ReachesUses e.check e.answers row s
    case neg => rw [Event.next, refused_early_counts hrow hreach]
    case pos =>
      by_cases huse : UsePasses e.check e.answers row s
      · rw [Event.next, (granted_of_passes hrow hreach huse).2, Function.update_of_ne hne]
      · rw [Event.next, (refused_late hrow hreach huse).2, Function.update_of_ne hne]

variable {L : Int}

/-- One check leaves each counter of each ticket, or raises it by one below the limit. -/
theorem next_bounded (k : Counter) (hL : ∀ row ∈ e.answers.row, row.ticketId = t → k.limit row = L) :
    k.count ((e.next s).counts t) = k.count (s.counts t) ∨
      (k.count ((e.next s).counts t) = k.count (s.counts t) + 1 ∧ k.count (s.counts t) < L) := by
  by_cases hother : ∀ row ∈ e.answers.row, row.ticketId ≠ t
  · exact .inl (by rw [next_counts_ne hother])
  · simp only [not_forall, not_not] at hother
    obtain ⟨row, hrow, rfl⟩ := hother
    rw [← hL row hrow rfl]
    by_cases hreach : ReachesUses e.check e.answers row s
    · exact raised_bounded k hrow hreach
    · exact .inl (by rw [Event.next, refused_early_counts hrow hreach])

/-- The counted uses of a ticket, on top of those it had before, do not exceed its limit. -/
theorem countedUses_le (k : Counter) {es : List Event} (s : Session)
    (hL : ∀ e ∈ es, ∀ row ∈ e.answers.row, row.ticketId = t → k.limit row = L) :
    k.count (s.counts t) + k.countedUses t s es ≤ max L (k.count (s.counts t)) := by
  induction es generalizing s with
  | nil =>
    simp only [Counter.countedUses, Int.natCast_zero]
    omega
  | cons e es ih =>
    have hstep := next_bounded k (s := s) (hL e (by simp))
    have hrest := ih (e.next s) fun e' he' => hL e' (by simp [he'])
    have hcounts : (k.counts t e s).toNat ≤ k.count ((e.next s).counts t) - k.count (s.counts t) := by
      cases hk : k.counts t e s with
      | false => simp only [Bool.toNat_false]; omega
      | true =>
        simp only [Counter.counts, Bool.and_eq_true, decide_eq_true_eq] at hk
        simp only [Bool.toNat_true]
        omega
    simp only [Counter.countedUses, Int.natCast_add]
    omega

/-- A row without limits on writing. -/
def useLimited (ticketId : String) (usesLimit : Int) : Row :=
  ⟨ticketId.toList, usesLimit, [], 0, 0⟩

/-- A check of object 10007 that finds the row, all calls succeeding. -/
def checkOf (accessLevel : String) (row : Row) : Event where
  check := ⟨"10007".toList, accessLevel.toList, "key".toList, [], [], []⟩
  answers := ⟨some row, "01700000000".toList, 0, 0, 0, 0⟩

/-- A new session, no ticket used before. -/
def fresh : Session := ⟨fun _ => ⟨0, 0, 0⟩, 0, 0, []⟩

/-- In every session each check is counted exactly, granted again and refused without a
trace if and only if each check is made in a sound state; and the limits hold in all of
them. -/
theorem Run.exact_iff_sound (s : Session) (es : List Event) :
    ((∀ before e after, es = before ++ e :: after → (Run.steps ⟨s, none⟩ before).Exact e) ↔
      ∀ before e after, es = before ++ e :: after → (Run.steps ⟨s, none⟩ before).Sound e) ∧
    ∀ (k : Counter) (t : Text) (L : Int),
      (∀ e ∈ es, ∀ row ∈ e.answers.row, row.ticketId = t → k.limit row = L) →
      k.count (s.counts t) + k.countedUses t s es ≤ max L (k.count (s.counts t)) := by
  have hremembers : ∀ before, (Run.steps ⟨s, none⟩ before).Remembers := by
    intro before
    apply Run.Remembers.steps
    intro p hp
    cases hp
  refine ⟨⟨?_, ?_⟩, fun k t L hL => countedUses_le k s hL⟩
  · intro h before e after heq
    exact (h before e after heq).sound (hremembers before)
  · intro h before e after heq
    exact (h before e after heq).exact (hremembers before)

/-- A check made twice is counted once. -/
theorem Run.exact_iff_sound_twice :
    ∀ before e after,
      [checkOf "read object" (useLimited "1" 5), checkOf "read object" (useLimited "1" 5)] =
        before ++ e :: after → (Run.steps ⟨fresh, none⟩ before).Exact e := by
  apply (Run.exact_iff_sound fresh _).1.mpr
  intro before e after heq
  match before, heq with
  | [], heq =>
    obtain ⟨rfl, -⟩ := List.cons_eq_cons.mp heq
    refine ⟨?_, nofun, ?_⟩
    · rintro _ ⟨⟩ - - -
      decide
    · rintro _ ⟨⟩ - h
      exact absurd h (by decide)
  | [p], heq =>
    obtain ⟨rfl, rfl, -⟩ := heq
    refine ⟨?_, ?_, ?_⟩
    · rintro _ ⟨⟩ - - -
      decide
    · rintro _ ⟨⟩ - _ ⟨⟩
      exact ⟨by decide, by decide, by decide⟩
    · rintro _ ⟨⟩ - h
      exact absurd h (by decide)
  | _ :: _ :: before, heq => simp at heq

/-- The use of a second ticket on the same object is not counted. A granted check is
refused when it is repeated at the limit. A refused check has counted a write. -/
theorem checks_not_exact :
    ¬ (∀ before e after,
        [checkOf "read object" (useLimited "1" 5), checkOf "read object" (useLimited "2" 5)] =
          before ++ e :: after → (Run.steps ⟨fresh, none⟩ before).Exact e) ∧
    ¬ (∀ before e after,
        [checkOf "read object" (useLimited "1" 1), checkOf "read object" (useLimited "1" 1)] =
          before ++ e :: after → (Run.steps ⟨fresh, none⟩ before).Exact e) ∧
    ¬ (∀ before e after,
        [checkOf "read object" ⟨"1".toList, 1, [], 10, 0⟩, checkOf "modify object" ⟨"1".toList, 1, [], 10, 0⟩] =
          before ++ e :: after → (Run.steps ⟨fresh, none⟩ before).Exact e) := by
  refine ⟨fun h => ?_, fun h => ?_, fun h => ?_⟩
  · have hcounted := (h [_] _ [] rfl).counted _ rfl (by decide) (by decide)
    exact absurd hcounted (by decide)
  · have hagain := (h [_] _ [] rfl).again _ rfl ⟨rfl, rfl, by rintro _ ⟨⟩; rfl, rfl, rfl, rfl, rfl⟩
    exact absurd hagain (by decide)
  · have hrefused := (h [_] _ [] rfl).refused (by decide)
    have hcount := congrArg (fun c => (c ['1']).writeFileCount) hrefused
    exact absurd hcount (by decide)

end Ticket
