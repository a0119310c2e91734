-- SUMMARY: checkCondInputAccess and its remembered decision.
import Irods.Api.RodsDef
import Irods.Icat.Ticket

/-!
# The remembered access decision

A row of a query with `condInput` is returned only to a user with access to the object.
`checkCondInputAccess` remembers the object, user and access level of the last decision,
and answers a row of a continuation call from it. The three texts are static and shared by
all open queries; the zone, the session ticket and the client address, on which the
decision rests as well, are not remembered.

The tables that decide on access do not change during a run. The counters of the tickets
do, by the checks themselves.
-/

namespace AccessMemo

open CString Ticket

/-! ## Access to an object -/

/-- What the tables answer. -/
structure Database where
  /-- Status and `iVal` of the query of `cmlCheckDataObjId`. -/
  objectAccess : Check → Int × Int
  ticketRow : Check → Option Row
  restrictions : Check → Int
  audit : Check → Int
  updateWriteFileCount : Check → Int
  updateUsesCount : Check → Int
  /-- What `cmlCheckDirId` returns for a collection, user, zone and access level. -/
  cmlCheckDirId : Text → Text → Text → Text → Int

def Database.answers (db : Database) (x : Check) (now : Text) : Answers :=
  ⟨db.ticketRow x, now, db.audit x, db.restrictions x, db.updateWriteFileCount x, db.updateUsesCount x⟩

def cmlCheckDataObjId (db : Database) (x : Check) (now : Text) (s : Session) : Int × Session :=
  if x.ticketStr ≠ [] then
    checkObjIdByTicket x (db.answers x now) s
  else if (db.objectAccess x).2 = 0 then
    (CAT_NO_ACCESS_PERMISSION, s)
  else if (db.objectAccess x).1 ≠ 0 then
    (CAT_NO_ACCESS_PERMISSION, s)
  else
    (0, s)

/-! ## The memo -/

/-- A session: the tickets, the globals and the statics of `checkCondInputAccess`. The
three texts are what `strcmp` reads. -/
structure State where
  tickets : Session
  sessionTicket : Text
  sessionClientAddr : Text
  prevDataId : Text
  prevUser : Text
  prevAccess : Text
  prevStatus : Int

/-- What stands in memory behind the three buffers. -/
structure Behind where
  dataId : Text
  user : Text
  access : Text

/-- A buffer after `strncpy` of `LONG_NAME_LEN` characters: a text that fills it has no end
there. -/
def strncpy (src behind : Text) : Text :=
  if src.length < LONG_NAME_LEN then src else src.take LONG_NAME_LEN ++ behind

/-- `rstrcpy`: a text that does not fit leaves the destination as it is. -/
def rstrcpy (dest src : Text) (maxLen : Nat) : Text := if src.length < maxLen then src else dest

/-- The call for one row: `condInput` as keywords and values, the columns of the row by
name. -/
structure Call where
  condInput : List (Text × Text)
  columns : List (Text × Text)
  continueFlag : Bool
  now : Text

/-- The value of the last entry with one of the names. -/
def lastValue (names : List Text) (entries : List (Text × Text)) : Option Text :=
  (entries.reverse.find? fun e => names.contains e.1).map Prod.snd

def userNameClientKw : Text := "userNameClient".toList
def rodsZoneClientKw : Text := "rodsZoneClient".toList
def accessPermissionKw : Text := "accessPermission".toList
def zoneKw : Text := "zone".toList

namespace Call

def onlyZone (c : Call) : Bool := c.condInput.map Prod.fst = [zoneKw]

def dataId (c : Call) : Option Text := lastValue ["data_id".toList, "DATA_ID".toList] c.columns

def collId (c : Call) : Option Text := lastValue ["coll_id".toList, "COLL_ID".toList] c.columns

end Call

/-- The six inputs of `cmlCheckDataObjId` for a row. -/
def inputs (localZone : Text) (s : State) (dataId user zone access : Text) : Check where
  dataId := dataId
  accessLevel := access
  ticketStr := s.sessionTicket
  ticketHost := s.sessionClientAddr
  userName := user
  userZone := if zone = [] then localZone else zone

/-- The three texts compared with the memo are the same. -/
def State.remembers (s : State) (dataId user access : Text) : Bool :=
  s.prevDataId = dataId && s.prevUser = user && s.prevAccess = access

/-- The decision for a row of a data object, remembered. -/
def decideAccess (db : Database) (behind : Behind) (x : Check) (now : Text) (s : State) : Int × State :=
  let r := cmlCheckDataObjId db x now s.tickets
  (r.1,
    { s with
      tickets := r.2
      prevDataId := strncpy x.dataId behind.dataId
      prevUser := strncpy x.userName behind.user
      prevAccess := strncpy x.accessLevel behind.access
      prevStatus := r.1 })

def checkCondInputAccess (db : Database) (localZone : Text) (behind : Behind) (c : Call) (s : State) :
    Int × State :=
  if c.onlyZone then
    (0, s)
  else
    match lastValue [userNameClientKw] c.condInput, lastValue [rodsZoneClientKw] c.condInput,
      lastValue [accessPermissionKw] c.condInput with
    | some user, some zone, some access =>
      match c.dataId, c.collId with
      | some dataId, _ =>
        if c.continueFlag && s.remembers dataId user access then
          (s.prevStatus, s)
        else
          decideAccess db behind (inputs localZone s dataId user zone access) c.now s
      | none, some collId =>
        (db.cmlCheckDirId collId user (if zone = [] then localZone else zone) access, s)
      | none, none => (CAT_INVALID_ARGUMENT, s)
    | _, _, _ => (CAT_INVALID_ARGUMENT, s)

def chlGenQueryTicketSetup (ticket clientAddr : Text) (s : State) : State :=
  { s with
    sessionTicket := rstrcpy s.sessionTicket ticket NAME_LEN
    sessionClientAddr := rstrcpy s.sessionClientAddr clientAddr NAME_LEN }

/-! ## A ticket checked again at another time -/

variable {x : Check} {w : Answers} {row : Row} {t t' : Session}

theorem countWrite_congr (hcounts : t.counts row.ticketId = t'.counts row.ticketId)
    (hid : t.previousDataId1 = t'.previousDataId1) :
    (countWrite x w row t).1 = (countWrite x w row t').1 := by
  simp only [countWrite, hcounts, hid, orReturn, update]
  split_ifs <;> rfl

theorem countUse_congr {seen seen' : Counts} (hseen : seen.usesCount = seen'.usesCount)
    (hid : t.previousDataId2 = t'.previousDataId2) :
    (countUse x w row seen t).1 = (countUse x w row seen' t').1 := by
  simp only [countUse, hseen, hid, orReturn, update]
  split_ifs <;> rfl

/-- The statuses of the tests in their order. -/
theorem check_status (hrow : w.row = some row) (haudit : (auditUse w row t).1 = 0) :
    (checkObjIdByTicket x w t).1 =
      if expired row.ticketExpiry w.now then CAT_TICKET_EXPIRED
      else if w.restrictions ≠ 0 then w.restrictions
      else if x.modify = true ∧ (countWrite x w row t).1 ≠ 0 then (countWrite x w row t).1
      else (countUse x w row (t.counts row.ticketId) t).1 := by
  obtain ⟨p, hp⟩ := auditUse_state w row t
  simp only [checkObjIdByTicket, hrow]
  rw [orReturn, if_neg (not_not.mpr haudit), hp]
  split
  case isTrue => rfl
  case isFalse =>
    by_cases hres : w.restrictions = 0
    case neg => rw [orReturn_refused _ hres, if_pos hres]
    case pos =>
      simp only [hres, orReturn_zero, ne_eq, not_true_eq_false, ↓reduceIte]
      cases hm : x.modify with
      | false =>
        exact countUse_congr rfl rfl
      | true =>
        by_cases hpasses : WritePasses x w row t
        · have hpasses' : WritePasses x w row { t with prevTicketId := p } :=
            ⟨hpasses.bytes, hpasses.files, hpasses.updated⟩
          rw [if_pos rfl, countWrite_passes hpasses', countWrite_passes hpasses, orReturn_zero,
            if_neg (by simp)]
          exact countUse_congr rfl rfl
        · have hpasses' : ¬ WritePasses x w row { t with prevTicketId := p } :=
            fun h => hpasses ⟨h.bytes, h.files, h.updated⟩
          have hne := (countWrite_refuses hpasses).1
          rw [if_pos rfl, orReturn_refused _ (countWrite_refuses hpasses').1, if_pos ⟨rfl, hne⟩]
          exact countWrite_congr rfl rfl

/-- What holds of the state whatever the parts do holds of it after a sequence of them. -/
theorem orReturn_keeps {P : Session → Prop} {r : Int × Session} {next : Session → Int × Session}
    (hr : P r.2) (hnext : ∀ t, P t → P (next t).2) : P (orReturn r next).2 := by
  unfold orReturn
  split
  · exact hr
  · exact hnext r.2 hr

theorem update_prevTicketId (status : Int) (ticketId : Text) (c : Counts) (t : Session) :
    (update status ticketId c t).2.prevTicketId = t.prevTicketId := by
  unfold update
  split <;> rfl

theorem countWrite_prevTicketId (x : Check) (w : Answers) (row : Row) (t : Session) :
    (countWrite x w row t).2.prevTicketId = t.prevTicketId := by
  simp only [countWrite]
  split_ifs
  case _ => rfl
  case _ => rfl
  case _ =>
    apply orReturn_keeps (P := fun t' => t'.prevTicketId = t.prevTicketId)
    · exact update_prevTicketId ..
    · exact fun t' h => h
  case _ => rfl
  case _ => rfl

theorem countUse_prevTicketId (x : Check) (w : Answers) (row : Row) (seen : Counts) (t : Session) :
    (countUse x w row seen t).2.prevTicketId = t.prevTicketId := by
  simp only [countUse]
  split_ifs
  case _ => rfl
  case _ =>
    apply orReturn_keeps (P := fun t' => t'.prevTicketId = t.prevTicketId)
    · exact update_prevTicketId ..
    · exact fun t' h => h
  case _ => rfl
  case _ => rfl

/-- The ticket of a check is the remembered one after it. -/
theorem ticket_remembered (hrow : w.row = some row) :
    (checkObjIdByTicket x w t).2.prevTicketId.take prevTicketIdSize = row.ticketId.take prevTicketIdSize := by
  simp only [checkObjIdByTicket, hrow]
  apply orReturn_keeps (P := fun t' => t'.prevTicketId.take prevTicketIdSize = row.ticketId.take prevTicketIdSize)
  · unfold auditUse
    split
    case isTrue => rw [List.take_take, Nat.min_self]
    case isFalse h => exact (not_not.mp h).symm
  · intro t₁ h₁
    split
    case isTrue => exact h₁
    case isFalse =>
      apply orReturn_keeps (P := fun t' => t'.prevTicketId.take prevTicketIdSize = row.ticketId.take prevTicketIdSize)
      · exact h₁
      · intro t₂ h₂
        apply orReturn_keeps (P := fun t' => t'.prevTicketId.take prevTicketIdSize = row.ticketId.take prevTicketIdSize)
        · split
          · rw [countWrite_prevTicketId]
            exact h₂
          · exact h₂
        · intro t₃ h₃
          rw [countUse_prevTicketId]
          exact h₃

theorem auditUse_again (hrow : w.row = some row) :
    (auditUse w row (checkObjIdByTicket x w t).2).1 = 0 := by
  rw [auditUse_status]
  intro hne
  exact absurd (ticket_remembered hrow).symm hne

theorem countUse_previousDataIds {seen : Counts} (hseen : seen.usesCount = (t.counts row.ticketId).usesCount)
    (h : UsePasses x w row t) :
    (countUse x w row seen t).2.previousDataId1 = t.previousDataId1 ∧
      (0 < row.usesLimit → (countUse x w row seen t).2.previousDataId2 = x.intDataId) := by
  simp only [countUse]
  by_cases hlimit : 0 < row.usesLimit
  · have huses := h.uses hlimit
    rw [if_pos hlimit, if_neg (by omega)]
    by_cases hid : t.previousDataId2 ≠ x.intDataId
    · simp [hid, update, h.updated hlimit hid, Session.setCounts]
    · simp [hid]
  · rw [if_neg hlimit]
    exact ⟨rfl, fun h' => absurd h' hlimit⟩

/-- The counter is as it was, or still below its limit. -/
def Steady (limit before now : Int) : Prop := now = before ∨ now < limit

/-- After a check that comes to the uses, the part for modify access lets it pass again. -/
theorem writePasses_again (hrow : w.row = some row) (h : ReachesUses x w row t) (hm : x.modify = true)
    (hsteady : Steady row.writeFileLimit (t.counts row.ticketId).writeFileCount
      ((checkObjIdByTicket x w t).2.counts row.ticketId).writeFileCount) :
    WritePasses x w row (checkObjIdByTicket x w t).2 := by
  have hpasses := h.2 hm
  have hbytes : ((checkObjIdByTicket x w t).2.counts row.ticketId).writeByteCount =
      (t.counts row.ticketId).writeByteCount := by
    by_cases huse : UsePasses x w row t
    · rw [(granted_of_passes hrow h huse).2, Function.update_self]
      rfl
    · rw [(refused_late hrow h huse).2, Function.update_self]
      rfl
  have hid : 0 < row.writeFileLimit → (checkObjIdByTicket x w t).2.previousDataId1 = x.intDataId := by
    intro hlimit
    have hbefore : (t.beforeUses x row).previousDataId1 = x.intDataId := by
      simp [Session.beforeUses, hm, Session.wrote, hlimit]
    obtain ⟨p, hp⟩ := reaches_uses hrow h
    rw [hp]
    by_cases huse : UsePasses x w row t
    · exact (countUse_previousDataIds (t := { t.beforeUses x row with prevTicketId := p })
        (beforeUses_usesCount x row t).symm (usePasses_beforeUses.mpr huse)).1.trans hbefore
    · rw [(countUse_refuses (s := { t.beforeUses x row with prevTicketId := p })
        (beforeUses_usesCount x row t).symm (usePasses_beforeUses.not.mpr huse)).2]
      exact hbefore
  refine ⟨fun hlimit => ?_, fun hlimit => ?_, fun hlimit hne => absurd (hid hlimit) hne⟩
  · rw [hbytes]
    exact hpasses.bytes hlimit
  · rcases hsteady with heq | hlt
    · rw [heq]
      exact hpasses.files hlimit
    · exact hlt

theorem usePasses_again (hrow : w.row = some row) (h : ReachesUses x w row t) (huse : UsePasses x w row t)
    (hsteady : Steady row.usesLimit (t.counts row.ticketId).usesCount
      ((checkObjIdByTicket x w t).2.counts row.ticketId).usesCount) :
    UsePasses x w row (checkObjIdByTicket x w t).2 := by
  obtain ⟨p, hp⟩ := reaches_uses hrow h
  have hid : 0 < row.usesLimit → (checkObjIdByTicket x w t).2.previousDataId2 = x.intDataId := by
    rw [hp]
    exact (countUse_previousDataIds (t := { t.beforeUses x row with prevTicketId := p })
      (beforeUses_usesCount x row t).symm (usePasses_beforeUses.mpr huse)).2
  refine ⟨fun hlimit => ?_, fun hlimit hne => absurd (hid hlimit) hne⟩
  rcases hsteady with heq | hlt
  · rw [heq]
    exact huse.uses hlimit
  · exact hlt

/-- A check made again, with the same answers and the ticket's expiry on the same side,
returns the same status as long as the counters stay below their limits. -/
theorem status_again {now : Text} (hrow : w.row = some row) (haudit : (auditUse w row t).1 = 0)
    (hnow : expired row.ticketExpiry now = expired row.ticketExpiry w.now)
    (hfiles : Steady row.writeFileLimit (t.counts row.ticketId).writeFileCount
      ((checkObjIdByTicket x w t).2.counts row.ticketId).writeFileCount)
    (huses : Steady row.usesLimit (t.counts row.ticketId).usesCount
      ((checkObjIdByTicket x w t).2.counts row.ticketId).usesCount) :
    (checkObjIdByTicket x { w with now := now } (checkObjIdByTicket x w t).2).1 =
      (checkObjIdByTicket x w t).1 := by
  have hagain : (auditUse { w with now := now } row (checkObjIdByTicket x w t).2).1 = 0 := auditUse_again hrow
  rw [check_status hrow haudit, check_status (w := { w with now := now }) hrow hagain]
  simp only [hnow]
  split
  case isTrue => rfl
  case isFalse hexpired =>
    split
    case isTrue => rfl
    case isFalse hres =>
      have hadmits : Admits w row t :=
        ⟨auditUse_status.mp haudit, by simpa using hexpired, not_not.mp hres⟩
      by_cases hreach : ReachesUses x w row t
      case neg =>
        obtain ⟨-, p, hp⟩ := refused_early hrow hreach
        have hwrite : x.modify = true ∧ ¬ WritePasses x w row t := by
          by_contra hcon
          exact hreach ⟨hadmits, fun hm => by_contra fun hw => hcon ⟨hm, hw⟩⟩
        have hne := (countWrite_refuses hwrite.2).1
        have hsame : (countWrite x { w with now := now } row (checkObjIdByTicket x w t).2).1 =
            (countWrite x w row t).1 := by
          rw [hp]
          exact countWrite_congr rfl rfl
        rw [hsame, if_pos ⟨hwrite.1, hne⟩, if_pos ⟨hwrite.1, hne⟩]
      case pos =>
        have hpassed : ¬ (x.modify = true ∧ (countWrite x w row t).1 ≠ 0) := by
          rintro ⟨hm, hne⟩
          exact hne (by rw [countWrite_passes (hreach.2 hm)])
        have hpasses : ¬ (x.modify = true ∧
            (countWrite x { w with now := now } row (checkObjIdByTicket x w t).2).1 ≠ 0) := by
          rintro ⟨hm, hne⟩
          have h := writePasses_again hrow hreach hm hfiles
          have h' : WritePasses x { w with now := now } row (checkObjIdByTicket x w t).2 :=
            ⟨h.bytes, h.files, h.updated⟩
          exact hne (by rw [countWrite_passes h'])
        rw [if_neg hpassed, if_neg hpasses]
        by_cases huse : UsePasses x w row t
        · have h := usePasses_again hrow hreach huse huses
          have h' : UsePasses x { w with now := now } row (checkObjIdByTicket x w t).2 :=
            ⟨h.uses, h.updated⟩
          rw [(countUse_passes rfl huse).1, (countUse_passes rfl h').1]
        · obtain ⟨p, hp⟩ := reaches_uses hrow hreach
          have hstate : (checkObjIdByTicket x w t).2 = { t.beforeUses x row with prevTicketId := p } := by
            rw [hp]
            exact (countUse_refuses (s := { t.beforeUses x row with prevTicketId := p })
              (beforeUses_usesCount x row t).symm (usePasses_beforeUses.not.mpr huse)).2
          rw [hstate]
          exact countUse_congr (beforeUses_usesCount x row t) (beforeUses_previousDataId2 x row t)

/-! ## Runs -/

variable {db : Database} {localZone : Text} {behind : Behind} {s : State} {c : Call}

/-- The inputs of the decision on the row, where the row shows a data object. -/
def Call.check (c : Call) (localZone : Text) (s : State) : Option Check :=
  if c.onlyZone then none
  else do
    let user ← lastValue [userNameClientKw] c.condInput
    let zone ← lastValue [rodsZoneClientKw] c.condInput
    let access ← lastValue [accessPermissionKw] c.condInput
    let dataId ← c.dataId
    pure (inputs localZone s dataId user zone access)

/-- The row is answered from the memo. -/
def State.answers (s : State) (c : Call) (x : Check) : Bool :=
  c.continueFlag && s.remembers x.dataId x.userName x.accessLevel

theorem checkCondInputAccess_check (h : c.check localZone s = some x) :
    checkCondInputAccess db localZone behind c s =
      if s.answers c x then (s.prevStatus, s) else decideAccess db behind x c.now s := by
  unfold Call.check at h
  split at h
  case isTrue => cases h
  case isFalse hzone =>
    simp only [Option.bind_eq_bind, Option.bind_eq_some_iff] at h
    obtain ⟨user, huser, zone, hzone', access, haccess, dataId, hdata, heq⟩ := h
    cases heq
    simp only [checkCondInputAccess, if_neg hzone, huser, hzone', haccess, hdata]
    rfl

/-- A row without a decision on a data object leaves everything as it is. -/
theorem checkCondInputAccess_none (h : c.check localZone s = none) :
    (checkCondInputAccess db localZone behind c s).2 = s := by
  simp only [checkCondInputAccess]
  split
  case isTrue => rfl
  case isFalse hzone =>
    split
    case h_1 user zone access huser hzone' haccess =>
      split
      case h_1 dataId _ hdata => simp [Call.check, hzone, huser, hzone', haccess, hdata] at h
      case h_2 => rfl
      case h_3 => rfl
    case h_2 => rfl

inductive Event where
  | row (c : Call)
  | ticketSetup (ticket clientAddr : Text)

/-- A decision, with the time and the tickets it was made with. -/
structure Made where
  check : Check
  now : Text
  before : Session

/-- The state with the last decision made. -/
structure Run where
  state : State
  made : Option Made

namespace Run

/-- The decision that the event makes. -/
def decision (localZone : Text) (r : Run) : Event → Option Made
  | .ticketSetup _ _ => none
  | .row c =>
    match c.check localZone r.state with
    | none => none
    | some x => if r.state.answers c x then none else some ⟨x, c.now, r.state.tickets⟩

def step (db : Database) (localZone : Text) (behind : Behind) (r : Run) (e : Event) : Run where
  state :=
    match e with
    | .row c => (checkCondInputAccess db localZone behind c r.state).2
    | .ticketSetup ticket clientAddr => chlGenQueryTicketSetup ticket clientAddr r.state
  made := r.decision localZone e <|> r.made

def steps (db : Database) (localZone : Text) (behind : Behind) (r : Run) (es : List Event) : Run :=
  es.foldl (step db localZone behind) r

/-- The memo and the tickets are as the last decision left them. -/
def Remembers (db : Database) (behind : Behind) (r : Run) : Prop :=
  ∀ m ∈ r.made,
    r.state.tickets = (cmlCheckDataObjId db m.check m.now m.before).2 ∧
    r.state.prevStatus = (cmlCheckDataObjId db m.check m.now m.before).1 ∧
    r.state.prevDataId = strncpy m.check.dataId behind.dataId ∧
    r.state.prevUser = strncpy m.check.userName behind.user ∧
    r.state.prevAccess = strncpy m.check.accessLevel behind.access

theorem Remembers.step {r : Run} (h : r.Remembers db behind) (e : Event) :
    (r.step db localZone behind e).Remembers db behind := by
  cases e with
  | ticketSetup ticket clientAddr => exact h
  | row c =>
    cases hx : c.check localZone r.state with
    | none =>
      simp only [Remembers, Run.step, decision, hx, checkCondInputAccess_none hx]
      exact h
    | some x =>
      simp only [Remembers, Run.step, decision, hx, checkCondInputAccess_check hx]
      split
      case isTrue => exact h
      case isFalse =>
        rintro _ ⟨⟩
        exact ⟨rfl, rfl, rfl, rfl, rfl⟩

theorem Remembers.steps {r : Run} (h : r.Remembers db behind) (es : List Event) :
    (r.steps db localZone behind es).Remembers db behind := by
  induction es generalizing r with
  | nil => exact h
  | cons e es ih => exact ih (h.step e)

end Run

/-- The ticket gives the same answer as it gave to the last decision: no counter has been
brought to its limit by it, and the ticket has not expired since. -/
structure TicketSteady (db : Database) (m : Made) (now : Text) (s : Session) (row : Row) : Prop where
  audit : (auditUse (db.answers m.check m.now) row m.before).1 = 0
  now : expired row.ticketExpiry now = expired row.ticketExpiry m.now
  files : Steady row.writeFileLimit (m.before.counts row.ticketId).writeFileCount
    (s.counts row.ticketId).writeFileCount
  uses : Steady row.usesLimit (m.before.counts row.ticketId).usesCount (s.counts row.ticketId).usesCount

/-- What the memo does not look at is as it was for the last decision. -/
structure Unchanged (db : Database) (m : Made) (x : Check) (now : Text) (s : Session) : Prop where
  zone : x.userZone = m.check.userZone
  ticket : x.ticketStr = m.check.ticketStr
  clientAddr : x.ticketHost = m.check.ticketHost
  fits : m.check.dataId.length < LONG_NAME_LEN ∧ m.check.userName.length < LONG_NAME_LEN ∧
    m.check.accessLevel.length < LONG_NAME_LEN
  steady : m.check.ticketStr ≠ [] → ∀ row ∈ db.ticketRow m.check, TicketSteady db m now s row

/-- The condition: a row answered from the memo is one of a decision made before. -/
def Run.Sound (db : Database) (localZone : Text) (r : Run) : Event → Prop
  | .ticketSetup _ _ => True
  | .row c => ∀ x ∈ c.check localZone r.state, r.state.answers c x = true →
      ∃ m ∈ r.made, Unchanged db m x c.now r.state.tickets

/-- A row answered from the memo gets the status that `cmlCheckDataObjId` would return. -/
def Run.Fresh (db : Database) (localZone : Text) (behind : Behind) (r : Run) : Event → Prop
  | .ticketSetup _ _ => True
  | .row c => ∀ x ∈ c.check localZone r.state, r.state.answers c x = true →
      (checkCondInputAccess db localZone behind c r.state).1 =
        (cmlCheckDataObjId db x c.now r.state.tickets).1

theorem strncpy_fits {src after : Text} (h : src.length < LONG_NAME_LEN) : strncpy src after = src :=
  if_pos h

theorem cmlCheckDataObjId_again {m : Made} {now : Text}
    (h : m.check.ticketStr ≠ [] → ∀ row ∈ db.ticketRow m.check,
      TicketSteady db m now (cmlCheckDataObjId db m.check m.now m.before).2 row) :
    (cmlCheckDataObjId db m.check now (cmlCheckDataObjId db m.check m.now m.before).2).1 =
      (cmlCheckDataObjId db m.check m.now m.before).1 := by
  by_cases hticket : m.check.ticketStr ≠ []
  case neg =>
    simp only [cmlCheckDataObjId, if_neg hticket]
    split
    case isTrue => rfl
    case isFalse => split <;> rfl
  case pos =>
    have h := h hticket
    simp only [cmlCheckDataObjId, if_pos hticket] at h ⊢
    cases hrow : db.ticketRow m.check with
    | none => simp only [checkObjIdByTicket, Database.answers, hrow]
    | some row =>
      have hsteady := h row hrow
      exact status_again (w := db.answers m.check m.now) hrow hsteady.audit hsteady.now hsteady.files
        hsteady.uses

theorem Run.Sound.fresh {r : Run} {e : Event} (h : r.Remembers db behind) (hs : r.Sound db localZone e) :
    r.Fresh db localZone behind e := by
  cases e with
  | ticketSetup => trivial
  | row c =>
    intro x hx hanswers
    obtain ⟨m, hm, hsame⟩ := hs x hx hanswers
    obtain ⟨htickets, hstatus, hdata, huser, haccess⟩ := h m hm
    rw [strncpy_fits hsame.fits.1] at hdata
    rw [strncpy_fits hsame.fits.2.1] at huser
    rw [strncpy_fits hsame.fits.2.2] at haccess
    have hmatch := hanswers
    simp only [State.answers, State.remembers, Bool.and_eq_true, decide_eq_true_eq] at hmatch
    obtain ⟨-, ⟨hdata', huser'⟩, haccess'⟩ := hmatch
    have hcheck : x = m.check := by
      apply Check.ext
      · exact hdata'.symm.trans hdata
      · exact haccess'.symm.trans haccess
      · exact hsame.ticket
      · exact hsame.clientAddr
      · exact huser'.symm.trans huser
      · exact hsame.zone
    subst hcheck
    rw [checkCondInputAccess_check hx, if_pos hanswers, hstatus, htickets]
    refine (cmlCheckDataObjId_again fun hticket row hrow => ?_).symm
    rw [← htickets]
    exact hsame.steady hticket row hrow

/-- In every session whose rows answered from the memo are those of an earlier decision,
each of them gets the status of a fresh decision. -/
theorem Run.fresh_of_sound (db : Database) (localZone : Text) (behind : Behind) (s : State) (es : List Event)
    (h : ∀ before e after, es = before ++ e :: after →
      (Run.steps db localZone behind ⟨s, none⟩ before).Sound db localZone e) :
    ∀ before e after, es = before ++ e :: after →
      (Run.steps db localZone behind ⟨s, none⟩ before).Fresh db localZone behind e := by
  intro before e after heq
  have hremembers : (Run.steps db localZone behind ⟨s, none⟩ before).Remembers db behind := by
    apply Run.Remembers.steps
    intro m hm
    cases hm
  exact (h before e after heq).fresh hremembers

/-- Alice of zone A may read; a ticket of one use gives everybody access. -/
def aliceOfA : Database where
  objectAccess x := if x.userZone = ['A'] then (0, 10007) else (-808000, 0)
  ticketRow _ := some (useLimited "1" 1)
  restrictions _ := 0
  audit _ := 0
  updateWriteFileCount _ := 0
  updateUsesCount _ := 0
  cmlCheckDirId _ _ _ _ := 0

/-- A row of object 10007 asked for by Alice of a zone. -/
def rowFor (zone : String) (continueFlag : Bool) : Event :=
  .row ⟨[(userNameClientKw, "alice".toList), (rodsZoneClientKw, zone.toList),
      (accessPermissionKw, "read object".toList)],
    [("data_id".toList, "10007".toList)], continueFlag, "01700000000".toList⟩

/-- A new session. -/
def started (ticket : String) : State := ⟨fresh, ticket.toList, [], [], [], [], 0⟩

/-- The second of two rows of one object in a query. -/
theorem Run.fresh_of_sound_twoRows :
    (Run.steps aliceOfA [] ⟨[], [], []⟩ ⟨started "", none⟩ [rowFor "A" false]).Fresh aliceOfA [] ⟨[], [], []⟩
      (rowFor "A" true) := by
  refine Run.fresh_of_sound aliceOfA [] ⟨[], [], []⟩ (started "") [rowFor "A" false, rowFor "A" true] ?_
    [rowFor "A" false] (rowFor "A" true) [] rfl
  intro before e after heq
  match before, heq with
  | [], heq =>
    obtain ⟨rfl, -⟩ := heq
    rintro x ⟨⟩ hanswers
    exact absurd hanswers (by decide)
  | [p], heq =>
    obtain ⟨rfl, rfl, -⟩ := heq
    rintro x ⟨⟩ -
    refine ⟨_, rfl, rfl, rfl, rfl, ⟨by decide, by decide, by decide⟩, fun hticket => ?_⟩
    exact absurd rfl hticket
  | _ :: _ :: before, heq => simp at heq

/-- A row shown to Alice of another zone; a row shown after the session ticket was taken
back; a row shown when the only use of the ticket was used up. -/
theorem memo_not_fresh :
    ¬ (∀ before e after, [rowFor "A" false, rowFor "B" true] = before ++ e :: after →
      (Run.steps aliceOfA [] ⟨[], [], []⟩ ⟨started "", none⟩ before).Fresh aliceOfA [] ⟨[], [], []⟩ e) ∧
    ¬ (∀ before e after, [rowFor "B" false, .ticketSetup [] [], rowFor "B" true] = before ++ e :: after →
      (Run.steps aliceOfA [] ⟨[], [], []⟩ ⟨started "key", none⟩ before).Fresh aliceOfA [] ⟨[], [], []⟩ e) ∧
    ¬ (∀ before e after, [rowFor "B" false, rowFor "B" true] = before ++ e :: after →
      (Run.steps aliceOfA [] ⟨[], [], []⟩ ⟨started "key", none⟩ before).Fresh aliceOfA [] ⟨[], [], []⟩ e) := by
  refine ⟨fun h => ?_, fun h => ?_, fun h => ?_⟩
  · exact absurd (h [_] _ [] rfl _ rfl (by decide)) (by decide)
  · exact absurd (h [_, _] _ [] rfl _ rfl (by decide)) (by decide)
  · exact absurd (h [_] _ [] rfl _ rfl (by decide)) (by decide)

end AccessMemo
