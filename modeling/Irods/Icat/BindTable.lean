-- SUMMARY: The global table of bind variables: who fills and who empties it.
import Irods.Api.RodsDef
import Irods.Icat.ChlGenQuery
import Irods.Icat.Ticket

/-!
# The table of bind variables

Query generation, updates, audits and ticket checks put pointers on the global array
`cllBindVars`; `bindTheVariables` binds all of them to the statement that is executed next
and sets their number to 0. An operation that returns before its statement comes that far
leaves them there.

For every statement that is bound the model keeps what was pushed for it and what was bound.
A name that fills its static buffer is taken to end there. Where a condition is copied past its
buffer, or a pointer is stored past the array, the program goes on, and nothing is known of the
table from there.
-/

namespace BindTable

open CString GenQuery Statements

def MAX_SQL_SIZE : Nat := 4000
def AUDIT_COMMENT_MAX_SIZE : Nat := 1000

def AU_USE_TICKET : Int := 2163

def COL_USER_NAME : Int := 202
def COL_R_RESC_NAME : Int := 302

/-! ## The table -/

/-- A pointer on `cllBindVars`: into a buffer of `generateSQL`, to a static of
`generateSpecialQuery`, or to a text of a caller. -/
inductive BindVar where
  | sql (p : Buffer × Nat)
  | userName
  | userZone
  | rescName
  | value (v : Text)
  deriving DecidableEq

/-- What was pushed for a statement and what `bindTheVariables` bound to it. -/
structure Bound where
  pushed : List BindVar
  bound : List BindVar
  deriving DecidableEq

/-- The statics of the generators and the table. The bind variables of the statement at
hand begin at `start`. -/
structure Binds where
  query : Query
  userName : Text
  userZone : Text
  rescName : Text
  cllBindVars : List BindVar
  start : Nat
  log : List Bound

namespace Binds

def deref (b : Binds) : BindVar → Text
  | .sql p => b.query.cond.deref p
  | .userName => b.userName
  | .userZone => b.userZone
  | .rescName => b.rescName
  | .value v => v

/-- What is pushed next is for a new statement. -/
def begin (b : Binds) : Binds := { b with start := b.cllBindVars.length }

def push (b : Binds) (v : BindVar) : Binds := { b with cllBindVars := b.cllBindVars ++ [v] }

/-- `bindTheVariables`. -/
def bindTheVariables (b : Binds) : Binds :=
  { b with cllBindVars := [], log := b.log ++ [⟨b.cllBindVars.drop b.start, b.cllBindVars⟩] }

end Binds

/-! ## The generators -/

/-- The pointer as `generateSQL` finds it on the table. It looks only at how many there are. -/
def BindVar.pointer : BindVar → Buffer × Nat
  | .sql p => p
  | _ => (.offsetStr, 0)

def Binds.atStart (b : Binds) : Query :=
  { b.query with cond := { b.query.cond with cllBindVars := b.cllBindVars.map BindVar.pointer } }

/-- With what `generateSQL` has pushed behind what was there. -/
def Binds.after (b : Binds) (q : Query) : Binds :=
  { b with
    query := q
    cllBindVars := b.cllBindVars ++ (q.cond.cllBindVars.drop b.cllBindVars.length).map .sql }

def generateSQL (S : Schema) (session : Session) (inp : GenQueryInp) (b : Binds) : Generated Binds :=
  match Query.generateSQL S session inp b.atStart with
  | .ok sql q => .sql sql (b.after q)
  | .error (.fail status) q => .refused status (b.after q)
  | .error .overrun _ => .overrun

/-- The name and the zone. What it returns is not looked at. -/
def parseUserName (fullUserNameIn : Text) : Text × Text :=
  match strstr "#".toList fullUserNameIn with
  | some ix =>
    if 0 < ix ∧ ix < NAME_LEN - 1 then
      (fullUserNameIn.take ix, (fullUserNameIn.drop (ix + 1)).take NAME_LEN)
    else (fullUserNameIn.take NAME_LEN, [])
  | none => (fullUserNameIn.take NAME_LEN, [])

/-- The texts of the two queries, which differ in blanks besides. -/
def quotaQuery (zone resource : String) : Text :=
  ("select distinct QM.user_id, RM.resc_name, QM.quota_limit, QM.quota_over, QM.resc_id " ++
    "from R_QUOTA_MAIN QM, R_USER_MAIN UM, R_RESC_MAIN RM, R_USER_GROUP UG, R_USER_MAIN UM2 " ++
    "where ( (QM.user_id = UM.user_id and UM.user_name = ? and UM.zone_name" ++ zone ++ ") or " ++
    "(QM.user_id = UG.group_user_id and UM2.user_name = ? and UM2.zone_name = ? and " ++
    "UG.user_id = UM2.user_id) ) and ((QM.resc_id = RM.resc_id) or QM.resc_id = '0')" ++ resource ++
    " order by quota_over desc").toList

def quotaQuery1 : Text := quotaQuery " = ?" ""

def quotaQuery2 : Text := quotaQuery "=?" " and RM.resc_name = ?"

/-- A condition on the user of a quota query. -/
def addQuotaUser (localZone : Text) (b : Binds) (value : Text) : Binds :=
  let (userName, userZone) := parseUserName value
  { b with
    userName := userName
    userZone := if userZone = [] then localZone.take NAME_LEN else userZone
    cllBindVars := b.cllBindVars ++ [.userName, .userZone, .userName, .userZone] }

/-- A condition on the resource of a quota query. -/
def addQuotaResource (b : Binds) (value : Text) : Binds :=
  { b with rescName := value.take LONG_NAME_LEN, cllBindVars := b.cllBindVars ++ [.rescName] }

def valuesOf (inp : GenQueryInp) (column : Int) : List Text :=
  (inp.sqlCondInp.filter fun c => c.1 = column).map Prod.snd

def generateSpecialQuery (localZone : Text) (inp : GenQueryInp) (b : Binds) : Generated Binds :=
  if valuesOf inp COL_USER_NAME = [] then .refused CAT_INVALID_ARGUMENT b
  else
    let b := (valuesOf inp COL_USER_NAME).foldl (addQuotaUser localZone) b
    let resources := valuesOf inp COL_R_RESC_NAME
    .sql (if resources = [] then quotaQuery1 else quotaQuery2) (resources.foldl addQuotaResource b)

/-- What stays the same in a process: the tables, the user and the local zone. -/
structure Setting where
  schema : Schema
  session : Session
  localZone : Text

def generator (w : Setting) : Generator Binds where
  generate inp b :=
    if inp.options &&& QUOTA_QUERY ≠ 0 then generateSpecialQuery w.localZone inp b.begin
    else generateSQL w.schema w.session inp b.begin
  bindVars b := b.cllBindVars.map b.deref
  reset := Binds.bindTheVariables

/-! ## Statements without a result -/

structure Catalog where
  server : Server Binds
  didBegin : Bool
  auditEnabled : Bool
  ticket : Ticket.Session

def Catalog.binds (c : Catalog) : Binds := c.server.gen

abbrev CatalogM := EStateM Misuse Catalog

def onServer {α : Type} (m : StmtM Binds α) : CatalogM α := fun c =>
  match m c.server with
  | .ok a s => .ok a { c with server := s }
  | .error e s => .error e { c with server := s }

def onBinds (f : Binds → Binds) : CatalogM Unit :=
  modify fun c => { c with server := { c.server with gen := f c.server.gen } }

/-- What the database does with a statement without a result: what the `begin` before it
returns, whether its handle is allocated and its variables are bound, and what is returned
for it. -/
structure NoResult where
  begin : Int
  alloc : Bool
  bind : Bool
  result : Int
  deriving DecidableEq

/-- `_cllExecSqlNoResult` with option 0; with option 1, for the `begin`, nothing is bound. -/
def execSqlNoResult (a : NoResult) : CatalogM Int := do
  if a.alloc = false then return -1
  onBinds Binds.bindTheVariables
  return if a.bind then a.result else -1

def cllExecSqlNoResult (sql : Text) (a : NoResult) : CatalogM Int := do
  if "commit".toList.isPrefixOf sql || "rollback".toList.isPrefixOf sql then
    modify fun c => { c with didBegin := false }
    execSqlNoResult a
  else if (← get).didBegin = false ∧ a.begin ≠ 0 then return a.begin
  else
    modify fun c => { c with didBegin := true }
    execSqlNoResult a

def cmlExecuteNoAnswerSql (sql : Text) (a : NoResult) : CatalogM Int := do
  let i ← cllExecSqlNoResult sql a
  return if i ≠ 0 then cmlStatus i else 0

/-- The columns in front of placeholders, with their values pushed. -/
def bindColumns (sep sep2 : Text) : Bool → Text → List (Text × Text) → CatalogM Text
  | _, str, [] => pure str
  | first, str, (col, value) :: cols => do
    let str := if first then str else rstrcat str sep2 MAX_SQL_SIZE
    let str := rstrcat (rstrcat (rstrcat str col MAX_SQL_SIZE) sep MAX_SQL_SIZE) "?".toList MAX_SQL_SIZE
    onBinds fun b => b.push (.value value)
    bindColumns sep sep2 false str cols

/-- Appends to the text in front, in the room that it leaves. -/
def cmlArraysToStrWithBind (tsql preStr : Text) (arr : List (Text × Text)) (sep sep2 : Text) :
    CatalogM Text :=
  bindColumns sep sep2 true (rstrcat tsql preStr MAX_SQL_SIZE) arr

def cmlModifySingleTable (tableName : Text) (updates conds : List (Text × Text)) (a : NoResult) :
    CatalogM Int := do
  onBinds Binds.begin
  let tsql := ("update ".toList ++ tableName ++ " set ".toList).take (MAX_SQL_SIZE - 1)
  let tsql ← cmlArraysToStrWithBind tsql [] updates " = ".toList ", ".toList
  let tsql ← cmlArraysToStrWithBind tsql " where ".toList conds [] " and ".toList
  cmlExecuteNoAnswerSql tsql a

/-! ## Ticket checks -/

/-- What an audit writes at the beginning of the table, whatever is there. -/
def auditValues (actionId : Int) (dataId userName zoneName comment now : Text) : List BindVar :=
  let comment := comment.take (AUDIT_COMMENT_MAX_SIZE - 1)
  if zoneName = [] then
    [.value dataId, .value userName, .value (decimal actionId), .value comment, .value now, .value now]
  else
    [.value dataId, .value userName, .value zoneName, .value (decimal actionId), .value comment, .value now,
      .value now]

def auditSQL (zoneName : Text) : Text :=
  ("insert into R_OBJT_AUDIT (object_id, user_id, action_id, r_comment, create_ts, modify_ts) values " ++
    "(?, (select user_id from R_USER_MAIN where user_name=? and zone_name=").toList ++
    (if zoneName = [] then
      "(select zone_name from R_ZONE_MAIN where zone_type_name='local')".toList else "?".toList) ++
    "), ?, ?, ?, ?)".toList

def cmlAudit3 (actionId : Int) (dataId userName zoneName comment now : Text) (a : NoResult) :
    CatalogM Int := do
  if (← get).auditEnabled = false then return 0
  onBinds fun b =>
    { b with start := 0, cllBindVars := auditValues actionId dataId userName zoneName comment now }
  cmlExecuteNoAnswerSql (auditSQL zoneName) a

/-- What the calls of a check return; those that change nothing give their status. -/
structure TicketAnswers where
  row : Option Ticket.Row
  now : Text
  restrictions : Int
  audit : NoResult
  updateWriteFileCount : NoResult
  updateUsesCount : NoResult

open Ticket

def auditUse (x : Check) (w : TicketAnswers) (row : Row) : CatalogM Int := do
  if row.ticketId.take prevTicketIdSize ≠ (← get).ticket.prevTicketId.take prevTicketIdSize then
    modify fun c => { c with ticket := { c.ticket with prevTicketId := row.ticketId.take prevTicketIdSize } }
    cmlAudit3 AU_USE_TICKET row.ticketId x.userName x.userZone x.ticketStr w.now w.audit
  else return 0

/-- The update of a counter of a ticket, and of the id remembered with it. -/
def updateCount (column : Text) (count : Int) (ticketId : Text) (counts : Counts)
    (remember : Ticket.Session → Ticket.Session) (a : NoResult) : CatalogM Int := do
  onBinds Binds.begin
  onBinds fun b => b.push (.value (decimal count))
  onBinds fun b => b.push (.value ticketId)
  let status ← cmlExecuteNoAnswerSql
    ("update R_TICKET_MAIN set ".toList ++ column ++ "=? where ticket_id=?".toList) a
  if status ≠ 0 then return status
  modify fun c => { c with ticket := remember (c.ticket.setCounts ticketId counts) }
  return 0

def countWrite (x : Check) (w : TicketAnswers) (row : Row) : CatalogM Int := do
  let s := (← get).ticket
  let seen := s.counts row.ticketId
  let remember (s : Ticket.Session) := { s with previousDataId1 := x.intDataId }
  if 0 < row.writeByteLimit ∧ row.writeByteLimit < seen.writeByteCount then
    return CAT_TICKET_WRITE_BYTES_EXCEEDED
  else if 0 < row.writeFileLimit then
    if row.writeFileLimit ≤ seen.writeFileCount then return CAT_TICKET_WRITE_USES_EXCEEDED
    else if s.previousDataId1 ≠ x.intDataId then
      updateCount "write_file_count".toList (seen.writeFileCount + 1) row.ticketId
        { seen with writeFileCount := seen.writeFileCount + 1 } remember w.updateWriteFileCount
    else return 0
  else return 0

/-- With the counters as they were selected. -/
def countUse (x : Check) (w : TicketAnswers) (row : Row) (seen : Counts) : CatalogM Int := do
  let s := (← get).ticket
  let remember (s : Ticket.Session) := { s with previousDataId2 := x.intDataId }
  if 0 < row.usesLimit then
    if row.usesLimit ≤ seen.usesCount then return CAT_TICKET_USES_EXCEEDED
    else if s.previousDataId2 ≠ x.intDataId then
      updateCount "uses_count".toList (seen.usesCount + 1) row.ticketId
        { s.counts row.ticketId with usesCount := seen.usesCount + 1 } remember w.updateUsesCount
    else return 0
  else return 0

/-- The status of the first part, unless it is 0. -/
def orReturn (m : CatalogM Int) (next : CatalogM Int) : CatalogM Int := do
  let status ← m
  if status ≠ 0 then return status else next

def checkObjIdByTicket (x : Check) (w : TicketAnswers) : CatalogM Int := do
  match w.row with
  | none => return CAT_TICKET_INVALID
  | some row =>
    let seen := (← get).ticket.counts row.ticketId
    orReturn (auditUse x w row) <|
    if expired row.ticketExpiry w.now then return CAT_TICKET_EXPIRED
    else
      orReturn (pure w.restrictions) <|
      orReturn (if x.modify then countWrite x w row else pure 0) <|
      countUse x w row seen

/-! ## The check without the table -/

/-- A statement without a result leaves what is remembered of tickets alone. -/
theorem cmlExecuteNoAnswerSql_run (sql : Text) (a : NoResult) (c : Catalog) :
    ∃ status c', cmlExecuteNoAnswerSql sql a c = .ok status c' ∧ c'.ticket = c.ticket := by
  have hexec (c : Catalog) : ∃ i c', execSqlNoResult a c = .ok i c' ∧ c'.ticket = c.ticket := by
    unfold execSqlNoResult
    split
    · exact ⟨_, _, rfl, rfl⟩
    · exact ⟨_, _, rfl, rfl⟩
  have hcll : ∃ i c', cllExecSqlNoResult sql a c = .ok i c' ∧ c'.ticket = c.ticket := by
    unfold cllExecSqlNoResult
    split
    · rw [EStateM.modify_bind]
      exact hexec _
    · rw [EStateM.get_bind]
      split
      · exact ⟨_, _, rfl, rfl⟩
      · rw [EStateM.modify_bind]
        exact hexec _
  obtain ⟨i, c', hrun, hticket⟩ := hcll
  refine ⟨if i ≠ 0 then cmlStatus i else 0, c', ?_, hticket⟩
  rw [cmlExecuteNoAnswerSql, EStateM.bind_run hrun]
  rfl

/-- What a part comes to, with a status for its statement. -/
def ComesTo (m : CatalogM Int) (f : Int → Ticket.Session → Int × Ticket.Session) (c : Catalog) :
    Prop :=
  ∃ status st c', m c = .ok st c' ∧ f status c.ticket = (st, c'.ticket)

variable (x : Check) (w : TicketAnswers) (row : Row) (c : Catalog)

theorem auditUse_comesTo : ComesTo (auditUse x w row)
    (fun audit => Ticket.auditUse ⟨w.row, w.now, audit, w.restrictions, 0, 0⟩ row) c := by
  unfold ComesTo
  simp only [auditUse, Ticket.auditUse, EStateM.get_bind]
  by_cases hfirst : row.ticketId.take prevTicketIdSize ≠ c.ticket.prevTicketId.take prevTicketIdSize
  · simp only [if_pos hfirst, EStateM.modify_bind, cmlAudit3, EStateM.get_bind]
    split
    · exact ⟨0, 0, _, rfl, rfl⟩
    · simp only [onBinds, EStateM.modify_bind]
      obtain ⟨status, c', hrun, hticket⟩ := cmlExecuteNoAnswerSql_run (auditSQL x.userZone) w.audit _
      exact ⟨status, status, c', hrun, congrArg (status, ·) hticket.symm⟩
  · simp only [if_neg hfirst]
    exact ⟨0, 0, c, rfl, rfl⟩

/-- The update of a counter, and of the object that is remembered with it. -/
theorem updateCount_comesTo (column : Text) (count : Int) (ticketId : Text) (counts : Counts)
    (remember : Ticket.Session → Ticket.Session) (a : NoResult) :
    ComesTo (updateCount column count ticketId counts remember a) (fun status s =>
      Ticket.orReturn (Ticket.update status ticketId counts s) fun s => (0, remember s)) c := by
  unfold ComesTo
  simp only [updateCount, onBinds, EStateM.modify_bind]
  obtain ⟨status, c', hrun, hticket⟩ := cmlExecuteNoAnswerSql_run
    ("update R_TICKET_MAIN set ".toList ++ column ++ "=? where ticket_id=?".toList) a _
  rw [EStateM.bind_run hrun]
  by_cases hstatus : status = 0
  · subst hstatus
    refine ⟨0, 0, _, rfl, ?_⟩
    show (0, remember _) = (0, remember (c'.ticket.setCounts ticketId counts))
    rw [hticket]
    rfl
  · refine ⟨status, status, c', ?_, ?_⟩
    · rw [if_pos hstatus]
      rfl
    · simp only [Ticket.orReturn, Ticket.update, if_pos (show status ≠ 0 from hstatus)]
      rw [hticket]

theorem countWrite_comesTo : ComesTo (countWrite x w row)
    (fun status => Ticket.countWrite x ⟨w.row, w.now, 0, w.restrictions, status, 0⟩ row) c := by
  have hupdate := updateCount_comesTo c "write_file_count".toList
    ((c.ticket.counts row.ticketId).writeFileCount + 1) row.ticketId
    { c.ticket.counts row.ticketId with
      writeFileCount := (c.ticket.counts row.ticketId).writeFileCount + 1 }
    (fun s => { s with previousDataId1 := x.intDataId }) w.updateWriteFileCount
  unfold ComesTo at hupdate ⊢
  simp only [countWrite, Ticket.countWrite, EStateM.get_bind]
  split
  · exact ⟨0, _, c, rfl, rfl⟩
  split
  · split
    · exact ⟨0, _, c, rfl, rfl⟩
    by_cases hother : c.ticket.previousDataId1 ≠ x.intDataId
    · simp only [if_pos hother]
      exact hupdate
    · simp only [if_neg hother]
      refine ⟨0, 0, c, rfl, ?_⟩
      rw [← not_not.mp hother]
      rfl
  · exact ⟨0, 0, c, rfl, rfl⟩

theorem countUse_comesTo (seen : Counts) : ComesTo (countUse x w row seen)
    (fun status => Ticket.countUse x ⟨w.row, w.now, 0, w.restrictions, 0, status⟩ row seen) c := by
  have hupdate := updateCount_comesTo c "uses_count".toList (seen.usesCount + 1) row.ticketId
    { c.ticket.counts row.ticketId with usesCount := seen.usesCount + 1 }
    (fun s => { s with previousDataId2 := x.intDataId }) w.updateUsesCount
  unfold ComesTo at hupdate ⊢
  simp only [countUse, Ticket.countUse, EStateM.get_bind]
  split
  · split
    · exact ⟨0, _, c, rfl, rfl⟩
    by_cases hother : c.ticket.previousDataId2 ≠ x.intDataId
    · simp only [if_pos hother]
      exact hupdate
    · simp only [if_neg hother]
      refine ⟨0, 0, c, rfl, ?_⟩
      rw [← not_not.mp hother]
      rfl
  · exact ⟨0, 0, c, rfl, rfl⟩

theorem orReturn_run {m next : CatalogM Int} {c c₁ : Catalog} {st : Int} (hrun : m c = .ok st c₁) :
    orReturn m next c = if st ≠ 0 then .ok st c₁ else next c₁ := by
  rw [orReturn, EStateM.bind_run hrun]
  split <;> rfl

/-- With what its statements come to, the check returns and remembers what the check without a
table of bind variables does. -/
theorem checkObjIdByTicket_comesTo (x : Check) (w : TicketAnswers) (c : Catalog) :
    ∃ (answers : Ticket.Answers) (st : Int) (c' : Catalog), answers.row = w.row ∧
      answers.now = w.now ∧ answers.restrictions = w.restrictions ∧
      checkObjIdByTicket x w c = .ok st c' ∧
      Ticket.checkObjIdByTicket x answers c.ticket = (st, c'.ticket) := by
  cases hrow : w.row with
  | none =>
    refine ⟨⟨none, w.now, 0, w.restrictions, 0, 0⟩, CAT_TICKET_INVALID, c, rfl, rfl, rfl, ?_, rfl⟩
    simp only [checkObjIdByTicket, hrow]
    rfl
  | some row =>
    obtain ⟨audit, st, c₁, haudit, haudit'⟩ := auditUse_comesTo x w row c
    obtain ⟨writeStatus, st₁, c₂, hwrite, hwrite'⟩ := countWrite_comesTo x w row c₁
    -- the part for modify access, or nothing
    obtain ⟨st₁', c₂', hmodify, hmodify'⟩ : ∃ st₁' c₂',
        (if x.modify then countWrite x w row else pure 0) c₁ = .ok st₁' c₂' ∧
        (if x.modify then Ticket.countWrite x ⟨w.row, w.now, 0, w.restrictions, writeStatus, 0⟩ row c₁.ticket
          else (0, c₁.ticket)) = (st₁', c₂'.ticket) := by
      split
      · exact ⟨st₁, c₂, hwrite, hwrite'⟩
      · exact ⟨0, c₁, rfl, rfl⟩
    obtain ⟨useStatus, st₂, c₃, huse, huse'⟩ := countUse_comesTo x w row c₂'
      (c.ticket.counts row.ticketId)
    have hask : Ticket.auditUse ⟨some row, w.now, audit, w.restrictions, writeStatus, useStatus⟩ row
        c.ticket = (st, c₁.ticket) := haudit'
    refine ⟨⟨some row, w.now, audit, w.restrictions, writeStatus, useStatus⟩, ?_⟩
    simp only [checkObjIdByTicket, hrow, EStateM.get_bind, orReturn_run haudit,
      Ticket.checkObjIdByTicket, hask, true_and]
    by_cases hst : st ≠ 0
    · exact ⟨st, c₁, if_pos hst, if_pos hst⟩
    by_cases hexpired : expired row.ticketExpiry w.now = true
    · refine ⟨CAT_TICKET_EXPIRED, c₁, ?_, ?_⟩
      · rw [if_neg hst, if_pos hexpired]
        rfl
      · rw [Ticket.orReturn, if_neg hst, if_pos hexpired]
    by_cases hrestricted : w.restrictions ≠ 0
    · refine ⟨w.restrictions, c₁, ?_, ?_⟩
      · rw [if_neg hst, if_neg hexpired]
        exact (orReturn_run rfl).trans (if_pos hrestricted)
      · rw [Ticket.orReturn, if_neg hst, if_neg hexpired]
        exact if_pos hrestricted
    by_cases hst₁ : st₁' ≠ 0
    · refine ⟨st₁', c₂', ?_, ?_⟩
      · rw [if_neg hst, if_neg hexpired]
        exact ((orReturn_run rfl).trans (if_neg hrestricted)).trans
          ((orReturn_run hmodify).trans (if_pos hst₁))
      · rw [Ticket.orReturn, if_neg hst, if_neg hexpired, Ticket.orReturn, if_neg hrestricted]
        exact (congrArg (fun r => Ticket.orReturn r _) hmodify').trans (if_pos hst₁)
    · refine ⟨st₂, c₃, ?_, ?_⟩
      · rw [if_neg hst, if_neg hexpired]
        exact ((orReturn_run rfl).trans (if_neg hrestricted)).trans
          (((orReturn_run hmodify).trans (if_neg hst₁)).trans huse)
      · rw [Ticket.orReturn, if_neg hst, if_neg hexpired, Ticket.orReturn, if_neg hrestricted]
        exact ((congrArg (fun r => Ticket.orReturn r _) hmodify').trans (if_neg hst₁)).trans huse'

/-! ## Operations -/

inductive Operation where
  | chlGenQuery (q : Request)
  | cmlModifySingleTable (tableName : Text) (updates conds : List (Text × Text)) (a : NoResult)
  | checkObjIdByTicket (x : Check) (w : TicketAnswers)

def Operation.run (w : Setting) : Operation → CatalogM Int
  | .chlGenQuery q =>
    onServer do return (← Statements.chlGenQuery (generator w) q).1
  | .cmlModifySingleTable tableName updates conds a => BindTable.cmlModifySingleTable tableName updates conds a
  | .checkObjIdByTicket x answers => BindTable.checkObjIdByTicket x answers

/-- A condition of the request is copied past a buffer of `generateSQL`, or a quota query
pushes more than the array holds, which nothing checks. -/
def overflows (w : Setting) (inp : GenQueryInp) (b : Binds) : Bool :=
  if inp.options &&& QUOTA_QUERY ≠ 0 then
    b.cllBindVars.length + 4 * (valuesOf inp COL_USER_NAME).length +
      (valuesOf inp COL_R_RESC_NAME).length > maxBindVars
  else
    match Query.requestColumns w.schema w.session inp (Query.start inp b.begin.atStart) with
    | .error .overrun _ => true
    | _ => false

/-- Something is stored where nothing is known of what is there. The call that `chlGenQuery`
makes of itself has conditions that went well before. -/
def Operation.overflows (w : Setting) (c : Catalog) : Operation → Bool
  | .chlGenQuery q => q.continueInx = 0 && BindTable.overflows w q.inp c.binds
  | .cmlModifySingleTable _ updates conds _ =>
    c.binds.cllBindVars.length + updates.length + conds.length > maxBindVars
  | .checkObjIdByTicket _ _ => c.binds.cllBindVars.length + 2 > maxBindVars

/-- What an operation leaves. -/
inductive After where
  | state (c : Catalog)
  /-- The run ends at a slot that is not open, at the end of a page, or in a walk over the
  tables that does not end. -/
  | stopped
  | unknown

def Catalog.exec (w : Setting) (c : Catalog) (op : Operation) : After :=
  if op.overflows w c then .unknown
  else
    match op.run w c with
    | .ok _ c'   => .state c'
    | .error _ _ => .stopped

end BindTable
