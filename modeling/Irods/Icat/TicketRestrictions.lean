-- SUMMARY: The lists of hosts, users and groups of a ticket.
import Irods.Api.RodsDef
import Irods.Icat.SlotsKept

/-!
# Restrictions on a ticket

A ticket can be restricted to hosts, users and groups. Each list is read through a cursor, and an empty one
admits everybody. For a group the membership is asked with queries of their own while the cursor is open.

The database is a parameter: what it answers to a statement with its bind variables.
-/

namespace TicketRestrictions

open CString Statements EStateM

def CAT_INVALID_USER : Int := -827000
def CAT_TICKET_USER_EXCLUDED : Int := -893000
def CAT_TICKET_HOST_EXCLUDED : Int := -894000
def CAT_TICKET_GROUP_EXCLUDED : Int := -895000

def MAX_INTEGER_SIZE : Nat := 40

variable {G : Type}

abbrev Database := Text → List Text → ExecAnswer

/-- `strncmp(s, t, NAME_LEN) == 0`. -/
def sameName (s t : Text) : Bool := s.take NAME_LEN = t.take NAME_LEN

/-! ## Values and cursors -/

/-- The status with the statement. -/
def cmlGetFirstRowFromSqlBV (answer : ExecAnswer) : StmtM G (Int × Nat) := do
  match ← cllExecSqlWithResultBV answer with
  | .error i => return (cmlStatus i, 0)
  | .ok n =>
    let status ← getRowOrFree n
    return (status, if status ≠ 0 then 0 else n)

/-- The status with the value, which is not set where it is too long. -/
def cmlGetStringValueFromSql (answer : ExecAnswer) (cValSize : Nat) : StmtM G (Int × Option Text) := do
  let (i, cVals) ← cmlGetOneRowFromSqlBV answer [cValSize]
  return (if i = 1 then 0 else i, cVals.head?.join)

/-- The status; the number itself is not used here. -/
def cmlGetIntegerValueFromSql (answer : ExecAnswer) : StmtM G Int := do
  let (i, cVal) ← cmlGetOneRowFromSqlBV answer [MAX_INTEGER_SIZE]
  if i = 1 then
    match cVal.head?.join with
    | none => throw .notSet
    | some [] => return CAT_NO_ROWS_FOUND
    | some _ => return 0
  else return i

def userIdSql : Text :=
  "select user_id from R_USER_MAIN where user_name=? and zone_name=? and user_type_name!='rodsgroup'".toList

def userGroupSql : Text :=
  ("select group_user_id from R_USER_GROUP where user_id=? and group_user_id = " ++
    "(select user_id from R_USER_MAIN where user_type_name='rodsgroup' and user_name=?)").toList

def cmlCheckUserInGroup (db : Database) (userName userZone groupName : Text) : StmtM G Int := do
  let (status, sVal) ← cmlGetStringValueFromSql (db userIdSql [userName, userZone]) MAX_NAME_LEN
  if status = CAT_NO_ROWS_FOUND then return CAT_INVALID_USER
  if status ≠ 0 then return status
  match sVal with
  | none => throw .notSet
  | some sVal => cmlGetIntegerValueFromSql (db userGroupSql [sVal, groupName])

/-! ## The lists -/

/-- The loop over the rows of an open cursor: whether one of them matches, or the status to return. -/
def rowLoop (isMatch : Text → StmtM G Bool) (n : Nat) : Nat → Int → Bool → StmtM G (Except Int Bool)
  | 0, _, _ => throw .overrun
  | fuel + 1, status, ok => do
    if status = CAT_NO_ROWS_FOUND then return .ok ok
    match (← stmtAt n).resultValue with
    | [] => throw .notSet
    | value :: _ =>
      let found ← isMatch value
      let status ← cmlGetNextRowFromStatement n
      if status ≠ 0 ∧ status ≠ CAT_NO_ROWS_FOUND then return .error status
      rowLoop isMatch n fuel status (found || ok)

/-- More turns than a result has rows. -/
def turns : ExecAnswer → Nat
  | .failure _ => 0
  | .result _ rows _ => rows.length + 1

/-- One list: 0 where it is empty or a row of it matches, else the status to return. -/
def checkRows (answer : ExecAnswer) (isMatch : Text → StmtM G Bool) (excluded : Int) : StmtM G Int := do
  let (status, n) ← cmlGetFirstRowFromSqlBV answer
  if status ≠ CAT_NO_ROWS_FOUND ∧ status ≠ 0 then return status
  match ← rowLoop isMatch n (turns answer) status (status = CAT_NO_ROWS_FOUND) with
  | .error status => return status
  | .ok ok => return if ok then 0 else excluded

def hostSql : Text := "select host from R_TICKET_ALLOWED_HOSTS where ticket_id=?".toList
def userSql : Text := "select user_name from R_TICKET_ALLOWED_USERS where ticket_id=?".toList
def groupSql : Text := "select group_name from R_TICKET_ALLOWED_GROUPS where ticket_id=?".toList

/-- `user#zone` as it is put together. -/
def userAtZone (userName userZone : Text) : Text :=
  userName.take (NAME_LEN - 1) ++ '#' :: userZone.take NAME_LEN

def cmlCheckTicketRestrictions (db : Database) (ticketId ticketHost userName userZone : Text) : StmtM G Int := do
  let myUser := userAtZone userName userZone
  if NAME_LEN ≤ myUser.length then throw .overrun
  let status ← checkRows (db hostSql [ticketId]) (fun host => return sameName ticketHost host) CAT_TICKET_HOST_EXCLUDED
  if status ≠ 0 then return status
  let status ← checkRows (db userSql [ticketId]) (fun user => return sameName userName user || sameName myUser user)
    CAT_TICKET_USER_EXCLUDED
  if status ≠ 0 then return status
  checkRows (db groupSql [ticketId]) (fun group => return (← cmlCheckUserInGroup db userName userZone group) = 0)
    CAT_TICKET_GROUP_EXCLUDED

/-! ## What the catalog has -/

/-- The rows that the queries find. -/
structure Stored where
  hosts : List Text
  users : List Text
  groups : List Text
  userIds : List Text
  groupIds : Text → Text → List Text

/-- The client's user has an id, and with it a row for the group. -/
def Stored.IsMember (c : Stored) (group : Text) : Prop := ∃ id ∈ c.userIds.head?, c.groupIds id group ≠ []

/-- A result of one column. -/
def resultOf (rows : List Text) (rowCount : Int) : ExecAnswer := .result 1 (rows.map fun value => .row [value]) rowCount

/-- The calls of the database succeed. Ids are numbers. -/
structure Answers (db : Database) (c : Stored) (ticketId userName userZone : Text) : Prop where
  hosts : ∃ k, db hostSql [ticketId] = resultOf c.hosts k
  users : ∃ k, db userSql [ticketId] = resultOf c.users k
  groups : ∃ k, db groupSql [ticketId] = resultOf c.groups k
  userIds : ∃ k, db userIdSql [userName, userZone] = resultOf c.userIds k
  groupIds : ∀ id ∈ c.userIds, ∀ group ∈ c.groups, ∃ k, db userGroupSql [id, group] = resultOf (c.groupIds id group) k
  idLength : ∀ id ∈ c.userIds, id.length < MAX_NAME_LEN
  groupIdLength : ∀ id group, ∀ x ∈ c.groupIds id group, x ≠ [] ∧ x.length < MAX_INTEGER_SIZE

variable {f : Nat → Slot} {n : Nat} {s : Server G} {rows : List Text} {k : Int}

/-! ## Queries that succeed -/

/-- There is a slot for another statement. -/
def Room (f : Nat → Slot) : Prop := ∃ n < MAX_NUM_OF_CONCURRENT_STMTS, f n = .empty

theorem room_freeSlot (hroom : Room f) (hs : Table f s) :
    ∃ n, s.freeSlot = some n ∧ n < MAX_NUM_OF_CONCURRENT_STMTS ∧ f n = .empty := by
  cases hfree : s.freeSlot with
  | none =>
    obtain ⟨n, hn, hempty⟩ := hroom
    have hfull := freeSlot_none.mp hfree n hn
    rw [show s.stmtPtr = f from hs] at hfull
    exact absurd hempty hfull
  | some n =>
    obtain ⟨hn, hempty⟩ := freeSlot_some hfree
    rw [show s.stmtPtr = f from hs] at hempty
    exact ⟨n, rfl, hn, hempty⟩

/-- A cursor that is at a row. -/
abbrev cursor (value : Text) (rows : List Text) (k : Int) : Slot :=
  .stmt ⟨1, [value], rows.map fun value => .row [value], k⟩

/-- The statement has a slot before its first row is fetched. -/
theorem exec_run (hroom : Room f) (hs : Table f s) (rows : List Text) (k : Int) :
    ∃ n s', n < MAX_NUM_OF_CONCURRENT_STMTS ∧ f n = .empty ∧
      cllExecSqlWithResultBV (resultOf rows k) s = .ok (.ok n) s' ∧ Holds f n (cursor [] rows k) s' := by
  obtain ⟨n, hfree, hn, hempty⟩ := room_freeSlot hroom hs
  refine ⟨n, _, hn, hempty, execWithResult_run hfree, ?_⟩
  rw [show s.stmtPtr = f from hs]
  rfl

variable {value : Text}

theorem fetch_end (hn : n < MAX_NUM_OF_CONCURRENT_STMTS) (hempty : f n = .empty)
    (hs : Holds f n (cursor value [] k) s) :
    ∃ s', getRowOrFree (n : Int) s = .ok CAT_NO_ROWS_FOUND s' ∧ Table f s' := by
  refine ⟨_, getRowOrFree_end hn hs.slot rfl, ?_⟩
  have hfreed := freeStmt_holds hs
  rwa [holds_empty hempty] at hfreed

theorem fetch_row {next : Text} (hn : n < MAX_NUM_OF_CONCURRENT_STMTS)
    (hs : Holds f n (cursor value (next :: rows) k) s) :
    ∃ s', getRowOrFree (n : Int) s = .ok 0 s' ∧ Holds f n (cursor next rows k) s' :=
  ⟨_, getRowOrFree_row hn hs.slot rfl (by simp), setSlot_holds hs⟩

theorem oneRow_nil (hroom : Room f) (hs : Table f s) (k : Int) (cValSize : List Nat) :
    ∃ s', cmlGetOneRowFromSqlBV (resultOf [] k) cValSize s = .ok (CAT_NO_ROWS_FOUND, []) s' ∧ Table f s' := by
  obtain ⟨n, s₁, hn, hempty, hexec, hs₁⟩ := exec_run hroom hs [] k
  obtain ⟨s₂, hfetch, hs₂⟩ := fetch_end hn hempty hs₁
  refine ⟨s₂, ?_, hs₂⟩
  rw [cmlGetOneRowFromSqlBV, bind_run hexec]
  simp only
  rw [bind_run hfetch, if_pos (by decide)]
  rfl

theorem oneRow_cons {value : Text} {size : Nat} (hroom : Room f) (hs : Table f s) (k : Int)
    (hfits : value.length < size) :
    ∃ s', cmlGetOneRowFromSqlBV (resultOf (value :: rows) k) [size] s = .ok (1, [some value]) s' ∧ Table f s' := by
  obtain ⟨n, s₁, hn, hempty, hexec, hs₁⟩ := exec_run hroom hs (value :: rows) k
  obtain ⟨s₂, hfetch, hs₂⟩ := fetch_row hn hs₁
  have hfreed := freeStmt_holds hs₂
  rw [holds_empty hempty] at hfreed
  refine ⟨s₂.freeStmt n, ?_, hfreed⟩
  rw [cmlGetOneRowFromSqlBV, bind_run hexec]
  simp only
  rw [bind_run hfetch, if_neg (by decide), bind_run (stmtAt_run hn hs₂.slot),
    bind_run (cllFreeStatement_run hn hs₂.slot)]
  simp only [copyValues, List.zip_cons_cons, List.zip_nil_left, List.map_cons, List.map_nil, if_pos hfits]
  rfl

theorem stringValue_run {answer : ExecAnswer} {size : Nat} {i : Int} {cVals : List (Option Text)} {s' : Server G}
    (hrow : cmlGetOneRowFromSqlBV answer [size] s = .ok (i, cVals) s') :
    cmlGetStringValueFromSql answer size s = .ok (if i = 1 then 0 else i, cVals.head?.join) s' := by
  rw [cmlGetStringValueFromSql, bind_run hrow]
  rfl

variable {c : Stored} {db : Database} {userName userZone : Text}

/-- The user's groups are asked for with a cursor open, which stays as it is. -/
theorem checkUserInGroup_spec {ticketId group : Text} (h : Answers db c ticketId userName userZone)
    (hgroup : group ∈ c.groups) (hroom : Room f) (hs : Table f s) :
    ∃ status s', cmlCheckUserInGroup db userName userZone group s = .ok status s' ∧ Table f s' ∧
      (status = 0 ↔ c.IsMember group) := by
  obtain ⟨k, hk⟩ := h.userIds
  cases hids : c.userIds with
  | nil =>
    obtain ⟨s₁, hrow, hs₁⟩ := oneRow_nil hroom hs k [MAX_NAME_LEN]
    refine ⟨CAT_INVALID_USER, s₁, ?_, hs₁, iff_of_false (by decide) ?_⟩
    · rw [cmlCheckUserInGroup, hk, hids, bind_run (stringValue_run hrow)]
      rfl
    · rintro ⟨id, hid, -⟩
      rw [hids] at hid
      cases hid
  | cons id ids =>
    have hid : id ∈ c.userIds := hids ▸ List.mem_cons_self
    obtain ⟨s₁, hrow, hs₁⟩ := @oneRow_cons G f s ids id _ hroom hs k (h.idLength id hid)
    obtain ⟨k', hk'⟩ := h.groupIds id hid group hgroup
    have hmember : c.IsMember group ↔ c.groupIds id group ≠ [] := by
      rw [Stored.IsMember, hids]
      simp
    have hcall : cmlCheckUserInGroup db userName userZone group s =
        cmlGetIntegerValueFromSql (db userGroupSql [id, group]) s₁ := by
      rw [cmlCheckUserInGroup, hk, hids, bind_run (stringValue_run hrow)]
      rfl
    rw [hcall, hk', hmember]
    cases hrows : c.groupIds id group with
    | nil =>
      obtain ⟨s₂, hrow', hs₂⟩ := oneRow_nil hroom hs₁ k' [MAX_INTEGER_SIZE]
      refine ⟨CAT_NO_ROWS_FOUND, s₂, ?_, hs₂, iff_of_false (by decide) fun hne => hne rfl⟩
      rw [cmlGetIntegerValueFromSql, bind_run hrow']
      rfl
    | cons x xs =>
      obtain ⟨hne, hlen⟩ := h.groupIdLength id group x (hrows ▸ List.mem_cons_self)
      obtain ⟨s₂, hrow', hs₂⟩ := @oneRow_cons G f s₁ xs x _ hroom hs₁ k' hlen
      refine ⟨0, s₂, ?_, hs₂, iff_of_true rfl (List.cons_ne_nil _ _)⟩
      rw [cmlGetIntegerValueFromSql, bind_run hrow']
      cases x with
      | nil => exact absurd rfl hne
      | cons _ _ => rfl

/-! ## One list -/

/-- The list is empty, or one of its rows is for the client. -/
def Admits (rows : List Text) (p : Text → Prop) : Prop := rows = [] ∨ ∃ value ∈ rows, p value

/-- The comparison with a row decides `p`, and leaves the table with the cursor. -/
def Decides (f : Nat → Slot) (isMatch : Text → StmtM G Bool) (rows : List Text) (p : Text → Prop) : Prop :=
  ∀ value ∈ rows, ∀ n x s, f n = .empty → Holds f n x s → ∃ found s', isMatch value s = .ok found s' ∧ Holds f n x s' ∧
    (found = true ↔ p value)

variable {isMatch : Text → StmtM G Bool} {p : Text → Prop}

/-- The loop ends, with the cursor freed, and knows whether there was a match. -/
theorem rowLoop_spec {value : Text} {fuel : Nat} {ok : Bool}
    (hdecides : Decides f isMatch (value :: rows) p) (hn : n < MAX_NUM_OF_CONCURRENT_STMTS) (hempty : f n = .empty)
    (hs : Holds f n (cursor value rows k) s) (hfuel : rows.length + 1 < fuel) :
    ∃ ok' s', rowLoop isMatch n fuel 0 ok s = .ok (.ok ok') s' ∧ Table f s' ∧
      (ok' = true ↔ ok = true ∨ ∃ v ∈ value :: rows, p v) := by
  induction rows generalizing value fuel ok s with
  | nil =>
    obtain ⟨fuel, rfl⟩ : ∃ m, fuel = m + 2 := ⟨fuel - 2, by rw [List.length_nil] at hfuel; omega⟩
    obtain ⟨found, s₁, hmatch, hs₁, hfound⟩ := hdecides value List.mem_cons_self n _ s hempty hs
    obtain ⟨s₂, hfetch, hs₂⟩ := fetch_end hn hempty hs₁
    refine ⟨found || ok, s₂, ?_, hs₂, ?_⟩
    · rw [rowLoop, if_neg (by decide), bind_run (stmtAt_run hn hs.slot)]
      simp only
      rw [bind_run hmatch, cmlGetNextRowFromStatement, bind_run hfetch, if_neg (by decide), rowLoop, if_pos rfl]
      rfl
    · rw [Bool.or_eq_true, hfound, or_comm]
      simp
  | cons next rows ih =>
    obtain ⟨fuel, rfl⟩ : ∃ m, fuel = m + 1 := ⟨fuel - 1, by omega⟩
    obtain ⟨found, s₁, hmatch, hs₁, hfound⟩ := hdecides value List.mem_cons_self n _ s hempty hs
    obtain ⟨s₂, hfetch, hs₂⟩ := fetch_row hn hs₁
    rw [List.length_cons] at hfuel
    obtain ⟨ok', s₃, hloop, hs₃, hok⟩ := @ih s₂ next fuel (found || ok)
      (fun v hv => hdecides v (List.mem_cons_of_mem _ hv)) hs₂ (by omega)
    refine ⟨ok', s₃, ?_, hs₃, ?_⟩
    · rw [rowLoop, if_neg (by decide), bind_run (stmtAt_run hn hs.slot)]
      simp only
      rw [bind_run hmatch, cmlGetNextRowFromStatement, bind_run hfetch, if_neg (by decide)]
      exact hloop
    · rw [hok, Bool.or_eq_true, hfound, List.exists_mem_cons_iff (a := value), or_assoc, or_left_comm]

theorem checkRows_spec {excluded : Int} (hroom : Room f) (hs : Table f s) (hdecides : Decides f isMatch rows p) :
    ∃ status s', checkRows (resultOf rows k) isMatch excluded s = .ok status s' ∧ Table f s' ∧
      (Admits rows p → status = 0) ∧ (¬ Admits rows p → status = excluded) := by
  obtain ⟨n, s₁, hn, hempty, hexec, hs₁⟩ := exec_run hroom hs rows k
  cases rows with
  | nil =>
    obtain ⟨s₂, hfetch, hs₂⟩ := fetch_end hn hempty hs₁
    refine ⟨0, s₂, ?_, hs₂, fun _ => rfl, fun hnot => absurd (.inl rfl) hnot⟩
    have hfirst : cmlGetFirstRowFromSqlBV (resultOf [] k) s = .ok (CAT_NO_ROWS_FOUND, 0) s₂ := by
      rw [cmlGetFirstRowFromSqlBV, bind_run hexec]
      simp only
      rw [bind_run hfetch]
      rfl
    rw [checkRows, bind_run hfirst]
    rfl
  | cons value rows =>
    obtain ⟨s₂, hfetch, hs₂⟩ := fetch_row hn hs₁
    have hfirst : cmlGetFirstRowFromSqlBV (resultOf (value :: rows) k) s = .ok (0, n) s₂ := by
      rw [cmlGetFirstRowFromSqlBV, bind_run hexec]
      simp only
      rw [bind_run hfetch]
      rfl
    obtain ⟨ok, s₃, hloop, hs₃, hok⟩ := @rowLoop_spec G f n s₂ rows k isMatch p value
      (turns (resultOf (value :: rows) k)) false hdecides hn hempty hs₂ (by simp [turns, resultOf])
    have hadmits : Admits (value :: rows) p ↔ ok = true := by
      rw [hok, Admits]
      simp
    refine ⟨if ok then 0 else excluded, s₃, ?_, hs₃, fun h => if_pos (hadmits.mp h), fun h => if_neg (mt hadmits.mpr h)⟩
    rw [checkRows, bind_run hfirst]
    exact bind_run hloop

/-! ## The three lists -/

theorem sameName_iff {a b : Text} (h : a.length < NAME_LEN ∨ b.length < NAME_LEN) : sameName a b = true ↔ a = b := by
  rw [sameName, decide_eq_true_iff]
  refine ⟨fun heq => ?_, fun heq => heq ▸ rfl⟩
  have hlen := congrArg List.length heq
  rw [List.length_take, List.length_take] at hlen
  rwa [List.take_of_length_le (by omega), List.take_of_length_le (by omega)] at heq

theorem userAtZone_eq (h : (userName ++ '#' :: userZone).length < NAME_LEN) :
    userAtZone userName userZone = userName ++ '#' :: userZone := by
  rw [List.length_append, List.length_cons] at h
  rw [userAtZone, List.take_of_length_le (by omega), List.take_of_length_le (by omega)]

theorem decides_name {names : List Text} {p : Text → Prop} {test : Text → Bool}
    (h : ∀ value ∈ names, test value = true ↔ p value) :
    Decides (G := G) f (fun value => return test value) names p :=
  fun value hv _ _ s _ hs => ⟨test value, s, rfl, hs, h value hv⟩

theorem decides_member {ticketId : Text} (h : Answers db c ticketId userName userZone)
    (hroom : ∀ n x, f n = .empty → Room (Function.update f n x)) :
    Decides (G := G) f (fun group => return (← cmlCheckUserInGroup db userName userZone group) = 0)
    c.groups c.IsMember := by
  intro group hgroup n x s hempty hs
  obtain ⟨status, s', hrun, hs', hstatus⟩ := checkUserInGroup_spec h hgroup (hroom n x hempty) hs
  exact ⟨decide (status = 0), s', (bind_run hrun).trans rfl, hs', by rw [decide_eq_true_iff, hstatus]⟩

/-- Two slots leave one for the queries that are made while a cursor is open. -/
theorem room_update (h : ∃ n m, n ≠ m ∧ n < MAX_NUM_OF_CONCURRENT_STMTS ∧ m < MAX_NUM_OF_CONCURRENT_STMTS ∧
    f n = .empty ∧ f m = .empty) : Room f ∧ ∀ l x, Room (Function.update f l x) := by
  obtain ⟨n, m, hne, hn, hm, hfn, hfm⟩ := h
  refine ⟨⟨n, hn, hfn⟩, fun l x => ?_⟩
  by_cases hl : n = l
  · exact ⟨m, hm, (Function.update_of_ne (fun heq => hne (hl.trans heq.symm)) _ _).trans hfm⟩
  · exact ⟨n, hn, (Function.update_of_ne hl _ _).trans hfn⟩

/-- The restrictions of a ticket are met where all three lists admit the client; otherwise the error is that
of the first list that does not. The table of statements is left as it was. -/
theorem restrictions_conjunction {db : Database} {c : Stored} {ticketId userName userZone : Text} (ticketHost : Text)
    (h : Answers db c ticketId userName userZone) (hfits : (userName ++ '#' :: userZone).length < NAME_LEN)
    (hhost : ticketHost.length < NAME_LEN ∨ ∀ host ∈ c.hosts, host.length < NAME_LEN)
    (hslots : ∃ n m, n ≠ m ∧ n < MAX_NUM_OF_CONCURRENT_STMTS ∧ m < MAX_NUM_OF_CONCURRENT_STMTS ∧
      s.stmtPtr n = .empty ∧ s.stmtPtr m = .empty) :
    ∃ status s', cmlCheckTicketRestrictions db ticketId ticketHost userName userZone s = .ok status s' ∧
      (status = 0 ↔ Admits c.hosts (ticketHost = ·) ∧
        Admits c.users (fun user => userName = user ∨ userName ++ '#' :: userZone = user) ∧
        Admits c.groups c.IsMember) ∧
      (¬ Admits c.hosts (ticketHost = ·) → status = CAT_TICKET_HOST_EXCLUDED) ∧
      (Admits c.hosts (ticketHost = ·) →
        ¬ Admits c.users (fun user => userName = user ∨ userName ++ '#' :: userZone = user) →
        status = CAT_TICKET_USER_EXCLUDED) ∧
      (Admits c.hosts (ticketHost = ·) →
        Admits c.users (fun user => userName = user ∨ userName ++ '#' :: userZone = user) →
        ¬ Admits c.groups c.IsMember → status = CAT_TICKET_GROUP_EXCLUDED) ∧
      s'.stmtPtr = s.stmtPtr := by
  obtain ⟨hroom, hupdate⟩ := room_update hslots
  obtain ⟨kh, hh⟩ := h.hosts
  obtain ⟨ku, hu⟩ := h.users
  obtain ⟨kg, hg⟩ := h.groups
  have hname : userName.length < NAME_LEN := by
    rw [List.length_append] at hfits
    omega
  have hhosts : Decides (G := G) s.stmtPtr (fun host => return sameName ticketHost host) c.hosts (ticketHost = ·) :=
    decides_name fun host hmem => sameName_iff (hhost.imp_right fun hall => hall host hmem)
  have husers : Decides (G := G) s.stmtPtr
      (fun user => return sameName userName user || sameName (userName ++ '#' :: userZone) user) c.users
      (fun user => userName = user ∨ userName ++ '#' :: userZone = user) :=
    decides_name fun user _ => by rw [Bool.or_eq_true, sameName_iff (.inl hname), sameName_iff (.inl hfits)]
  have hgroups := decides_member (G := G) h fun n x _ => hupdate n x
  obtain ⟨status₁, s₁, hrun₁, hs₁, hadmits₁, hexcludes₁⟩ :=
    @checkRows_spec G _ s _ kh _ _ CAT_TICKET_HOST_EXCLUDED hroom rfl hhosts
  obtain ⟨status₂, s₂, hrun₂, hs₂, hadmits₂, hexcludes₂⟩ :=
    @checkRows_spec G _ s₁ _ ku _ _ CAT_TICKET_USER_EXCLUDED hroom hs₁ husers
  obtain ⟨status₃, s₃, hrun₃, hs₃, hadmits₃, hexcludes₃⟩ :=
    @checkRows_spec G _ s₂ _ kg _ _ CAT_TICKET_GROUP_EXCLUDED hroom hs₂ hgroups
  unfold cmlCheckTicketRestrictions
  rw [userAtZone_eq hfits, if_neg (Nat.not_le.mpr hfits), hh, hu, hg]
  by_cases hhostsAdmit : Admits c.hosts (ticketHost = ·)
  · rw [hadmits₁ hhostsAdmit] at hrun₁
    by_cases husersAdmit : Admits c.users (fun user => userName = user ∨ userName ++ '#' :: userZone = user)
    · rw [hadmits₂ husersAdmit] at hrun₂
      refine ⟨status₃, s₃, ?_, ⟨fun hzero => ⟨hhostsAdmit, husersAdmit, ?_⟩, fun hall => hadmits₃ hall.2.2⟩,
        fun hnot => absurd hhostsAdmit hnot, fun _ hnot => absurd husersAdmit hnot,
        fun _ _ hnot => hexcludes₃ hnot, hs₃⟩
      · beta_reduce
        rw [bind_run hrun₁, if_neg (by decide), bind_run hrun₂, if_neg (by decide)]
        exact hrun₃
      · by_contra hnot
        exact absurd (hexcludes₃ hnot) (by rw [hzero]; decide)
    · have hstatus := hexcludes₂ husersAdmit
      subst hstatus
      refine ⟨_, s₂, ?_, iff_of_false (by decide) fun hall => husersAdmit hall.2.1,
        fun hnot => absurd hhostsAdmit hnot, fun _ _ => rfl, fun _ hadmit => absurd hadmit husersAdmit, hs₂⟩
      beta_reduce
      rw [bind_run hrun₁, if_neg (by decide), bind_run hrun₂, if_pos (by decide)]
      rfl
  · have hstatus := hexcludes₁ hhostsAdmit
    subst hstatus
    refine ⟨_, s₁, ?_, iff_of_false (by decide) fun hall => hhostsAdmit hall.1, fun _ => rfl,
      fun hadmit => absurd hadmit hhostsAdmit, fun hadmit => absurd hadmit hhostsAdmit, hs₁⟩
    beta_reduce
    rw [bind_run hrun₁, if_pos (by decide)]
    rfl

/-- A ticket for one host, one user of the zone and one group, of which the user is a member. -/
def restricted : Stored := ⟨["h".toList], ["u#z".toList], ["g".toList], ["1".toList], fun _ _ => ["2".toList]⟩

/-- A database in which these rows are all there is. -/
def restrictedDb : Database := fun sql binds =>
  match binds with
  | [userName, _] => if userName = "u".toList then resultOf restricted.userIds 1 else resultOf ["2".toList] 1
  | _ =>
    if sql = hostSql then resultOf restricted.hosts 1
    else if sql = userSql then resultOf restricted.users 1
    else resultOf restricted.groups 1

theorem restrictedDb_answers : Answers restrictedDb restricted "7".toList "u".toList "z".toList where
  hosts := ⟨1, by decide⟩
  users := ⟨1, by decide⟩
  groups := ⟨1, by decide⟩
  userIds := ⟨1, by decide⟩
  groupIds := fun id hid _ _ => ⟨1, by
    obtain rfl := List.mem_singleton.mp hid
    rfl⟩
  idLength := by decide
  groupIdLength := fun _ _ x hx => by
    obtain rfl := List.mem_singleton.mp hx
    decide

theorem restrictions_conjunction_restricted :
    ∃ status s', cmlCheckTicketRestrictions restrictedDb "7".toList "h".toList "u".toList "z".toList
        (⟨(), fun _ => .empty, false, []⟩ : Server Unit) = .ok status s' ∧
      (status = 0 ↔ Admits restricted.hosts ("h".toList = ·) ∧
        Admits restricted.users (fun user => "u".toList = user ∨ "u".toList ++ '#' :: "z".toList = user) ∧
        Admits restricted.groups restricted.IsMember) ∧
      (¬ Admits restricted.hosts ("h".toList = ·) → status = CAT_TICKET_HOST_EXCLUDED) ∧
      (Admits restricted.hosts ("h".toList = ·) →
        ¬ Admits restricted.users (fun user => "u".toList = user ∨ "u".toList ++ '#' :: "z".toList = user) →
        status = CAT_TICKET_USER_EXCLUDED) ∧
      (Admits restricted.hosts ("h".toList = ·) →
        Admits restricted.users (fun user => "u".toList = user ∨ "u".toList ++ '#' :: "z".toList = user) →
        ¬ Admits restricted.groups restricted.IsMember → status = CAT_TICKET_GROUP_EXCLUDED) ∧
      s'.stmtPtr = fun _ => .empty :=
  restrictions_conjunction "h".toList restrictedDb_answers (by decide) (.inl (by decide))
    ⟨0, 1, by decide, by decide, by decide, rfl, rfl⟩

end TicketRestrictions
