-- SUMMARY: generateSQL: columns, conditions, links, access check and the texts.
import Irods.Api.RodsDef
import Irods.Icat.Conditions

/-!
# General queries

`generateSQL` turns a `genQueryInp` into the text of an SQL query. It marks the tables
of the requested columns, has `tScan` connect them, and puts the parts together. All
texts have room for `MAX_SQL_SIZE_GQ` characters, and an append that does not fit leaves
the text as it is. The build is the one for PostgreSQL, with `LIMIT_AUDIT_ACCESS`.
-/

namespace GenQuery

open CString

def CAT_UNKNOWN_TABLE : Int := -823000
def CAT_FAILED_TO_LINK_TABLES : Int := -825000

def LOCAL_PRIV_USER_AUTH : Int := 5
def anonymousUser : Text := "anonymous".toList

def COL_DATA_NAME : Int := 403
def COL_DATA_REPL_NUM : Int := 404
def COL_COLL_NAME : Int := 501
def COL_META_DATA_ATTR_NAME : Int := 600
def COL_META_COLL_ATTR_NAME : Int := 610
def COL_META_RESC_ATTR_NAME : Int := 630
def COL_META_USER_ATTR_NAME : Int := 640
def COL_META_RESC_GROUP_ATTR_NAME : Int := 650
def COL_AUDIT_RANGE_START : Int := 1200
def COL_AUDIT_RANGE_END : Int := 1299

def NO_DISTINCT : BitVec 32 := 0x40#32
def UPPER_CASE_WHERE : BitVec 32 := 0x200#32
def ORDER_BY : BitVec 32 := 0x400#32
def ORDER_BY_DESC : BitVec 32 := 0x800#32

structure GenQueryInp where
  selectInp : List (Int × BitVec 32)
  sqlCondInp : List (Int × Text)
  options : BitVec 32
  rowOffset : Int

/-- What `chlGenQueryAccessControlSetup` has set; the names it was given are in their
buffers. -/
structure Session where
  accessControlPriv : Int
  accessControlControlFlag : Int

structure Query where
  flag : Nat → Int
  nToFind : Int
  selectSQL : Text
  selectSQLInitFlag : Bool
  doUpperCase : Bool
  fromSQL : Text
  fromCount : Nat
  groupBySQL : Text
  mightNeedGroupBy : Bool
  orderBySQL : Text
  cond : Cond

abbrev QueryM := EStateM Stop Query

def onCond {α : Type} (m : CondM α) : QueryM α := fun q =>
  match m q.cond with
  | .ok a c => .ok a { q with cond := c }
  | .error e c => .error e { q with cond := c }

namespace Query

def catSelect (src : Text) : QueryM Unit :=
  modify fun q => { q with selectSQL := rstrcat q.selectSQL src maxSQL }

def catFrom (src : Text) : QueryM Unit :=
  modify fun q => { q with fromSQL := rstrcat q.fromSQL src maxSQL }

def catGroupBy (src : Text) : QueryM Unit :=
  modify fun q => { q with groupBySQL := rstrcat q.groupBySQL src maxSQL }

def catOrderBy (src : Text) : QueryM Unit :=
  modify fun q => { q with orderBySQL := rstrcat q.orderBySQL src maxSQL }

/-! ## setTable -/

/-- The last column with the number. -/
def findColumn (S : Schema) (column : Int) : Option Column :=
  S.columns.reverse.find? (fun c => c.defineValue = column)

def findTable (S : Schema) (tableName : Text) : Option Nat :=
  S.tables.findIdx? (fun t => t.tableName = tableName)

/-- The function a `SELECT_*` modifier applies to the column. -/
def selectFunction : Nat → Option Text
  | 2 => some "min(".toList
  | 3 => some "max(".toList
  | 4 => some "sum(".toList
  | 5 => some "avg(".toList
  | 6 => some "count(".toList
  | _ => none

/-- Marks a table as requested. -/
def requestTable (i : Nat) : QueryM Unit :=
  modify fun q =>
    { q with
      nToFind := if q.flag i = 0 then q.nToFind + 1 else q.nToFind
      flag := Function.update q.flag i 1 }

/-- The select field, and the group-by field for it. -/
def addSelectField (table : Table) (column : Column) (selectOption : Nat) : QueryM Unit := do
  if (← get).selectSQLInitFlag = false then catSelect ",".toList
  modify fun q => { q with selectSQLInitFlag := false }
  if let some function := selectFunction selectOption then catSelect function
  catSelect table.tableName
  catSelect ".".toList
  catSelect column.columnName
  catSelect " ".toList
  if (selectFunction selectOption).isSome then
    catSelect ") ".toList
    modify fun q => { q with mightNeedGroupBy := true }
  else
    if (← get).groupBySQL.length > 10 then catGroupBy ",".toList
    catGroupBy table.tableName
    catGroupBy ".".toList
    catGroupBy column.columnName
    catGroupBy " ".toList

/-- Puts a selected table in the FROM list unless it is there. -/
def addSelectFrom (table : Table) : QueryM Unit := do
  let q ← get
  if tablePresent table.tableAlias q.fromSQL = false then
    catFrom (if q.fromCount ≠ 0 then ", ".toList else " ".toList)
    modify fun q => { q with fromCount := q.fromCount + 1 }
    catFrom table.tableAlias
    catFrom " ".toList

def addWhereField (table : Table) (column : Column) (castOption : Bool) : QueryM Unit := do
  let doUpperCase := (← get).doUpperCase
  onCond do
    if (← get).whereSQL.length > 6 then Cond.catWhere " AND ".toList
    if castOption then Cond.catWhere "cast (".toList
    if doUpperCase then Cond.catWhere "upper (".toList
    Cond.catWhere table.tableName
    Cond.catWhere ".".toList
    Cond.catWhere column.columnName
    if doUpperCase then Cond.catWhere " )".toList
    if castOption then Cond.catWhere " as decimal)".toList

/-- The column and the index of the table of a column number. -/
def lookup (S : Schema) (column : Int) : Option (Column × Nat) :=
  match findColumn S column with
  | none => none
  | some c => (findTable S c.tableName).map (fun i => (c, i))

/-- With `sel`, for a column to select; else for the column of a condition. -/
def setTable (S : Schema) (column : Int) (sel : Bool) (selectOption : Nat) (castOption : Bool) :
    QueryM Nat := do
  match lookup S column with
  | none => throw (.fail CAT_UNKNOWN_TABLE)
  | some (c, i) =>
    requestTable i
    if sel then
      addSelectField (S.table i) c selectOption
      addSelectFrom (S.table i)
    else addWhereField (S.table i) c castOption
    pure i

/-! ## The columns of the request -/

/-- Only the local administrator may ask for audit columns. -/
def checkAudit (session : Session) (column : Int) : QueryM Unit :=
  if column ≥ COL_AUDIT_RANGE_START ∧ column ≤ COL_AUDIT_RANGE_END ∧
      session.accessControlPriv ≠ LOCAL_PRIV_USER_AUTH then
    throw (.fail CAT_NO_ACCESS_PERMISSION)
  else pure ()

/-- One selected column; the table to start the walk from comes back. -/
def selectColumn (S : Schema) (session : Session) (startingTable : Nat) (inx : Int)
    (value : BitVec 32) : QueryM Nat := do
  let table ← setTable S inx true (value &&& 0xf#32).toNat false
  checkAudit session inx
  pure (if (S.table table).cycler < 1 ∨ startingTable = 0 then table else startingTable)

def selectColumns (S : Schema) (session : Session) : Nat → List (Int × BitVec 32) → QueryM Nat
  | startingTable, [] => pure startingTable
  | startingTable, (inx, value) :: cols => do
    let startingTable ← selectColumn S session startingTable inx value
    selectColumns S session startingTable cols

/-- Is the column to be cast to a number? The `n` that says so is blanked out. -/
def castOption (value : Text) : Bool × Text :=
  let blanks := value.takeWhile (· = ' ')
  match value.dropWhile (· = ' ') with
  | 'n' :: c :: rest =>
    if c = '<' ∨ c = '>' ∨ c = '=' then (true, blanks ++ ' ' :: c :: rest) else (false, value)
  | _ => (false, value)

/-- One condition; the table to start the walk from comes back. -/
def addCondition (S : Schema) (session : Session) (startingTable : Nat) (inx : Int)
    (value : Text) : QueryM Nat := do
  let prevWhereLen := (← get).cond.whereSQL.length
  let (cast, condition) := castOption value
  let table ← setTable S inx false 0 cast
  onCond do
    if ← Cond.compoundConditionSpecified condition then
      Cond.handleCompoundCondition condition prevWhereLen
    else Cond.insertWhere condition
  checkAudit session inx
  pure (if (S.table table).cycler < 1 then table else startingTable)

def addConditions (S : Schema) (session : Session) : Nat → List (Int × Text) → QueryM Nat
  | startingTable, [] => pure startingTable
  | startingTable, (inx, value) :: conds => do
    let startingTable ← addCondition S session startingTable inx value
    addConditions S session startingTable conds

/-! ## The walk -/

def linkTables (S : Schema) (startingTable : Nat) : QueryM Unit := do
  let q ← get
  match tScan S S.fuel startingTable none ⟨q.flag, q.nToFind, q.fromSQL, q.cond.whereSQL⟩ with
  | none => throw .overrun
  | some (keepVal, s) =>
    set { q with
      flag := s.flag
      nToFind := s.nToFind
      fromSQL := s.fromSQL
      cond := { q.cond with whereSQL := s.whereSQL } }
    if keepVal = false ∨ s.nToFind ≠ 0 then throw (.fail CAT_FAILED_TO_LINK_TABLES)

/-! ## Several conditions on attribute names -/

/-- The number as `%2.2d` prints it. -/
def twoDigits (i : Nat) : Text :=
  if i < 10 then '0' :: Nat.toDigits 10 i else Nat.toDigits 10 i

/-- Puts `n02`, `n03`, ... in place of `ain` in the occurrences of `name`. -/
def renameOccurrences (name : Text) : List Nat → Text → Text
  | [], whereSQL => whereSQL
  | i :: is, whereSQL =>
    match strstr name whereSQL with
    | none => renameOccurrences name is whereSQL
    | some item =>
      renameOccurrences name is
        (whereSQL.take (item + 13) ++ ('n' :: twoDigits i).take 3 ++ whereSQL.drop (item + 16))

/-- Every occurrence of `name` but the first gets a name of its own. -/
def renameAfterFirst (name : Text) (nConditions : Nat) (whereSQL : Text) : Text :=
  match strstr name whereSQL with
  | none => renameOccurrences name (List.range' 2 (nConditions - 1)) whereSQL
  | some firstItem =>
    (renameOccurrences name (List.range' 2 (nConditions - 1)) (whereSQL.set firstItem 'x')).set
      firstItem 'r'

/-- `handleMultiDataAVUConditions` and `handleMultiCollAVUConditions`: the metadata
tables are `metaMain` and `metamap`, with a number behind, and `object` is the column of
the object that has the metadata. -/
def handleMultiAVUConditions (metaMain metaMn metamap object : Text) (nConditions : Nat) :
    QueryM Unit := do
  let numbers := List.range' 2 (nConditions - 1)
  modify fun q =>
    let whereSQL :=
      renameAfterFirst (metaMain ++ ".meta_attr_name".toList) nConditions q.cond.whereSQL
    let whereSQL := renameAfterFirst (metaMain ++ ".meta_attr_value".toList) nConditions whereSQL
    { q with cond := { q.cond with whereSQL := whereSQL } }
  numbers.forM fun i =>
    catFrom (", R_OBJT_METAMAP ".toList ++ metamap ++ Nat.toDigits 10 i ++
      ", R_META_MAIN ".toList ++ metaMn ++ twoDigits i ++ " ".toList)
  numbers.forM fun i => onCond do
    Cond.catWhere (" AND ".toList ++ metamap ++ Nat.toDigits 10 i ++ ".meta_id = ".toList ++
      metaMn ++ twoDigits i ++ ".meta_id".toList)
    Cond.catWhere (" AND ".toList ++ object ++ " = ".toList ++ metamap ++ Nat.toDigits 10 i ++
      ".object_id ".toList)

def handleMultiDataAVUConditions (nConditions : Nat) : QueryM Unit :=
  handleMultiAVUConditions "r_data_meta_main".toList "r_data_meta_mn".toList
    "r_data_metamap".toList "R_DATA_MAIN.data_id".toList nConditions

def handleMultiCollAVUConditions (nConditions : Nat) : QueryM Unit :=
  handleMultiAVUConditions "r_coll_meta_main".toList "r_coll_meta_mn".toList
    "r_coll_metamap".toList "R_COLL_MAIN.coll_id".toList nConditions

/-- How many conditions the request has on a column. -/
def countConditions (inp : GenQueryInp) (column : Int) : Nat :=
  inp.sqlCondInp.countP (fun c => c.1 = column)

def handleMultiConditions (inp : GenQueryInp) : QueryM Unit := do
  if countConditions inp COL_META_DATA_ATTR_NAME > 1 then
    handleMultiDataAVUConditions (countConditions inp COL_META_DATA_ATTR_NAME)
  if countConditions inp COL_META_COLL_ATTR_NAME > 1 then
    handleMultiCollAVUConditions (countConditions inp COL_META_COLL_ATTR_NAME)
  if countConditions inp COL_META_USER_ATTR_NAME > 1 ∨
      countConditions inp COL_META_RESC_ATTR_NAME > 1 ∨
      countConditions inp COL_META_RESC_GROUP_ATTR_NAME > 1 then
    throw (.fail CAT_INVALID_ARGUMENT)

/-! ## The access check -/

/-- Pushes without looking at the limit. -/
def pushUnchecked (p : Buffer × Nat) : CondM Unit :=
  modify fun q => { q with cllBindVars := q.cllBindVars ++ [p] }

def userAndZone : CondM Unit := do
  pushUnchecked (.accessControlUserName, 0)
  pushUnchecked (.accessControlZone, 0)

/-- Starts a further restriction. -/
def catAnd : CondM Unit := do
  if (← get).whereSQL.length > 6 then Cond.catWhere " AND ".toList

def ticketOwnerSQL : Text :=
  ("R_TICKET_MAIN.user_id in (select user_id from R_USER_MAIN UM " ++
    "where UM.user_name = ? AND UM.zone_name=?)").toList

def dataAccessSQL : Text :=
  ("R_DATA_MAIN.data_id in (select object_id from R_OBJT_ACCESS OA, R_USER_GROUP UG, " ++
    "R_USER_MAIN UM, R_TOKN_MAIN TM where UM.user_name=? and UM.zone_name=? and " ++
    "UM.user_type_name!='rodsgroup' and UM.user_id = UG.user_id and " ++
    "UG.group_user_id = OA.user_id and OA.object_id = R_DATA_MAIN.data_id and " ++
    "OA.access_type_id >= TM.token_id and  TM.token_namespace ='access_type' and " ++
    "TM.token_name = 'read object')").toList

def dataTicketSQL : Text :=
  ("( R_DATA_MAIN.data_id in (select object_id from R_TICKET_MAIN TICK where " ++
    "TICK.ticket_string=?) OR R_COLL_MAIN.coll_id in (select object_id from R_TICKET_MAIN TICK " ++
    "where TICK.ticket_string=?))").toList

def collAccessSQL : Text :=
  ("R_COLL_MAIN.coll_id in (select object_id from R_OBJT_ACCESS OA, R_USER_GROUP UG, " ++
    "R_USER_MAIN UM, R_TOKN_MAIN TM where UM.user_name=? and UM.zone_name=? and " ++
    "UM.user_type_name!='rodsgroup' and UM.user_id = UG.user_id and " ++
    "OA.object_id = R_COLL_MAIN.coll_id and UG.group_user_id = OA.user_id and " ++
    "OA.access_type_id >= TM.token_id and  TM.token_namespace ='access_type' and " ++
    "TM.token_name = 'read object')").toList

def collTicketSQL : Text :=
  ("R_COLL_MAIN.coll_id in (select object_id from R_TICKET_MAIN TICK " ++
    "where TICK.ticket_string=?)").toList

/-- The restriction for data objects; `true` when the one for tickets was added. -/
def appendDataCheck (selectSQL : Text) : CondM Bool := do
  if occurs "R_DATA_MAIN".toList selectSQL then
    catAnd
    if (← get).mem .sessionTicket 0 = '\x00' then
      userAndZone
      Cond.catWhere dataAccessSQL
      pure false
    else
      pushUnchecked (.sessionTicket, 0)
      pushUnchecked (.sessionTicket, 0)
      Cond.catWhere dataTicketSQL
      pure true
  else pure false

/-- The restriction for collections. -/
def appendCollCheck (selectSQL : Text) (addedTicketCheck : Bool) : CondM Unit := do
  if occurs "R_COLL_MAIN".toList selectSQL then
    if (← get).mem .sessionTicket 0 = '\x00' then
      catAnd
      userAndZone
      Cond.catWhere collAccessSQL
    else if addedTicketCheck = false then
      catAnd
      pushUnchecked (.sessionTicket, 0)
      Cond.catWhere collTicketSQL

/-- Are data objects and collections restricted to those the user may see? -/
def doCheck (session : Session) (c : Cond) : Bool :=
  session.accessControlControlFlag > 1 || c.deref (.accessControlUserName, 0) = anonymousUser

/-- The status that comes back is not looked at. -/
def genqAppendAccessCheck (session : Session) (selectSQL : Text) : CondM Int := do
  if session.accessControlPriv = LOCAL_PRIV_USER_AUTH then return 0
  if (← get).cllBindVars.length + 6 ≥ maxBindVars then return CAT_BIND_VARIABLE_LIMIT_EXCEEDED
  if occurs "ticket_string".toList selectSQL ∧ occurs "R_TICKET_MAIN".toList selectSQL then
    catAnd
    userAndZone
    Cond.catWhere ticketOwnerSQL
  if doCheck session (← get) = false then return 0
  let addedTicketCheck ← appendDataCheck selectSQL
  appendCollCheck selectSQL addedTicketCheck
  return 0

/-! ## Order -/

def addOrderBy (column : Column) : QueryM Unit := do
  if (← get).orderBySQL.length > 10 then catOrderBy ", ".toList
  catOrderBy column.tableName
  catOrderBy ".".toList
  catOrderBy column.columnName

/-- The first column with the number. -/
def firstColumn (S : Schema) (column : Int) : Option Column :=
  S.columns.find? (fun c => c.defineValue = column)

def setOrderByUser (S : Schema) (inp : GenQueryInp) : QueryM Unit :=
  inp.selectInp.forM fun (inx, value) => do
    if value &&& ORDER_BY ≠ 0 ∨ value &&& ORDER_BY_DESC ≠ 0 then
      match firstColumn S inx with
      | none => pure ()
      | some c =>
        addOrderBy c
        if value &&& ORDER_BY_DESC ≠ 0 then catOrderBy " DESC ".toList

def setOrderBy (S : Schema) (inp : GenQueryInp) (column : Int) : QueryM Unit :=
  inp.selectInp.forM fun (inx, value) => do
    if inx = column ∧ (selectFunction (value &&& 0xf#32).toNat).isNone then
      match firstColumn S column with
      | none => pure ()
      | some c => addOrderBy c

/-! ## generateSQL -/

/-- The texts and counters at the start; the buffers, the names of the user and the bind
variables stay. -/
def start (inp : GenQueryInp) (q : Query) : Query :=
  { q with
    nToFind := 0
    flag := fun _ => 0
    selectSQL := if inp.options &&& NO_DISTINCT ≠ 0 then "select ".toList
      else "select distinct ".toList
    selectSQLInitFlag := true
    doUpperCase := decide (inp.options &&& UPPER_CASE_WHERE ≠ 0)
    fromSQL := "from ".toList
    fromCount := 0
    groupBySQL := "group by ".toList
    mightNeedGroupBy := false
    cond := { q.cond with
      whereSQL := "where ".toList, bindIx := 0, inStrIx := 0, conditionsForBindIx := 0 } }

/-- Marks the requested tables and writes the select fields and the conditions. -/
def requestColumns (S : Schema) (session : Session) (inp : GenQueryInp) : QueryM Nat := do
  let startingTable ← selectColumns S session 0 inp.selectInp
  addConditions S session startingTable inp.sqlCondInp

/-- The row offset goes in as a bind variable. -/
def addOffset (inp : GenQueryInp) (combinedSQL : Text) : QueryM Text :=
  if inp.rowOffset > 0 then do
    onCond do
      Cond.pokes .offsetStr 0 (Nat.toDigits 10 inp.rowOffset.toNat ++ ['\x00'])
      pushUnchecked (.offsetStr, 0)
    pure (rstrcat combinedSQL " offset ?".toList maxSQL)
  else pure combinedSQL

/-- Puts the texts together. -/
def combine (S : Schema) (session : Session) (inp : GenQueryInp) : QueryM Text := do
  let q ← get
  let useGroupBy := q.mightNeedGroupBy && decide (q.groupBySQL.length > 10)
  let sql := rstrcat [] q.selectSQL maxSQL
  let sql := rstrcat sql " ".toList maxSQL
  let sql := rstrcat sql q.fromSQL maxSQL
  let _status ← onCond (genqAppendAccessCheck session q.selectSQL)
  let whereSQL := (← get).cond.whereSQL
  let sql := if whereSQL.length > 6 then rstrcat (rstrcat sql " ".toList maxSQL) whereSQL maxSQL
    else sql
  let sql := if useGroupBy then rstrcat (rstrcat sql " ".toList maxSQL) q.groupBySQL maxSQL
    else sql
  modify fun q => { q with orderBySQL := " order by ".toList }
  setOrderByUser S inp
  setOrderBy S inp COL_COLL_NAME
  setOrderBy S inp COL_DATA_NAME
  setOrderBy S inp COL_DATA_REPL_NUM
  let orderBySQL := (← get).orderBySQL
  let sql := if orderBySQL.length > 10 then rstrcat sql orderBySQL maxSQL else sql
  addOffset inp sql

def generateSQL (S : Schema) (session : Session) (inp : GenQueryInp) : QueryM Text := do
  modify (start inp)
  let startingTable ← requestColumns S session inp
  linkTables S startingTable
  handleMultiConditions inp
  combine S session inp

end Query

end GenQuery
