-- SUMMARY: chlGenQuery: opening, continuing and closing a query, and filling a page.
import Irods.Api.RodsDef
import Irods.Icat.Statements
import Irods.Icat.GeneralQuery

/-!
# Queries with pages

`chlGenQuery` generates and executes a query when `continueInx` is 0; else it goes on with
the statement that `continueInx - 1` names, or closes it when no rows are asked for. The
first row has been fetched when a page of a new query begins. Where a query with an offset
finds nothing and the total is asked for, the function calls itself without the offset and
tells the inner call by a static flag to return after the count.

The build is the one for PostgreSQL. The generators of the text are a parameter.
-/

namespace Statements

open CString

def MINIMUM_COL_SIZE : Nat := 50

def RETURN_TOTAL_ROW_COUNT : BitVec 32 := 0x20#32
def QUOTA_QUERY : BitVec 32 := 0x80#32
def AUTO_CLOSE : BitVec 32 := 0x100#32

/-! ## Requests -/

/-- What a generator makes of a request. -/
inductive Generated (G : Type) where
  | sql (combinedSQL : Text) (gen : G)
  | refused (status : Int) (gen : G)
  | overrun

/-- `generateSQL` and `generateSpecialQuery` with the bind variables. -/
structure Generator (G : Type) where
  generate : GenQuery.GenQueryInp → G → Generated G
  /-- The texts that `bindTheVariables` binds. -/
  bindVars : G → List Text
  /-- `cllBindVarCount = 0`. -/
  reset : G → G

/-- One call of `checkCondInputAccess`: the one-row queries it makes, with the room for
their values, and what it returns. -/
structure AccessCheck where
  queries : List (ExecAnswer × List Nat)
  status : Int

/-- The input of a call with what is answered to it: the database by the text of the
statement and the values bound, and the access check for each row of the page. -/
structure Request where
  inp : GenQuery.GenQueryInp
  maxRows : Int
  continueInx : Int
  condInputLen : Nat
  database : Text → List Text → ExecAnswer
  access : Nat → AccessCheck

namespace Request

def returnTotalRowCount (q : Request) : Bool := q.inp.options &&& RETURN_TOTAL_ROW_COUNT ≠ 0

def autoClose (q : Request) : Bool := q.inp.options &&& AUTO_CLOSE ≠ 0

end Request

structure GenQueryOut where
  rowCnt : Nat
  attriCnt : Nat
  continueInx : Int
  totalRowCount : Int
  /-- The columns of `sqlResult` row by row, and the room for each value. -/
  rows : List (List Text)
  len : Nat
  deriving DecidableEq

/-- The result as `chlGenQuery` gets it. -/
def GenQueryOut.init : GenQueryOut := ⟨0, 0, 0, 0, [], 0⟩

/-! ## A page -/

/-- The room that the longest value of a row needs. -/
def colSize (row : List Text) : Nat :=
  max ((row.map List.length).foldl max 0 + 1) MINIMUM_COL_SIZE

/-- `malloc` of room for a column of `maxRows` values, in `int` arithmetic. -/
def mallocColumn (numOfCols maxColSize maxRows : Nat) : Option Nat :=
  let totalLen := int32 (int32 (numOfCols * maxColSize) * maxRows)
  if totalLen < 0 then none else some totalLen.toNat

/-- The result under construction, with the bytes allocated for a column. -/
structure Page where
  out : GenQueryOut
  totalLen : Nat

variable {G : Type}

/-- Room for the row that `rowCnt` counts last, moving the rows before it where the room
for a value grows. -/
def makeRoom (numOfCols maxRows : Nat) (row : List Text) (p : Page) : StmtM G (Option Page) := do
  let maxColSize := colSize row
  if p.out.rowCnt = 1 then
    return (mallocColumn numOfCols maxColSize maxRows).map fun totalLen =>
      ⟨{ p.out with len := maxColSize }, totalLen⟩
  else if maxColSize > p.out.len then
    let maxColSize := maxColSize + MINIMUM_COL_SIZE
    match mallocColumn numOfCols maxColSize maxRows with
    | none => return none
    | some totalLen =>
      -- the row that is not there yet is copied with the others
      if (p.out.rowCnt - 1) * p.out.len ≥ p.totalLen ∨
          (p.out.rowCnt - 1) * maxColSize + p.out.len > totalLen then throw .overrun
      return some ⟨{ p.out with len := maxColSize }, totalLen⟩
  else
    return some p

/-- Adds the current row of the statement to the page; `false` when memory is short. -/
def storeRow (n : Int) (maxRows : Nat) (p : Page) : StmtM G (Bool × Page) := do
  let st ← stmtAt n
  let out := { p.out with rowCnt := p.out.rowCnt + 1, attriCnt := st.numOfCols, continueInx := n + 1 }
  match ← makeRoom st.numOfCols maxRows st.resultValue ⟨out, p.totalLen⟩ with
  | none => return (false, ⟨out, p.totalLen⟩)
  | some p =>
    if p.out.rowCnt * p.out.len > p.totalLen then throw .overrun
    return (true, ⟨{ p.out with rows := p.out.rows ++ [st.resultValue] }, p.totalLen⟩)

def checkCondInputAccess (check : AccessCheck) : StmtM G Int := do
  check.queries.forM fun (answer, cValSize) => do
    let _ ← cmlGetOneRowFromSqlBV answer cValSize
  return check.status

/-- Comes to the next row: the status to return, if the call ends here. -/
def nextRow (q : Request) (n : Int) (p : Page) : StmtM G (Option Int × Page) := do
  let status ← cmlGetNextRowFromStatement n
  if status = CAT_NO_ROWS_FOUND then
    let _ ← cmlFreeStatement n
    return (some (if p.out.rowCnt = 0 then status else 0), ⟨{ p.out with continueInx := 0 }, p.totalLen⟩)
  if status < 0 then return (some status, p)
  if q.condInputLen > 0 then
    let status ← checkCondInputAccess (q.access p.out.rowCnt)
    if status ≠ 0 then return (some status, p)
  return (none, p)

/-- The loop over the rows of a page, with `left` rows still asked for. -/
def pageLoop (q : Request) (n : Int) : Nat → Bool → Page → StmtM G (Option Int × Page)
  | 0, _, p => pure (none, p)
  | left + 1, needToGetNextRow, p => do
    let (ended, p) ← if needToGetNextRow then nextRow q n p else pure (none, p)
    match ended with
    | some status => return (some status, p)
    | none =>
      let (stored, p) ← storeRow n q.maxRows.toNat p
      if stored then pageLoop q n left true p else return (some SYS_MALLOC_ERR, p)

/-- The part of the function after the statement is known. -/
def page (q : Request) (n : Int) (needToGetNextRow : Bool) (out : GenQueryOut) :
    StmtM G (Int × GenQueryOut) := do
  match ← pageLoop q n q.maxRows.toNat needToGetNextRow ⟨out, 0⟩ with
  | (some status, p) => return (status, p.out)
  | (none, p) =>
    if q.autoClose then
      let status ← cmlFreeStatement n
      return (status, { p.out with continueInx := -1 })
    else
      return (0, { p.out with continueInx := n + 1 })

/-! ## Opening -/

/-- Binds all pending bind variables and resets their number. -/
def cllExecSqlWithResult (gen : Generator G) (database : Text → List Text → ExecAnswer) (sql : Text) :
    StmtM G (Except Int Nat) := do
  execWithResult gen.reset (database sql (gen.bindVars (← get).gen))

/-- The status with the statement. -/
def cmlGetFirstRowFromSql (gen : Generator G) (database : Text → List Text → ExecAnswer) (sql : Text) :
    StmtM G (Int × Nat) := do
  match ← cllExecSqlWithResult gen database sql with
  | .error i => return (cmlStatus i, 0)
  | .ok n =>
    let status ← getRowOrFree n
    return (status, if status ≠ 0 then 0 else n)

/-- The total of a query that has rows: the count and whether the inner call ends here. -/
def countRows (q : Request) (n : Nat) (out : GenQueryOut) : StmtM G (Bool × GenQueryOut) := do
  if q.returnTotalRowCount = false then return (false, out)
  let i ← cllGetRowCount 0 n
  let out := if i ≥ 0 then { out with totalRowCount := i + q.inp.rowOffset } else out
  if (← get).recursiveCall then
    modify fun s => { s with recursiveCall := false }
    return (true, out)
  return (false, out)

/-- A new query. `again` is the function itself, called for the fallback. -/
def openQuery (gen : Generator G) (again : Request → StmtM G (Int × GenQueryOut)) (q : Request) :
    StmtM G (Int × GenQueryOut) := do
  match gen.generate q.inp (← get).gen with
  | .overrun => throw .overrun
  | .refused status g =>
    modify fun s => { s with gen := g }
    return (status, .init)
  | .sql combinedSQL g =>
    modify fun s => { s with gen := g }
    let (status, n) ← cmlGetFirstRowFromSql gen q.database combinedSQL
    if status < 0 then
      if status = CAT_NO_ROWS_FOUND ∧ q.returnTotalRowCount ∧ q.inp.rowOffset > 0 then
        modify fun s => { s with recursiveCall := true }
        let (_, out) ← again { q with inp := { q.inp with rowOffset := 0 } }
        return (status, out)
      return (status, .init)
    let (ended, out) ← countRows q n .init
    if ended then return (status, out)
    if q.condInputLen > 0 then
      let status ← checkCondInputAccess (q.access 0)
      if status ≠ 0 then return (status, out)
    page q n false { out with continueInx := n + 1 }

/-- A call with `continueInx`. -/
def continueQuery (q : Request) : StmtM G (Int × GenQueryOut) := do
  let n := q.continueInx - 1
  if q.maxRows ≤ 0 then
    let status ← cmlFreeStatement n
    return (status, .init)
  page q n true .init

/-- The inner call has no offset, so that it makes no call of its own. -/
def chlGenQuery (gen : Generator G) (q : Request) : StmtM G (Int × GenQueryOut) :=
  if q.continueInx = 0 then
    openQuery gen (openQuery gen fun _ => pure (0, .init)) q
  else
    continueQuery q

end Statements
