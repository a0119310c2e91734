-- SUMMARY: The statement slots of a catalog session.
import Irods.Api.RodsDef
import Irods.Base.CString
import Irods.Base.CInt
import Irods.Base.EState

/-!
# Statements

A session has a table of slots for the statements whose rows are still to be read. The
execution takes the first free slot before it binds and executes; the slot is freed by
`cllFreeStatement`. A statement that failed half-way stays in its slot, with members that
nobody has set.

What the database answers to a statement is a parameter. A use of an index outside the
table, of an empty slot or of members that were not set stops the model with a `Misuse`.
Allocations of statements and columns do not fail. The columns of a statement are taken to be
at most the 30 that `resultValue` has room for, and the 50 of a result.
-/

namespace Statements

open CString

def CAT_ENV_ERR : Int := -802000
def CAT_SQL_ERR : Int := -806000
def CAT_GET_ROW_ERR : Int := -807000

def MAX_NUM_OF_CONCURRENT_STMTS : Nat := 50

/-! ## The table -/

/-- What `SQLFetch` brings: a row, or a failure. After the last one there is no data. -/
inductive Fetch where
  | row (values : List Text)
  | failed
  deriving DecidableEq

/-- A statement with its columns described. -/
structure Stmt where
  numOfCols : Nat
  resultValue : List Text
  rest : List Fetch
  /-- What `SQLRowCount` says. -/
  rowCount : Int
  deriving DecidableEq

inductive Slot where
  | empty
  /-- Taken by a statement that failed before its columns were described. -/
  | broken
  | stmt (st : Stmt)
  deriving DecidableEq

inductive Misuse where
  | badIndex
  | emptySlot
  | notSet
  | overrun
  deriving DecidableEq

/-- A session. `gen` is the state of the query generators with the bind variables, and
`freed` the slots whose statement was given to `SQLFreeStmt`, in order. -/
structure Server (G : Type) where
  gen : G
  stmtPtr : Nat → Slot
  recursiveCall : Bool
  freed : List Nat

abbrev StmtM (G : Type) := EStateM Misuse (Server G)

variable {G : Type}

def Server.setSlot (s : Server G) (n : Nat) (x : Slot) : Server G :=
  { s with stmtPtr := Function.update s.stmtPtr n x }

/-- The first slot that is empty. -/
def Server.freeSlot (s : Server G) : Option Nat :=
  (List.range MAX_NUM_OF_CONCURRENT_STMTS).find? fun n => s.stmtPtr n = .empty

/-- `icss->stmtPtr[n]`. -/
def slotAt (n : Int) : StmtM G Slot := do
  if 0 ≤ n ∧ n < MAX_NUM_OF_CONCURRENT_STMTS then return (← get).stmtPtr n.toNat
  else throw .badIndex

/-- The members of the statement in a slot. -/
def stmtAt (n : Int) : StmtM G Stmt := do
  match ← slotAt n with
  | .empty => throw .emptySlot
  | .broken => throw .notSet
  | .stmt st => return st

/-! ## The low level -/

/-- The calls of an execution that can fail. -/
inductive Failure where
  | sqlAllocStmt
  | bindTheVariables
  | sqlExecDirect
  | sqlNumResultCols
  | sqlDescribeCol
  | sqlBindCol
  deriving DecidableEq

def Failure.status : Failure → Int
  | .sqlAllocStmt => -1
  | .bindTheVariables => -1
  | .sqlExecDirect => -1
  | .sqlNumResultCols => -2
  | .sqlDescribeCol => -3
  | .sqlBindCol => -4

/-- What becomes of a statement: a call fails, or there is a result table. -/
inductive ExecAnswer where
  | failure (f : Failure)
  | result (numOfCols : Nat) (rows : List Fetch) (rowCount : Int)
  deriving DecidableEq

/-- `cllExecSqlWithResult` and `cllExecSqlWithResultBV`, which differ in how they bind. The
slot comes back, or the status. -/
def execWithResult (bind : G → G) (answer : ExecAnswer) : StmtM G (Except Int Nat) := do
  if answer = .failure .sqlAllocStmt then return .error Failure.sqlAllocStmt.status
  match (← get).freeSlot with
  | none => return .error (-2)
  | some n =>
    modify fun s => { s.setSlot n .broken with gen := bind s.gen }
    match answer with
    | .failure f => return .error f.status
    | .result numOfCols rows rowCount =>
      modify fun s => s.setSlot n (.stmt ⟨numOfCols, List.replicate numOfCols [], rows, rowCount⟩)
      return .ok n

/-- Binds its own arguments; the bind variables of the session stay as they are. -/
def cllExecSqlWithResultBV (answer : ExecAnswer) : StmtM G (Except Int Nat) :=
  execWithResult id answer

def cllGetRow (n : Int) : StmtM G Int := do
  let st ← stmtAt n
  let setStmt (st : Stmt) : StmtM G Unit := modify fun s => s.setSlot n.toNat (.stmt st)
  match st.rest with
  | .failed :: rest =>
    setStmt { st with resultValue := List.replicate st.numOfCols [], rest := rest }
    return -1
  | [] =>
    setStmt { st with numOfCols := 0, resultValue := [] }
    return 0
  | .row values :: rest =>
    setStmt { st with resultValue := values, rest := rest }
    return 0

def cllGetRowCount (noResultRowCount : Int) (n : Int) : StmtM G Int := do
  if n < 0 then return noResultRowCount
  return (← stmtAt n).rowCount

/-- A slot that is empty already is left alone. -/
def cllFreeStatement (n : Int) : StmtM G Int := do
  if (← slotAt n) = .empty then return 0
  let _ ← stmtAt n
  modify fun s => { s.setSlot n.toNat .empty with freed := s.freed ++ [n.toNat] }
  return 0

/-! ## The middle level -/

def cmlFreeStatement (n : Int) : StmtM G Int := cllFreeStatement n

/-- An iRODS status stays as it is. -/
def cmlStatus (i : Int) : Int := if i ≤ CAT_ENV_ERR then i else CAT_SQL_ERR

/-- The next row of a statement, which is freed where there is none. -/
def getRowOrFree (n : Int) : StmtM G Int := do
  if (← cllGetRow n) ≠ 0 then
    let _ ← cllFreeStatement n
    return CAT_GET_ROW_ERR
  if (← stmtAt n).numOfCols = 0 then
    let _ ← cllFreeStatement n
    return CAT_NO_ROWS_FOUND
  return 0

def cmlGetNextRowFromStatement (n : Int) : StmtM G Int := getRowOrFree n

/-- The copies of `rstrcpy`; a value that does not fit its destination leaves it. -/
def copyValues (values : List Text) (cValSize : List Nat) : List (Option Text) :=
  (values.zip cValSize).map fun (v, size) => if v.length < size then some v else none

/-- The number of values, or the status, and the values. -/
def cmlGetOneRowFromSqlBV (answer : ExecAnswer) (cValSize : List Nat) :
    StmtM G (Int × List (Option Text)) := do
  match ← cllExecSqlWithResultBV answer with
  | .error i => return (cmlStatus i, [])
  | .ok n =>
    let status ← getRowOrFree n
    if status ≠ 0 then return (status, [])
    let values := copyValues (← stmtAt n).resultValue cValSize
    let _ ← cllFreeStatement n
    return (values.length, values)

/-- Without bind variables. -/
def cmlGetOneRowFromSql (answer : ExecAnswer) (cValSize : List Nat) : StmtM G (Int × List (Option Text)) :=
  cmlGetOneRowFromSqlBV answer cValSize

/-- The statement number, or the status, and the values, which stay in the statement. -/
def cmlGetOneRowFromSqlV2 (answer : ExecAnswer) (maxCols : Nat) : StmtM G (Int × List Text) := do
  match ← cllExecSqlWithResultBV answer with
  | .error i => return (cmlStatus i, [])
  | .ok n =>
    if (← cllGetRow n) ≠ 0 then
      let _ ← cllFreeStatement n
      return (CAT_GET_ROW_ERR, [])
    if (← stmtAt n).numOfCols = 0 then return (CAT_NO_ROWS_FOUND, [])
    return (n, (← stmtAt n).resultValue.take maxCols)

/-! ## Runs of the operations -/

open EStateM

variable {s : Server G} {n : Nat} {st : Stmt}

@[simp] theorem setSlot_self (s : Server G) (n : Nat) (x : Slot) : (s.setSlot n x).stmtPtr n = x :=
  Function.update_self ..

theorem setSlot_ne (s : Server G) (x : Slot) {m : Nat} (h : m ≠ n) : (s.setSlot n x).stmtPtr m = s.stmtPtr m :=
  Function.update_of_ne h ..

@[simp] theorem setSlot_setSlot (s : Server G) (n : Nat) (x y : Slot) :
    (s.setSlot n x).setSlot n y = s.setSlot n y := by
  simp only [Server.setSlot, Function.update_idem]

theorem freeSlot_some (h : s.freeSlot = some n) : n < MAX_NUM_OF_CONCURRENT_STMTS ∧ s.stmtPtr n = .empty :=
  ⟨List.mem_range.mp (List.mem_of_find?_eq_some h), by simpa using List.find?_some h⟩

theorem slotAt_run (s : Server G) (h : n < MAX_NUM_OF_CONCURRENT_STMTS) :
    slotAt (n : Int) s = .ok (s.stmtPtr n) s := by
  have hrange : 0 ≤ (n : Int) ∧ (n : Int) < MAX_NUM_OF_CONCURRENT_STMTS := by omega
  rw [slotAt, if_pos hrange]
  rfl

theorem stmtAt_run (h : n < MAX_NUM_OF_CONCURRENT_STMTS) (hst : s.stmtPtr n = .stmt st) :
    stmtAt (n : Int) s = .ok st s := by
  rw [stmtAt, bind_run (slotAt_run s h), hst]
  rfl

variable {rest : List Fetch}

variable {values : List Text}

theorem cllGetRow_row (h : n < MAX_NUM_OF_CONCURRENT_STMTS) (hst : s.stmtPtr n = .stmt st)
    (hrest : st.rest = .row values :: rest) :
    cllGetRow (n : Int) s =
      .ok 0 (s.setSlot n (.stmt { st with resultValue := values, rest := rest })) := by
  rw [cllGetRow, bind_run (stmtAt_run h hst)]
  simp only [hrest]
  rfl

theorem cllGetRow_end (h : n < MAX_NUM_OF_CONCURRENT_STMTS) (hst : s.stmtPtr n = .stmt st)
    (hrest : st.rest = []) :
    cllGetRow (n : Int) s = .ok 0 (s.setSlot n (.stmt { st with numOfCols := 0, resultValue := [] })) := by
  rw [cllGetRow, bind_run (stmtAt_run h hst)]
  simp only [hrest]
  rfl

theorem cllGetRow_failed (h : n < MAX_NUM_OF_CONCURRENT_STMTS) (hst : s.stmtPtr n = .stmt st)
    (hrest : st.rest = .failed :: rest) :
    cllGetRow (n : Int) s = .ok (-1) (s.setSlot n
      (.stmt { st with resultValue := List.replicate st.numOfCols [], rest := rest })) := by
  rw [cllGetRow, bind_run (stmtAt_run h hst)]
  simp only [hrest]
  rfl

/-- The state after the statement in a slot was freed. -/
def Server.freeStmt (s : Server G) (n : Nat) : Server G :=
  { s.setSlot n .empty with freed := s.freed ++ [n] }

theorem cllFreeStatement_run (h : n < MAX_NUM_OF_CONCURRENT_STMTS) (hst : s.stmtPtr n = .stmt st) :
    cllFreeStatement (n : Int) s = .ok 0 (s.freeStmt n) := by
  rw [cllFreeStatement, bind_run (slotAt_run s h), hst, if_neg (by simp), bind_run (stmtAt_run h hst)]
  rfl

theorem cllFreeStatement_empty (h : n < MAX_NUM_OF_CONCURRENT_STMTS) (hst : s.stmtPtr n = .empty) :
    cllFreeStatement (n : Int) s = .ok 0 s := by
  rw [cllFreeStatement, bind_run (slotAt_run s h), hst, if_pos rfl]
  rfl

theorem getRowOrFree_row (h : n < MAX_NUM_OF_CONCURRENT_STMTS) (hst : s.stmtPtr n = .stmt st)
    (hrest : st.rest = .row values :: rest) (hcols : st.numOfCols ≠ 0) :
    getRowOrFree (n : Int) s =
      .ok 0 (s.setSlot n (.stmt { st with resultValue := values, rest := rest })) := by
  rw [getRowOrFree, bind_run (cllGetRow_row h hst hrest), if_neg (by decide),
    bind_run (stmtAt_run h (setSlot_self ..)), if_neg hcols]
  rfl

theorem getRowOrFree_end (h : n < MAX_NUM_OF_CONCURRENT_STMTS) (hst : s.stmtPtr n = .stmt st)
    (hrest : st.rest = []) :
    getRowOrFree (n : Int) s = .ok CAT_NO_ROWS_FOUND (s.freeStmt n) := by
  rw [getRowOrFree, bind_run (cllGetRow_end h hst hrest), if_neg (by decide),
    bind_run (stmtAt_run h (setSlot_self ..)), if_pos rfl, bind_run (cllFreeStatement_run h (setSlot_self ..))]
  simp only [Server.freeStmt, setSlot_setSlot]
  rfl

theorem getRowOrFree_failed (h : n < MAX_NUM_OF_CONCURRENT_STMTS) (hst : s.stmtPtr n = .stmt st)
    (hrest : st.rest = .failed :: rest) : getRowOrFree (n : Int) s = .ok CAT_GET_ROW_ERR (s.freeStmt n) := by
  rw [getRowOrFree, bind_run (cllGetRow_failed h hst hrest), if_pos (by decide),
    bind_run (cllFreeStatement_run h (setSlot_self ..))]
  simp only [Server.freeStmt, setSlot_setSlot]
  rfl

theorem execWithResult_run {bind : G → G} {numOfCols : Nat} {rows : List Fetch} {rowCount : Int}
    (hfree : s.freeSlot = some n) :
    execWithResult bind (.result numOfCols rows rowCount) s =
      .ok (.ok n) (Server.setSlot { s with gen := bind s.gen } n
        (.stmt ⟨numOfCols, List.replicate numOfCols [], rows, rowCount⟩)) := by
  rw [execWithResult, if_neg (by simp), get_bind, hfree]
  simp only [modify_bind, Server.setSlot, Function.update_idem]
  rfl

end Statements
