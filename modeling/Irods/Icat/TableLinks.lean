-- SUMMARY: The catalog's table of links, the walk over it and the check for cycles.
import Irods.Api.RodsDef
import Irods.Base.CString

/-!
# Tables and links

`icatGeneralQuerySetup` declares tables, columns and the links between tables. `tScan`
walks the links from one requested table, finds the others and writes the links on the
way to them into `whereSQL` and their tables into `fromSQL`. `findCycles` checks that
there is only one way between two tables.

A walk does not go back along the link it came by and does not go on from a *cycler*.
The recursion of the source is bounded by a fuel that is more than the number of tables.
-/

namespace GenQuery

open CString

/-- `MAX_SQL_SIZE_GQ`. -/
def maxSQL : Nat := 12000

/-! ## The schema -/

structure Table where
  tableName : Text
  tableAlias : Text
  cycler : Int

structure Link where
  table1 : Nat
  table2 : Nat
  connectingSQL : Text

structure Column where
  defineValue : Int
  tableName : Text
  columnName : Text

/-- One word of SQL. -/
def IsName (s : Text) : Prop := s ≠ [] ∧ ' ' ∉ s ∧ ',' ∉ s

instance (s : Text) : Decidable (IsName s) := by unfold IsName; infer_instance

/-- A table as the FROM list names it: `name1`, or `name2 name1` where `name1` stands
for the table `name2`. -/
def IsAlias (s : Text) : Prop :=
  IsName s ∨ ∃ name2 name1, IsName name2 ∧ IsName name1 ∧ s = name2 ++ ' ' :: name1

/-- What `sTable`, `sColumn` and `sFklink` have set up. -/
structure Schema where
  tables : List Table
  links : List Link
  columns : List Column
  links_lt : ∀ l ∈ links, l.table1 < tables.length ∧ l.table2 < tables.length
  alias_wf : ∀ t ∈ tables, IsAlias t.tableAlias

namespace Schema

/-- `Tables[i]`; the entries that are not in use are zero. -/
def table (S : Schema) (i : Nat) : Table := S.tables.getD i ⟨[], [], 0⟩

/-- `Links[i]`. -/
def link (S : Schema) (i : Nat) : Link := S.links.getD i ⟨0, 0, []⟩

/-- The links that start at `table`, with the tables they lead to. -/
def forward (S : Schema) (table : Nat) (link : Option Nat) : List (Nat × Nat) :=
  ((List.range S.links.length).filter
    (fun i => (S.link i).table1 = table ∧ link ≠ some i)).map (fun i => (i, (S.link i).table2))

/-- The links that end at `table`, with the tables they come from. -/
def backward (S : Schema) (table : Nat) (link : Option Nat) : List (Nat × Nat) :=
  ((List.range S.links.length).filter
    (fun i => (S.link i).table2 = table ∧ link ≠ some i)).map (fun i => (i, (S.link i).table1))

/-- More than the length of a walk that meets no table twice. -/
def fuel (S : Schema) : Nat := S.tables.length + 2

end Schema

/-! ## Bounded texts -/

/-- Appends `src`, or leaves `dest` as it is when the result does not fit. -/
def rstrcat (dest src : Text) (maxLen : Nat) : Text :=
  if src.length + dest.length ≥ maxLen then dest else dest ++ src

/-- Counts the words up to a comma: their number, whether the last character was a
blank, and what comes next. -/
def countTokens (tokens : Nat) (blank : Bool) : Text → Nat × Bool × Text
  | [] => (if blank then tokens else tokens + 1, blank, [])
  | c :: cs =>
    if c = ',' then (if blank then tokens else tokens + 1, blank, c :: cs)
    else if c = ' ' then countTokens (if blank then tokens else tokens + 1) true cs
    else countTokens tokens false cs

/-- The loop of `tablePresent` for a table of one word. -/
def presentFrom (table : Text) : Nat → Bool → Text → Bool
  | 0, _, _ => false
  | fuel + 1, blank, cp1 =>
    match strstr table cp1 with
    | none => false
    | some n =>
      let (tokens, blank, cp2) := countTokens 0 blank (cp1.drop n)
      if tokens = 1 then true else presentFrom table fuel blank cp2

/-- Is the table in the text? A table of one word is not found in the place of the
table that is given another name. -/
def tablePresent (table sqlText : Text) : Bool :=
  match strstr table sqlText with
  | none => false
  | some _ =>
    if (countTokens 0 true table).1 = 2 then true
    else presentFrom table (sqlText.length + 1) true sqlText

/-! ## tScan -/

structure Scan where
  flag : Nat → Int
  nToFind : Int
  fromSQL : Text
  whereSQL : Text

/-- Puts a table in the FROM list unless it is there. -/
def addFrom (tableAlias fromSQL : Text) : Text :=
  if tablePresent tableAlias fromSQL then fromSQL
  else rstrcat (rstrcat (rstrcat fromSQL ", ".toList maxSQL) tableAlias maxSQL) " ".toList maxSQL

/-- Puts a link in the WHERE part. -/
def addJoin (connectingSQL whereSQL : Text) : Text :=
  let whereSQL := if whereSQL.length > 6 then rstrcat whereSQL " AND ".toList maxSQL else whereSQL
  rstrcat (rstrcat whereSQL connectingSQL maxSQL) " ".toList maxSQL

def Scan.useLink (S : Schema) (i : Nat) (s : Scan) : Scan :=
  { s with
    whereSQL := addJoin (S.link i).connectingSQL s.whereSQL
    fromSQL := addFrom (S.table (S.link i).table1).tableAlias
      (addFrom (S.table (S.link i).table2).tableAlias s.fromSQL) }

/-- Tries the links one after another, until every table is found. -/
def tryLinks (S : Schema) (scan : Nat → Option Nat → Scan → Option (Bool × Scan)) :
    List (Nat × Nat) → Bool → Scan → Option (Bool × Scan)
  | [], thisKeep, s => some (thisKeep, s)
  | (i, next) :: es, thisKeep, s =>
    match scan next (some i) s with
    | none => none
    | some (subKeep, s) =>
      if subKeep then
        let s := s.useLink S i
        if s.nToFind ≤ 0 then some (true, s) else tryLinks S scan es true s
      else tryLinks S scan es thisKeep s

/-- `link` is the link the walk came by, none at its start. -/
def tScan (S : Schema) : Nat → Nat → Option Nat → Scan → Option (Bool × Scan)
  | 0, _, _, _ => none
  | fuel + 1, table, link, s =>
    let expand (thisKeep : Bool) (s : Scan) : Option (Bool × Scan) :=
      if (S.table table).cycler = 1 then some (thisKeep, s)
      else
        tryLinks S (tScan S fuel) (S.forward table link ++ S.backward table link) thisKeep
          { s with flag := Function.update s.flag table 3 }
    if s.flag table = 1 then
      let s := { s with flag := Function.update s.flag table 2, nToFind := s.nToFind - 1 }
      if s.nToFind ≤ 0 then some (true, s) else expand true s
    else if s.flag table ≠ 0 then some (false, s)
    else expand false s

/-! ## findCycles -/

def chkLinks (chk : Nat → Option Nat → (Nat → Int) → Option (Bool × (Nat → Int))) :
    List (Nat × Nat) → (Nat → Int) → Option (Bool × (Nat → Int))
  | [], flag => some (false, flag)
  | (i, next) :: es, flag =>
    match chk next (some i) flag with
    | none => none
    | some (true, flag) => some (true, flag)
    | some (false, flag) => chkLinks chk es flag

/-- Does the tree `thisTreeNum` meet a table of its own again? -/
def tCycleChk (S : Schema) (thisTreeNum : Int) :
    Nat → Nat → Option Nat → (Nat → Int) → Option (Bool × (Nat → Int))
  | 0, _, _, _ => none
  | fuel + 1, table, link, flag =>
    if flag table ≠ 0 ∧ flag table = thisTreeNum then some (true, flag)
    else
      let flag := Function.update flag table thisTreeNum
      if (S.table table).cycler = 1 then some (false, flag)
      else
        chkLinks (tCycleChk S thisTreeNum fuel) (S.forward table link ++ S.backward table link) flag

/-- The loop of `findCycles` over the tables not met yet. -/
def findCyclesFrom (S : Schema) : List Nat → Int → (Nat → Int) → Option Int
  | [], _, _ => some 0
  | i :: is, treeNum, flag =>
    if flag i = 0 then
      match tCycleChk S (treeNum + 1) S.fuel i none flag with
      | none => none
      | some (true, _) => some 1
      | some (false, flag) => findCyclesFrom S is (treeNum + 1) flag
    else findCyclesFrom S is treeNum flag

def findCycles (S : Schema) (startTable : Nat) : Option Int :=
  if startTable ≠ 0 then
    if startTable > S.tables.length then some CAT_INVALID_ARGUMENT
    else
      match tCycleChk S 1 S.fuel startTable none (fun _ => 0) with
      | none => none
      | some (true, _) => some 1
      | some (false, flag) => findCyclesFrom S (List.range S.tables.length) 1 flag
  else findCyclesFrom S (List.range S.tables.length) 0 (fun _ => 0)

end GenQuery
