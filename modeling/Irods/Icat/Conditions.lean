-- SUMMARY: Conditions of a general query, and the buffers behind the bind variables.
import Irods.Api.RodsDef
import Irods.Icat.TableLinks

/-!
# Conditions

A condition adds its text to `whereSQL` with a `?` for every literal, copies the literal
into a static buffer and pushes a pointer to the copy on `cllBindVars`.

A write outside a buffer, or a read of a text that has no end, ends the model with `overrun`.
This is no refusal: the program goes on, and may accept the query, but nothing is known of what
it has written over.
-/

namespace GenQuery

open CString

def CAT_BIND_VARIABLE_LIMIT_EXCEEDED : Int := -856000

def maxBindVars : Nat := 120

/-- The static arrays that bind variables point into. -/
inductive Buffer where
  | bindVars
  | inStringsForIn
  | inStringsForBetween
  | inStringsForParentOf
  | accessControlUserName
  | accessControlZone
  | sessionTicket
  | offsetStr
  deriving DecidableEq

def Buffer.size : Buffer → Nat
  | .bindVars => maxSQL + 100
  | .inStringsForIn => maxSQL * 2
  | .inStringsForBetween => maxSQL
  | .inStringsForParentOf => maxSQL
  | .accessControlUserName => 64
  | .accessControlZone => 64
  | .sessionTicket => 64
  | .offsetStr => 20

/-- `cllBindVarCount` is the length of `cllBindVars`. -/
structure Cond where
  whereSQL : Text
  cllBindVars : List (Buffer × Nat)
  bindIx : Nat
  inStrIx : Nat
  conditionsForBindIx : Nat
  mem : Buffer → Nat → Char

inductive Stop where
  | fail (code : Int)
  | overrun
  deriving DecidableEq

abbrev CondM := EStateM Stop Cond

/-- The string at a pointer. -/
def Cond.deref (q : Cond) (p : Buffer × Nat) : Text :=
  ((List.range' p.2 (p.1.size - p.2)).map (q.mem p.1)).takeWhile (· ≠ '\x00')

namespace Cond

def catWhere (src : Text) : CondM Unit :=
  modify fun q => { q with whereSQL := rstrcat q.whereSQL src maxSQL }

/-- `b[ix] = c`. -/
def poke (b : Buffer) (ix : Nat) (c : Char) : CondM Unit :=
  if ix < b.size then
    modify fun q =>
      { q with mem := fun b' ix' => if b' = b ∧ ix' = ix then c else q.mem b' ix' }
  else throw .overrun

def pokes (b : Buffer) (ix : Nat) : Text → CondM Unit
  | [] => pure ()
  | c :: cs => do
    poke b ix c
    pokes b (ix + 1) cs

def push (p : Buffer × Nat) : CondM Unit := do
  let q ← get
  if q.cllBindVars.length + 1 ≥ maxBindVars then throw (.fail CAT_BIND_VARIABLE_LIMIT_EXCEEDED)
  set { q with cllBindVars := q.cllBindVars ++ [p] }

/-- `rstrcpy` to `b[ix]`. -/
def rstrcpyTo (b : Buffer) (ix : Nat) (src : Text) (maxLen : Int) : CondM Unit :=
  if (src.length : Int) ≥ maxLen then pure () else pokes b ix (src ++ ['\x00'])

/-- Copies `ncopy` characters of `src` to `b[inStrIx]` by way of `tmpStr`, and pushes a
pointer to the copy. -/
def copyBind (b : Buffer) (inStrIx : Nat) (src : Text) (ncopy : Nat) : CondM Unit := do
  let tmpStr := if ncopy ≥ maxSQL then [] else src.take ncopy
  rstrcpyTo b inStrIx tmpStr ((b.size : Int) - inStrIx)
  poke b (inStrIx + ncopy) '\x00'
  push (b, inStrIx)

/-! ## IN, BETWEEN and parent_of -/

/-- The loop of `addInClauseToWhereForParentOf` at position `i` of `inArg`. -/
def parentOfLoop (inArg : Text) : Text → Nat → Nat → Nat → CondM Unit
  | [], _, _, _ => pure ()
  | c :: cs, i, nput, inStrIx =>
    if c = '/' ∨ c = ' ' ∨ c = '\x00' then do
      let ncopy := if nput = 0 then i + 1 else i
      catWhere (if nput = 0 then "?".toList else ", ?".toList)
      copyBind .inStringsForParentOf inStrIx inArg ncopy
      parentOfLoop inArg cs (i + 1) (nput + 1) (inStrIx + ncopy + 1)
    else parentOfLoop inArg cs (i + 1) nput inStrIx

def addInClauseToWhereForParentOf (inArg : Text) : CondM Unit := do
  catWhere " IN (".toList
  parentOfLoop inArg (inArg ++ ['\x00']) 0 0 0
  catWhere ")".toList

/-- The loop over the quoted strings of `inArg` that IN and BETWEEN share: `next` is
what stands between two placeholders, `startIx` the position after an open quote. The
number of strings comes back. -/
def quotedLoop (b : Buffer) (next : Text) (saveIx : Nat → CondM Unit) (inArg : Text) :
    Text → Nat → Option Nat → Nat → Nat → CondM Nat
  | [], _, _, nput, _ => pure nput
  | c :: cs, i, startIx, nput, inStrIx =>
    if c = '\'' then
      match startIx with
      | none => quotedLoop b next saveIx inArg cs (i + 1) (some (i + 1)) nput inStrIx
      | some startIx => do
        let ncopy := i - startIx
        catWhere (if nput = 0 then "?".toList else next)
        copyBind b inStrIx (inArg.drop startIx) ncopy
        saveIx (inStrIx + ncopy + 1)
        quotedLoop b next saveIx inArg cs (i + 1) none (nput + 1) (inStrIx + ncopy + 1)
    else quotedLoop b next saveIx inArg cs (i + 1) startIx nput inStrIx

/-- Its index into `inStrings` is kept from call to call. -/
def addInClauseToWhereForIn (inArg : Text) : CondM Unit := do
  catWhere " IN (".toList
  let saveIx (ix : Nat) : CondM Unit := modify fun q => { q with inStrIx := ix }
  let nput ← quotedLoop .inStringsForIn ", ?".toList saveIx inArg inArg 0 none 0 (← get).inStrIx
  catWhere ")".toList
  if nput = 0 then throw (.fail CAT_INVALID_ARGUMENT)

/-- Its index into `inStrings` starts at 0 in every call. -/
def addBetweenClauseToWhere (inArg : Text) : CondM Unit := do
  catWhere " BETWEEN ".toList
  let saveIx (_ : Nat) : CondM Unit := pure ()
  let nput ← quotedLoop .inStringsForBetween " AND ? ".toList saveIx inArg inArg 0 none 0 0
  if nput ≠ 2 then throw (.fail CAT_INVALID_ARGUMENT)

/-! ## insertWhere -/

/-- Blanks out the first occurrence of a keyword. -/
def blankOut (keyword tmpStr : Text) : Text :=
  match strstr keyword tmpStr with
  | none => tmpStr
  | some n => tmpStr.take n ++ List.replicate keyword.length ' ' ++ tmpStr.drop (n + keyword.length)

def keywords : List Text :=
  ["begin_of", "parent_of", "not", "NOT", "between", "BETWEEN", "like", "LIKE", "in", "IN"].map
    String.toList

/-- Is the condition made of comparison signs and keywords only? -/
def checkCondition (condition : Text) : Bool :=
  let tmpStr := condition.map fun c => if c = '<' ∨ c = '>' ∨ c = '=' ∨ c = '!' then ' ' else c
  (keywords.foldl (fun tmpStr keyword => blankOut keyword tmpStr) tmpStr).all (· = ' ')

/-- Does the condition start with the keyword, in the spelling that is looked for first
among those that occur? -/
def startsWith (lower upper condition : Text) : Bool :=
  let condStart := (condition.takeWhile (· = ' ')).length
  ((strstr lower condition).orElse fun _ => strstr upper condition) = some condStart

/-- The positions of the first and the last quote, if there are two. -/
def quotes (condition : Text) : Option (Nat × Nat) :=
  match condition.findIdx? (· = '\''), condition.reverse.findIdx? (· = '\'') with
  | some first, some last =>
    let second := condition.length - 1 - last
    if first < second then some (first, second) else none
  | _, _ => none

def isNull : Text := "IS NULL".toList
def isNotNull : Text := "IS NOT NULL".toList

/-- Copies the literal between the quotes to `bindVars` and pushes it. -/
def bindLiteral (condition : Text) (first second : Nat) : CondM Unit := do
  let literal := (condition.take second).drop (first + 1)
  let thisBindVar := (← get).bindIx
  pokes .bindVars thisBindVar (literal ++ ['\x00'])
  modify fun q => { q with bindIx := thisBindVar + literal.length + 1 }
  push (.bindVars, thisBindVar)

/-- The text for a condition with the operator `tmpStr` and one literal. -/
def addComparison (tmpStr literal : Text) : CondM Unit := do
  if occurs "begin_of".toList tmpStr then
    let column := ((← get).whereSQL.reverse.takeWhile (· ≠ ' ')).reverse
    catWhere "=substr(?,1,char_length(".toList
    catWhere column
    catWhere "))".toList
    catWhere " AND char_length(".toList
    catWhere column
    catWhere ")>0".toList
  else if occurs "parent_of".toList tmpStr then
    modify fun q => { q with cllBindVars := q.cllBindVars.dropLast }
    addInClauseToWhereForParentOf literal
  else catWhere (tmpStr ++ "? ".toList)
  if checkCondition tmpStr = false then throw (.fail CAT_INVALID_ARGUMENT)

def insertWhere (condition : Text) : CondM Unit := do
  if startsWith "in".toList "IN".toList condition then
    addInClauseToWhereForIn condition
  else if startsWith "between".toList "BETWEEN".toList condition then
    addBetweenClauseToWhere condition
  else if condition = isNull ∨ condition = isNotNull then
    catWhere " ".toList
    catWhere condition
    catWhere " ".toList
  else
    modify fun q => { q with bindIx := q.bindIx + 1 }
    match quotes condition with
    | none => throw (.fail CAT_INVALID_ARGUMENT)
    | some (first, second) =>
      if second - first + (← get).bindIx > maxSQL + 90 then throw (.fail CAT_INVALID_ARGUMENT)
      bindLiteral condition first second
      if first > 10 then throw (.fail CAT_INVALID_ARGUMENT)
      -- the copy of what stands before the quote tests for its end after the first character
      if first = 0 then throw .overrun
      addComparison (' ' :: condition.take first) ((condition.take second).drop (first + 1))

/-! ## Compound conditions -/

def hasOperator (s : Text) : Bool := occurs "||".toList s || occurs "&&".toList s

/-- The condition with its quoted strings blanked out. -/
def eraseQuoted (quote : Bool) : Text → Text
  | [] => []
  | c :: cs =>
    let quote := if c = '\'' then !quote else quote
    (if c = '\'' ∨ quote then ' ' else c) :: eraseQuoted quote cs

def compoundConditionSpecified (condition : Text) : CondM Bool :=
  if hasOperator condition = false then pure false
  -- `strncpy` leaves `myCondition` without an end
  else if condition.length ≥ MAX_NAME_LEN * 2 then throw .overrun
  else pure (hasOperator (eraseQuoted false condition))

/-- Where the part of `whereSQL` after `prevWhereLen` starts, an appended AND left out. -/
def skipAnd (whereSQL : Text) (prevWhereLen : Nat) : Nat :=
  let i := prevWhereLen
  let i := if whereSQL.getD i '\x00' = ' ' then i + 1 else i
  let i := if whereSQL.getD i '\x00' = ' ' then i + 1 else i
  if whereSQL.getD i '\x00' = 'A' ∧ whereSQL.getD (i + 1) '\x00' = 'N' ∧
      whereSQL.getD (i + 2) '\x00' = 'D' then i + 3
  else prevWhereLen

/-- The first operator of a condition, an `||` before every `&&`. -/
def nextOperator (condPart1 : Text) : Option (Nat × Text) :=
  match strstr "||".toList condPart1 with
  | some n => some (n, " OR ".toList)
  | none   => (strstr "&&".toList condPart1).map fun n => (n, " AND ".toList)

/-- `conditionsForBind` has room for `MAX_NAME_LEN*2` characters; the bound that is given to
`rstrcpy` is another one. -/
def copyForBind (condPart1 : Text) : CondM Unit := do
  let ix := (← get).conditionsForBindIx
  if ix + condPart1.length + 1 > MAX_NAME_LEN * 2 then throw .overrun

/-- The loop of `handleCompoundCondition`, on the part of the condition that is left. -/
def compoundLoop (tabAndColumn : Text) : Nat → Text → CondM Unit
  | 0, _ => throw .overrun
  | fuel + 1, condPart1 =>
    match nextOperator condPart1 with
    | none => throw .overrun
    | some (n, operator) => do
      let condPart2 := condPart1.drop (n + 2)
      let condPart1 := condPart1.take n
      catWhere tabAndColumn
      copyForBind condPart1
      insertWhere condPart1
      modify fun q =>
        { q with conditionsForBindIx := q.conditionsForBindIx + condPart1.length + 1 }
      catWhere operator
      if hasOperator condPart2 then compoundLoop tabAndColumn fuel condPart2
      else
        catWhere tabAndColumn
        insertWhere condPart2

def handleCompoundCondition (condition : Text) (prevWhereLen : Nat) : CondM Unit := do
  let q ← get
  let prevWhereLen := skipAnd q.whereSQL prevWhereLen
  let tabAndColumn := q.whereSQL.drop prevWhereLen
  set { q with whereSQL := q.whereSQL.take prevWhereLen }
  catWhere " ( ".toList
  compoundLoop tabAndColumn (condition.length + 1) condition
  catWhere " ) ".toList

end Cond

end GenQuery
