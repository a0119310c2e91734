-- SUMMARY: Submitting rule texts to the rule engine.
import Irods.Api.RodsDef
import Irods.Base.ByteFile

/-!
# Submitting rules

`parseAndComputeRule` pushes an environment on `extFuncDescIndex`, parses the rules of a
text into `extRuleSet`, runs the first of them and pops both again. The adapters set
`clearDelayed` to 0 for the calls they make and put it back.

The parser, the type checker and the interpreter are parameters. What the parser reads
comes as a list of items, included files in their place. The interpreter may submit
other rules while it runs a rule (`evalrule`, `execMyRule`, `applyRule`), so running one
is a tree of such calls, each going on with what the call returned and left.

A rule may also run the microservices that clear or load the application's rules. They
unlink the environments and link them again with a new one for the application. An
environment has a number, so that a new one with the same entries is another.
-/

namespace RuleSubmission

abbrev Text := List Byte

def maxRuleLen : Nat := 1024 * 64

def RE_PARSER_ERROR : Int := -1201000
def RE_POINTER_ERROR : Int := -1203000
def RE_BUFFER_OVERFLOW : Int := -1207000
def RE_OUT_OF_MEMORY : Int := -1221000
def RE_TYPE_ERROR : Int := -1230000

/-! ## The engine -/

inductive RuleType where
  | rel
  | func
  | data
  | constructor
  | external
  deriving DecidableEq

structure RuleDesc (ν : Type) where
  ruleType : RuleType
  name : Text
  node : ν

inductive FunctionDesc where
  | constructor
  | external
  | ruleIndexList (rules : List Nat)
  | other
  deriving DecidableEq

abbrev Frame := List (Text × FunctionDesc)

structure Env where
  id : Nat
  frame : Frame
  deriving DecidableEq

/-- `rules` is the array of `extRuleSet`, and `len` how much of it is in use. `extEnvs` are the
environments in front of the application's, which is one of those that have been made. -/
structure Engine (ν : Type) where
  rules : Nat → Option (RuleDesc ν)
  len : Nat
  extEnvs : List Env
  appFuncDescIndex : Env
  coreFuncDescIndex : Env
  sysFuncDescIndex : Env
  nextEnv : Nat
  clearDelayed : Int
  known : appFuncDescIndex.id < nextEnv

namespace Engine

variable {ν : Type}

/-- The chain of environments. -/
def extFuncDescIndex (s : Engine ν) : List Env :=
  s.extEnvs ++ [s.appFuncDescIndex, s.coreFuncDescIndex, s.sysFuncDescIndex]

def lookupFromEnv (s : Engine ν) (name : Text) : Option FunctionDesc :=
  s.extFuncDescIndex.findSome? fun env => env.frame.lookup name

/-- Change the environment on top. -/
def updateCurrent (s : Engine ν) (f : Frame → Frame) : Engine ν :=
  match s.extEnvs with
  | [] => s
  | env :: rest => { s with extEnvs := { env with frame := f env.frame } :: rest }

def insertIntoHashTable (s : Engine ν) (name : Text) (fd : FunctionDesc) : Engine ν :=
  s.updateCurrent (· ++ [(name, fd)])

def pushRule (s : Engine ν) (rd : RuleDesc ν) : Engine ν :=
  { s with rules := Function.update s.rules s.len (some rd), len := s.len + 1 }

def checkPointExtRuleSet (s : Engine ν) : Engine ν :=
  { s with extEnvs := ⟨s.nextEnv, []⟩ :: s.extEnvs, nextEnv := s.nextEnv + 1, known := Nat.lt_succ_of_lt s.known }

def popExtRuleSet (s : Engine ν) (checkPoint : Nat) : Engine ν :=
  { s with extEnvs := s.extEnvs.tail, len := checkPoint }

/-- `unlinkFuncDescIndex`, the application's resources cleared, and `generateFunctionDescriptionTables`;
`frame` is what is read into the new environment. -/
def relinkFuncDescIndex (s : Engine ν) (frame : Frame) : Engine ν :=
  { s with appFuncDescIndex := ⟨s.nextEnv, frame⟩, nextEnv := s.nextEnv + 1, known := Nat.lt_succ_self _ }

/-- An entry of the current environment for the rule at `i`. -/
def appendToFrame (name : Text) (i : Nat) (frame : Frame) : Frame :=
  match frame.lookup name with
  | none => frame ++ [(name, .ruleIndexList [i])]
  | some (.ruleIndexList is) => frame.map fun e => if e.1 = name then (name, .ruleIndexList (is ++ [i])) else e
  | some .external => frame.map fun e => if e.1 = name then (name, .ruleIndexList [i]) else e
  | some _ => frame

def appendRuleIntoExtIndex (s : Engine ν) (rd : RuleDesc ν) (i : Nat) : Engine ν :=
  s.updateCurrent (appendToFrame rd.name i)

def isRule (rd : RuleDesc ν) : Bool := rd.ruleType == .func || rd.ruleType == .rel

/-- The rules from `start` on go into the index. -/
def appendRules (s : Engine ν) (start : Nat) : Engine ν :=
  (List.range' start (s.len - start)).foldl (fun s i =>
    match s.rules i with
    | some rd => if isRule rd then s.appendRuleIntoExtIndex rd i else s
    | none => s) s

end Engine

/-! ## Parsing -/

/-- Why a rule set cannot be read on: a bad token, no memory, a bad rule, or an included
file that is missing or does not type check. -/
inductive ParseError where
  | token
  | outOfMemory
  | badRule
  | file (e : Nat)
  deriving DecidableEq

def ParseError.code : ParseError → Int
  | .token => -1
  | .outOfMemory => RE_OUT_OF_MEMORY
  | .badRule => RE_PARSER_ERROR
  | .file e => -(e + 1)

/-- What the parser reads; comments and directives leave nothing. -/
inductive Item (ν : Type) where
  | fail (e : ParseError)
  | induct (data : RuleDesc ν) (constructors : List (RuleDesc ν))
  | constr (rd : RuleDesc ν)
  | external (rd : RuleDesc ν)
  | rules (rds : List (RuleDesc ν))

section Parsing

variable {ν : Type}

/-- A name that is not defined anywhere in the chain is defined, and its rule pushed. -/
def define (s : Engine ν) (rd : RuleDesc ν) (fd : FunctionDesc) : Except Int (Engine ν) :=
  if (s.lookupFromEnv rd.name).isSome then .error RE_TYPE_ERROR
  else .ok ((s.insertIntoHashTable rd.name fd).pushRule rd)

/-- The constructors of a data type, up to one that is there already. -/
def defineAll (s : Engine ν) : List (RuleDesc ν) → Engine ν × Int
  | [] => (s, 0)
  | rd :: rds =>
    match define s rd .constructor with
    | .error e => (s, e)
    | .ok s => defineAll s rds

def parseItem (s : Engine ν) : Item ν → Engine ν × Int
  | .fail e => (s, e.code)
  | .induct data constructors => defineAll (s.pushRule data) constructors
  | .constr rd =>
    match define s rd .constructor with
    | .error e => (s, e)
    | .ok s => (s, 0)
  | .external rd =>
    match define s rd .external with
    | .error e => (s, e)
    | .ok s => (s, 0)
  | .rules rds => (rds.foldl Engine.pushRule s, 0)

/-- The rules read before an error stay. -/
def parseRuleSet (s : Engine ν) : List (Item ν) → Engine ν × Int
  | [] => (s, 0)
  | item :: its =>
    let (s, ret) := parseItem s item
    if ret ≠ 0 then (s, ret) else parseRuleSet s its

end Parsing

/-! ## Submissions -/

/-- A call into the engine; `π` are parameters. The microservices come with what `isUserPrivileged`
says of their user. -/
inductive Call (π : Type) where
  | parseAndComputeRule (rule : Text)
  | parseAndComputeRuleAdapter (rule : Text) (msParamArray : Option π)
  | computeExpressionWithParams (actionName : Text) (params : List Text) (msParamArray : Option π)
  | parseAndComputeExpressionAdapter (inAction : Text) (inMsParamArray : Option π)
  | msiAdmClearAppRuleStruct (isUserPrivileged : Int)
  | msiAdmAddAppRuleStruct (isUserPrivileged : Int) (irbSet dvmSet fnmSet : Text)
  deriving DecidableEq

/-- What the interpreter does, as far as the engine can tell. -/
inductive Exec (ν π : Type) where
  | done (rescode : Int)
  | call (c : Call π) (k : Int → Engine ν → Exec ν π)

/-- The parts of the program that are not modelled. `typeRule` is whether a rule has a type.
`getModifiedTime` is the status for all files of a rule set, `readRuleSet` what they leave in the
application's environment, and `readMaps` and `clearMaps` the statuses for its variable and function maps. -/
structure World (ν π : Type) where
  newPointer2 : Text → Bool
  parse : Text → List (Item ν)
  typeRule : Engine ν → RuleDesc ν → Bool
  execRuleNodeRes : Engine ν → RuleDesc ν → Exec ν π
  convertMsParamArrayToEnv : π → Int
  computeMsParamArrayToEnv : Engine ν → π → Exec ν π
  computeNode : Engine ν → Text → List Text → Option π → Exec ν π
  computeExpression : Engine ν → Text → Option π → Exec ν π
  getModifiedTime : Text → Int
  readRuleSet : Engine ν → Text → Frame × Int
  readMaps : Text → Text → Int
  clearMaps : Int

/-- A call with the engine it found and the code it returned. -/
structure Submission (ν π : Type) where
  engine : Engine ν
  call : Call π
  rescode : Int

abbrev Trace (ν π : Type) := List (Submission ν π)

/-- What a call leaves and returns, with the submissions made on the way. -/
abbrev Result (ν π : Type) := Engine ν × Int × Trace ν π

variable {ν π : Type}

/-- The text does not end within `len` characters. -/
def overflow (expr : Text) (len : Nat) : Bool := len < expr.length

/-- `@external` and a newline -/
def externalMark : Text := [64, 101, 120, 116, 101, 114, 110, 97, 108, 10]

namespace World

/-- Every rule from `start` on has a type. -/
def typesFrom (w : World ν π) (s : Engine ν) (start : Nat) : Bool :=
  (List.range' start (s.len - start)).all fun i =>
    match s.rules i with
    | some rd => !Engine.isRule rd || w.typeRule s rd
    | none => true

section Body

variable (w : World ν π) (exec : Engine ν → Exec ν π → Option (Result ν π))

def parseAndComputeRule (s : Engine ν) (rule : Text) : Option (Result ν π) :=
  if overflow rule maxRuleLen then some (s, RE_BUFFER_OVERFLOW, [])
  else if w.newPointer2 rule = false then some (s, RE_POINTER_ERROR, [])
  else
    let checkPoint := s.len
    let (s, rescode) := parseRuleSet s.checkPointExtRuleSet (w.parse rule)
    -- the rules and the environment stay
    if rescode ≠ 0 then some (s, RE_PARSER_ERROR, [])
    else
      let s := s.appendRules checkPoint
      if w.typesFrom s checkPoint = false then some (s.popExtRuleSet checkPoint, RE_TYPE_ERROR, [])
      else
        match s.rules checkPoint with
        | none => none
        | some rd =>
          match exec s (w.execRuleNodeRes s rd) with
          | none => none
          | some (s, rescode, tr) => some (s.popExtRuleSet checkPoint, rescode, tr)

/-- The call with its own submission. -/
def submitRule (s : Engine ν) (rule : Text) : Option (Result ν π) :=
  match w.parseAndComputeRule exec s rule with
  | none => none
  | some (s', rescode, tr) => some (s', rescode, tr ++ [⟨s, .parseAndComputeRule rule, rescode⟩])

/-- The parameters of `parseAndComputeRuleAdapter`. -/
def adapterParams (s : Engine ν) (rule : Text) : Option π → Option (Result ν π)
  | none => some (s, 0, [])
  | some ps =>
    if externalMark.isPrefixOf rule then exec s (w.computeMsParamArrayToEnv s ps)
    else some (s, w.convertMsParamArrayToEnv ps, [])

def adapterRule (rule : Text) (msParamArray : Option π) : Text :=
  if msParamArray.isSome && externalMark.isPrefixOf rule then rule.drop 10 else rule

def parseAndComputeRuleAdapter (s : Engine ν) (rule : Text) (msParamArray : Option π) :
    Option (Result ν π) :=
  let recclearDelayed := s.clearDelayed
  match w.adapterParams exec { s with clearDelayed := 0 } rule msParamArray with
  | none => none
  | some (s, rescode, tr) =>
    if rescode < 0 then some ({ s with clearDelayed := recclearDelayed }, rescode, tr)
    else
      match w.submitRule exec s (adapterRule rule msParamArray) with
      | none => none
      | some (s, rescode, tr') =>
        if rescode < 0 then some ({ s with clearDelayed := recclearDelayed }, rescode, tr ++ tr')
        -- the flag stays 0
        else some (s, rescode, tr ++ tr')

/-- An action name or a parameter is too long. -/
def oversize (actionName : Text) (params : List Text) : Bool :=
  overflow actionName MAX_NAME_LEN || params.any fun p => overflow p maxRuleLen

def computeExpressionWithParams (s : Engine ν) (actionName : Text) (params : List Text)
    (msParamArray : Option π) : Option (Result ν π) :=
  let recclearDelayed := s.clearDelayed
  let s := { s with clearDelayed := 0 }
  if oversize actionName params then some (s, RE_BUFFER_OVERFLOW, [])
  else
    match exec s (w.computeNode s actionName params msParamArray) with
    | none => none
    | some (s, rescode, tr) => some ({ s with clearDelayed := recclearDelayed }, rescode, tr)

def parseAndComputeExpressionAdapter (s : Engine ν) (inAction : Text) (inMsParamArray : Option π) :
    Option (Result ν π) :=
  let recclearDelayed := s.clearDelayed
  let s := { s with clearDelayed := 0 }
  match exec s (w.computeExpression s inAction inMsParamArray) with
  | none => none
  | some (s, rescode, tr) => some ({ s with clearDelayed := recclearDelayed }, rescode, tr)

def msiAdmClearAppRuleStruct (s : Engine ν) (isUserPrivileged : Int) : Engine ν × Int :=
  if isUserPrivileged ≠ 0 then (s, isUserPrivileged) else (s.relinkFuncDescIndex [], w.clearMaps)

/-- The chain is linked anew before a file is read, and stays so if one cannot be. -/
def loadRuleFromCacheOrFile (s : Engine ν) (irbSet : Text) : Engine ν × Int :=
  if w.getModifiedTime irbSet ≠ 0 then (s, w.getModifiedTime irbSet)
  else
    let (frame, res) := w.readRuleSet s irbSet
    (s.relinkFuncDescIndex frame, res)

def msiAdmAddAppRuleStruct (s : Engine ν) (isUserPrivileged : Int) (irbSet dvmSet fnmSet : Text) : Engine ν × Int :=
  if isUserPrivileged ≠ 0 then (s, isUserPrivileged)
  else
    let (s, i) := if irbSet.isEmpty then (s, 0) else w.loadRuleFromCacheOrFile s irbSet
    (s, if i < 0 then i else w.readMaps dvmSet fnmSet)

def callBody (s : Engine ν) (c : Call π) : Option (Result ν π) :=
  match c with
  | .parseAndComputeRule rule => w.parseAndComputeRule exec s rule
  | .parseAndComputeRuleAdapter rule ps => w.parseAndComputeRuleAdapter exec s rule ps
  | .computeExpressionWithParams name args ps => w.computeExpressionWithParams exec s name args ps
  | .parseAndComputeExpressionAdapter a ps => w.parseAndComputeExpressionAdapter exec s a ps
  | .msiAdmClearAppRuleStruct isUserPrivileged =>
    let (s, rescode) := w.msiAdmClearAppRuleStruct s isUserPrivileged
    some (s, rescode, [])
  | .msiAdmAddAppRuleStruct isUserPrivileged irbSet dvmSet fnmSet =>
    let (s, rescode) := w.msiAdmAddAppRuleStruct s isUserPrivileged irbSet dvmSet fnmSet
    some (s, rescode, [])

def submit (s : Engine ν) (c : Call π) : Option (Result ν π) :=
  match w.callBody exec s c with
  | none => none
  | some (s', rescode, tr) => some (s', rescode, tr ++ [⟨s, c, rescode⟩])

end Body

/-- The interpreter, with the calls it makes answered by `call`. -/
def runExec (call : Engine ν → Call π → Option (Result ν π)) (s : Engine ν) :
    Exec ν π → Option (Result ν π)
  | .done rescode => some (s, rescode, [])
  | .call c k =>
    match call s c with
    | none => none
    | some (s, rescode, tr) =>
      match runExec call s (k rescode s) with
      | none => none
      | some (s, rescode, tr') => some (s, rescode, tr ++ tr')

/-- A call that nests at most `fuel` deep. -/
def run (w : World ν π) : Nat → Engine ν → Call π → Option (Result ν π)
  | 0, _, _ => none
  | fuel + 1, s, c => w.submit (runExec (w.run fuel)) s c

end World

end RuleSubmission
