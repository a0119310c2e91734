-- SUMMARY: The rule parser's functions.
import Irods.Frontend.ParserMacros

/-!
# The grammar of terms

Each function of the parser is written with the macros as the source writes it, from `Term` and
`Value` down to everything they call. `NT` is a call of another one; `parse` gives the calls their
depth. What a run returns are the nodes on the stack.
-/

namespace RuleParser

open Lexer (NodeType isalpha identChar new_ops)

/-! ## Macros -/

namespace Parser

def command {β : Type} (cmd : Command β) : Parser β := .exec cmd .done

def FPOS : Parser Nat := command .FPOS

/-- The start of a parser function. -/
def BEGIN : Parser Nat := do
  command .skipWhitespace
  FPOS

/-- A token that was taken, where the queue keeps it, and where it was looked for. -/
structure Taken where
  i : Nat
  token : Token
  pos : Nat

/-- Takes a token, and puts it back if `back` says so. -/
def NEXT_TOKEN (rulegen : Bool) (back : Token → Bool) : Parser Taken := do
  let pos ← FPOS
  let (i, token) ← command (.nextToken rulegen back)
  if token.type = .N_ERROR then .fail (some pos) else return ⟨i, token, pos⟩

def TOKEN_TEXT (xs : List String) (token : Token) : Bool :=
  (token.type = .TK_TEXT || token.type = .TK_OP || token.type = .TK_MISC_OP) &&
    xs.any fun x => token.text = x.toList

/-- One of the texts. -/
def TTEXT (rulegen : Bool) (xs : List String) : Parser Taken := do
  let taken ← NEXT_TOKEN rulegen fun _ => false
  if TOKEN_TEXT xs taken.token then return taken else .fail (some taken.pos)

def TTEXT_LOOKAHEAD (rulegen : Bool) (xs : List String) : Parser Taken := do
  let taken ← NEXT_TOKEN rulegen (TOKEN_TEXT xs)
  if TOKEN_TEXT xs taken.token then return taken else .fail (some taken.pos)

def TTYPE (rulegen : Bool) (type : NodeType) : Parser Taken := do
  let taken ← NEXT_TOKEN rulegen fun _ => false
  if taken.token.type = type then return taken else .fail (some taken.pos)

def ABORT (b : Bool) : Parser Unit := if b then .fail none else .done ()

def BUILD_NODE (type : TreeType) (text : Text) (loc deg consume : Nat) : Parser Unit :=
  command (.build (Context.BUILD_NODE type text loc deg consume))

def BUILD_APP_NODE (cons : Text) (loc deg : Nat) : Parser Unit := command (.build (Context.BUILD_APP_NODE cons loc deg))

def UNZIP (n : Nat) : Parser Unit := command (.build (Context.UNZIP n))

/-- A node of type `N_ERROR` is not pushed but is an error where the parser is. -/
def BUILD_ERROR : Parser Unit := do
  let pos ← FPOS
  .fail (some pos)

def alternatives : List (Parser Nat) → Parser Nat
  | [] => .fail none
  | [p] => p
  | p :: ps => .orElse p (alternatives ps) .done

/-- The alternatives of a choice; the number says what the one that was taken did to a variable. -/
def CHOICE (ps : List (Parser Nat)) : Parser Nat := .choice (alternatives ps) .done

def TRY (ps : List (Parser Unit)) : Parser Unit := do
  let _ ← CHOICE (ps.map fun p => do p; return 0)

def OPTIONAL (p : Parser Unit) : Parser Unit := TRY [p, return ()]

/-- The body gets the counter of the loop and returns it, or leaves the loop with it. -/
def LOOP : Nat → Nat → (Nat → Parser Nat) → Parser Nat
  | 0, _, _ => .stuck
  | fuel + 1, n, body => .block (body n) (fun n => LOOP fuel n body) .done

/-- The body says whether it is done. -/
def WHILE : Nat → Parser Nat → Parser Unit
  | 0, _ => .stuck
  | fuel + 1, body => do
    let done ← body
    if done = 1 then return () else WHILE fuel body

end Parser

open RuleParser.Parser

/-! ## Operators and keywords -/

def isBinaryOp (text : Text) : Bool := new_ops.any fun op => op.string = text && op.arity = 2

def isUnaryOp (text : Text) : Bool := new_ops.any fun op => op.string = text && op.arity = 1

def getPrecedence (arity : Nat) (text : Text) : Int :=
  match new_ops.find? fun op => op.arity = arity && op.string = text with
  | some op => op.prec
  | none => -1

def getBinaryPrecedence (text : Text) : Int := getPrecedence 2 text

def getUnaryPrecedence (text : Text) : Int := getPrecedence 1 text

def MIN_PREC : Int := 0

def keywords : List String :=
  ["in", "let", "match", "with", "for", "forExec", "while", "whileExec", "foreach", "forEachExec", "if", "ifExec",
   "then", "else", "data", "constructor", "on", "or", "oron"]

def isKeyword (text : Text) : Bool := keywords.any fun keyword => keyword.toList = text

/-- The room for the text of a delayed or remote action. -/
def actionsRoom : Nat := 10000

/-- The text of the source between two positions. -/
def dupString (start finish : Nat) : Parser Text := do
  let text ← command .source
  if finish - start < actionsRoom then return (text.drop start).take (finish - start) else .stuck

/-! ## Terms -/

inductive NonTerminal where
  | Term (rulegen : Bool) (prec : Int)
  | T (rulegen : Bool)
  | Value (rulegen : Bool)
  | StringExpression (tk : Option Token)
  | Actions (rulegen backwardCompatible : Bool)
  | Column
  | QueryCond
  | TermSystemBackwardCompatible (level : Bool)
  | ExprBackwardCompatible (level : Bool)
  | TermBackwardCompatible
  | ActionArgumentBackwardCompatible

section Functions

variable (fuel : Nat) (NT : NonTerminal → Parser Unit)

/-- The name of the operator is looked at when its operands are parsed. -/
def Term (rulegen : Bool) (prec : Int) : Parser Unit := do
  let start ← BEGIN
  NT (.Value rulegen)
  WHILE fuel (CHOICE [
    do
      let taken ← NEXT_TOKEN rulegen fun token =>
        token.type = .TK_OP && isBinaryOp token.text && getBinaryPrecedence token.text ≤ prec
      if taken.token.type ≠ .TK_OP then .fail (some taken.pos)
      ABORT (!isBinaryOp taken.token.text)
      if getBinaryPrecedence taken.token.text ≤ prec then return 1
      else
        NT (.Term rulegen (getBinaryPrecedence taken.token.text))
        if taken.token.text = "=".toList then BUILD_APP_NODE "assign".toList start 2
        else
          let token ← command (.look taken.i)
          BUILD_APP_NODE token.text start 2
        return 0,
    do
      TRY [do let _ ← TTEXT_LOOKAHEAD rulegen ["("], do let _ ← TTEXT_LOOKAHEAD rulegen ["["]]
      NT (.Term rulegen (getBinaryPrecedence "@@".toList))
      BUILD_NODE .N_APPLICATION "()".toList start 2 2
      return 0,
    return 1])

/-- Where the variables in a string begin and end. -/
def references (str : Text) (vars : List Nat) : List (Nat × Nat) :=
  vars.filterMap fun vs =>
    if isalpha str[vs + 1]? ∨ str[vs + 1]? = some '_' then
      some (vs, vs + 2 + ((str.drop (vs + 2)).takeWhile identChar).length)
    else none

/-- The variables, and what of the string stands behind each. -/
def stringNodes (str : Text) (startLoc : Nat) : List (Nat × Nat) → Parser Unit
  | [] => return ()
  | (vs, ve) :: refs => do
    let next := match refs with
      | [] => str.length
      | (vs', _) :: _ => vs'
    BUILD_NODE .TK_VAR ((str.drop vs).take (ve - vs)) (startLoc + vs) 0 0
    BUILD_APP_NODE "str".toList (startLoc + vs) 1
    BUILD_APP_NODE "++".toList startLoc 2
    BUILD_NODE .TK_STRING ((str.drop ve).take (next - ve)) (startLoc + ve) 0 0
    BUILD_APP_NODE "++".toList startLoc 2
    stringNodes str startLoc refs

def stringToken : Option Token → Parser Token
  | none => do
    let taken ← TTYPE false .TK_STRING
    return taken.token
  | some tk => return tk

def StringExpression (tk : Option Token) : Parser Unit := do
  let _ ← BEGIN
  let strToken ← stringToken tk
  let str := strToken.text
  let refs := references str strToken.vars
  if 100 ≤ refs.length then .stuck
  let first := match refs with
    | [] => str.length
    | (vs, _) :: _ => vs
  BUILD_NODE .TK_STRING (str.take first) strToken.exprloc 0 0
  stringNodes str strToken.exprloc refs

def T (rulegen : Bool) : Parser Unit := do
  let start ← BEGIN
  TRY [
    do
      let taken ← TTYPE rulegen .TK_LOCAL_VAR
      BUILD_NODE .TK_VAR taken.token.text taken.pos 0 0,
    do
      let taken ← TTYPE rulegen .TK_SESSION_VAR
      BUILD_NODE .TK_VAR taken.token.text taken.pos 0 0,
    do
      let taken ← TTYPE rulegen .TK_INT
      BUILD_NODE .TK_INT taken.token.text start 0 0,
    do
      let taken ← TTYPE rulegen .TK_DOUBLE
      BUILD_NODE .TK_DOUBLE taken.token.text start 0 0]

/-- Elements up to the closing parenthesis. -/
def tupleRest (rulegen : Bool) (n : Nat) : Parser Nat :=
  CHOICE [
    do
      let _ ← TTEXT rulegen [","]
      NT (.Term rulegen MIN_PREC)
      return n + 1,
    do
      let _ ← TTEXT rulegen [")"]
      .leave n]

def tuple (rulegen : Bool) (start : Nat) : Parser Unit := do
  let _ ← TTEXT rulegen ["("]
  TRY [
    do
      let _ ← TTEXT rulegen [")"]
      BUILD_NODE .N_TUPLE "<>".toList start 0 0,
    do
      NT (.Term rulegen MIN_PREC)
      let n ← LOOP fuel 1 (tupleRest NT rulegen)
      BUILD_NODE .N_TUPLE "<>".toList start n n]

/-- A part of a list that may be followed by another one. -/
def listPart (rulegen : Bool) (part : NonTerminal) (delim : List String) (n : Nat) : Parser Nat := do
  NT part
  CHOICE [
    do
      let _ ← TTEXT rulegen delim
      return n + 1,
    .leave (n + 1)]

/-- The conditions are counted also when the clause fails after them. -/
def queryCond (rulegen : Bool) (n : Nat) : Parser Nat := do
  NT .QueryCond
  command (.assign fuel (n + 1))
  CHOICE [
    do
      let _ ← TTEXT rulegen ["AND", "and"]
      return n + 1,
    .leave (n + 1)]

def query (rulegen : Bool) (start : Nat) : Parser Unit := do
  let _ ← TTEXT rulegen ["SELECT", "select"]
  let n ← LOOP fuel 0 (listPart NT rulegen .Column [","])
  command (.assign fuel n)
  OPTIONAL do
    let _ ← TTEXT rulegen ["WHERE", "where"]
    let _ ← LOOP fuel n (queryCond fuel NT rulegen)
  let n ← command (.read fuel)
  BUILD_APP_NODE "query".toList start n

def unary (rulegen : Bool) (start : Nat) : Parser Unit := do
  let taken ← TTYPE rulegen .TK_OP
  ABORT (!isUnaryOp taken.token.text)
  NT (.Term rulegen (getUnaryPrecedence taken.token.text))
  let token ← command (.look taken.i)
  BUILD_APP_NODE (if token.text = "-".toList then "neg".toList else token.text) start 1

/-- `nop` as an action. -/
def nopAction : Parser Unit := do
  let pos ← FPOS
  BUILD_APP_NODE "nop".toList pos 0
  BUILD_NODE .N_ACTIONS "ACTIONS".toList pos 1 1

def nop : Parser Unit := do
  let pos ← FPOS
  BUILD_APP_NODE "nop".toList pos 0

/-- Actions in braces. -/
def braces : Parser Unit := do
  let _ ← TTEXT true ["\x7b"]
  NT (.Actions true false)
  let _ ← TTEXT true ["\x7d"]

/-- A term in parentheses. -/
def condition : Parser Unit := do
  let _ ← TTEXT true ["("]
  NT (.Term true MIN_PREC)
  let _ ← TTEXT true [")"]

def funcIf (start : Nat) : Parser Unit := do
  let _ ← TTEXT true ["if"]
  condition NT
  OPTIONAL do
    let _ ← TTEXT true ["then"]
  braces NT
  TRY [
    do
      let _ ← TTEXT true ["else"]
      let taken ← TTEXT_LOOKAHEAD true ["if"]
      NT (.Term true MIN_PREC)
      BUILD_NODE .N_ACTIONS "ACTIONS".toList taken.pos 1 1
      nopAction,
    do
      let _ ← TTEXT true ["else"]
      braces NT,
    do
      nopAction
      nopAction]
  UNZIP 2
  BUILD_APP_NODE "if".toList start 5

def funcIf2 (start : Nat) : Parser Unit := do
  let _ ← TTEXT true ["if"]
  NT (.Term true MIN_PREC)
  let _ ← TTEXT true ["then"]
  NT (.Term true MIN_PREC)
  nop
  let _ ← TTEXT true ["else"]
  NT (.Term true MIN_PREC)
  nop
  UNZIP 2
  BUILD_APP_NODE "if2".toList start 5

def funcWhile (start : Nat) : Parser Unit := do
  TRY [do let _ ← TTEXT true ["while"], do let _ ← TTEXT true ["whileExec"]]
  condition NT
  braces NT
  BUILD_APP_NODE "while".toList start 3

def funcForeach (start : Nat) : Parser Unit := do
  TRY [do let _ ← TTEXT true ["foreach"], do let _ ← TTEXT true ["forEachExec"]]
  let _ ← TTEXT true ["("]
  let taken ← TTYPE true .TK_LOCAL_VAR
  BUILD_NODE .TK_VAR taken.token.text taken.pos 0 0
  TRY [
    do
      let _ ← TTEXT true [")"]
      braces NT
      BUILD_APP_NODE "foreach".toList start 3,
    do
      let _ ← TTEXT true ["in"]
      NT (.Term true MIN_PREC)
      let _ ← TTEXT true [")"]
      braces NT
      BUILD_APP_NODE "foreach2".toList start 4]

def funcFor (start : Nat) : Parser Unit := do
  TRY [do let _ ← TTEXT true ["for"], do let _ ← TTEXT true ["forExec"]]
  let _ ← TTEXT true ["("]
  NT (.Term true MIN_PREC)
  let _ ← TTEXT true [";"]
  NT (.Term true MIN_PREC)
  let _ ← TTEXT true [";"]
  NT (.Term true MIN_PREC)
  let _ ← TTEXT true [")"]
  braces NT
  BUILD_APP_NODE "for".toList start 5

/-- Actions in braces that are kept as text. -/
def actionsText : Parser Unit := do
  let _ ← TTEXT true ["\x7b"]
  let actionsStart ← FPOS
  NT (.Actions true false)
  let _ ← command .POP
  let _ ← command .POP
  let actionsFinish ← FPOS
  let _ ← TTEXT true ["\x7d"]
  let buf ← dupString actionsStart actionsFinish
  BUILD_NODE .TK_STRING buf actionsStart 0 0
  BUILD_NODE .TK_STRING [] actionsFinish 0 0

def funcRemote (start : Nat) : Parser Unit := do
  let _ ← TTEXT true ["remote"]
  let _ ← TTEXT true ["("]
  NT (.Term true MIN_PREC)
  let _ ← TTEXT true [","]
  NT (.Term true MIN_PREC)
  let _ ← TTEXT true [")"]
  actionsText NT
  BUILD_APP_NODE "remoteExec".toList start 4

def funcDelay (start : Nat) : Parser Unit := do
  let _ ← TTEXT true ["delay"]
  condition NT
  actionsText NT
  BUILD_APP_NODE "delayExec".toList start 3

def funcLet (start : Nat) : Parser Unit := do
  let _ ← TTEXT true ["let"]
  NT (.Term true 2)
  let _ ← TTEXT true ["="]
  NT (.Term true MIN_PREC)
  let _ ← TTEXT true ["in"]
  NT (.Term true MIN_PREC)
  BUILD_APP_NODE "let".toList start 3

def matchCase (n : Nat) : Parser Nat := do
  let cpos ← FPOS
  NT (.Term true MIN_PREC)
  let _ ← TTEXT true ["=>"]
  NT (.Term true MIN_PREC)
  BUILD_NODE .N_TUPLE "<>".toList cpos 2 2
  CHOICE [
    do
      let _ ← TTEXT true ["|"]
      return n + 1,
    .leave (n + 1)]

def funcMatch (start : Nat) : Parser Unit := do
  let _ ← TTEXT true ["match"]
  NT (.Term true 2)
  let _ ← TTEXT true ["with"]
  OPTIONAL do
    let _ ← TTEXT true ["|"]
  let n ← LOOP fuel 0 (matchCase NT)
  BUILD_APP_NODE "match".toList start (n + 1)

def application (rulegen : Bool) (start : Nat) : Parser Unit := do
  let taken ← TTYPE rulegen .TK_TEXT
  ABORT (rulegen && isKeyword taken.token.text)
  BUILD_NODE .TK_TEXT taken.token.text start 0 0
  TRY [
    do let _ ← TTEXT_LOOKAHEAD rulegen ["("],
    do let _ ← TTEXT_LOOKAHEAD rulegen ["["],
    do
      let n ← command .POP
      BUILD_APP_NODE n.text start 0]

def func (rulegen : Bool) (start : Nat) : Parser Unit :=
  TRY [
    do
      ABORT (!rulegen)
      TRY [funcIf NT start, funcIf2 NT start],
    do
      ABORT (!rulegen)
      funcWhile NT start,
    do
      ABORT (!rulegen)
      funcForeach NT start,
    do
      ABORT (!rulegen)
      funcFor NT start,
    do
      ABORT (!rulegen)
      funcRemote NT start,
    do
      ABORT (!rulegen)
      funcDelay NT start,
    do
      ABORT (!rulegen)
      funcLet NT start,
    do
      ABORT (!rulegen)
      funcMatch fuel NT start,
    do
      ABORT rulegen
      NT (.TermSystemBackwardCompatible false),
    application rulegen start]

def Value (rulegen : Bool) : Parser Unit := do
  let start ← BEGIN
  TRY [
    NT (.T rulegen),
    do
      let taken ← TTEXT rulegen ["true", "false"]
      BUILD_NODE .TK_BOOL taken.token.text taken.pos 0 0,
    tuple fuel NT rulegen start,
    do
      let _ ← TTEXT rulegen ["\x7b"]
      NT (.Actions rulegen false)
      if rulegen then BUILD_NODE .N_ACTIONS_RECOVERY "ACTIONS_RECOVERY".toList start 2 2
      let _ ← TTEXT rulegen ["\x7d"],
    unary NT rulegen start,
    query fuel NT rulegen start,
    func fuel NT rulegen start,
    NT (.StringExpression none)]

/-! ## Actions and queries -/

/-- An action with what is done to recover from it, and whether another one follows. -/
def action (rulegen backwardCompatible : Bool) (n : Nat) : Parser Nat := do
  if backwardCompatible then NT .TermBackwardCompatible else NT (.Term rulegen MIN_PREC)
  if rulegen then
    TRY [
      do
        let _ ← TTEXT rulegen [":::"]
        NT (.Term rulegen MIN_PREC),
      BUILD_APP_NODE "nop".toList 0 0]
    OPTIONAL do
      let _ ← TTEXT rulegen [";"]
    OPTIONAL do
      let _ ← TTEXT_LOOKAHEAD rulegen ["\x7d"]
      .leave (n + 1)
    return n + 1
  else
    CHOICE [
      do
        let _ ← TTEXT rulegen ["##"]
        return n + 1,
      .leave (n + 1)]

def Actions (rulegen backwardCompatible : Bool) : Parser Unit := do
  let start ← BEGIN
  let n ← CHOICE [
    do
      ABORT backwardCompatible
      let _ ← TTEXT_LOOKAHEAD rulegen ["\x7d"]
      return 0,
    LOOP fuel 0 (action NT rulegen backwardCompatible)]
  if rulegen then UNZIP n
  BUILD_NODE .N_ACTIONS "ACTIONS".toList start n n
  if rulegen then
    let node ← command .POP
    BUILD_NODE .N_ACTIONS "ACTIONS".toList start n n
    command (.build (Context.PUSH node))

/-- The functions of a column; the number is that of its name. -/
def columnFuncs : List (List String) :=
  [["count", "COUNT"], ["sum", "SUM"], ["order_desc", "ORDER_DESC"], ["order_asc", "ORDER_ASC"]]

def Column : Parser Unit := do
  let _ ← BEGIN
  TRY [
    do
      let colFuncStart ← FPOS
      let columnFunc ← CHOICE (columnFuncs.zipIdx.map fun (names, i) => do
        let _ ← TTEXT true names
        return i)
      let _ ← TTEXT true ["("]
      let colStart ← FPOS
      let taken ← TTYPE true .TK_TEXT
      BUILD_NODE .TK_COL taken.token.text colStart 0 0
      let _ ← TTEXT true [")"]
      BUILD_NODE .N_ATTR ((columnFuncs.getD columnFunc []).headD "").toList colFuncStart 1 1,
    do
      let colStart ← FPOS
      let taken ← TTYPE true .TK_TEXT
      BUILD_NODE .TK_COL taken.token.text colStart 0 0
      BUILD_NODE .N_ATTR [] colStart 1 1]

/-- A comparison of the column with a value. -/
def compare (start : Nat) (texts : List String) (op : String) : Parser Unit := do
  let _ ← TTEXT true texts
  NT (.Value true)
  BUILD_NODE .N_QUERY_COND op.toList start 2 2

def QueryCond : Parser Unit := do
  let start ← BEGIN
  TRY [do
    NT .Column
    TRY [
      compare NT start ["=", "=="] "=",
      compare NT start ["<>", "!="] "<>",
      compare NT start [">"] ">",
      compare NT start ["<"] "<",
      compare NT start [">="] ">=",
      compare NT start ["<="] "<=",
      compare NT start ["in", "IN"] "in",
      do
        let _ ← TTEXT true ["between", "BETWEEN"]
        NT (.Value true)
        NT (.Value true)
        BUILD_NODE .N_QUERY_COND "between".toList start 3 3,
      compare NT start ["like", "LIKE"] "like",
      do
        let _ ← TTEXT true ["not", "NOT"]
        compare NT start ["like", "LIKE"] "not like"]]

/-! ## The older forms -/

/-- A condition, in the older form on level 1. -/
def oldCondition (level : Bool) : Parser Unit :=
  if level then NT (.ExprBackwardCompatible false) else NT (.Term false MIN_PREC)

/-- Actions behind a comma. -/
def oldActions (level : Bool) : Parser Unit := do
  let _ ← TTEXT false [","]
  NT (.Actions false level)

/-- An argument that is read as a string. -/
def oldString (pos : Nat) : Parser Unit := do
  let strtoken ← command .nextActionArgument
  if strtoken.type = .TK_STRING then BUILD_NODE .TK_STRING strtoken.text pos 0 0 else BUILD_ERROR

def TermSystemBackwardCompatible (level : Bool) : Parser Unit := do
  let start ← BEGIN
  TRY [
    do
      let _ ← TTEXT false ["ifExec"]
      let _ ← TTEXT false ["("]
      oldCondition NT level
      oldActions NT level
      oldActions NT level
      oldActions NT level
      oldActions NT level
      let _ ← TTEXT false [")"]
      BUILD_APP_NODE "if".toList start 5,
    do
      let _ ← TTEXT false ["whileExec"]
      let _ ← TTEXT false ["("]
      oldCondition NT level
      oldActions NT level
      oldActions NT level
      let _ ← TTEXT false [")"]
      BUILD_APP_NODE "while".toList start 3,
    do
      let _ ← TTEXT false ["forEachExec"]
      let _ ← TTEXT false ["("]
      let taken ← TTYPE false .TK_LOCAL_VAR
      BUILD_NODE .TK_VAR taken.token.text start 0 0
      oldActions NT level
      oldActions NT level
      let _ ← TTEXT false [")"]
      BUILD_APP_NODE "foreach".toList start 3,
    do
      let _ ← TTEXT false ["assign"]
      let _ ← TTEXT false ["("]
      let taken ← TTYPE false .TK_LOCAL_VAR
      BUILD_NODE .TK_VAR taken.token.text taken.pos 0 0
      let _ ← TTEXT false [","]
      if level then TRY [NT (.ExprBackwardCompatible true), NT .ActionArgumentBackwardCompatible]
      else NT (.Term false MIN_PREC)
      let _ ← TTEXT false [")"]
      BUILD_APP_NODE (if level then "assignStr".toList else "assign".toList) start 2,
    do
      let _ ← TTEXT false ["forExec"]
      let _ ← TTEXT false ["("]
      NT (.Term false MIN_PREC)
      let _ ← TTEXT false [","]
      NT (.Term false MIN_PREC)
      let _ ← TTEXT false [","]
      NT (.Term false MIN_PREC)
      oldActions NT level
      oldActions NT level
      let _ ← TTEXT false [")"]
      BUILD_APP_NODE "for".toList start 5,
    do
      let _ ← TTEXT false ["breakExec"]
      BUILD_APP_NODE "break".toList start 0,
    do
      let _ ← TTEXT false ["delayExec"]
      let _ ← TTEXT false ["("]
      NT .ActionArgumentBackwardCompatible
      let taken ← TTEXT false [","]
      oldString taken.pos
      let taken ← TTEXT false [","]
      oldString taken.pos
      let _ ← TTEXT false [")"]
      BUILD_APP_NODE "delayExec".toList start 3,
    do
      let _ ← TTEXT false ["remoteExec"]
      let _ ← TTEXT false ["("]
      NT .ActionArgumentBackwardCompatible
      let _ ← TTEXT false [","]
      NT .ActionArgumentBackwardCompatible
      let taken ← TTEXT false [","]
      oldString taken.pos
      let taken ← TTEXT false [","]
      oldString taken.pos
      let _ ← TTEXT false [")"]
      BUILD_APP_NODE "remoteExec".toList start 4]

/-- The type the operands are converted to; those of the first operators are compared as strings. -/
def operandType (op : Text) : String :=
  if ["+", "-", "*", "/", "<", "<=", ">", ">="].any fun x => op = x.toList then "double"
  else if ["%%", "&&"].any fun x => op = x.toList then "bool"
  else "str"

def ExprBackwardCompatible (level : Bool) : Parser Unit := do
  let start ← BEGIN
  TRY [
    do
      ABORT level
      NT .TermBackwardCompatible,
    do
      let _ ← TTEXT false ["("]
      NT (.ExprBackwardCompatible level)
      let _ ← TTEXT false [")"],
    NT (.T false)]
  OPTIONAL do
    let taken ← TTYPE false .TK_OP
    let fn := taken.token.text
    ABORT (!isBinaryOp fn)
    let pos ← FPOS
    if ["like", "not like", "==", "!="].any fun x => fn = x.toList then
      BUILD_APP_NODE "str".toList pos 1
      NT .ActionArgumentBackwardCompatible
    else
      BUILD_APP_NODE (operandType fn).toList pos 1
      NT (.ExprBackwardCompatible true)
      let pos ← FPOS
      BUILD_APP_NODE (operandType fn).toList pos 1
    BUILD_APP_NODE fn start 2

def argument (n : Nat) : Parser Nat := do
  NT .ActionArgumentBackwardCompatible
  CHOICE [
    do
      let _ ← TTEXT false [","]
      return n + 1,
    do
      let _ ← TTEXT false [")"]
      .leave (n + 1)]

def TermBackwardCompatible : Parser Unit := do
  let start ← BEGIN
  TRY [
    NT (.TermSystemBackwardCompatible true),
    do
      let taken ← TTYPE false .TK_TEXT
      let _ ← TTEXT false ["("]
      let _ ← TTEXT false [")"]
      BUILD_APP_NODE taken.token.text start 0,
    do
      let taken ← TTYPE false .TK_TEXT
      let _ ← TTEXT false ["("]
      let n ← LOOP fuel 0 (argument NT)
      BUILD_APP_NODE taken.token.text start n,
    do
      let taken ← TTYPE false .TK_TEXT
      BUILD_APP_NODE taken.token.text start 0]

def ActionArgumentBackwardCompatible : Parser Unit := do
  let _ ← BEGIN
  TRY [
    do
      let vpos ← FPOS
      let taken ← TTYPE false .TK_LOCAL_VAR
      let _ ← TTEXT_LOOKAHEAD false [",", "|", ")"]
      BUILD_NODE .TK_VAR taken.token.text vpos 0 0,
    do
      command .sync
      let strtoken ← command .nextActionArgument
      if strtoken.type = .TK_STRING then NT (.StringExpression (some strtoken)) else BUILD_ERROR]

/-- The body of a parser function. -/
def parserFunction : NonTerminal → Parser Unit
  | .Term rulegen prec => Term fuel NT rulegen prec
  | .T rulegen => T rulegen
  | .Value rulegen => Value fuel NT rulegen
  | .StringExpression tk => StringExpression tk
  | .Actions rulegen backwardCompatible => Actions fuel NT rulegen backwardCompatible
  | .Column => Column
  | .QueryCond => QueryCond NT
  | .TermSystemBackwardCompatible level => TermSystemBackwardCompatible NT level
  | .ExprBackwardCompatible level => ExprBackwardCompatible NT level
  | .TermBackwardCompatible => TermBackwardCompatible fuel NT
  | .ActionArgumentBackwardCompatible => ActionArgumentBackwardCompatible NT

end Functions

/-- A parser function with calls up to a depth. -/
def parse : Nat → NonTerminal → Parser Unit
  | 0, _ => .stuck
  | fuel + 1, x => parserFunction fuel (parse fuel) x

end RuleParser
