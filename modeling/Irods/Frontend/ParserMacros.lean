-- SUMMARY: The macros the rule parser is written in.
import Irods.Frontend.TokenQueue
import Mathlib.Data.List.DropRight

/-!
# The macros of the parser

A parser function is a tree of commands: it takes tokens, looks at tokens it has kept, builds nodes,
tries alternatives one after another and leaves loops. `run` is what the macros do with the parser
context. A failed alternative is an error, and the next one begins where the saved index points to.

The commands also write down which tokens were seen where. `Exact` says of such a record that every
alternative starts with the token the failed one started with, and that a kept token is still the one
that was handed out.
-/

namespace RuleParser

open Lexer (NodeType)

/-! ## Nodes -/

inductive TreeType where
  | TK_TEXT | TK_BOOL | TK_VAR | TK_INT | TK_DOUBLE | TK_STRING | TK_COL | N_TUPLE | N_APPLICATION | N_ACTIONS
  | N_ACTIONS_RECOVERY | N_ATTR | N_QUERY_COND
deriving DecidableEq

inductive Node where
  | mk (type : TreeType) (text : Text) (exprloc : Nat) (subtrees : List Node)

def Node.text : Node → Text
  | .mk _ text _ _ => text

/-- The node stack, the stack of its tops, and the place of the error that is reported. -/
structure Context where
  nodeStack : Nat → Option Node
  nodeStackTop : Nat
  stackTopStack : Nat → Nat
  stackTopStackTop : Nat
  errloc : Option Nat

namespace Context

/-- The room on both stacks. -/
def room : Nat := 1024

def PUSH (n : Node) (c : Context) : Option Context :=
  if c.nodeStackTop < room then
    some { c with
      nodeStack := fun i => if i = c.nodeStackTop then some n else c.nodeStack i
      nodeStackTop := c.nodeStackTop + 1 }
  else none

def POP (c : Context) : Option (Node × Context) :=
  if c.nodeStackTop = 0 then none
  else (c.nodeStack (c.nodeStackTop - 1)).map fun n => (n, { c with nodeStackTop := c.nodeStackTop - 1 })

/-- The uppermost `deg` nodes become the subtrees of a new one, `consume` are taken off. -/
def BUILD_NODE (type : TreeType) (text : Text) (loc deg consume : Nat) (c : Context) : Option Context :=
  if c.nodeStackTop < deg ∨ c.nodeStackTop < consume then none
  else do
    let subtrees ← (List.range deg).mapM fun i => c.nodeStack (c.nodeStackTop - deg + i)
    PUSH (.mk type text loc subtrees) { c with nodeStackTop := c.nodeStackTop - consume }

def SWAP (c : Context) : Option Context := do
  let (node, c) ← POP c
  let (node2, c) ← POP c
  let c ← PUSH node c
  PUSH node2 c

/-- `n` pairs are pulled apart. -/
def UNZIP (n : Nat) (c : Context) : Option Context :=
  if c.nodeStackTop < 2 * n then none
  else
    let bottom := c.nodeStackTop - 2 * n
    some { c with
      nodeStack := fun i =>
        if i < bottom ∨ c.nodeStackTop ≤ i then c.nodeStack i
        else if i < bottom + n then c.nodeStack (bottom + 2 * (i - bottom))
        else c.nodeStack (bottom + 2 * (i - bottom - n) + 1) }

def BUILD_APP_NODE (cons : Text) (loc deg : Nat) (c : Context) : Option Context := do
  let c ← BUILD_NODE .N_TUPLE "<>".toList loc deg deg c
  let c ← BUILD_NODE .TK_TEXT cons loc 0 0 c
  let c ← SWAP c
  BUILD_NODE .N_APPLICATION "()".toList loc 2 2 c

def choiceBegin (c : Context) : Option Context :=
  if c.stackTopStackTop < room then
    some { c with
      stackTopStack := fun i => if i = c.stackTopStackTop then c.nodeStackTop else c.stackTopStack i
      stackTopStackTop := c.stackTopStackTop + 1 }
  else none

def branchBegin (c : Context) : Context := { c with nodeStackTop := c.stackTopStack (c.stackTopStackTop - 1) }

def choiceEnd (c : Context) : Context := { c with stackTopStackTop := c.stackTopStackTop - 1 }

def updateErrLoc (loc : Nat) (c : Context) : Context :=
  if c.errloc.all (· < loc) then { c with errloc := some loc } else c

end Context

/-! ## Commands -/

def isspace (c : Char) : Bool := isBlank c || c = '\x0b' || c = '\x0c'

/-- The argument is read from the source, past the queue, into a token that is no larger than a slot. -/
def nextActionArgumentStringBackwardCompatible (e : Source) : Option (Token × Source) :=
  let e := e.skipWhitespace
  let exprloc := e.exprloc e.rest
  match e.rest.head? with
  | none => some (⟨.TK_EOS, "EOS".toList, [], exprloc⟩, e)
  | some ch =>
    let quoted := ch = '\"' ∨ ch = '\''
    let reading := if quoted then nextStringBase .string [ch] '\\' e.rest else nextStringParsed e.rest
    match reading.literal with
    | some l =>
      if reading.Fits then
        if quoted then
          some (⟨.TK_STRING, l.token.text, l.token.vars, exprloc⟩, { e with rest := reading.rest }.skipWhitespace)
        else some (⟨.TK_STRING, l.token.text.rdropWhile isspace, l.token.vars, exprloc⟩,
          { e with rest := reading.rest })
      else none
    | none => none

/-- What is written down: a token handed out, a kept token looked at after `passed` tokens were lexed
from it on, an alternative tried after a failed one with that one's first token, the tokens given up
from one on (`syncTokenQueue` seeks to the `exprloc` of the first of them), and a token written behind its slot. -/
inductive Event where
  | shows (i : Nat) (token : Token)
  | used (i passed : Nat) (token : Token)
  | retried (i queued passed : Nat) (started : Option Token)
  | dropped (i : Nat)
  | overran (i : Nat)

structure State where
  e : Source
  queue : TokenQueue
  context : Context
  /-- Variables that keep their value when an alternative fails, one for each depth of the calls. -/
  locals : Nat → Nat
  position : Position
  /-- The latest event comes first. -/
  trace : List Event

/-- A kept token is a position; a token that was taken may be put back at once. -/
inductive Command : Type → Type where
  | nextToken (rulegen : Bool) (back : Token → Bool) : Command (Nat × Token)
  | look (i : Nat) : Command Token
  | FPOS : Command Nat
  | skipWhitespace : Command Unit
  | sync : Command Unit
  | nextActionArgument : Command Token
  | source : Command Text
  | build (f : Context → Option Context) : Command Unit
  | POP : Command Node
  | assign (depth n : Nat) : Command Unit
  | read (depth : Nat) : Command Nat

def Command.exec {β : Type} : Command β → State → Option (β × State)
  | .nextToken rulegen back, s =>
    (nextTokenRuleGen rulegen s.e s.queue).map fun (slot, e, queue) =>
      let token := queue.tokenQueue slot
      let position := s.position.next (decide (s.queue.tqp = s.queue.tqtop))
      ((s.position.read, token),
        { s with
          e
          queue := if back token then pushback token queue else queue
          position := if back token then position.back token else position
          trace := .shows s.position.read token :: s.trace })
  | .look i, s =>
    let token := s.queue.tokenQueue (i % slots)
    some (token, { s with trace := .used i (s.position.peak - i) token :: s.trace })
  | .FPOS, s => some (getFPos s.e s.queue, s)
  | .skipWhitespace, s => some ((), { s with e := s.e.skipWhitespace })
  | .sync, s =>
    let (e, queue) := syncTokenQueue s.e s.queue
    some ((), { s with e, queue, position := s.position.sync, trace := .dropped s.position.read :: s.trace })
  | .nextActionArgument, s =>
    (nextActionArgumentStringBackwardCompatible s.e).map fun (argument, e) => (argument, { s with e })
  | .source, s => some (s.e.text, s)
  | .build f, s => (f s.context).map fun context => ((), { s with context })
  | .POP, s => s.context.POP.map fun (n, context) => (n, { s with context })
  | .assign depth n, s => some ((), { s with locals := Function.update s.locals depth n })
  | .read depth, s => some (s.locals depth, s)

/-- Behind a command that is undefined: the readers of tokens leave their slot then. -/
def Command.undefined {β : Type} : Command β → State → State
  | .nextToken _ _, s => { s with trace := .overran s.position.read :: s.trace }
  | .nextActionArgument, s => { s with trace := .overran s.position.read :: s.trace }
  | _, s => s

/-! ## Parsers -/

/-- `fail` is an error, reported when its place is the furthest; `leave` goes to the end of a loop;
`stuck` is what the model says nothing about. `orElse` tries the alternatives of a choice. -/
inductive Parser : Type → Type 1 where
  | done {α : Type} (a : α) : Parser α
  | fail {α : Type} (loc : Option Nat) : Parser α
  | leave {α : Type} (n : Nat) : Parser α
  | stuck {α : Type} : Parser α
  | exec {α β : Type} (cmd : Command β) (k : β → Parser α) : Parser α
  | choice {α : Type} (branches : Parser Nat) (k : Nat → Parser α) : Parser α
  | orElse {α : Type} (branch others : Parser Nat) (k : Nat → Parser α) : Parser α
  | block {α : Type} (body : Parser Nat) (k exit : Nat → Parser α) : Parser α

namespace Parser

variable {α β : Type}

def bind : Parser α → (α → Parser β) → Parser β
  | .done a, f => f a
  | .fail loc, _ => .fail loc
  | .leave n, _ => .leave n
  | .stuck, _ => .stuck
  | .exec cmd k, f => .exec cmd fun b => (k b).bind f
  | .choice branches k, f => .choice branches fun n => (k n).bind f
  | .orElse branch others k, f => .orElse branch others fun n => (k n).bind f
  | .block body k exit, f => .block body (fun n => (k n).bind f) (fun n => (exit n).bind f)

instance : Monad Parser where
  pure := .done
  bind := bind

end Parser

inductive Outcome (α : Type) where
  | done (a : α)
  | fail
  | leave (n : Nat)
  | stuck

/-- Goes on after a normal end. -/
def Outcome.andThen {α : Type} : Outcome Nat × State → (Nat → State → Outcome α × State) → Outcome α × State
  | (.done n, s), k => k n s
  | (.fail, s), _ => (.fail, s)
  | (.leave n, s), _ => (.leave n, s)
  | (.stuck, s), _ => (.stuck, s)

namespace State

def failAt (loc : Option Nat) (s : State) : State :=
  match loc with
  | some loc => { s with context := s.context.updateErrLoc loc }
  | none => s

def choiceEnd (s : State) : State := { s with context := s.context.choiceEnd }

def choiceFail (s : State) : State :=
  { s with context := (s.context.updateErrLoc (getFPos s.e s.queue)).choiceEnd }

/-- The token that was first seen at a position since. -/
def startedWith (old : List Event) (i : Nat) (new : List Event) : Option Token :=
  (new.take (new.length - old.length)).reverse.findSome? fun
    | .shows j token => if i = j then some token else none
    | _ => none

/-- The next alternative begins in the state the failed one leaves behind, at the saved index. -/
def retry (start s : State) : State :=
  { s with
    queue := { s.queue with tqp := start.queue.tqp }
    context := s.context.branchBegin
    position := { s.position with read := start.position.read }
    trace := .retried start.position.read (s.position.lexed - start.position.read)
      (s.position.peak - start.position.read) (startedWith start.trace start.position.read s.trace) :: s.trace }

end State

def run {α : Type} : Parser α → State → Outcome α × State
  | .done a, s => (.done a, s)
  | .fail loc, s => (.fail, s.failAt loc)
  | .leave n, s => (.leave n, s)
  | .stuck, s => (.stuck, s)
  | .exec cmd k, s =>
    match cmd.exec s with
    | some (b, s') => run (k b) s'
    | none => (.stuck, cmd.undefined s)
  | .choice branches k, s =>
    match s.context.choiceBegin with
    | none => (.stuck, s)
    | some context =>
      match run branches { s with context } with
      | (.fail, s') => (.fail, s'.choiceFail)
      | ended => Outcome.andThen ended fun n s' => run (k n) s'.choiceEnd
  | .orElse branch others k, s =>
    match run branch s with
    | (.fail, s') => Outcome.andThen (run others (s.retry s')) fun n s'' => run (k n) s''
    | ended => Outcome.andThen ended fun n s' => run (k n) s'
  | .block body k exit, s =>
    match run body s with
    | (.leave n, s') => run (exit n) s'
    | ended => Outcome.andThen ended fun n s' => run (k n) s'

end RuleParser
