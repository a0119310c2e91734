-- SUMMARY: The rule parser backtracks exactly.
import Irods.Frontend.Grammar
import Irods.Frontend.Backtracking

/-!
# Backtracking in the grammar

Tokens are given up in one place only, in front of an argument of an older action, and a token is
taken before every call that leads there. So every run of a parser function is exact while the queue
does not go round behind the parser's back; on a long operand it does.
-/

namespace RuleParser

open RuleParser.Parser

variable {α β : Type} {m m' : Bool} {NT : NonTerminal → Parser Unit}

variable {cmd : Command β}

theorem Command.Keeps.mono (h : cmd.Keeps m) (hle : m = true → m' = true) : cmd.Keeps m' := by
  cases cmd with
  | sync => exact hle h
  | _ => trivial

theorem Command.moves_mono (cmd : Command β) (x : β) (hle : m = true → m' = true) :
    cmd.moves m x = true → cmd.moves m' x = true := by
  cases cmd with
  | nextToken rulegen back =>
    simp only [Command.moves]
    split
    · exact hle
    · exact id
  | _ => exact hle

variable {f : α → Parser β} {p : Parser α} {ps : List (Parser Nat)} {xs : List String}

namespace Parser

theorem Keeps.mono : ∀ {m m' : Bool}, p.Keeps m → (m = true → m' = true) → p.Keeps m' := by
  induction p with
  | done a => exact fun _ _ => trivial
  | fail loc => exact fun _ _ => trivial
  | leave n => exact fun _ _ => trivial
  | stuck => exact fun _ _ => trivial
  | exec cmd k ih => exact fun h hle => ⟨h.1.mono hle, fun b => ih b (h.2 b) (cmd.moves_mono b hle)⟩
  | choice branches k ihbranches ih => exact fun h hle => ⟨ihbranches h.1 hle, fun n => ih n (h.2 n) hle⟩
  | orElse branch others k ihbranch ihothers ih =>
    exact fun h hle => ⟨h.1, ihothers h.2.1 hle, fun n => ih n (h.2.2 n) hle⟩
  | block body k exit ihbody ih ihexit =>
    exact fun h hle => ⟨ihbody h.1 hle, fun n => ih n (h.2.1 n) hle, fun n => ihexit n (h.2.2 n) hle⟩

theorem Keeps.bind : ∀ {m : Bool}, p.Keeps m → (∀ a, (f a).Keeps m) →
    (p >>= f).Keeps m := by
  induction p with
  | done a => exact fun _ hf => hf a
  | fail loc => exact fun _ _ => trivial
  | leave n => exact fun _ _ => trivial
  | stuck => exact fun _ _ => trivial
  | exec cmd k ih =>
    refine fun h hf => ⟨h.1, fun b => ih b (h.2 b) fun a => (hf a).mono fun hm => ?_⟩
    cases cmd with
    | nextToken rulegen back =>
      simp only [Command.moves]
      split
      · exact hm
      · rfl
    | _ => exact hm
  | choice branches k _ ih => exact fun h hf => ⟨h.1, fun n => ih n (h.2 n) hf⟩
  | orElse branch others k _ _ ih => exact fun h hf => ⟨h.1, h.2.1, fun n => ih n (h.2.2 n) hf⟩
  | block body k exit _ ih ihexit => exact fun h hf => ⟨h.1, fun n => ih n (h.2.1 n) hf, fun n => ihexit n (h.2.2 n) hf⟩

variable {rulegen : Bool}

/-- Behind a token that was taken, more may be given up. -/
theorem Keeps.taken {f : Taken → Parser β} (hf : ∀ a, (f a).Keeps true) :
    (NEXT_TOKEN rulegen (fun _ => false) >>= f).Keeps m := by
  refine ⟨trivial, fun pos => ⟨trivial, fun x => ?_⟩⟩
  obtain ⟨i, token⟩ := x
  show Keeps true (Parser.bind (if token.type = .N_ERROR then .fail (some pos) else .done ⟨i, token, pos⟩) f)
  split
  · trivial
  · exact hf _

theorem bind_assoc {γ : Type} {g : β → Parser γ} : (p >>= f) >>= g = p >>= fun a => f a >>= g := by
  show (p.bind f).bind g = p.bind fun a => (f a).bind g
  induction p with
  | done a => rfl
  | fail loc => rfl
  | leave n => rfl
  | stuck => rfl
  | exec cmd k ih => simp only [bind, ih]
  | choice branches k _ ih => simp only [bind, ih]
  | orElse branch others k _ _ ih => simp only [bind, ih]
  | block body k exit _ ih ihexit => simp only [bind, ih, ihexit]

theorem Keeps.ite {c : Prop} [Decidable c] {q : Parser α} (hp : p.Keeps m) (hq : q.Keeps m) :
    (if c then p else q).Keeps m := by
  split
  · exact hp
  · exact hq

theorem Keeps.text {f : Taken → Parser β} (hf : ∀ a, (f a).Keeps true) : (TTEXT rulegen xs >>= f).Keeps m := by
  rw [TTEXT, bind_assoc]
  refine .taken fun taken => ?_
  exact .bind (.ite trivial trivial) hf

theorem Keeps.type {type : Lexer.NodeType} {f : Taken → Parser β} (hf : ∀ a, (f a).Keeps true) :
    (TTYPE rulegen type >>= f).Keeps m := by
  rw [TTYPE, bind_assoc]
  refine .taken fun taken => ?_
  exact .bind (.ite trivial trivial) hf

theorem Keeps.exec (h : cmd.Keeps m) : (command cmd).Keeps m := by
  exact ⟨h, fun _ => trivial⟩

theorem Keeps.next {back : Token → Bool} : (NEXT_TOKEN rulegen back).Keeps m := by
  refine ⟨trivial, fun pos => ⟨trivial, fun x => ?_⟩⟩
  obtain ⟨i, token⟩ := x
  show Keeps _ (if token.type = .N_ERROR then .fail (some pos) else .done (⟨i, token, pos⟩ : Taken))
  split <;> trivial

theorem Keeps.lookahead : (TTEXT_LOOKAHEAD rulegen xs).Keeps m :=
  .bind .next fun _ => .ite trivial trivial

theorem Keeps.begin : BEGIN.Keeps m := .bind (.exec trivial) fun _ => .exec trivial

theorem Keeps.abort {b : Bool} : (ABORT b).Keeps m := .ite trivial trivial

theorem Keeps.alternatives (hfirst : ∀ p ∈ ps.dropLast, p.Keeps false) (hlast : ∀ p ∈ ps.getLast?, p.Keeps m) :
    (alternatives ps).Keeps m := by
  induction ps with
  | nil => trivial
  | cons p ps ih =>
    cases ps with
    | nil => exact hlast p rfl
    | cons q ps =>
      refine ⟨hfirst p List.mem_cons_self, ih (fun p hp => hfirst p (List.mem_cons_of_mem _ hp)) fun p hp => ?_,
        fun _ => trivial⟩
      exact hlast p (by rwa [List.getLast?_cons_cons])

/-- Alternatives none of which gives up its first token. -/
theorem Keeps.choice (h : ∀ p ∈ ps, p.Keeps false) : (CHOICE ps).Keeps m := by
  refine ⟨.alternatives (fun p hp => h p (List.dropLast_subset ps hp)) fun p hp => ?_, fun _ => trivial⟩
  exact (h p (List.mem_of_getLast? hp)).mono nofun

theorem Keeps.try {ps : List (Parser Unit)} (h : ∀ p ∈ ps, p.Keeps false) : (TRY ps).Keeps m := by
  refine .bind (.choice fun p hp => ?_) fun _ => trivial
  obtain ⟨q, hq, rfl⟩ := List.mem_map.mp hp
  exact .bind (h q hq) fun _ => trivial

/-- Only the last alternative may give up its first token. -/
theorem Keeps.tryLast {p q : Parser Unit} (hp : p.Keeps false) (hq : q.Keeps m) : (TRY [p, q]).Keeps m :=
  .bind ⟨⟨.bind hp fun _ => trivial, .bind hq fun _ => trivial, fun _ => trivial⟩, fun _ => trivial⟩ fun _ => trivial

theorem Keeps.optional {p : Parser Unit} (h : p.Keeps false) : (OPTIONAL p).Keeps m := .tryLast h trivial

theorem Keeps.loop {body : Nat → Parser Nat} (h : ∀ n, (body n).Keeps m) : ∀ fuel n, (LOOP fuel n body).Keeps m := by
  intro fuel
  induction fuel with
  | zero => exact fun _ => trivial
  | succ fuel ih => exact fun n => ⟨h n, ih, fun _ => trivial⟩

theorem Keeps.while {body : Parser Nat} (h : body.Keeps m) : ∀ fuel, (WHILE fuel body).Keeps m := by
  intro fuel
  induction fuel with
  | zero => trivial
  | succ fuel ih => exact .bind h fun _ => .ite trivial ih

end Parser

/-! ## The grammar -/

/-- An action argument is read past the queue, and stands behind a token. -/
def NonTerminal.late : NonTerminal → Bool
  | .ActionArgumentBackwardCompatible => true
  | _ => false

theorem each {ps : List (Parser α)} : (∀ q ∈ p :: ps, q.Keeps m) ↔ p.Keeps m ∧ ∀ q ∈ ps, q.Keeps m :=
  List.forall_mem_cons

/-- The functions that are called keep their first token. -/
def KeepsAll (NT : NonTerminal → Parser Unit) : Prop := ∀ x, (NT x).Keeps x.late

theorem KeepsAll.call (h : KeepsAll NT) (x : NonTerminal) (hlate : x.late = false) : (NT x).Keeps m :=
  (h x).mono fun heq => absurd (hlate.symm.trans heq) nofun

theorem KeepsAll.argument (h : KeepsAll NT) : (NT .ActionArgumentBackwardCompatible).Keeps true :=
  h .ActionArgumentBackwardCompatible

variable {fuel : Nat} {rulegen level : Bool} {start : Nat}

theorem Term_keeps (h : KeepsAll NT) {prec : Int} : (Term fuel NT rulegen prec).Keeps m := by
  refine .bind .begin fun start => .bind (h.call _ rfl) fun _ => .while (.choice ?_) _
  rw [each, each, each]
  refine ⟨?_, ?_, trivial, nofun⟩
  · have hfound (fn : Text) : (do BUILD_APP_NODE fn start 2; return 0 : Parser Nat).Keeps false :=
      .bind (.exec trivial) fun _ => trivial
    refine .bind .next fun taken => .ite (.bind trivial fun _ => ?_) ?_
    all_goals
      refine .bind .abort fun _ => .ite trivial (.bind (h.call _ rfl) fun _ => .ite (hfound _) ?_)
      exact .bind (.exec trivial) fun token => hfound token.text
  · refine .bind (.try ?_) fun _ => .bind (h.call _ rfl) fun _ => .bind (.exec trivial) fun _ => trivial
    rw [each, each]
    exact ⟨.bind .lookahead fun _ => trivial, .bind .lookahead fun _ => trivial, nofun⟩

theorem stringNodes_keeps (str : Text) (startLoc : Nat) : ∀ refs, (stringNodes str startLoc refs).Keeps m := by
  intro refs
  induction refs with
  | nil => trivial
  | cons ref refs ih =>
    exact .bind (.exec trivial) fun _ => .bind (.exec trivial) fun _ => .bind (.exec trivial) fun _ =>
      .bind (.exec trivial) fun _ => .bind (.exec trivial) fun _ => ih

theorem StringExpression_keeps (tk : Option Token) : (StringExpression tk).Keeps m := by
  refine .bind .begin fun _ => .bind ?_ fun strToken => ?_
  · cases tk with
    | none => exact .type fun _ => trivial
    | some _ => trivial
  · exact .ite (.bind trivial fun _ => .bind (.exec trivial) fun _ => stringNodes_keeps _ _ _)
      (.bind (.exec trivial) fun _ => stringNodes_keeps _ _ _)

theorem T_keeps : (T rulegen).Keeps m := by
  refine .bind .begin fun start => .try ?_
  rw [each, each, each, each]
  exact ⟨.type fun _ => .exec trivial, .type fun _ => .exec trivial, .type fun _ => .exec trivial,
    .type fun _ => .exec trivial, nofun⟩

theorem tuple_keeps (h : KeepsAll NT) : (tuple fuel NT rulegen start).Keeps m := by
  refine .text fun _ => .tryLast (.text fun _ => .exec trivial) (.bind (h.call _ rfl) fun _ =>
    .bind (.loop (fun n => .choice ?_) _ _) fun _ => .exec trivial)
  rw [each, each]
  exact ⟨.text fun _ => .bind (h.call _ rfl) fun _ => trivial, .text fun _ => trivial, nofun⟩

theorem listPart_keeps (h : KeepsAll NT) {part : NonTerminal} (hpart : part.late = false)
    (delim : List String) (n : Nat) :
    (listPart NT rulegen part delim n).Keeps m := by
  refine .bind (h.call _ hpart) fun _ => .choice ?_
  rw [each, each]
  exact ⟨.text fun _ => trivial, trivial, nofun⟩

theorem queryCond_keeps (h : KeepsAll NT) (n : Nat) : (queryCond fuel NT rulegen n).Keeps m := by
  refine .bind (h.call _ rfl) fun _ => .bind (.exec trivial) fun _ => .choice ?_
  rw [each, each]
  exact ⟨.text fun _ => trivial, trivial, nofun⟩

theorem query_keeps (h : KeepsAll NT) : (query fuel NT rulegen start).Keeps m :=
  .text fun _ => .bind (.loop (listPart_keeps h rfl _) _ _) fun _ => .bind (.exec trivial) fun _ =>
    .bind (.optional (.text fun _ => .bind (.loop (queryCond_keeps h) _ _) fun _ => trivial)) fun _ =>
      .bind (.exec trivial) fun _ => .exec trivial

theorem unary_keeps (h : KeepsAll NT) : (unary NT rulegen start).Keeps m :=
  .type fun _ => .bind .abort fun _ => .bind (h.call _ rfl) fun _ => .bind (.exec trivial) fun _ => .exec trivial

theorem nopAction_keeps : nopAction.Keeps m :=
  .bind (.exec trivial) fun _ => .bind (.exec trivial) fun _ => .exec trivial

theorem nop_keeps : nop.Keeps m := .bind (.exec trivial) fun _ => .exec trivial

theorem braces_keeps (h : KeepsAll NT) : (braces NT).Keeps m :=
  .text fun _ => .bind (h.call _ rfl) fun _ => .text fun _ => trivial

theorem condition_keeps (h : KeepsAll NT) : (condition NT).Keeps m :=
  .text fun _ => .bind (h.call _ rfl) fun _ => .text fun _ => trivial

theorem funcIf_keeps (h : KeepsAll NT) : (funcIf NT start).Keeps m := by
  refine .text fun _ => .bind (condition_keeps h) fun _ => .bind (.optional (.text fun _ => trivial)) fun _ =>
    .bind (braces_keeps h) fun _ => .bind (.try ?_) fun _ => .bind (.exec trivial) fun _ => .exec trivial
  rw [each, each, each]
  exact ⟨.text fun _ => .bind .lookahead fun _ => .bind (h.call _ rfl) fun _ => .bind (.exec trivial) fun _ =>
    nopAction_keeps, .text fun _ => braces_keeps h, .bind nopAction_keeps fun _ => nopAction_keeps, nofun⟩

theorem funcIf2_keeps (h : KeepsAll NT) : (funcIf2 NT start).Keeps m :=
  .text fun _ => .bind (h.call _ rfl) fun _ => .text fun _ => .bind (h.call _ rfl) fun _ => .bind nop_keeps fun _ =>
    .text fun _ => .bind (h.call _ rfl) fun _ => .bind nop_keeps fun _ => .bind (.exec trivial) fun _ => .exec trivial

theorem keyword_keeps {ys : List String} : (TRY [do let _ ← TTEXT true xs, do let _ ← TTEXT true ys]).Keeps m :=
  .tryLast (.text fun _ => trivial) (.text fun _ => trivial)

theorem funcWhile_keeps (h : KeepsAll NT) : (funcWhile NT start).Keeps m :=
  .bind keyword_keeps fun _ => .bind (condition_keeps h) fun _ => .bind (braces_keeps h) fun _ => .exec trivial

theorem funcForeach_keeps (h : KeepsAll NT) : (funcForeach NT start).Keeps m :=
  .bind keyword_keeps fun _ => .text fun _ => .type fun _ => .bind (.exec trivial) fun _ => .tryLast
    (.text fun _ => .bind (braces_keeps h) fun _ => .exec trivial)
    (.text fun _ => .bind (h.call _ rfl) fun _ => .text fun _ => .bind (braces_keeps h) fun _ => .exec trivial)

theorem funcFor_keeps (h : KeepsAll NT) : (funcFor NT start).Keeps m :=
  .bind keyword_keeps fun _ => .text fun _ => .bind (h.call _ rfl) fun _ => .text fun _ => .bind (h.call _ rfl) fun _ =>
    .text fun _ => .bind (h.call _ rfl) fun _ => .text fun _ => .bind (braces_keeps h) fun _ => .exec trivial

theorem dupString_keeps (start finish : Nat) : (dupString start finish).Keeps m :=
  .bind (.exec trivial) fun _ => .ite trivial trivial

theorem actionsText_keeps (h : KeepsAll NT) : (actionsText NT).Keeps m :=
  .text fun _ => .bind (.exec trivial) fun _ => .bind (h.call _ rfl) fun _ => .bind (.exec trivial) fun _ =>
    .bind (.exec trivial) fun _ => .bind (.exec trivial) fun _ => .text fun _ => .bind (dupString_keeps _ _) fun _ =>
      .bind (.exec trivial) fun _ => .exec trivial

theorem funcRemote_keeps (h : KeepsAll NT) : (funcRemote NT start).Keeps m :=
  .text fun _ => .text fun _ => .bind (h.call _ rfl) fun _ => .text fun _ => .bind (h.call _ rfl) fun _ =>
    .text fun _ => .bind (actionsText_keeps h) fun _ => .exec trivial

theorem funcDelay_keeps (h : KeepsAll NT) : (funcDelay NT start).Keeps m :=
  .text fun _ => .bind (condition_keeps h) fun _ => .bind (actionsText_keeps h) fun _ => .exec trivial

theorem funcLet_keeps (h : KeepsAll NT) : (funcLet NT start).Keeps m :=
  .text fun _ => .bind (h.call _ rfl) fun _ => .text fun _ => .bind (h.call _ rfl) fun _ => .text fun _ =>
    .bind (h.call _ rfl) fun _ => .exec trivial

theorem matchCase_keeps (h : KeepsAll NT) (n : Nat) : (matchCase NT n).Keeps m := by
  refine .bind (.exec trivial) fun _ => .bind (h.call _ rfl) fun _ => .text fun _ => .bind (h.call _ rfl) fun _ =>
    .bind (.exec trivial) fun _ => .choice ?_
  rw [each, each]
  exact ⟨.text fun _ => trivial, trivial, nofun⟩

theorem funcMatch_keeps (h : KeepsAll NT) : (funcMatch fuel NT start).Keeps m :=
  .text fun _ => .bind (h.call _ rfl) fun _ => .text fun _ => .bind (.optional (.text fun _ => trivial)) fun _ =>
    .bind (.loop (matchCase_keeps h) _ _) fun _ => .exec trivial

theorem application_keeps : (application rulegen start).Keeps m := by
  refine .type fun _ => .bind .abort fun _ => .bind (.exec trivial) fun _ => .try ?_
  rw [each, each, each]
  exact ⟨.bind .lookahead fun _ => trivial, .bind .lookahead fun _ => trivial,
    .bind (.exec trivial) fun _ => .exec trivial, nofun⟩

theorem func_keeps (h : KeepsAll NT) : (func fuel NT rulegen start).Keeps m := by
  refine .try ?_
  rw [each, each, each, each, each, each, each, each, each, each]
  exact ⟨.bind .abort fun _ => .tryLast (funcIf_keeps h) (funcIf2_keeps h), .bind .abort fun _ => funcWhile_keeps h,
    .bind .abort fun _ => funcForeach_keeps h, .bind .abort fun _ => funcFor_keeps h,
    .bind .abort fun _ => funcRemote_keeps h, .bind .abort fun _ => funcDelay_keeps h,
    .bind .abort fun _ => funcLet_keeps h, .bind .abort fun _ => funcMatch_keeps h,
    .bind .abort fun _ => h.call _ rfl, application_keeps, nofun⟩

theorem Value_keeps (h : KeepsAll NT) : (Value fuel NT rulegen).Keeps m := by
  refine .bind .begin fun start => .try ?_
  rw [each, each, each, each, each, each, each, each]
  refine ⟨h.call _ rfl, .text fun _ => .exec trivial, tuple_keeps h, ?_, unary_keeps h, query_keeps h, func_keeps h,
    h.call _ rfl, nofun⟩
  exact .text fun _ => .bind (h.call _ rfl) fun _ => .ite (.bind (.exec trivial) fun _ => .text fun _ => trivial)
    (.text fun _ => trivial)

variable {old : Bool}

theorem action_keeps (h : KeepsAll NT) (n : Nat) : (action NT rulegen old n).Keeps m := by
  have hrest : (if rulegen then do
        TRY [do let _ ← TTEXT rulegen [":::"]; NT (.Term rulegen MIN_PREC), BUILD_APP_NODE "nop".toList 0 0]
        OPTIONAL do
          let _ ← TTEXT rulegen [";"]
        OPTIONAL do
          let _ ← TTEXT_LOOKAHEAD rulegen ["\x7d"]
          .leave (n + 1)
        return n + 1
      else
        CHOICE [do let _ ← TTEXT rulegen ["##"]; return n + 1, .leave (n + 1)] : Parser Nat).Keeps m := by
    refine .ite (.bind (.tryLast (.text fun _ => h.call _ rfl) (.exec trivial)) fun _ =>
      .bind (.optional (.text fun _ => trivial)) fun _ => .bind (.optional (.bind .lookahead fun _ => trivial)) fun _ =>
        trivial) (.choice ?_)
    rw [each, each]
    exact ⟨.text fun _ => trivial, trivial, nofun⟩
  exact .ite (.bind (h.call _ rfl) fun _ => hrest) (.bind (h.call _ rfl) fun _ => hrest)

theorem Actions_keeps (h : KeepsAll NT) : (Actions fuel NT rulegen old).Keeps m := by
  have hactions (start n : Nat) : (do
      BUILD_NODE .N_ACTIONS "ACTIONS".toList start n n
      if rulegen then
        let node ← command .POP
        BUILD_NODE .N_ACTIONS "ACTIONS".toList start n n
        command (.build (Context.PUSH node))).Keeps m :=
    .bind (.exec trivial) fun _ => .ite (.bind (.exec trivial) fun _ => .bind (.exec trivial) fun _ => .exec trivial)
      trivial
  refine .bind .begin fun start => .bind (.choice ?_) fun n => .ite (.bind (.exec trivial) fun _ => hactions start n)
    (hactions start n)
  rw [each, each]
  exact ⟨.bind .abort fun _ => .bind .lookahead fun _ => trivial, .loop (action_keeps h) _ _, nofun⟩

theorem Column_keeps : Column.Keeps m := by
  refine .bind .begin fun _ => .tryLast (.bind (.exec trivial) fun _ => .bind (.choice fun p hp => ?_) fun _ =>
    .text fun _ => .bind (.exec trivial) fun _ => .type fun _ => .bind (.exec trivial) fun _ => .text fun _ =>
      .exec trivial) (.bind (.exec trivial) fun _ => .type fun _ => .bind (.exec trivial) fun _ => .exec trivial)
  obtain ⟨⟨names, i⟩, -, rfl⟩ := List.mem_map.mp hp
  exact .text fun _ => trivial

theorem compare_keeps (h : KeepsAll NT) {texts : List String} {op : String} : (compare NT start texts op).Keeps m :=
  .text fun _ => .bind (h.call _ rfl) fun _ => .exec trivial

theorem QueryCond_keeps (h : KeepsAll NT) : (QueryCond NT).Keeps m := by
  refine .bind .begin fun start => .try ?_
  rw [each]
  refine ⟨.bind (h.call _ rfl) fun _ => .try ?_, nofun⟩
  rw [each, each, each, each, each, each, each, each, each, each]
  exact ⟨compare_keeps h, compare_keeps h, compare_keeps h, compare_keeps h, compare_keeps h, compare_keeps h,
    compare_keeps h, .text fun _ => .bind (h.call _ rfl) fun _ => .bind (h.call _ rfl) fun _ => .exec trivial,
    compare_keeps h, .text fun _ => compare_keeps h, nofun⟩

theorem oldCondition_keeps (h : KeepsAll NT) : (oldCondition NT level).Keeps m := .ite (h.call _ rfl) (h.call _ rfl)

theorem oldActions_keeps (h : KeepsAll NT) : (oldActions NT level).Keeps m := .text fun _ => h.call _ rfl

theorem buildError_keeps : BUILD_ERROR.Keeps m := .bind (.exec trivial) fun _ => trivial

theorem oldString_keeps {pos : Nat} : (oldString pos).Keeps m :=
  .bind (.exec trivial) fun _ => .ite (.exec trivial) buildError_keeps

theorem TermSystemBackwardCompatible_keeps (h : KeepsAll NT) : (TermSystemBackwardCompatible NT level).Keeps m := by
  have hassign (start : Nat) : (do
      let _ ← TTEXT false [")"]
      BUILD_APP_NODE (if level then "assignStr".toList else "assign".toList) start 2).Keeps true :=
    .text fun _ => .exec trivial
  refine .bind .begin fun start => .try ?_
  rw [each, each, each, each, each, each, each, each]
  refine ⟨?_, ?_, ?_, ?_, ?_, .text fun _ => .exec trivial, ?_, ?_, nofun⟩
  · exact .text fun _ => .text fun _ => .bind (oldCondition_keeps h) fun _ => .bind (oldActions_keeps h) fun _ =>
      .bind (oldActions_keeps h) fun _ => .bind (oldActions_keeps h) fun _ => .bind (oldActions_keeps h) fun _ =>
        .text fun _ => .exec trivial
  · exact .text fun _ => .text fun _ => .bind (oldCondition_keeps h) fun _ => .bind (oldActions_keeps h) fun _ =>
      .bind (oldActions_keeps h) fun _ => .text fun _ => .exec trivial
  · exact .text fun _ => .text fun _ => .type fun _ => .bind (.exec trivial) fun _ =>
        .bind (oldActions_keeps h) fun _ =>
      .bind (oldActions_keeps h) fun _ => .text fun _ => .exec trivial
  · exact .text fun _ => .text fun _ => .type fun _ => .bind (.exec trivial) fun _ => .text fun _ =>
      .ite (.bind (.tryLast (h.call _ rfl) h.argument) fun _ => hassign start)
        (.bind (h.call _ rfl) fun _ => hassign start)
  · exact .text fun _ => .text fun _ => .bind (h.call _ rfl) fun _ => .text fun _ => .bind (h.call _ rfl) fun _ =>
      .text fun _ => .bind (h.call _ rfl) fun _ => .bind (oldActions_keeps h) fun _ =>
          .bind (oldActions_keeps h) fun _ =>
        .text fun _ => .exec trivial
  · exact .text fun _ => .text fun _ => .bind h.argument fun _ => .text fun _ => .bind oldString_keeps fun _ =>
      .text fun _ => .bind oldString_keeps fun _ => .text fun _ => .exec trivial
  · exact .text fun _ => .text fun _ => .bind h.argument fun _ => .text fun _ =>
        .bind h.argument fun _ => .text fun _ =>
      .bind oldString_keeps fun _ => .text fun _ => .bind oldString_keeps fun _ => .text fun _ => .exec trivial

theorem ExprBackwardCompatible_keeps (h : KeepsAll NT) : (ExprBackwardCompatible NT level).Keeps m := by
  refine .bind .begin fun start => .bind (.try ?_) fun _ => .optional (.type fun taken => .bind .abort fun _ =>
    .bind (.exec trivial) fun _ => .ite (.bind (.exec trivial) fun _ => .bind h.argument fun _ => .exec trivial)
      (.bind (.exec trivial) fun _ => .bind (h.call _ rfl) fun _ => .bind (.exec trivial) fun _ =>
        .bind (.exec trivial) fun _ => .exec trivial))
  rw [each, each, each]
  exact ⟨.bind .abort fun _ => h.call _ rfl, .text fun _ => .bind (h.call _ rfl) fun _ => .text fun _ => trivial,
    h.call _ rfl, nofun⟩

theorem argument_keeps (h : KeepsAll NT) (n : Nat) : (argument NT n).Keeps true := by
  refine .bind h.argument fun _ => .choice ?_
  rw [each, each]
  exact ⟨.text fun _ => trivial, .text fun _ => trivial, nofun⟩

theorem TermBackwardCompatible_keeps (h : KeepsAll NT) : (TermBackwardCompatible fuel NT).Keeps m := by
  refine .bind .begin fun start => .try ?_
  rw [each, each, each, each]
  exact ⟨h.call _ rfl, .type fun _ => .text fun _ => .text fun _ => .exec trivial,
    .type fun _ => .text fun _ => .bind (.loop (argument_keeps h) _ _) fun _ => .exec trivial,
    .type fun _ => .exec trivial, nofun⟩

theorem ActionArgumentBackwardCompatible_keeps (h : KeepsAll NT) : (ActionArgumentBackwardCompatible NT).Keeps true :=
  .bind .begin fun _ => .tryLast
    (.bind (.exec trivial) fun _ => .type fun _ => .bind .lookahead fun _ => .exec trivial)
    (.bind (.exec rfl) fun _ => .bind (.exec trivial) fun _ => .ite (h.call _ rfl) buildError_keeps)

theorem parserFunction_keeps (h : KeepsAll NT) : KeepsAll (parserFunction fuel NT)
  | .Term _ _ => Term_keeps h
  | .T _ => T_keeps
  | .Value _ => Value_keeps h
  | .StringExpression _ => StringExpression_keeps _
  | .Actions _ _ => Actions_keeps h
  | .Column => Column_keeps
  | .QueryCond => QueryCond_keeps h
  | .TermSystemBackwardCompatible _ => TermSystemBackwardCompatible_keeps h
  | .ExprBackwardCompatible _ => ExprBackwardCompatible_keeps h
  | .TermBackwardCompatible => TermBackwardCompatible_keeps h
  | .ActionArgumentBackwardCompatible => ActionArgumentBackwardCompatible_keeps h

/-- No function of the grammar gives up its first token but the one for an action argument. -/
theorem parse_keeps : ∀ fuel, KeepsAll (parse fuel) := by
  intro fuel
  induction fuel with
  | zero => exact fun _ => trivial
  | succ fuel ih => exact parserFunction_keeps ih

/-! ## Runs of the parser -/

/-- A new context has an empty queue and empty stacks; what memory holds is left as it is. -/
def newParserContext (e : Source) (tokenQueue : Nat → Token) (stackTopStack locals : Nat → Nat) : State where
  e
  queue := ⟨tokenQueue, 0, 0, 0⟩
  context := ⟨fun _ => none, 0, stackTopStack, 0, none⟩
  locals
  position := ⟨0, 0, 0⟩
  trace := []

variable (depth : Nat) (x : NonTerminal) (e : Source) (tokenQueue : Nat → Token)
  (stackTopStack locals : Nat → Nat)

theorem newParserContext_kept : (newParserContext e tokenQueue stackTopStack locals).Kept :=
  ⟨tokenQueue, ⟨rfl, rfl, le_rfl, Nat.lt_add_of_pos_right (show 0 < slots by decide), le_rfl, Nat.zero_le _,
    .start _ _ _⟩, nofun⟩

/-- The record of a parser function on a source. -/
def record (depth : Nat) (x : NonTerminal) (s : State) : List Event := (run (parse depth x) s).2.trace

/-- Backtracking is exact in every run in which each token stays in its slot and the queue has not gone
round when the parser goes back. -/
theorem parse_exact
    (hnear : ∀ event ∈ record depth x (newParserContext e tokenQueue stackTopStack locals), Near event) :
    Exact (record depth x (newParserContext e tokenQueue stackTopStack locals)) := by
  have hkeeps : (parse depth x).Keeps true := (parse_keeps depth x).mono fun _ => rfl
  have hkept := newParserContext_kept e tokenQueue stackTopStack locals
  exact (run_ran _ hkeeps (Nat.zero_le _) (fun _ => Nat.zero_le _) hkept trivial hnear).exact

/-- The start of a run on a text. -/
def onText (text : Text) : State :=
  newParserContext ⟨text, text⟩ (fun _ => ⟨.TK_EOS, [], [], 0⟩) (fun _ => 0) fun _ => 0

theorem parse_exact_sum : Exact (record 3 (.Term true MIN_PREC) (onText "1 + 2 * *x".toList)) := by
  refine parse_exact _ _ _ _ _ _ ?_
  decide +kernel

/-- Has the kept token that was looked at last another text than was expected? -/
def overtaken (trace : List Event) : Bool :=
  match trace.dropWhile fun | .used _ _ _ => false | _ => true with
  | .used i _ token :: rest => (expected rest i).any fun t => t.text ≠ token.text
  | _ => false

variable {trace : List Event}

theorem Exact.dropWhile (h : Exact trace) (p : Event → Bool) : Exact (trace.dropWhile p) := by
  induction trace with
  | nil => exact h
  | cons e trace ih =>
    rw [List.dropWhile_cons]
    split
    · refine ih ?_
      cases e with
      | dropped _ => exact h
      | overran _ => exact h
      | _ => exact h.1
    · exact h

theorem Exact.not_overtaken (h : Exact trace) : overtaken trace = false := by
  rw [overtaken]
  split
  · rename_i i passed token rest hrest
    have hused : Exact (.used i passed token :: rest) := hrest ▸ h.dropWhile _
    cases hexpected : expected rest i with
    | none => rfl
    | some t => simp [hused.2 t hexpected]
  · rfl

/-- More columns. -/
def columns : Nat → Text
  | 0 => []
  | n + 1 => ",count(a)".toList ++ columns n

theorem not_exact_of_overtaken (h : overtaken trace = true) : overtaken trace = true ∧ ¬ Exact trace :=
  ⟨h, fun hexact => absurd (h.symm.trans hexact.not_overtaken) nofun⟩

/-- The right operand has more tokens than the queue: the name of the operator is gone when it is parsed. -/
theorem operator_overtaken :
    overtaken (record 300 (.Term true MIN_PREC) (onText ("1+select count(a)".toList ++ columns 204))) = true ∧
      ¬ Exact (record 300 (.Term true MIN_PREC) (onText ("1+select count(a)".toList ++ columns 204))) :=
  not_exact_of_overtaken (by decide +kernel)

end RuleParser
