-- SUMMARY: Every statement is bound with what was pushed for it.
import Irods.Icat.SlotsKept
import Irods.Icat.ConditionRoom
import Irods.Icat.BindTable

/-!
# Statements and their bind variables

Nothing is left on the table when an operation begins if every operation before it emptied
the table. An operation does, unless it pushes something and does not come to the execution
that binds it: a query that is refused after a literal was taken from a condition, or a
statement that gets no handle, no slot or no transaction.
-/

namespace BindTable

open CString GenQuery Statements EStateM

/-- The errors do not matter. -/
abbrev Any : Misuse → Prop := fun _ => True

/-! ## Tables -/

/-- Every statement was bound with what was pushed for it. -/
def Binds.LogExact (b : Binds) : Prop := ∀ e ∈ b.log, e.pushed = e.bound

/-- What is on the table is for the statement at hand. -/
structure Binds.Aligned (b : Binds) : Prop where
  log : b.LogExact
  start : b.start = 0

/-- Between two operations. -/
structure Binds.Settled (b : Binds) : Prop where
  log : b.LogExact
  empty : b.cllBindVars = []

namespace Binds

variable {b : Binds}

theorem Settled.begin (h : b.Settled) : b.begin.Aligned :=
  ⟨h.log, by simp only [Binds.begin, h.empty, List.length_nil]⟩

theorem Aligned.push (h : b.Aligned) (v : BindVar) : (b.push v).Aligned := ⟨h.log, h.start⟩

theorem Aligned.settled (h : b.Aligned) (hempty : b.cllBindVars = []) : b.Settled := ⟨h.log, hempty⟩

theorem Aligned.bindTheVariables (h : b.Aligned) : b.bindTheVariables.Settled := by
  refine ⟨fun e he => ?_, rfl⟩
  rcases List.mem_append.mp he with hold | hnew
  · exact h.log e hold
  · obtain rfl := List.mem_singleton.mp hnew
    simp only [h.start, List.drop_zero]

end Binds

/-! ## The generators -/

variable {inp : GenQueryInp} {b b' : Binds}

variable {S : Schema} {session : Session} {status : Int} {localZone : Text}

theorem generateSQL_aligned (h : b.Aligned) (hgen : (∃ sql, generateSQL S session inp b = .sql sql b') ∨
      ∃ status, generateSQL S session inp b = .refused status b') :
    b'.Aligned := by
  unfold generateSQL at hgen
  split at hgen
  · obtain ⟨sql, ⟨⟩⟩ | ⟨status, hnot⟩ := hgen
    · exact ⟨h.log, h.start⟩
    · cases hnot
  · obtain ⟨sql, hnot⟩ | ⟨status, ⟨⟩⟩ := hgen
    · cases hnot
    · exact ⟨h.log, h.start⟩
  · obtain ⟨sql, hnot⟩ | ⟨status, hnot⟩ := hgen <;> cases hnot

/-- Nothing was pushed by a query that is refused before a literal is taken. -/
theorem generateSQL_refused_empty
    (hinp : (∃ col ∈ inp.selectInp, Query.Unselectable S session col.1) ∨ Query.Untaken S inp.sqlCondInp)
    (hempty : b.cllBindVars = []) (hgen : generateSQL S session inp b = .refused status b') :
    b'.cllBindVars = [] := by
  unfold generateSQL at hgen
  split at hgen
  · cases hgen
  · rename_i status' q hrun
    obtain ⟨rfl, rfl⟩ := Generated.refused.inj hgen
    have hsame := Query.generateSQL_refused hinp hrun
    simp only [Binds.after, hsame, Binds.atStart, hempty, List.map_nil, List.drop_nil, List.append_nil]
  · cases hgen

theorem foldl_aligned {α : Type} {f : Binds → α → Binds} (hf : ∀ b a, b.Aligned → (f b a).Aligned) :
    ∀ {l : List α} {b : Binds}, b.Aligned → (l.foldl f b).Aligned
  | [], _, h => h
  | a :: l, b, h => foldl_aligned (l := l) hf (hf b a h)

theorem generateSpecialQuery_aligned (h : b.Aligned)
    (hgen : (∃ sql, generateSpecialQuery localZone inp b = .sql sql b') ∨
      ∃ status, generateSpecialQuery localZone inp b = .refused status b') :
    b'.Aligned := by
  unfold generateSpecialQuery at hgen
  split at hgen
  · obtain ⟨sql, hnot⟩ | ⟨status, ⟨⟩⟩ := hgen
    · cases hnot
    · exact h
  · obtain ⟨sql, ⟨⟩⟩ | ⟨status, hnot⟩ := hgen
    · have huser := foldl_aligned (f := addQuotaUser localZone) (l := valuesOf inp COL_USER_NAME)
        (fun _ _ hb => ⟨hb.log, hb.start⟩) h
      exact foldl_aligned (f := addQuotaResource) (fun _ _ hb => ⟨hb.log, hb.start⟩) huser
    · cases hnot

theorem generateSpecialQuery_refused (hgen : generateSpecialQuery localZone inp b = .refused status b') : b' = b := by
  unfold generateSpecialQuery at hgen
  split at hgen
  · cases hgen
    rfl
  · cases hgen

variable {w : Setting} {inp : GenQueryInp} {b b' : Binds}

theorem generate_aligned (h : b.Settled) (hgen : (∃ sql, (generator w).generate inp b = .sql sql b') ∨
    ∃ status, (generator w).generate inp b = .refused status b') : b'.Aligned := by
  simp only [generator] at hgen
  split at hgen
  · exact generateSpecialQuery_aligned h.begin hgen
  · exact generateSQL_aligned h.begin hgen

/-- A quota query is refused at once; another one for a column, or before a literal of its
conditions is taken. -/
def RefusedEarly (w : Setting) (inp : GenQueryInp) : Prop :=
  inp.options &&& QUOTA_QUERY ≠ 0 ∨
    (∃ col ∈ inp.selectInp, Query.Unselectable w.schema w.session col.1) ∨ Query.Untaken w.schema inp.sqlCondInp

theorem generate_refused (hinp : RefusedEarly w inp) (h : b.Settled)
    (hgen : (generator w).generate inp b = .refused status b') : b'.Settled := by
  have haligned := generate_aligned h (.inr ⟨status, hgen⟩)
  refine haligned.settled ?_
  simp only [generator] at hgen
  split at hgen
  case isTrue => rw [generateSpecialQuery_refused hgen, Binds.begin, h.empty]
  case isFalse hquota => exact generateSQL_refused_empty (b := b.begin) (hinp.resolve_left hquota) h.empty hgen

/-! ## Queries -/

/-- Nothing happens to the generators. -/
def sameGen (G : Type) : Framing G where
  R s s' := s'.gen = s.gen
  May _ := True
  refl _ := rfl
  trans _ _ _ h h' := h'.trans h
  setSlot _ _ _ _ _ := rfl
  freeStmt _ _ _ _ := rfl
  recursiveCall _ _ := rfl
  exec := by
    intro α answer f herror hok s a s' h
    obtain ⟨r, s₁, hexec, hrun⟩ := bind_ok.mp h
    have hfirst : s₁.gen = s.gen := by
      rcases (execWithResult_ok hexec).2 with rfl | ⟨n, x, -, rfl⟩ <;> rfl
    cases r with
    | error i => exact ((herror i).apply hrun).trans hfirst
    | ok n => exact ((hok n trivial).apply hrun).trans hfirst

variable {P : Binds → Prop} {α : Type} {m : StmtM Binds α}

/-- A triple on the generators for a computation that leaves them. -/
theorem keepsGen (h : OkRel (sameGen Binds).R m) : Triple Any (fun s => P s.gen) m fun _ s => P s.gen :=
  .of_okRel h fun _ _ hsame hP => by rwa [show _ = _ from hsame]

/-- The statement gets its handle and its slot. -/
def Reaches (free : Prop) (answer : ExecAnswer) : Prop := free ∧ answer ≠ .failure .sqlAllocStmt

variable {G : Type}

/-- The generators after an execution that may not come to the binding. -/
def BoundIf (bind : G → G) (answer : ExecAnswer) (s s' : Server G) : Prop :=
  (Reaches (s.freeSlot ≠ none) answer ∧ s'.gen = bind s.gen) ∨
  (¬ Reaches (s.freeSlot ≠ none) answer ∧ s'.gen = s.gen)

theorem execWithResult_gen {bind : G → G} {answer : ExecAnswer} (s : Server G) :
    Triple Any (· = s) (execWithResult bind answer) fun _ => BoundIf bind answer s := by
  refine .ite (fun halloc => .pure ?_) fun halloc => .bind_run rfl ?_
  · rintro _ rfl
    exact .inr ⟨fun h => h.2 halloc, rfl⟩
  · cases hfree : s.freeSlot with
    | none =>
      refine .pure ?_
      rintro _ rfl
      exact .inr ⟨fun h => h.1 hfree, rfl⟩
    | some n =>
      have hreaches : Reaches (s.freeSlot ≠ none) answer := ⟨by rw [hfree]; exact nofun, halloc⟩
      refine .bind (Q := fun _ s' => s'.gen = bind s.gen) (.modify ?_) fun _ => ?_
      · rintro _ rfl
        rfl
      · cases answer with
        | failure f => exact .pure fun s' hs => .inl ⟨hreaches, hs⟩
        | result numOfCols rows rowCount =>
          refine .bind (Q := fun _ s' => s'.gen = bind s.gen) (.modify fun s' hs => ?_) fun _ => ?_
          · exact hs
          · exact .pure fun s' hs => .inl ⟨hreaches, hs⟩

variable {gen : Generator G} {database : Text → List Text → ExecAnswer} {sql : Text}

/-- The table is emptied exactly if the statement gets its handle and its slot. -/
theorem cmlGetFirstRowFromSql_gen (s : Server G) :
    Triple Any (· = s) (cmlGetFirstRowFromSql gen database sql) fun _ =>
      BoundIf gen.reset (database sql (gen.bindVars s.gen)) s := by
  refine .bind (Q := fun _ => BoundIf gen.reset (database sql (gen.bindVars s.gen)) s) ?_ fun r => ?_
  · intro s' hs'
    rw [hs']
    exact execWithResult_gen s s rfl
  · cases r with
    | error i => exact .pure fun _ hs => hs
    | ok n =>
      have hrow := Triple.of_okRel (P := BoundIf gen.reset (database sql (gen.bindVars s.gen)) s)
        ((sameGen G).getRowOrFree (n := n) trivial) fun s₁ s₂ hsame hs => by
          rwa [BoundIf, show s₂.gen = s₁.gen from hsame]
      exact .bind hrow fun _ => .pure fun _ hs => hs

/-- The rows of a query that has none were executed, and its slot is free again. -/
theorem cmlGetFirstRowFromSql_noRows {s s' : Server G} {r : Int × Nat}
    (h : cmlGetFirstRowFromSql gen database sql s = .ok r s') (hnone : r.1 = CAT_NO_ROWS_FOUND) :
    (database sql (gen.bindVars s.gen)).NoRows ∧ s.freeSlot ≠ none ∧ s'.freeSlot = s.freeSlot := by
  by_cases hresult : (database sql (gen.bindVars s.gen)).Executes (Full s.stmtPtr)
  · obtain ⟨status, m, s₁, hrun, -, hrow⟩ := cmlGetFirstRowFromSql_run gen sql hresult
    rw [hrun] at h
    obtain ⟨rfl, rfl⟩ := Result.ok.inj h
    cases hrow with
    | failed _ hne => exact absurd hnone hne
    | row =>
      have hzero : (0 : Int) ≠ CAT_NO_ROWS_FOUND := by decide
      exact absurd hnone hzero
    | noRows hfree hnoRows _ hs => exact ⟨hnoRows, hfree, by simp only [Server.freeSlot, show s₁.stmtPtr = _ from hs]⟩
  · exfalso
    simp only [ExecAnswer.Executes, Classical.not_imp] at hresult
    obtain ⟨halloc, hfull, hno⟩ := hresult
    rw [← freeSlot_none] at hfull
    obtain ⟨m, hm⟩ := Option.ne_none_iff_exists'.mp hfull
    have hexec : cllExecSqlWithResult gen database sql s =
        execWithResult gen.reset (database sql (gen.bindVars s.gen)) s := rfl
    generalize database sql (gen.bindVars s.gen) = answer at halloc hno hexec
    cases answer with
    | result numOfCols rows rowCount => exact hno ⟨_, _, _, rfl⟩
    | failure f =>
      obtain ⟨r, s₁, hr, hrest⟩ := bind_ok.mp h
      rw [hexec, execWithResult, if_neg halloc, get_bind, hm] at hr
      obtain ⟨rfl, -⟩ := pure_ok.mp hr
      obtain rfl := (pure_ok.mp hrest).1
      revert hnone
      cases f <;> decide

/-- A query leaves nothing on the table: it is refused early, or its statement gets a
handle and a slot if it has bind variables. -/
def Flushes (w : Setting) (free : Prop) (q : Request) (b : Binds) : Prop :=
  match (generator w).generate q.inp b with
  | .overrun => True
  | .refused _ _ => RefusedEarly w q.inp
  | .sql sql b' => b'.cllBindVars = [] ∨ Reaches free (q.database sql ((generator w).bindVars b'))

variable {s : Server Binds}

theorem BoundIf.settled {answer : ExecAnswer} {s' : Server Binds} (hb : b.Aligned) (hgen : s.gen = b)
    (h : b.cllBindVars = [] ∨ Reaches (s.freeSlot ≠ none) answer)
    (hbound : BoundIf Binds.bindTheVariables answer s s') : s'.gen.Settled := by
  subst hgen
  rcases hbound with ⟨-, hs⟩ | ⟨hnot, hs⟩
  · rw [hs]
    exact hb.bindTheVariables
  · rw [hs]
    exact hb.settled (h.resolve_right hnot)

variable {q : Request}

theorem openQuery_settled {again : Request → StmtM Binds (Int × GenQueryOut)} (hs : s.gen.Settled)
    (hq : Flushes w (s.freeSlot ≠ none) q s.gen)
    (hagain : ∀ answer b, q.answer (generator w) s.gen = some (answer, b) → s.freeSlot ≠ none → q.FallsBack answer →
      ∀ s', s'.gen = b → b.Settled → s'.freeSlot = s.freeSlot →
        Triple Any (· = s') (again q.withoutOffset) fun _ s'' => s''.gen.Settled) :
    Triple Any (· = s) (openQuery (generator w) again q) fun _ s' => s'.gen.Settled := by
  refine .bind_run rfl ?_
  unfold Flushes at hq
  cases hgenerate : (generator w).generate q.inp s.gen with
  | overrun => exact .throw trivial
  | refused status b =>
    rw [hgenerate] at hq
    refine .bind_run rfl (.pure ?_)
    rintro _ rfl
    exact generate_refused hq hs hgenerate
  | sql sql b =>
    rw [hgenerate] at hq
    have hb := generate_aligned hs (.inl ⟨sql, hgenerate⟩)
    refine .bind_run rfl ?_
    have hanswer : q.answer (generator w) s.gen =
        some (q.database sql ((generator w).bindVars b), b.bindTheVariables) := by
      rw [Request.answer, hgenerate]
      rfl
    have hfirst := @cmlGetFirstRowFromSql_gen _ (generator w) q.database sql { s with gen := b }
    have hruns := hfirst.and_ok fun s₀ r s' hs₀ hrun => by
      subst hs₀
      exact cmlGetFirstRowFromSql_noRows hrun
    refine .bind hruns ?_
    rintro ⟨status, n⟩ s' ⟨hbound, hnone⟩
    have hsettled : s'.gen.Settled := BoundIf.settled (s := { s with gen := b }) hb rfl hq hbound
    refine (?_ : Triple Any (· = s') _ _) s' rfl
    refine .ite (fun hneg => .ite (fun hfall => ?_) fun _ => .pure ?_) fun hpos => ?_
    · obtain ⟨hanswers, hfree, hsame⟩ := hnone hfall.1
      have hgen : s'.gen = b.bindTheVariables := by
        rcases hbound with ⟨-, hgen⟩ | ⟨hnot, -⟩
        · exact hgen
        · refine absurd ⟨hfree, ?_⟩ hnot
          obtain ⟨-, numOfCols, rows, rowCount, hresult, -⟩ := hanswers
          rw [show q.database sql _ = _ from hresult]
          simp
      refine .bind_run rfl (.bind (hagain _ _ hanswer hfree ⟨hanswers, hfall.2⟩ _ hgen ?_ hsame) fun _ => ?_)
      · rw [← hgen]
        exact hsettled
      · exact .pure fun _ h => h
    · rintro _ rfl
      exact hsettled
    · refine .conseq (keepsGen ?_) (fun s₀ hs₀ => by rw [hs₀]; exact hsettled) fun _ _ h => h
      exact (sameGen Binds).firstPage trivial q status

/-- A call leaves nothing on the table: for a new query, and for the count where it is made. -/
def QueryFlushes (w : Setting) (q : Request) (s : Server Binds) : Prop :=
  q.continueInx = 0 → Flushes w (s.freeSlot ≠ none) q s.gen ∧
    ∀ answer b, q.answer (generator w) s.gen = some (answer, b) → s.freeSlot ≠ none → q.FallsBack answer →
      Flushes w True q.withoutOffset b

theorem chlGenQuery_settled (hs : s.gen.Settled) (hq : QueryFlushes w q s) :
    Triple Any (· = s) (chlGenQuery (generator w) q) fun _ s' => s'.gen.Settled := by
  refine .ite (fun hinx => ?_) fun _ => ?_
  · obtain ⟨hfirst, hcount⟩ := hq hinx
    refine openQuery_settled hs hfirst fun answer b hanswer hfree hfalls s' hgen hb hsame => ?_
    have hinner := hcount answer b hanswer hfree hfalls
    have hslot : s'.freeSlot ≠ none := by rwa [hsame]
    refine openQuery_settled (by rwa [hgen]) ?_ ?_
    · rw [hgen]
      unfold Flushes at hinner ⊢
      split
      · trivial
      · rename_i status b' hrefused
        rwa [hrefused] at hinner
      · rename_i sql b' hsql
        rw [hsql] at hinner
        exact hinner.imp_right fun h => ⟨hslot, h.2⟩
    · intro answer' b' _ _ hagain
      exact absurd hagain.2.2 (Int.lt_irrefl 0)
  · exact .conseq (keepsGen ((sameGen Binds).continueQuery trivial)) (fun _ h => by rw [h]; exact hs)
      fun _ _ h => h

/-! ## Statements without a result -/

/-- The statement gets its handle and its transaction. -/
def NoResult.Reaches (a : NoResult) (didBegin : Bool) : Prop :=
  a.alloc = true ∧ (didBegin = true ∨ a.begin = 0)

/-- The table at a statement, in a session with a transaction if there was one. -/
def At (P : Binds → Prop) (didBegin : Bool) (c : Catalog) : Prop :=
  P c.binds ∧ (didBegin = true → c.didBegin = true)

variable {d : Bool}

theorem onServer_triple {P : Server Binds → Prop} {Q : α → Server Binds → Prop} (h : Triple Any P m Q) :
    Triple Any (fun c => P c.server) (onServer m) fun a c => Q a c.server := by
  intro c hc
  have hm := h c.server hc
  unfold onServer
  cases hrun : m c.server with
  | ok a s =>
    rw [hrun] at hm
    exact hm
  | error e s => trivial

theorem onBinds_triple {f : Binds → Binds} {Q : Binds → Prop} (h : ∀ b, P b → Q (f b)) :
    Triple Any (At P d) (onBinds f) fun _ => At Q d :=
  .modify fun _ hc => ⟨h _ hc.1, hc.2⟩

/-- Neither the end of a transaction. -/
def Plain (sql : Text) : Prop :=
  "commit".toList.isPrefixOf sql = false ∧ "rollback".toList.isPrefixOf sql = false

variable {a : NoResult}

theorem execSqlNoResult_triple (h : a.alloc = true) :
    Triple Any (At Binds.Aligned d) (execSqlNoResult a) fun _ => At Binds.Settled d := by
  refine .ite (fun hnot => absurd h (by simp [hnot])) fun _ => ?_
  exact .bind (onBinds_triple fun b hb => hb.bindTheVariables) fun _ => .pure fun _ hc => hc

/-- A statement that gets its handle and its transaction empties the table. -/
theorem cmlExecuteNoAnswerSql_triple (sql : Text) (h : a.Reaches d) :
    Triple Any (At Binds.Aligned d) (cmlExecuteNoAnswerSql sql a) fun _ c =>
      c.binds.Settled ∧ (Plain sql → At Binds.Settled d c) := by
  have hexec : Triple Any (At Binds.Aligned d) (cllExecSqlNoResult sql a) fun _ c =>
      c.binds.Settled ∧ (Plain sql → At Binds.Settled d c) := by
    refine .ite (fun hends => ?_) fun hplain => ?_
    · refine .bind (Q := fun _ => At Binds.Aligned false) (.modify fun c hc => ⟨hc.1, nofun⟩) fun _ => ?_
      refine .conseq (execSqlNoResult_triple h.1) (fun _ hc => hc) fun _ c hc => ⟨hc.1, fun hsql => ?_⟩
      rw [hsql.1, hsql.2] at hends
      cases hends
    · intro c hc
      refine Triple.bind_run (E := Any) rfl ?_ c rfl
      refine .ite (fun hbegin => ?_) fun _ => ?_
      · rcases h.2 with hd | hzero
        · exact absurd (hc.2 hd) (by simp [hbegin.1])
        · exact absurd hzero hbegin.2
      · refine .bind (Q := fun _ => At Binds.Aligned d) (.modify ?_) fun _ => ?_
        · rintro _ rfl
          exact ⟨hc.1, fun _ => rfl⟩
        · exact .conseq (execSqlNoResult_triple h.1) (fun _ hc => hc) fun _ c hc => ⟨hc.1, fun _ => hc⟩
  exact .bind hexec fun _ => .pure fun _ hc => hc

/-- A statement without bind variables need not be executed. -/
theorem cmlExecuteNoAnswerSql_empty (sql : Text) (a : NoResult) :
    Triple Any (fun c => c.binds.Aligned ∧ c.binds.cllBindVars = []) (cmlExecuteNoAnswerSql sql a) fun _ c =>
      c.binds.Settled := by
  have hexec : Triple Any (fun c => c.binds.Aligned ∧ c.binds.cllBindVars = []) (execSqlNoResult a) fun _ c =>
      c.binds.Settled := by
    refine .ite (fun _ => .pure fun c hc => hc.1.settled hc.2) fun _ => ?_
    exact .bind (Q := fun _ c => c.binds.Settled) (.modify fun c hc => hc.1.bindTheVariables) fun _ =>
      .pure fun _ hc => hc
  refine .bind (Q := fun _ c => c.binds.Settled) (.ite (fun _ => ?_) fun _ => ?_) fun _ => .pure fun _ hc => hc
  · exact .bind (.modify fun c hc => hc) fun _ => hexec
  · refine .bind .get fun c => .ite (fun _ => .pure fun c hc => hc.1.settled hc.2) fun _ => ?_
    exact .bind (.modify fun c hc => hc) fun _ => hexec

theorem bindColumns_triple (sep sep2 : Text) : ∀ (first : Bool) (str : Text) (cols : List (Text × Text)),
    Triple Any (At Binds.Aligned d) (bindColumns sep sep2 first str cols) fun _ => At Binds.Aligned d
  | _, _, [] => .pure fun _ hc => hc
  | _, _, (_, value) :: cols =>
    .bind (onBinds_triple fun _ hb => hb.push (.value value)) fun _ => bindColumns_triple sep sep2 false _ cols

variable {tableName : Text} {c : Catalog}

theorem cmlModifySingleTable_empty (hc : c.binds.Settled) :
    Triple Any (· = c) (cmlModifySingleTable tableName [] [] a) fun _ c' => c'.binds.Settled := by
  refine .bind (Q := fun _ c => c.binds.Aligned ∧ c.binds.cllBindVars = []) (.modify ?_) fun _ => ?_
  · rintro _ rfl
    exact ⟨hc.begin, hc.empty⟩
  · exact .bind (.pure fun _ h => h) fun _ => .bind (.pure fun _ h => h) fun _ => cmlExecuteNoAnswerSql_empty _ a

theorem cmlModifySingleTable_triple {updates conds : List (Text × Text)} (h : a.Reaches c.didBegin)
    (hc : c.binds.Settled) :
    Triple Any (· = c) (cmlModifySingleTable tableName updates conds a) fun _ c' => c'.binds.Settled := by
  have hstart : Triple Any (At Binds.Settled c.didBegin) (cmlModifySingleTable tableName updates conds a)
      fun _ c' => c'.binds.Settled := by
    refine .bind (onBinds_triple fun _ hb => hb.begin) fun _ => ?_
    refine .bind (bindColumns_triple _ _ _ _ _) fun tsql => .bind (bindColumns_triple _ _ _ _ _) fun tsql => ?_
    exact .conseq (cmlExecuteNoAnswerSql_triple _ h) (fun _ hc => hc) fun _ _ hc => hc.1
  refine .conseq hstart ?_ fun _ _ h => h
  rintro _ rfl
  exact ⟨hc, fun h => h⟩

/-! ## Ticket checks -/

theorem plain_append {s : String} {x : Char} (h : s.toList.head? = some x) (hc : x ≠ 'c') (hr : x ≠ 'r')
    (rest : Text) : Plain (s.toList ++ rest) := by
  obtain ⟨l, hl⟩ := List.head?_eq_some_iff.mp h
  rw [hl]
  constructor <;> simp [List.isPrefixOf, hc.symm, hr.symm]

theorem plain_auditSQL (zoneName : Text) : Plain (auditSQL zoneName) := by
  unfold auditSQL
  rw [String.toList_append, List.append_assoc, List.append_assoc]
  exact plain_append (x := 'i') (by decide +kernel) (by decide) (by decide) _

/-- From an empty table to an empty table, in a transaction if there was one. -/
abbrev Clean {α : Type} (d : Bool) (m : CatalogM α) : Prop :=
  Triple Any (At Binds.Settled d) m fun _ => At Binds.Settled d

theorem cmlAudit3_clean {actionId : Int} {dataId userName zoneName comment now : Text} (h : a.Reaches d) :
    Clean d (cmlAudit3 actionId dataId userName zoneName comment now a) := by
  refine .bind .get fun c => ?_
  refine .ite (fun _ => .pure fun _ hc => hc) fun _ => ?_
  have hplain := plain_auditSQL zoneName
  generalize auditSQL zoneName = sql at hplain
  refine .bind (Q := fun _ => At Binds.Aligned d) (onBinds_triple fun _ hb => ⟨hb.log, rfl⟩) fun _ => ?_
  exact .conseq (cmlExecuteNoAnswerSql_triple sql h) (fun _ hc => hc) fun _ _ hc => hc.2 hplain

variable {answers : TicketAnswers} {row : Ticket.Row}

variable {x : Ticket.Check}

theorem auditUse_clean (h : answers.audit.Reaches d) : Clean d (auditUse x answers row) := by
  refine .bind .get fun c => .ite (fun _ => ?_) fun _ => .pure fun _ hc => hc
  exact .bind (Q := fun _ => At Binds.Settled d) (.modify fun _ hc => hc) fun _ => cmlAudit3_clean h

theorem updateCount_clean {column : Text} {count : Int} {ticketId : Text} {counts : Ticket.Counts}
    {remember : Ticket.Session → Ticket.Session} (h : a.Reaches d) :
    Clean d (updateCount column count ticketId counts remember a) := by
  refine .bind (Q := fun _ => At Binds.Aligned d) (onBinds_triple fun _ hb => hb.begin) fun _ => ?_
  refine .bind (onBinds_triple fun _ hb => hb.push _) fun _ => .bind (onBinds_triple fun _ hb => hb.push _) fun _ => ?_
  refine .bind (.conseq (cmlExecuteNoAnswerSql_triple _ h) (fun _ hc => hc) fun _ _ hc =>
    hc.2 ?_) fun status => ?_
  · rw [List.append_assoc]
    exact plain_append (x := 'u') (by decide +kernel) (by decide) (by decide) _
  refine .ite (fun _ => .pure fun _ hc => hc) fun _ => ?_
  exact .bind (Q := fun _ => At Binds.Settled d) (.modify fun _ hc => hc) fun _ => .pure fun _ hc => hc

theorem countWrite_clean (h : answers.updateWriteFileCount.Reaches d) : Clean d (countWrite x answers row) := by
  refine .bind .get fun c => .ite (fun _ => .pure fun _ hc => hc) fun _ => ?_
  refine .ite (fun _ => .ite (fun _ => .pure fun _ hc => hc) fun _ => ?_) fun _ => .pure fun _ hc => hc
  exact .ite (fun _ => updateCount_clean h) fun _ => .pure fun _ hc => hc

theorem countUse_clean {seen : Ticket.Counts} (h : answers.updateUsesCount.Reaches d) :
    Clean d (countUse x answers row seen) := by
  refine .bind .get fun c => .ite (fun _ => ?_) fun _ => .pure fun _ hc => hc
  refine .ite (fun _ => .pure fun _ hc => hc) fun _ => ?_
  exact .ite (fun _ => updateCount_clean h) fun _ => .pure fun _ hc => hc

theorem orReturn_clean {m next : CatalogM Int} (hm : Clean d m) (hnext : Clean d next) : Clean d (orReturn m next) :=
  .bind hm fun _ => .ite (fun _ => .pure fun _ hc => hc) fun _ => hnext

/-- The statements of a check get their handles and their transaction. -/
structure TicketAnswers.Reach (answers : TicketAnswers) (didBegin : Bool) : Prop where
  audit : answers.audit.Reaches didBegin
  updateWriteFileCount : answers.updateWriteFileCount.Reaches didBegin
  updateUsesCount : answers.updateUsesCount.Reaches didBegin

theorem checkObjIdByTicket_clean (h : answers.Reach d) : Clean d (checkObjIdByTicket x answers) := by
  unfold checkObjIdByTicket
  cases answers.row with
  | none => exact .pure fun _ hc => hc
  | some row =>
    refine .bind .get fun c => orReturn_clean (auditUse_clean h.audit) ?_
    refine .ite (fun _ => .pure fun _ hc => hc) fun _ => orReturn_clean (.pure fun _ hc => hc) ?_
    refine orReturn_clean ?_ (countUse_clean h.updateUsesCount)
    exact .ite (fun _ => countWrite_clean h.updateWriteFileCount) fun _ => .pure fun _ hc => hc

/-! ## Runs -/

/-- A quota query has room on the array; another one is refused at a column that is selected,
or has room for its conditions. -/
def HasRoom (w : Setting) (inp : GenQueryInp) : Prop :=
  if inp.options &&& QUOTA_QUERY ≠ 0 then
    4 * (valuesOf inp COL_USER_NAME).length + (valuesOf inp COL_R_RESC_NAME).length ≤ maxBindVars
  else
    (∃ col ∈ inp.selectInp, Query.Unselectable w.schema w.session col.1) ∨
      Query.RoomFor w.schema 0 inp.sqlCondInp

/-- An operation has room for what it stores, and what it pushes comes to the execution of its
statement. -/
def Operation.Proper (w : Setting) (c : Catalog) : Operation → Prop
  | .chlGenQuery q => (q.continueInx = 0 → HasRoom w q.inp) ∧ QueryFlushes w q c.server
  | .cmlModifySingleTable _ updates conds a =>
    updates.length + conds.length ≤ maxBindVars ∧
      ((updates = [] ∧ conds = []) ∨ a.Reaches c.didBegin)
  | .checkObjIdByTicket _ answers => answers.Reach c.didBegin

variable {c : Catalog}

variable {op : Operation}

theorem overflows_false (h : HasRoom w inp) (hb : b.cllBindVars = []) : overflows w inp b = false := by
  unfold HasRoom at h
  unfold overflows
  split
  · rename_i hquota
    rw [if_pos hquota] at h
    rw [hb, List.length_nil, decide_eq_false_iff_not]
    omega
  · rename_i hquota
    rw [if_neg hquota] at h
    split
    · rename_i q hrun
      exfalso
      obtain ⟨col, hmem, hbad⟩ | hroom := h
      · obtain hcols | ⟨start, q₁, hcols, -⟩ := bind_error.mp hrun
        · exact Query.selectColumns_within _ hcols
        · exact Query.selectColumns_refused ⟨col, hmem, hbad⟩ _ _ _ _ hcols
      · exact Query.requestColumns_within hroom hrun
    · rfl

theorem Operation.Proper.not_overflows (hop : op.Proper w c) (hc : c.binds.Settled) :
    op.overflows w c = false := by
  have hempty := hc.empty
  cases op with
  | chlGenQuery q =>
    rw [Operation.overflows, Bool.and_eq_false_iff]
    by_cases hinx : q.continueInx = 0
    · exact .inr (overflows_false (hop.1 hinx) hempty)
    · exact .inl (decide_eq_false hinx)
  | cmlModifySingleTable tableName updates conds a =>
    have hlen := hop.1
    rw [Operation.overflows, hempty, List.length_nil, decide_eq_false_iff_not]
    omega
  | checkObjIdByTicket x answers =>
    rw [Operation.overflows, hempty]
    rfl

theorem Operation.Proper.settled (hop : op.Proper w c) (hc : c.binds.Settled) :
    Triple Any (· = c) (op.run w) fun _ c' => c'.binds.Settled := by
  have hstart : ∀ c', c' = c → At Binds.Settled c.didBegin c' := by
    rintro _ rfl
    exact ⟨hc, fun h => h⟩
  cases op with
  | chlGenQuery q =>
    have hquery : Triple Any (· = c.server) (do return (← Statements.chlGenQuery (generator w) q).1) fun _ s' =>
        s'.gen.Settled :=
      .bind (chlGenQuery_settled hc hop.2) fun _ => .pure fun _ hs => hs
    exact .conseq (onServer_triple hquery) (fun c' h => by rw [h]) fun _ _ h => h
  | cmlModifySingleTable tableName updates conds a =>
    rcases hop.2 with ⟨rfl, rfl⟩ | hreach
    · exact cmlModifySingleTable_empty hc
    · exact cmlModifySingleTable_triple hreach hc
  | checkObjIdByTicket x answers =>
    exact .conseq (checkObjIdByTicket_clean hop) hstart fun _ _ h => h.1

/-- Every operation of a run finds what it needs. -/
def Catalog.Sound (w : Setting) : Catalog → List Operation → Prop
  | _, [] => True
  | c, op :: ops => op.Proper w c ∧ match c.exec w op with
    | .state c' => c'.Sound w ops
    | .stopped => True
    | .unknown => True

/-- Whenever an operation starts and at the end of a run, the table is empty and known, and
every statement so far was bound with what was pushed for it. -/
def Catalog.BindsExact (w : Setting) : Catalog → List Operation → Prop
  | c, [] => c.binds.Settled
  | c, op :: ops => c.binds.Settled ∧ match c.exec w op with
    | .state c' => c'.BindsExact w ops
    | .stopped => True
    | .unknown => False

/-- An operation that has what it needs leaves the table empty. -/
theorem Operation.Proper.exec (hop : op.Proper w c) (hc : c.binds.Settled) :
    c.exec w op = .stopped ∨ ∃ c', c.exec w op = .state c' ∧ c'.binds.Settled := by
  have htriple := hop.settled hc
  unfold Catalog.exec
  rw [hop.not_overflows hc, if_neg Bool.false_ne_true]
  cases hrun : op.run w c with
  | ok status c' => exact .inr ⟨c', rfl, htriple.ok rfl hrun⟩
  | error e c' => exact .inl rfl

theorem Catalog.Sound.cons {ops : List Operation} (hop : op.Proper w c)
    (hrest : ∀ c', c.exec w op = .state c' → c'.Sound w ops) : c.Sound w (op :: ops) := by
  refine ⟨hop, ?_⟩
  split
  · exact hrest _ ‹_›
  · trivial
  · trivial

/-- What a run leaves. -/
def Catalog.ran (w : Setting) : Catalog → List Operation → After
  | c, [] => .state c
  | c, op :: ops =>
    match c.exec w op with
    | .state c' => c'.ran w ops
    | .stopped => .stopped
    | .unknown => .unknown

/-- A run that leaves a state leaves one with an empty table. -/
theorem Catalog.BindsExact.settled {ops : List Operation} {c' : Catalog} (h : c.BindsExact w ops)
    (hran : c.ran w ops = .state c') : c'.binds.Settled := by
  induction ops generalizing c with
  | nil =>
    cases hran
    exact h
  | cons op ops ih =>
    obtain ⟨-, hrest⟩ := h
    unfold Catalog.ran at hran
    split at hran
    · rename_i c₁ hexec
      rw [hexec] at hrest
      exact ih hrest hran
    · cases hran
    · cases hran

/-- The database does it. -/
def done : NoResult := ⟨0, true, true, 0⟩

end BindTable
