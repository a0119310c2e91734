-- SUMMARY: The operations on a session's statements, and which slots they leave alone.
import Irods.Icat.ChlGenQuery

/-!
# Operations and what they leave alone

An operation that does not name a slot leaves it as it is while a statement is in it: a
new statement takes an empty slot, and everything else is done to the statement named.
-/

namespace Statements

open CString EStateM

variable {G : Type}

/-! ## Operations -/

/-- `cmlFreeStatement` is called by the caller of `cmlGetOneRowFromSqlV2`. -/
inductive Op where
  | chlGenQuery (q : Request)
  | cmlGetOneRowFromSql (answer : ExecAnswer) (cValSize : List Nat)
  | cmlGetOneRowFromSqlBV (answer : ExecAnswer) (cValSize : List Nat)
  | cmlGetOneRowFromSqlV2 (answer : ExecAnswer) (maxCols : Nat)
  | cmlFreeStatement (n : Int)

/-- The status, and the `continueInx` of a query. -/
structure Reply where
  status : Int
  continueInx : Int
  deriving DecidableEq

def Op.run (gen : Generator G) : Op → StmtM G Reply
  | .chlGenQuery q => do
    let (status, out) ← Statements.chlGenQuery gen q
    return ⟨status, out.continueInx⟩
  | .cmlGetOneRowFromSql answer cValSize => do
    return ⟨(← Statements.cmlGetOneRowFromSql answer cValSize).1, 0⟩
  | .cmlGetOneRowFromSqlBV answer cValSize => do
    return ⟨(← Statements.cmlGetOneRowFromSqlBV answer cValSize).1, 0⟩
  | .cmlGetOneRowFromSqlV2 answer maxCols => do
    return ⟨(← Statements.cmlGetOneRowFromSqlV2 answer maxCols).1, 0⟩
  | .cmlFreeStatement n => do
    return ⟨← Statements.cmlFreeStatement n, 0⟩

/-- The slot that the operation is told to use. -/
def Op.slot : Op → Option Int
  | .chlGenQuery q => if q.continueInx = 0 then none else some (q.continueInx - 1)
  | .cmlFreeStatement n => some n
  | _ => none

/-! ## The frame -/

/-- A slot with a statement is as it was, and its statement was not freed. -/
def Untouched (k : Nat) (s s' : Server G) : Prop :=
  s.stmtPtr k ≠ .empty → s'.stmtPtr k = s.stmtPtr k ∧ s'.freed.count k = s.freed.count k

theorem Untouched.refl (k : Nat) (s : Server G) : Untouched k s s := fun _ => ⟨rfl, rfl⟩

theorem Untouched.trans {k : Nat} (s s' s'' : Server G) (h : Untouched k s s') (h' : Untouched k s' s'') :
    Untouched k s s'' := by
  intro hk
  obtain ⟨hslot, hfreed⟩ := h hk
  obtain ⟨hslot', hfreed'⟩ := h' (by rw [hslot]; exact hk)
  exact ⟨hslot'.trans hslot, hfreed'.trans hfreed⟩

variable {k : Nat}

theorem untouched_setSlot (s : Server G) {n : Nat} (x : Slot) (h : k ≠ n) : Untouched k s (s.setSlot n x) :=
  fun _ => ⟨setSlot_ne s x h, rfl⟩

variable {α : Type} {s s' : Server G}

variable {m : StmtM G α} {β : Type} {f : α → StmtM G β}

theorem untouched_bind (hm : OkRel (Untouched k) m) (hf : ∀ a, OkRel (Untouched k) (f a)) :
    OkRel (Untouched k) (m >>= f) :=
  .bind Untouched.trans hm hf

theorem untouched_pure (a : α) : OkRel (Untouched k) (pure a : StmtM G α) :=
  .pure (Untouched.refl k) a

variable {n : Int} {answer : ExecAnswer}

theorem slotAt_ok {x : Slot} (h : slotAt n s = .ok x s') :
    s' = s ∧ 0 ≤ n ∧ n < MAX_NUM_OF_CONCURRENT_STMTS ∧ s.stmtPtr n.toNat = x := by
  unfold slotAt at h
  split at h
  case isFalse => exact absurd h not_throw_ok
  case isTrue hrange =>
    obtain ⟨rfl, rfl⟩ := pure_ok.mp h
    exact ⟨rfl, hrange.1, hrange.2, rfl⟩

theorem stmtAt_ok {st : Stmt} (h : stmtAt n s = .ok st s') :
    s' = s ∧ 0 ≤ n ∧ n < MAX_NUM_OF_CONCURRENT_STMTS ∧ s.stmtPtr n.toNat = .stmt st := by
  obtain ⟨x, s₁, hslot, hrun⟩ := bind_ok.mp h
  obtain ⟨rfl, hlo, hhi, hx⟩ := slotAt_ok hslot
  cases x with
  | empty => exact absurd hrun not_throw_ok
  | broken => exact absurd hrun not_throw_ok
  | stmt st' =>
    obtain ⟨rfl, rfl⟩ := pure_ok.mp hrun
    exact ⟨rfl, hlo, hhi, hx⟩

/-- A new statement takes a slot that was empty. -/
theorem execWithResult_ok {bind : G → G} {r : Except Int Nat} (h : execWithResult bind answer s = .ok r s') :
    (∀ n, r = .ok n → s.stmtPtr n = .empty) ∧
      ((s' = s) ∨ ∃ n x, s.stmtPtr n = .empty ∧
        s' = Server.setSlot { s with gen := bind s.gen } n x) := by
  unfold execWithResult at h
  split at h
  case isTrue =>
    obtain ⟨rfl, rfl⟩ := pure_ok.mp h
    exact ⟨nofun, .inl rfl⟩
  case isFalse =>
    rw [get_bind] at h
    cases hfree : s.freeSlot with
    | none =>
      rw [hfree] at h
      obtain ⟨rfl, rfl⟩ := pure_ok.mp h
      exact ⟨nofun, .inl rfl⟩
    | some n =>
      rw [hfree] at h
      have hempty := (freeSlot_some hfree).2
      cases answer with
      | failure f =>
        obtain ⟨rfl, rfl⟩ := pure_ok.mp h
        exact ⟨nofun, .inr ⟨n, .broken, hempty, rfl⟩⟩
      | result numOfCols rows rowCount =>
        obtain ⟨rfl, rfl⟩ := pure_ok.mp h
        refine ⟨?_, .inr ⟨n, .stmt ⟨numOfCols, List.replicate numOfCols [], rows, rowCount⟩, hempty, ?_⟩⟩
        · rintro _ ⟨⟩
          exact hempty
        · simp only [Server.setSlot, Function.update_idem]

/-- What follows an execution is done to another slot. -/
theorem untouched_exec {bind : G → G} {f : Except Int Nat → StmtM G α}
    (herror : ∀ i, OkRel (Untouched k) (f (.error i)))
    (hok : ∀ n : Nat, (n : Int) ≠ k → OkRel (Untouched k) (f (.ok n))) :
    OkRel (Untouched k) (execWithResult bind answer >>= f) := by
  intro s a s' h hk
  obtain ⟨r, s₁, hexec, h⟩ := bind_ok.mp h
  obtain ⟨hslot, hstate⟩ := execWithResult_ok hexec
  have hstep : Untouched k s s₁ := by
    rcases hstate with rfl | ⟨n, x, hempty, rfl⟩
    · exact Untouched.refl k s₁
    · have hne : k ≠ n := by
        rintro rfl
        exact hk hempty
      exact fun _ => ⟨setSlot_ne _ x hne, rfl⟩
  have hrest : OkRel (Untouched k) (f r) := by
    cases r with
    | error i => exact herror i
    | ok n =>
      apply hok n
      intro hn
      obtain rfl : n = k := Int.ofNat.inj hn
      exact hk (hslot n rfl)
  exact Untouched.trans s s₁ s' hstep (hrest.apply h) hk

/-! ## Frames -/

/-- A relation between sessions that is kept by what is done to the statements in the slots
that `May` allows, and by executions that bind their own arguments. -/
structure Framing (G : Type) where
  R : Server G → Server G → Prop
  May : Int → Prop
  refl : ∀ s, R s s
  trans : ∀ s s' s'', R s s' → R s' s'' → R s s''
  setSlot : ∀ (s : Server G) (n : Int) (x : Slot), May n → 0 ≤ n → R s (s.setSlot n.toNat x)
  freeStmt : ∀ (s : Server G) (n : Int), May n → 0 ≤ n → R s (s.freeStmt n.toNat)
  recursiveCall : ∀ (s : Server G) (b : Bool), R s { s with recursiveCall := b }
  exec : ∀ {α : Type} {answer : ExecAnswer} {f : Except Int Nat → StmtM G α},
    (∀ i, OkRel R (f (.error i))) → (∀ n : Nat, May n → OkRel R (f (.ok n))) →
      OkRel R (execWithResult id answer >>= f)

def untouched (G : Type) (k : Nat) : Framing G where
  R := Untouched k
  May n := n ≠ k
  refl := Untouched.refl k
  trans := Untouched.trans
  setSlot s n x hn hlo := untouched_setSlot s x (by omega)
  freeStmt s n hn hlo _ := by
    have hne : k ≠ n.toNat := by omega
    exact ⟨setSlot_ne s .empty hne, by simp [Server.freeStmt, List.count_append, hne.symm]⟩
  recursiveCall s b _ := ⟨rfl, rfl⟩
  exec := untouched_exec

variable {q : Request}

namespace Framing

variable (F : Framing G)

theorem bind (hm : OkRel F.R m) (hf : ∀ a, OkRel F.R (f a)) : OkRel F.R (m >>= f) :=
  .bind F.trans hm hf

theorem pure (a : α) : OkRel F.R (Pure.pure a : StmtM G α) := .pure F.refl a

theorem stmtAt (n : Int) : OkRel F.R (Statements.stmtAt n) := by
  intro s st s' h
  rw [(stmtAt_ok h).1]
  exact F.refl s

theorem cllGetRow (hn : F.May n) : OkRel F.R (Statements.cllGetRow n) := by
  intro s i s' h
  obtain ⟨st, s₁, hst, hrun⟩ := bind_ok.mp h
  obtain ⟨rfl, hlo, -, -⟩ := stmtAt_ok hst
  have hset : ∀ (x : Slot) (i' : Int),
      OkRel F.R (modify (fun s => s.setSlot n.toNat x) >>= fun _ => Pure.pure i') := fun x i' =>
    F.bind (.modify fun s => F.setSlot s n x hn hlo) fun _ => F.pure _
  cases hrest : st.rest with
  | nil =>
    simp only [hrest] at hrun
    exact (hset _ _).apply hrun
  | cons f rest =>
    cases f <;> simp only [hrest] at hrun <;> exact (hset _ _).apply hrun

theorem cllFreeStatement (hn : F.May n) : OkRel F.R (Statements.cllFreeStatement n) := by
  intro s i s' h
  obtain ⟨x, s₁, hslot, hrun⟩ := bind_ok.mp h
  obtain ⟨rfl, hlo, -, -⟩ := slotAt_ok hslot
  split at hrun
  case isTrue =>
    obtain ⟨-, rfl⟩ := pure_ok.mp hrun
    exact F.refl s₁
  case isFalse =>
    obtain ⟨st, s₂, hst, hfree⟩ := bind_ok.mp hrun
    obtain ⟨rfl, -⟩ := stmtAt_ok hst
    obtain ⟨_, s₃, hmodify, hpure⟩ := bind_ok.mp hfree
    obtain ⟨-, rfl⟩ := pure_ok.mp hpure
    obtain rfl := modify_ok.mp hmodify
    exact F.freeStmt s₂ n hn hlo

theorem getRowOrFree (hn : F.May n) : OkRel F.R (Statements.getRowOrFree n) := by
  refine F.bind (F.cllGetRow hn) fun i => ?_
  refine .ite (F.bind (F.cllFreeStatement hn) fun _ => F.pure _) ?_
  refine F.bind (F.stmtAt n) fun st => ?_
  exact .ite (F.bind (F.cllFreeStatement hn) fun _ => F.pure _) (F.pure _)

theorem cmlGetOneRowFromSqlBV (answer : ExecAnswer) (cValSize : List Nat) :
    OkRel F.R (Statements.cmlGetOneRowFromSqlBV answer cValSize) := by
  refine F.exec (fun i => F.pure _) fun n hn => ?_
  refine F.bind (F.getRowOrFree hn) fun status => ?_
  refine .ite (F.pure _) ?_
  refine F.bind (F.stmtAt n) fun st => ?_
  exact F.bind (F.cllFreeStatement hn) fun _ => F.pure _

theorem cmlGetOneRowFromSqlV2 (answer : ExecAnswer) (maxCols : Nat) :
    OkRel F.R (Statements.cmlGetOneRowFromSqlV2 answer maxCols) := by
  refine F.exec (fun i => F.pure _) fun n hn => ?_
  refine F.bind (F.cllGetRow hn) fun i => ?_
  refine .ite (F.bind (F.cllFreeStatement hn) fun _ => F.pure _) ?_
  refine F.bind (F.stmtAt n) fun st => ?_
  exact .ite (F.pure _) (F.bind (F.stmtAt n) fun _ => F.pure _)

theorem forM {f : α → StmtM G Unit} (h : ∀ a, OkRel F.R (f a)) :
    ∀ l : List α, OkRel F.R (l.forM f)
  | [] => F.pure _
  | a :: l => F.bind (h a) fun _ => forM h l

theorem checkCondInputAccess (check : AccessCheck) : OkRel F.R (Statements.checkCondInputAccess check) := by
  refine F.bind (F.forM (fun a => ?_) check.queries) fun _ => F.pure _
  exact F.bind (F.cmlGetOneRowFromSqlBV a.1 a.2) fun _ => F.pure _

theorem nextRow (hn : F.May n) (q : Request) (p : Page) : OkRel F.R (Statements.nextRow q n p) := by
  refine F.bind (F.getRowOrFree hn) fun status => ?_
  refine .ite (F.bind (F.cllFreeStatement hn) fun _ => F.pure _) ?_
  refine .ite (F.pure _) ?_
  refine .ite ?_ (F.pure _)
  refine F.bind (F.checkCondInputAccess _) fun status => ?_
  exact .ite (F.pure _) (F.pure _)

theorem makeRoom (numOfCols maxRows : Nat) (row : List Text) (p : Page) :
    OkRel F.R (Statements.makeRoom numOfCols maxRows row p) := by
  refine .ite (F.pure _) ?_
  refine .ite ?_ (F.pure _)
  simp only
  split
  · exact F.pure _
  · exact .ite (F.bind (.throw _) fun _ => F.pure _) (F.pure _)

theorem storeRow (n : Int) (maxRows : Nat) (p : Page) : OkRel F.R (Statements.storeRow n maxRows p) := by
  refine F.bind (F.stmtAt n) fun st => ?_
  refine F.bind (F.makeRoom _ _ _ _) fun room => ?_
  cases room with
  | none => exact F.pure _
  | some p => exact .ite (F.bind (.throw _) fun _ => F.pure _) (F.pure _)

theorem pageLoop (hn : F.May n) (q : Request) : ∀ (left : Nat) (next : Bool) (p : Page),
    OkRel F.R (Statements.pageLoop q n left next p)
  | 0, _, _ => F.pure _
  | left + 1, next, p => by
    refine .ite (F.bind (F.nextRow hn q p) ?_) (F.bind (F.pure _) ?_)
    all_goals
      rintro ⟨ended, p⟩
      cases ended with
      | some status => exact F.pure _
      | none =>
        refine F.bind (F.storeRow _ _ _) ?_
        rintro ⟨stored, p⟩
        exact .ite (pageLoop hn q left true p) (F.pure _)

theorem page (hn : F.May n) (q : Request) (next : Bool) (out : GenQueryOut) :
    OkRel F.R (Statements.page q n next out) := by
  refine F.bind (F.pageLoop hn q _ next _) fun (ended, p) => ?_
  cases ended with
  | some status => exact F.pure _
  | none => exact .ite (F.bind (F.cllFreeStatement hn) fun _ => F.pure _) (F.pure _)

theorem continueQuery (hn : F.May (q.continueInx - 1)) : OkRel F.R (Statements.continueQuery (G := G) q) :=
  .ite (F.bind (F.cllFreeStatement hn) fun _ => F.pure _) (F.page hn q true _)

theorem cllGetRowCount (noResultRowCount n : Int) : OkRel F.R (Statements.cllGetRowCount noResultRowCount n) :=
  .ite (F.pure _) (F.bind (F.stmtAt n) fun _ => F.pure _)

theorem countRows (q : Request) (n : Nat) (out : GenQueryOut) : OkRel F.R (Statements.countRows q n out) := by
  refine .ite (F.pure _) (F.bind (F.cllGetRowCount 0 n) fun i => ?_)
  refine F.bind (.get F.refl) fun s => ?_
  exact .ite (F.bind (.modify fun s => F.recursiveCall s false) fun _ => F.pure _) (F.pure _)

theorem firstPage {n : Nat} (hn : F.May n) (q : Request) (status : Int) : OkRel F.R (do
    let (ended, out) ← Statements.countRows q n .init
    if ended then return (status, out)
    if q.condInputLen > 0 then
      let status ← Statements.checkCondInputAccess (q.access 0)
      if status ≠ 0 then return (status, out)
    Statements.page q n false { out with continueInx := n + 1 }) := by
  refine F.bind (F.countRows q n _) fun (ended, out) => .ite (F.pure _) ?_
  split
  case isFalse => exact F.page hn q false _
  case isTrue => exact F.bind (F.checkCondInputAccess _) fun _ => .ite (F.pure _) (F.page hn q false _)

end Framing

/-! ## Queries -/

theorem getRowOrFree_status {i : Int} (h : getRowOrFree n s = .ok i s') :
    i = 0 ∨ i = CAT_GET_ROW_ERR ∨ i = CAT_NO_ROWS_FOUND := by
  obtain ⟨j, s₁, -, hrun⟩ := bind_ok.mp h
  split at hrun
  case isTrue =>
    obtain ⟨_, s₂, -, hpure⟩ := bind_ok.mp hrun
    exact .inr (.inl (pure_ok.mp hpure).1.symm)
  case isFalse =>
    obtain ⟨st, s₂, -, hrest⟩ := bind_ok.mp hrun
    split at hrest
    case isTrue =>
      obtain ⟨_, s₃, -, hpure⟩ := bind_ok.mp hrest
      exact .inr (.inr (pure_ok.mp hpure).1.symm)
    case isFalse => exact .inl (pure_ok.mp hrest).1.symm

theorem cmlStatus_neg (i : Int) : cmlStatus i < 0 := by
  unfold cmlStatus CAT_ENV_ERR CAT_SQL_ERR
  split <;> omega

variable {gen : Generator G}

variable {database : Text → List Text → ExecAnswer} {sql : Text}

/-- A first row comes from a slot that was empty. -/
theorem cmlGetFirstRowFromSql_ok {status : Int} {n : Nat}
    (h : cmlGetFirstRowFromSql gen database sql s = .ok (status, n) s') (hk : s.stmtPtr k ≠ .empty) :
    status < 0 ∨ n ≠ k := by
  obtain ⟨r, s₁, hexec, hrun⟩ := bind_ok.mp h
  cases r with
  | error i =>
    obtain ⟨heq, -⟩ := pure_ok.mp hrun
    obtain ⟨rfl, -⟩ := Prod.mk.inj heq
    exact .inl (cmlStatus_neg i)
  | ok m =>
    have hempty := (execWithResult_ok hexec).1 m rfl
    obtain ⟨i, s₂, hrow, hpure⟩ := bind_ok.mp hrun
    obtain ⟨heq, -⟩ := pure_ok.mp hpure
    obtain ⟨rfl, rfl⟩ := Prod.mk.inj heq
    rcases getRowOrFree_status hrow with rfl | rfl | rfl
    · refine .inr ?_
      rintro rfl
      exact hk hempty
    · exact .inl (by decide)
    · exact .inl (by decide)

theorem cmlGetFirstRowFromSql_untouched (gen : Generator G) (database : Text → List Text → ExecAnswer)
    (sql : Text) : OkRel (Untouched k) (cmlGetFirstRowFromSql gen database sql) := by
  rw [cmlGetFirstRowFromSql, cllExecSqlWithResult, bind_assoc]
  refine untouched_bind (.get (Untouched.refl k)) fun s => ?_
  refine untouched_exec (fun i => untouched_pure _) fun n hn => ?_
  exact untouched_bind ((untouched G k).getRowOrFree hn) fun _ => untouched_pure _

/-- What follows a fetched first row is done to another slot. -/
theorem untouched_firstRow {f : Int × Nat → StmtM G α}
    (hf : ∀ status n, (status < 0 ∨ n ≠ k) → OkRel (Untouched k) (f (status, n))) :
    OkRel (Untouched k) (cmlGetFirstRowFromSql gen database sql >>= f) := by
  intro s a s' h hk
  obtain ⟨⟨status, n⟩, s₁, hfirst, hrun⟩ := bind_ok.mp h
  have hrest := hf status n (cmlGetFirstRowFromSql_ok hfirst hk)
  have hstep : Untouched k s s₁ := (cmlGetFirstRowFromSql_untouched gen database sql).apply hfirst
  exact Untouched.trans s s₁ s' hstep (hrest.apply hrun) hk

theorem openQuery_untouched {again : Request → StmtM G (Int × GenQueryOut)}
    (hagain : ∀ q, OkRel (Untouched k) (again q)) (q : Request) : OkRel (Untouched k) (openQuery gen again q) := by
  refine untouched_bind (.get (Untouched.refl k)) fun s => ?_
  cases gen.generate q.inp s.gen with
  | overrun => exact .throw _
  | refused status g =>
    exact untouched_bind (.modify fun s _ => ⟨rfl, rfl⟩) fun _ => untouched_pure _
  | sql combinedSQL g =>
    refine untouched_bind (.modify fun s _ => ⟨rfl, rfl⟩) fun _ => ?_
    refine untouched_firstRow fun status n hn => ?_
    simp only
    split
    case isTrue =>
      refine .ite (untouched_bind (.modify fun s _ => ⟨rfl, rfl⟩) fun _ => ?_) (untouched_pure _)
      exact untouched_bind (hagain _) fun _ => untouched_pure _
    case isFalse hstatus =>
      have hn' : (n : Int) ≠ k := by omega
      exact (untouched G k).firstPage hn' q status

theorem chlGenQuery_untouched (hq : q.continueInx ≠ 0 → q.continueInx - 1 ≠ k) :
    OkRel (Untouched k) (chlGenQuery gen q) := by
  unfold chlGenQuery
  split
  case isTrue => exact openQuery_untouched (openQuery_untouched fun _ => untouched_pure _) q
  case isFalse hinx => exact (untouched G k).continueQuery (hq hinx)

/-- An operation leaves every slot with a statement that it does not name. -/
theorem Op.untouched {op : Op} (h : op.slot ≠ some (k : Int)) : OkRel (Untouched k) (op.run gen) := by
  cases op with
  | chlGenQuery q =>
    refine untouched_bind (chlGenQuery_untouched fun hinx => ?_) fun _ => untouched_pure _
    simpa [Op.slot, hinx] using h
  | cmlGetOneRowFromSql answer cValSize =>
    exact untouched_bind ((Statements.untouched G k).cmlGetOneRowFromSqlBV answer cValSize) fun _ => untouched_pure _
  | cmlGetOneRowFromSqlBV answer cValSize =>
    exact untouched_bind ((Statements.untouched G k).cmlGetOneRowFromSqlBV answer cValSize) fun _ => untouched_pure _
  | cmlGetOneRowFromSqlV2 answer maxCols =>
    exact untouched_bind ((Statements.untouched G k).cmlGetOneRowFromSqlV2 answer maxCols) fun _ => untouched_pure _
  | cmlFreeStatement n =>
    have hn : n ≠ k := by simpa [Op.slot] using h
    exact untouched_bind ((Statements.untouched G k).cllFreeStatement hn) fun _ => untouched_pure _

end Statements
