-- SUMMARY: What the operations make of the table of statement slots.
import Irods.Icat.Paging

/-!
# The table of slots

The triples say what an operation makes of the table of slots; the table before it is a
parameter of theirs. A statement that comes through keeps its slot for its owner or is
freed; what a page or the opening of a query leaves is said with the reason why it ended.
-/

namespace Statements

open CString EStateM
open Function (update update_self)

variable {G : Type} {f : Nat → Slot} {n : Nat} {st : Stmt}

/-! ## Tables -/

/-- The session has this table. -/
def Table (f : Nat → Slot) (s : Server G) : Prop := s.stmtPtr = f

/-- The table with something else in a slot. -/
abbrev Holds (f : Nat → Slot) (n : Nat) (x : Slot) (s : Server G) : Prop := Table (update f n x) s

/-- The only errors. -/
abbrev Overruns : Misuse → Prop := (· = .overrun)

/-- No slot but `n` is free. -/
def FullBut (f : Nat → Slot) (n : Nat) : Prop := ∀ m < MAX_NUM_OF_CONCURRENT_STMTS, m ≠ n → f m ≠ .empty

def Full (f : Nat → Slot) : Prop := ∀ m < MAX_NUM_OF_CONCURRENT_STMTS, f m ≠ .empty

variable {x : Slot}

theorem full_update (hx : x ≠ .empty) : Full (update f n x) ↔ FullBut f n := by
  constructor
  · intro h m hm hne
    have hslot := h m hm
    rwa [Function.update_of_ne hne] at hslot
  · intro h m hm
    by_cases hne : m = n
    · rwa [hne, update_self]
    · rw [Function.update_of_ne hne]
      exact h m hm hne

variable {s : Server G}

theorem freeSlot_none : s.freeSlot = none ↔ Full s.stmtPtr := by
  simp [Server.freeSlot, Full]

theorem setSlot_holds {y : Slot} (h : Holds f n x s) : Holds f n y (s.setSlot n y) := by
  show update s.stmtPtr n y = _
  rw [show s.stmtPtr = _ from h, Function.update_idem]

theorem freeStmt_holds (h : Holds f n x s) : Holds f n .empty (s.freeStmt n) :=
  setSlot_holds h

theorem holds_setSlot (s : Server G) (n : Nat) (x : Slot) : Holds s.stmtPtr n x (s.setSlot n x) := rfl

theorem Holds.slot (h : Holds f n x s) : s.stmtPtr n = x := by
  rw [show s.stmtPtr = _ from h, update_self]

/-! ## One row -/

/-- A statement that got a slot has a result table. -/
def ExecAnswer.Executes (full : Prop) (answer : ExecAnswer) : Prop :=
  answer ≠ .failure .sqlAllocStmt → ¬ full → ∃ numOfCols rows rowCount, answer = .result numOfCols rows rowCount

/-- The statement takes a slot, or it is refused before. -/
theorem execWithResult_triple {bind : G → G} {answer : ExecAnswer} (h : answer.Executes (Full f)) :
    Triple Overruns (Table f) (execWithResult bind answer) fun r s => match r with
      | .error _ => Table f s
      | .ok n => n < MAX_NUM_OF_CONCURRENT_STMTS ∧ f n = .empty ∧
        ∃ numOfCols rows rowCount, answer = .result numOfCols rows rowCount ∧
          Holds f n (.stmt ⟨numOfCols, List.replicate numOfCols [], rows, rowCount⟩) s := by
  refine .of_ok fun s hs => ?_
  by_cases halloc : answer = .failure .sqlAllocStmt
  · exact ⟨.error (-1), s, by rw [execWithResult, if_pos halloc]; rfl, hs⟩
  cases hfree : s.freeSlot with
  | none =>
    refine ⟨.error (-2), s, ?_, hs⟩
    rw [execWithResult, if_neg halloc, get_bind, hfree]
    rfl
  | some n =>
    have hnotFull : ¬ Full f := by
      rw [← show s.stmtPtr = f from hs, ← freeSlot_none, hfree]
      exact Option.some_ne_none n
    obtain ⟨numOfCols, rows, rowCount, rfl⟩ := h halloc hnotFull
    obtain ⟨hn, hempty⟩ := freeSlot_some hfree
    refine ⟨_, _, execWithResult_run hfree, hn, ?_, numOfCols, rows, rowCount, rfl, ?_⟩
    · rwa [show s.stmtPtr = f from hs] at hempty
    · show update s.stmtPtr n _ = _
      rw [show s.stmtPtr = f from hs]

/-- A row with columns is fetched, or the statement is freed. -/
theorem getRowOrFree_cases (hn : n < MAX_NUM_OF_CONCURRENT_STMTS) (hst : s.stmtPtr n = .stmt st) :
    (∃ row rest, st.rest = .row row :: rest ∧ st.numOfCols ≠ 0 ∧ getRowOrFree (n : Int) s =
      .ok 0 (s.setSlot n (.stmt { st with resultValue := row, rest := rest }))) ∨
    (∃ status, (status = CAT_NO_ROWS_FOUND ∧ st.rest.head? ≠ some .failed ∨ status = CAT_GET_ROW_ERR) ∧
      (∀ row rest, st.rest = .row row :: rest → st.numOfCols = 0) ∧
      getRowOrFree (n : Int) s = .ok status (s.freeStmt n)) := by
  cases hrest : st.rest with
  | nil => exact .inr ⟨_, .inl ⟨rfl, nofun⟩, nofun, getRowOrFree_end hn hst hrest⟩
  | cons fetch rest =>
    cases fetch with
    | failed => exact .inr ⟨_, .inr rfl, nofun, getRowOrFree_failed hn hst hrest⟩
    | row row =>
      by_cases hcols : st.numOfCols = 0
      · refine .inr ⟨_, .inl ⟨rfl, by simp⟩, fun _ _ _ => hcols, ?_⟩
        rw [getRowOrFree, bind_run (cllGetRow_row hn hst hrest), if_neg (by decide),
          bind_run (stmtAt_run hn (setSlot_self ..)), if_pos hcols,
          bind_run (cllFreeStatement_run hn (setSlot_self ..))]
        simp only [Server.freeStmt, setSlot_setSlot]
        rfl
      · exact .inl ⟨row, rest, rfl, hcols, getRowOrFree_row hn hst hrest hcols⟩

theorem getRowOrFree_triple (hn : n < MAX_NUM_OF_CONCURRENT_STMTS) :
    Triple (σ := Server G) Overruns (Holds f n (.stmt st)) (getRowOrFree n) fun status s =>
      (status = 0 ∧ ∃ row rest, st.rest = .row row :: rest ∧
        Holds f n (.stmt { st with resultValue := row, rest := rest }) s) ∨
      ((status = CAT_NO_ROWS_FOUND ∨ status = CAT_GET_ROW_ERR) ∧ Holds f n .empty s) := by
  refine .of_ok fun s hs => ?_
  obtain ⟨row, rest, hrest, -, hrun⟩ | ⟨status, hstatus, -, hrun⟩ := getRowOrFree_cases hn hs.slot
  · exact ⟨_, _, hrun, .inl ⟨rfl, row, rest, hrest, setSlot_holds hs⟩⟩
  · exact ⟨_, _, hrun, .inr ⟨hstatus.imp_left And.left, freeStmt_holds hs⟩⟩

theorem cllFreeStatement_triple (hn : n < MAX_NUM_OF_CONCURRENT_STMTS) :
    Triple (σ := Server G) Overruns (Holds f n (.stmt st)) (cllFreeStatement n) fun status s =>
      status = 0 ∧ Holds f n .empty s :=
  .of_ok fun _ hs => ⟨_, _, cllFreeStatement_run hn hs.slot, rfl, freeStmt_holds hs⟩

theorem cllFreeStatement_empty_triple (hn : n < MAX_NUM_OF_CONCURRENT_STMTS) (hempty : f n = .empty) :
    Triple (σ := Server G) Overruns (Table f) (cllFreeStatement n) fun status s => status = 0 ∧ Table f s := by
  refine .of_ok fun s hs => ⟨_, _, cllFreeStatement_empty hn ?_, rfl, hs⟩
  rwa [show s.stmtPtr = f from hs]

theorem stmtAt_triple (hn : n < MAX_NUM_OF_CONCURRENT_STMTS) :
    Triple (σ := Server G) Overruns (Holds f n (.stmt st)) (stmtAt n) fun st' s =>
      st' = st ∧ Holds f n (.stmt st) s :=
  .of_ok fun s hs => ⟨st, s, stmtAt_run hn hs.slot, rfl, hs⟩

theorem holds_empty (hempty : f n = .empty) : Holds (G := G) f n .empty = Table f := by
  unfold Holds
  rw [← hempty, Function.update_eq_self]

/-- A helper for one row frees what it takes. -/
theorem cmlGetOneRowFromSqlBV_triple {answer : ExecAnswer} (cValSize : List Nat)
    (h : answer.Executes (Full f)) :
    Triple (σ := Server G) Overruns (Table f) (cmlGetOneRowFromSqlBV answer cValSize) fun _ => Table f := by
  refine .bind (execWithResult_triple h) fun r => ?_
  cases r with
  | error i => exact .pure fun _ hs => hs
  | ok n =>
    refine fun s ⟨hn, hempty, numOfCols, rows, rowCount, _, hs⟩ => ?_
    refine Triple.bind (getRowOrFree_triple hn) (fun status => ?_) s hs
    refine .ite (fun hstatus => .pure fun s' hs' => ?_) fun hstatus => ?_
    · rcases hs' with ⟨hzero, -⟩ | ⟨-, hfreed⟩
      · exact absurd hzero hstatus
      · rwa [holds_empty hempty] at hfreed
    · intro s' hs'
      rcases hs' with ⟨-, row, rest, -, hrow⟩ | ⟨hneg, -⟩
      · refine Triple.bind (stmtAt_triple hn) (fun st => ?_) s' hrow
        refine fun s₂ ⟨hst, hs₂⟩ => ?_
        refine Triple.bind (cllFreeStatement_triple hn) (fun _ => .pure fun s₃ hs₃ => ?_) s₂ hs₂
        have hfreed := hs₃.2
        rwa [holds_empty hempty] at hfreed
      · rcases hneg with rfl | rfl
        · exact absurd (by decide) hstatus
        · exact absurd (by decide) hstatus

/-- A result table has a first row with columns, or the fetch fails. -/
def ExecAnswer.HasRow (full : Prop) (answer : ExecAnswer) : Prop :=
  answer ≠ .failure .sqlAllocStmt → ¬ full → ∀ numOfCols rows rowCount,
    answer = .result numOfCols rows rowCount → rows.head? = some .failed ∨ numOfCols ≠ 0 ∧ rows ≠ []

theorem cllGetRow_triple (hn : n < MAX_NUM_OF_CONCURRENT_STMTS) :
    Triple (σ := Server G) Overruns (Holds f n (.stmt st)) (cllGetRow n) fun i s =>
      ∃ st', Holds f n (.stmt st') s ∧ (i = 0 → st.rest.head? ≠ some .failed ∧
        (st.rest ≠ [] → st'.numOfCols = st.numOfCols)) := by
  refine .of_ok fun s hs => ?_
  have hst := hs.slot
  cases hrest : st.rest with
  | nil => exact ⟨_, _, cllGetRow_end hn hst hrest, _, setSlot_holds hs, fun _ => ⟨nofun, fun h => absurd rfl h⟩⟩
  | cons fetch rest =>
    cases fetch with
    | failed => exact ⟨_, _, cllGetRow_failed hn hst hrest, _, setSlot_holds hs, nofun⟩
    | row row => exact ⟨_, _, cllGetRow_row hn hst hrest, _, setSlot_holds hs, fun _ => ⟨by simp, fun _ => rfl⟩⟩

/-- The result that is handed out is in a slot that was free. -/
theorem cmlGetOneRowFromSqlV2_triple {answer : ExecAnswer} (maxCols : Nat)
    (h : answer.Executes (Full f)) (hrow : answer.HasRow (Full f)) :
    Triple (σ := Server G) Overruns (Table f) (cmlGetOneRowFromSqlV2 answer maxCols) fun r s =>
      (r.1 < 0 ∧ Table f s) ∨
      ∃ (n : Nat) (st : Stmt), r.1 = n ∧ n < MAX_NUM_OF_CONCURRENT_STMTS ∧ f n = .empty ∧ Holds f n (.stmt st) s := by
  by_cases hfull : Full f
  · refine .bind (Q := fun r s => (∃ i, r = .error i) ∧ Table f s) ?_ fun r => ?_
    · refine .conseq (execWithResult_triple h) (fun _ hs => hs) fun r s hs => ?_
      cases r with
      | error i => exact ⟨⟨i, rfl⟩, hs⟩
      | ok n => exact absurd hs.2.1 (hfull n hs.1)
    · rintro s ⟨⟨i, rfl⟩, hs⟩
      exact .inl ⟨cmlStatus_neg i, hs⟩
  refine .bind (execWithResult_triple h) fun r => ?_
  cases r with
  | error i => exact .pure fun _ hs => .inl ⟨cmlStatus_neg i, hs⟩
  | ok n =>
    refine fun s ⟨hn, hempty, numOfCols, rows, rowCount, hanswer, hs⟩ => ?_
    have hfirst := hrow (by simp [hanswer]) hfull _ _ _ hanswer
    refine Triple.bind (cllGetRow_triple hn) (fun i => ?_) s hs
    refine .ite (fun hi s' ⟨st', hs', _⟩ => ?_) fun hi s' ⟨st', hs', hgot⟩ => ?_
    · refine Triple.bind (cllFreeStatement_triple hn) (fun _ => .pure fun s₂ hs₂ => ?_) s' hs'
      have hfreed := hs₂.2
      rw [holds_empty hempty] at hfreed
      exact .inl ⟨by decide, hfreed⟩
    · obtain ⟨hnotFailed, hcols⟩ := hgot (by simpa using hi)
      obtain ⟨hpos, hrows⟩ := hfirst.resolve_left hnotFailed
      refine Triple.bind (stmtAt_triple hn) (fun st₂ => ?_) s' hs'
      refine fun s₂ ⟨hst₂, hs₂⟩ => ?_
      subst hst₂
      rw [if_neg (by rw [hcols hrows]; exact hpos)]
      refine Triple.bind (stmtAt_triple hn) (fun st₃ => .pure fun s₃ hs₃ => ?_) s₂ hs₂
      exact .inr ⟨n, st₂, rfl, hn, hempty, hs₃.2⟩

/-! ## A page -/

/-- The access check for a row comes through with its queries. -/
def AccessCheck.Executes (full : Prop) (check : AccessCheck) : Prop :=
  ∀ query ∈ check.queries, query.1.Executes full

theorem checkCondInputAccess_triple {check : AccessCheck} (h : check.Executes (Full f)) :
    Triple (σ := Server G) Overruns (Table f) (checkCondInputAccess check) fun status s =>
      status = check.status ∧ Table f s := by
  refine .bind (Q := fun _ => Table f) (.forM fun query hquery => ?_) fun _ => .pure fun _ hs => ⟨rfl, hs⟩
  exact .bind (cmlGetOneRowFromSqlBV_triple query.2 (h query hquery)) fun _ => .pure fun _ hs => hs

/-- The rows that can be fetched. -/
def leading : List Fetch → List (List Text)
  | .row row :: rest => row :: leading rest
  | _ => []

/-- The page could not get room for its row. -/
def NoRoom (numOfCols maxRows i len : Nat) (row : List Text) : Prop :=
  (i = 0 ∨ colSize row > len) ∧ mallocColumn numOfCols (newLen i len row) maxRows = none

/-- Some row of a page, from number `i` on, gets no room. -/
def PageNoRoom (numOfCols maxRows : Nat) : Nat → Nat → List (List Text) → Prop
  | _, _, [] => False
  | i, len, row :: rows =>
    NoRoom numOfCols maxRows i len row ∨ PageNoRoom numOfCols maxRows (i + 1) (newLen i len row) rows

variable {maxRows numOfCols : Nat} {p : Page}

theorem makeRoom_triple {P : Server G → Prop} {i : Nat} {row : List Text} (hi : p.out.rowCnt = i + 1) :
    Triple Overruns P (makeRoom numOfCols maxRows row p) fun r s => P s ∧ match r with
      | some p' => p'.out.rowCnt = i + 1 ∧ p'.out.len = newLen i p.out.len row
      | none => NoRoom numOfCols maxRows i p.out.len row := by
  refine .ite (fun hfirst => .pure fun s hs => ⟨hs, ?_⟩) fun hfirst => ?_
  · obtain rfl : i = 0 := by omega
    cases halloc : mallocColumn numOfCols (colSize row) maxRows with
    | none => exact ⟨.inl rfl, halloc⟩
    | some totalLen => exact ⟨hi, rfl⟩
  · have hne : i ≠ 0 := by omega
    refine .ite (fun hgrow => ?_) fun hgrow => .pure fun s hs => ⟨hs, hi, ?_⟩
    · have hlen : newLen i p.out.len row = colSize row + MINIMUM_COL_SIZE := by
        simp only [newLen, hne, hgrow, if_true, if_false]
      cases halloc : mallocColumn numOfCols (colSize row + MINIMUM_COL_SIZE) maxRows with
      | none =>
        simp only [halloc]
        exact .pure fun s hs => ⟨hs, .inr hgrow, by rw [hlen, halloc]⟩
      | some totalLen =>
        simp only [halloc]
        refine .ite (fun _ => .bind (Q := fun _ => P) (.throw rfl) fun _ => ?_) fun _ => ?_
        · exact .pure fun s hs => ⟨hs, hi, hlen.symm⟩
        · exact .pure fun s hs => ⟨hs, hi, hlen.symm⟩
    · simp only [newLen, hne, hgrow, if_false]

theorem storeRow_triple (hn : n < MAX_NUM_OF_CONCURRENT_STMTS) :
    Triple (σ := Server G) Overruns (Holds f n (.stmt st)) (storeRow n maxRows p) fun r s =>
      Holds f n (.stmt st) s ∧
      (r.1 = true → r.2.out.rowCnt = p.out.rowCnt + 1 ∧
        r.2.out.len = newLen p.out.rowCnt p.out.len st.resultValue) ∧
      (r.1 = false → NoRoom st.numOfCols maxRows p.out.rowCnt p.out.len st.resultValue) := by
  refine .bind (stmtAt_triple hn) fun st' s ⟨hst, hs⟩ => ?_
  subst hst
  refine Triple.bind (makeRoom_triple rfl) (fun room => ?_) s hs
  cases room with
  | none => exact .pure fun s' ⟨hs', hnone⟩ => ⟨hs', nofun, fun _ => hnone⟩
  | some p' =>
    refine .ite (fun _ => .bind (Q := fun _ _ => False) (.throw rfl) fun _ _ hfalse => hfalse.elim) fun _ => ?_
    exact .pure fun s' ⟨hs', hroom⟩ => ⟨hs', fun _ => hroom, nofun⟩

/-- A page that ends early: the statement was freed, with a status that tells the client or
with no `continueInx`, or the access check refused a row, or there was no room for one. -/
inductive Ended (q : Request) (f : Nat → Slot) (n numOfCols : Nat) (rows : List (List Text)) (p : Page) :
    Int → Int → Server G → Prop where
  | exhausted {status continueInx : Int} {s : Server G}
      (h : status = CAT_NO_ROWS_FOUND ∨ status = CAT_GET_ROW_ERR ∨ status = 0 ∧ continueInx ≤ 0)
      (hs : Holds f n .empty s) : Ended q f n numOfCols rows p status continueInx s
  | refused {status continueInx : Int} {s : Server G} {st : Stmt} {i : Nat} (hi : i < rows.length)
      (hlen : 0 < q.condInputLen) (h : status = (q.access (p.out.rowCnt + i)).status) (hne : status ≠ 0)
      (hs : Holds f n (.stmt st) s) : Ended q f n numOfCols rows p status continueInx s
  | noRoom {continueInx : Int} {s : Server G} {st : Stmt}
      (h : PageNoRoom numOfCols q.maxRows.toNat p.out.rowCnt p.out.len rows)
      (hs : Holds f n (.stmt st) s) : Ended q f n numOfCols rows p SYS_MALLOC_ERR continueInx s

/-- The access checks of rows from number `i` on come through with their queries. -/
def AccessExecutes (q : Request) (full : Prop) (i : Nat) (rows : List (List Text)) : Prop :=
  0 < q.condInputLen → ∀ j < rows.length, (q.access (i + j)).Executes full

variable {q : Request}

theorem nextRow_triple {left : Nat} (hn : n < MAX_NUM_OF_CONCURRENT_STMTS)
    (hq : AccessExecutes q (FullBut f n) p.out.rowCnt ((leading st.rest).take (left + 1))) :
    Triple (σ := Server G) Overruns (Holds f n (.stmt st)) (nextRow q n p) fun r s =>
      match r.1 with
      | none => r.2 = p ∧ ∃ row rest, st.rest = .row row :: rest ∧
          Holds f n (.stmt { st with resultValue := row, rest := rest }) s
      | some status =>
        Ended q f n st.numOfCols ((leading st.rest).take (left + 1)) p status r.2.out.continueInx s := by
  refine .bind (getRowOrFree_triple hn) fun status => ?_
  rintro s (⟨rfl, row, rest, hrest, hs⟩ | ⟨rfl | rfl, hs⟩)
  · have hlead : (leading st.rest).take (left + 1) = row :: (leading rest).take left := by
      simp [hrest, leading]
    have hfetched : Triple (σ := Server G) Overruns
        (Holds f n (.stmt { st with resultValue := row, rest := rest })) (pure (none, p)) fun r s =>
          match r.1 with
          | none => r.2 = p ∧ ∃ row rest, st.rest = .row row :: rest ∧
              Holds f n (.stmt { st with resultValue := row, rest := rest }) s
          | some status =>
            Ended q f n st.numOfCols ((leading st.rest).take (left + 1)) p status r.2.out.continueInx s :=
      .pure fun s' hs' => ⟨rfl, row, rest, hrest, hs'⟩
    refine Triple.ite (fun hlen => ?_) (fun _ => hfetched) s hs
    have hexec : (q.access p.out.rowCnt).Executes
        (Full (update f n (.stmt { st with resultValue := row, rest := rest }))) := by
      rw [full_update (by simp)]
      exact hq hlen 0 (by simp [hlead])
    refine .bind (checkCondInputAccess_triple hexec) fun status => ?_
    refine .ite (fun hne s' ⟨hstatus, hs'⟩ => ?_) fun _ => .conseq hfetched (fun _ h => h.2) fun _ _ h => h
    exact .refused (i := 0) (by simp [hlead]) hlen hstatus hne hs'
  · have hslot : update f n .empty n = .empty := update_self ..
    refine Triple.bind (cllFreeStatement_empty_triple hn hslot) (fun _ => .pure fun s' hs' => ?_) s hs
    refine .exhausted ?_ hs'.2
    split
    · exact .inl rfl
    · exact .inr (.inr ⟨rfl, Int.le_refl 0⟩)
  · exact .exhausted (.inr (.inl rfl)) hs

/-- A page that ends after one row more. -/
theorem Ended.cons {q : Request} {numOfCols : Nat} {row : List Text} {rows : List (List Text)} {p p' : Page}
    {status continueInx : Int} {s : Server G} (h : Ended q f n numOfCols rows p' status continueInx s)
    (hcnt : p'.out.rowCnt = p.out.rowCnt + 1) (hlen : p'.out.len = newLen p.out.rowCnt p.out.len row) :
    Ended q f n numOfCols (row :: rows) p status continueInx s := by
  cases h with
  | exhausted h hs => exact .exhausted h hs
  | @refused _ _ _ _ i hi hinput h hne hs =>
    refine .refused (i := i + 1) (by simpa using hi) hinput ?_ hne hs
    rw [h, hcnt, Nat.add_right_comm, Nat.add_assoc]
  | noRoom h hs => exact .noRoom (.inr (by rwa [hcnt, hlen] at h)) hs

/-- After a page the statement is there, or the page ended early. -/
theorem pageLoop_triple {q : Request} (hn : n < MAX_NUM_OF_CONCURRENT_STMTS) : ∀ (left : Nat) {p : Page}
    {st : Stmt}, AccessExecutes q (FullBut f n) p.out.rowCnt ((leading st.rest).take left) →
    Triple (σ := Server G) Overruns (Holds f n (.stmt st)) (pageLoop q n left true p) fun r s =>
      match r.1 with
      | none => ∃ st', Holds f n (.stmt st') s
      | some status =>
        Ended q f n st.numOfCols ((leading st.rest).take left) p status r.2.out.continueInx s
  | 0, p, st, _ => .pure fun s hs => ⟨st, hs⟩
  | left + 1, p, st, hq => by
    refine .bind (nextRow_triple hn hq) fun (ended, p₁) => ?_
    cases ended with
    | some status => exact .pure fun s hs => hs
    | none =>
      rintro s ⟨rfl, row, rest, hrest, hs⟩
      have hlead : (leading st.rest).take (left + 1) = row :: (leading rest).take left := by
        simp [hrest, leading]
      rw [hlead] at hq ⊢
      refine Triple.bind (storeRow_triple hn) (fun (stored, p₂) => ?_) s hs
      refine .ite (fun hstored s' ⟨hs', hroom, _⟩ => ?_) fun hstored => .pure fun s' ⟨hs', _, hnone⟩ => ?_
      · obtain ⟨hcnt, hlen⟩ := hroom hstored
        have hq' : AccessExecutes q (FullBut f n) p₂.out.rowCnt ((leading rest).take left) := by
          intro hinput j hj
          have hexec := hq hinput (j + 1) (by simpa using hj)
          rwa [Nat.add_comm j, ← Nat.add_assoc, ← hcnt] at hexec
        refine Triple.conseq (pageLoop_triple hn left hq') (fun _ h => h) (fun r s₂ hr => ?_) s' hs'
        obtain ⟨ended, p₃⟩ := r
        cases ended with
        | none => exact hr
        | some status => exact hr.cons hcnt hlen
      · exact .noRoom (.inl (hnone (by simpa using hstored))) hs'

/-- What a page leaves: the statement with its `continueInx`, or it ended early. -/
def PageLeft (q : Request) (f : Nat → Slot) (n numOfCols : Nat) (rows : List (List Text)) (p : Page)
    (status continueInx : Int) (s : Server G) : Prop :=
  (status = 0 ∧ continueInx = n + 1 ∧ ∃ st, Holds f n (.stmt st) s) ∨
    Ended q f n numOfCols rows p status continueInx s

theorem page_triple {needToGetNextRow : Bool} {out : GenQueryOut} {rows : List (List Text)}
    (hn : n < MAX_NUM_OF_CONCURRENT_STMTS) (hloop : Triple (σ := Server G) Overruns (Holds f n (.stmt st))
      (pageLoop q n q.maxRows.toNat needToGetNextRow ⟨out, 0⟩) fun r s => match r.1 with
        | none => ∃ st', Holds f n (.stmt st') s
        | some status => Ended q f n numOfCols rows ⟨out, 0⟩ status r.2.out.continueInx s) :
    Triple (σ := Server G) Overruns (Holds f n (.stmt st)) (page q n needToGetNextRow out) fun r s =>
      PageLeft q f n numOfCols rows ⟨out, 0⟩ r.1 r.2.continueInx s := by
  refine .bind hloop fun (ended, p) => ?_
  cases ended with
  | some status => exact .pure fun s hs => .inr hs
  | none =>
    refine .ite (fun _ s ⟨st', hs⟩ => ?_) fun _ => .pure fun s hs => .inl ⟨rfl, rfl, hs⟩
    refine Triple.bind (cllFreeStatement_triple hn) (fun status => .pure fun s' ⟨hstatus, hs'⟩ => ?_) s hs
    exact .inr (.exhausted (.inr (.inr ⟨hstatus, Int.negSucc_le_zero 0⟩)) hs')

/-- The page of a query whose first row has been fetched. -/
theorem firstPage_triple {out : GenQueryOut} (hn : n < MAX_NUM_OF_CONCURRENT_STMTS) (hout : out.rowCnt = 0)
    (hq : AccessExecutes q (FullBut f n) 0 (st.resultValue :: (leading st.rest).take (q.maxRows.toNat - 1))) :
    Triple (σ := Server G) Overruns (Holds f n (.stmt st)) (page q n false out) fun r s =>
      PageLeft q f n st.numOfCols ((st.resultValue :: leading st.rest).take q.maxRows.toNat) ⟨out, 0⟩
        r.1 r.2.continueInx s := by
  refine page_triple hn ?_
  cases hmax : q.maxRows.toNat with
  | zero => exact .pure fun s hs => ⟨st, hs⟩
  | succ left =>
    rw [hmax, Nat.add_sub_cancel] at hq
    rw [pageLoop, if_neg (by decide), pure_bind, List.take_succ_cons]
    refine .bind (storeRow_triple hn) ?_
    rintro ⟨stored, p⟩
    refine .ite (fun hstored => ?_) fun hstored => .pure ?_
    · rintro s ⟨hs, hroom, -⟩
      obtain ⟨hcnt, hlen⟩ := hroom hstored
      have hq' : AccessExecutes q (FullBut f n) p.out.rowCnt ((leading st.rest).take left) := by
        intro hinput j hj
        have hexec := hq hinput (j + 1) (by simpa using hj)
        rwa [Nat.zero_add, Nat.add_comm j, ← Nat.zero_add 1, ← hout, ← hcnt] at hexec
      refine Triple.conseq (pageLoop_triple hn left hq') (fun _ h => h) (fun r s' hr => ?_) s hs
      obtain ⟨ended, p'⟩ := r
      cases ended with
      | none => exact hr
      | some status => exact hr.cons hcnt hlen
    · rintro s ⟨hs, -, hnone⟩
      exact .noRoom (.inl (hnone (by simpa using hstored))) hs

/-! ## Opening -/

/-- The first row of a result table, with the number of columns and what comes after it. -/
def ExecAnswer.firstRow : ExecAnswer → Option (Nat × List Text × List Fetch)
  | .result numOfCols (.row row :: rest) _ => if numOfCols = 0 then none else some (numOfCols, row, rest)
  | _ => none

/-- The result table is empty. -/
def ExecAnswer.NoRows (answer : ExecAnswer) : Prop :=
  answer.firstRow = none ∧
    ∃ numOfCols rows rowCount, answer = .result numOfCols rows rowCount ∧ rows.head? ≠ some .failed

/-- What is answered to the statement for a request, and the generators after it. -/
def Request.answer (gen : Generator G) (q : Request) (g : G) : Option (ExecAnswer × G) :=
  match gen.generate q.inp g with
  | .sql sql g => some (q.database sql (gen.bindVars g), gen.reset g)
  | _ => none

/-- How the first row of a query comes out, from the session `s` and with the generators
`g` after the statement. -/
inductive FirstRow (s : Server G) (g : G) (answer : ExecAnswer) : Int → Nat → Server G → Prop where
  | failed {status : Int} {n : Nat} {s' : Server G} (hneg : status < 0) (hne : status ≠ CAT_NO_ROWS_FOUND)
      (hs : Table s.stmtPtr s') : FirstRow s g answer status n s'
  | noRows {n : Nat} {s' : Server G} (hfree : s.freeSlot ≠ none) (hnone : answer.NoRows)
      (hgen : s'.gen = g) (hs : Table s.stmtPtr s') : FirstRow s g answer CAT_NO_ROWS_FOUND n s'
  | row {n numOfCols : Nat} {row : List Text} {rest : List Fetch} {s' : Server G}
      (rowCount : Int) (hfree : s.freeSlot = some n) (hfirst : answer.firstRow = some (numOfCols, row, rest))
      (hs : Holds s.stmtPtr n (.stmt ⟨numOfCols, row, rest, rowCount⟩) s') : FirstRow s g answer 0 n s'

variable {gen : Generator G}

theorem cmlGetFirstRowFromSql_error {database : Text → List Text → ExecAnswer} {sql : Text} {i : Int}
    (hi : CAT_ENV_ERR < i) (hrun : cllExecSqlWithResult gen database sql s = .ok (.error i) s) (g : G)
    (answer : ExecAnswer) :
    ∃ status n s', cmlGetFirstRowFromSql gen database sql s = .ok (status, n) s' ∧
      s'.recursiveCall = s.recursiveCall ∧ FirstRow s g answer status n s' := by
  refine ⟨cmlStatus i, 0, s, by rw [cmlGetFirstRowFromSql, bind_run hrun]; rfl, rfl,
    .failed (cmlStatus_neg i) ?_ rfl⟩
  rw [cmlStatus, if_neg (by omega)]
  decide

/-- What asking for a first row comes to, by what the database answers. -/
theorem cmlGetFirstRowFromSql_run (gen : Generator G) {database : Text → List Text → ExecAnswer} (sql : Text)
    {s : Server G} (h : (database sql (gen.bindVars s.gen)).Executes (Full s.stmtPtr)) :
    ∃ status n s', cmlGetFirstRowFromSql gen database sql s = .ok (status, n) s' ∧
      s'.recursiveCall = s.recursiveCall ∧
      FirstRow s (gen.reset s.gen) (database sql (gen.bindVars s.gen)) status n s' := by
  have hexec : cllExecSqlWithResult gen database sql s =
      execWithResult gen.reset (database sql (gen.bindVars s.gen)) s := rfl
  generalize database sql (gen.bindVars s.gen) = answer at h hexec
  by_cases halloc : answer = .failure .sqlAllocStmt
  · have hrun : cllExecSqlWithResult gen database sql s = .ok (.error (-1)) s := by
      rw [hexec, execWithResult, if_pos halloc]
      rfl
    exact cmlGetFirstRowFromSql_error (by decide) hrun _ _
  cases hfree : s.freeSlot with
  | none =>
    have hrun : cllExecSqlWithResult gen database sql s = .ok (.error (-2)) s := by
      rw [hexec, execWithResult, if_neg halloc, get_bind, hfree]
      rfl
    exact cmlGetFirstRowFromSql_error (by decide) hrun _ _
  | some n =>
    have hnotFull : ¬ Full s.stmtPtr := by
      rw [← freeSlot_none, hfree]
      exact Option.some_ne_none n
    obtain ⟨numOfCols, rows, rowCount, rfl⟩ := h halloc hnotFull
    obtain ⟨hn, hempty⟩ := freeSlot_some hfree
    let s₁ : Server G := Server.setSlot { s with gen := gen.reset s.gen } n
      (.stmt ⟨numOfCols, List.replicate numOfCols [], rows, rowCount⟩)
    have hrun : cllExecSqlWithResult gen database sql s = .ok (.ok n) s₁ :=
      hexec.trans (execWithResult_run hfree)
    have hholds : Holds s.stmtPtr n _ s₁ := holds_setSlot ..
    obtain ⟨row, rest, hrest, hcols, hrow⟩ | ⟨status, hstatus, hnone, hrow⟩ := getRowOrFree_cases hn hholds.slot
    · obtain rfl : rows = .row row :: rest := hrest
      have hfirst : (ExecAnswer.result numOfCols (.row row :: rest) rowCount).firstRow =
          some (numOfCols, row, rest) := if_neg hcols
      refine ⟨0, n, _, ?_, ?_, .row rowCount hfree hfirst (setSlot_holds hholds)⟩
      · rw [cmlGetFirstRowFromSql, bind_run hrun]
        exact bind_run hrow
      · rfl
    · have hfirst : (ExecAnswer.result numOfCols rows rowCount).firstRow = none := by
        cases rows with
        | nil => rfl
        | cons fetch rest =>
          cases fetch with
          | failed => rfl
          | row row => exact if_pos (hnone row rest rfl)
      have htable : Table s.stmtPtr (s₁.freeStmt n) := by
        have hfreed := freeStmt_holds hholds
        rwa [holds_empty hempty] at hfreed
      have hstatus' : FirstRow s (gen.reset s.gen) (.result numOfCols rows rowCount) status 0
          (s₁.freeStmt n) := by
        rcases hstatus with ⟨rfl, hfailed⟩ | rfl
        · exact .noRows (by rw [hfree]; exact Option.some_ne_none n) ⟨hfirst, _, _, _, rfl, hfailed⟩ rfl htable
        · exact .failed (by decide) (by decide) htable
      refine ⟨status, 0, s₁.freeStmt n, ?_, rfl, hstatus'⟩
      rw [cmlGetFirstRowFromSql, bind_run hrun]
      simp only
      rw [bind_run hrow, if_pos]
      · rfl
      · rcases hstatus with ⟨rfl, -⟩ | rfl <;> decide

/-- The count does not end the call, unless the flag for the fallback is set. -/
theorem countRows_triple {recursive : Bool} (out : GenQueryOut) (hn : n < MAX_NUM_OF_CONCURRENT_STMTS)
    (h : recursive = true → q.returnTotalRowCount = false) :
    Triple (σ := Server G) Overruns (fun s => Holds f n (.stmt st) s ∧ s.recursiveCall = recursive)
      (countRows q n out) fun r s => r.1 = false ∧ r.2.rowCnt = out.rowCnt ∧ r.2.len = out.len ∧
          Holds f n (.stmt st) s := by
  refine .ite (fun _ => .pure fun s hs => ⟨rfl, rfl, rfl, hs.1⟩) fun htotal => ?_
  have hflag : recursive = false := by
    cases recursive with
    | false => rfl
    | true => exact absurd (h rfl) htotal
  refine .of_ok fun s ⟨hs, hrec⟩ => ?_
  rw [hflag] at hrec
  have hcount : cllGetRowCount 0 (n : Int) s = .ok st.rowCount s := by
    rw [cllGetRowCount, if_neg (by omega), bind_run (stmtAt_run hn hs.slot)]
    rfl
  refine ⟨(false, if st.rowCount ≥ 0 then { out with totalRowCount := st.rowCount + q.inp.rowOffset } else out), s,
    ?_, rfl, ?_, ?_, hs⟩
  · rw [bind_run hcount, get_bind, hrec]
    rfl
  all_goals
    split <;> rfl

/-- The first page of a query: the access checks of its rows come through and grant them,
and there is room for them. -/
structure FirstPage (q : Request) (f : Nat → Slot) (n numOfCols : Nat) (row : List Text) (rest : List Fetch) :
    Prop where
  access : AccessExecutes q (FullBut f n) 0 (row :: (leading rest).take (q.maxRows.toNat - 1))
  granted : 0 < q.condInputLen → ∀ i < ((row :: (leading rest).take (q.maxRows.toNat - 1))).length,
    (q.access i).status = 0
  room : ¬ PageNoRoom numOfCols q.maxRows.toNat 0 0 ((row :: leading rest).take q.maxRows.toNat)

/-- A query is opened without losing the slot: its statement comes through, the call goes
on after the count, and the first page comes out. -/
structure Request.Opens (q : Request) (s : Server G) (answer : ExecAnswer) : Prop where
  executes : answer.Executes (Full s.stmtPtr)
  noFlag : s.freeSlot ≠ none → answer.firstRow ≠ none → s.recursiveCall = true → q.returnTotalRowCount = false
  firstPage : ∀ n numOfCols row rest, s.freeSlot = some n → answer.firstRow = some (numOfCols, row, rest) →
    FirstPage q s.stmtPtr n numOfCols row rest

/-- The call without an offset. -/
def Request.withoutOffset (q : Request) : Request := { q with inp := { q.inp with rowOffset := 0 } }

/-- The call for the count is made. -/
def Request.FallsBack (q : Request) (answer : ExecAnswer) : Prop :=
  answer.NoRows ∧ q.returnTotalRowCount = true ∧ q.inp.rowOffset > 0

/-- What opening a query leaves: the table as it was and no `continueInx`, or one for a
slot that was free, which has the statement. -/
def Opened (gen : Generator G) (q : Request) (s : Server G) (status continueInx : Int) (s' : Server G) : Prop :=
  ((0 ≤ status → continueInx ≤ 0) ∧ Table s.stmtPtr s') ∨
  (status = 0 ∧ ∃ (n : Nat) (st : Stmt), continueInx = n + 1 ∧ s.freeSlot = some n ∧ Holds s.stmtPtr n (.stmt st) s' ∧
    ∃ answer g, q.answer gen s.gen = some (answer, g) ∧ answer.firstRow ≠ none)

theorem FirstPage.opened {s' : Server G} {answer : ExecAnswer} {g : G} {row : List Text} {rest : List Fetch}
    {out : GenQueryOut} {status continueInx : Int} (h : FirstPage q s.stmtPtr n numOfCols row rest)
    (hfree : s.freeSlot = some n) (hanswer : q.answer gen s.gen = some (answer, g)) (hfirst : answer.firstRow ≠ none)
    (hcnt : out.rowCnt = 0) (hlen : out.len = 0)
    (hleft : PageLeft q s.stmtPtr n numOfCols ((row :: leading rest).take q.maxRows.toNat) ⟨out, 0⟩
      status continueInx s') :
    Opened gen q s status continueInx s' := by
  have hempty := (freeSlot_some hfree).2
  rcases hleft with ⟨hstatus, hinx, st, hs⟩ | hended
  · exact .inr ⟨hstatus, n, st, hinx, hfree, hs, answer, g, hanswer, hfirst⟩
  · cases hended with
    | exhausted hwhy hs =>
      rw [holds_empty hempty] at hs
      refine .inl ⟨fun hpos => ?_, hs⟩
      rcases hwhy with rfl | rfl | ⟨-, hinx⟩
      · exact absurd hpos (by decide)
      · exact absurd hpos (by decide)
      · exact hinx
    | @refused _ _ _ _ i hi hinput hstatus hne hs =>
      refine absurd (hstatus.trans ?_) hne
      apply h.granted hinput
      simp only [List.length_take, List.length_cons] at hi ⊢
      omega
    | noRoom hroom hs =>
      rw [hcnt, hlen] at hroom
      exact absurd hroom h.room

theorem openQuery_triple {again : Request → StmtM G (Int × GenQueryOut)}
    (hopens : ∀ answer g, q.answer gen s.gen = some (answer, g) → q.Opens s answer)
    (hagain : ∀ answer g, q.answer gen s.gen = some (answer, g) → s.freeSlot ≠ none → q.FallsBack answer →
      ∀ s', s'.gen = g → Table s.stmtPtr s' → s'.freeSlot = s.freeSlot →
        Triple Overruns (· = s') (again q.withoutOffset) fun _ => Table s.stmtPtr) :
    Triple Overruns (· = s) (openQuery gen again q) fun r s' => Opened gen q s r.1 r.2.continueInx s' := by
  have hnothing : ∀ status s', Table s.stmtPtr s' → Opened gen q s status GenQueryOut.init.continueInx s' :=
    fun _ _ hs => .inl ⟨fun _ => Int.le_refl 0, hs⟩
  refine .bind_run rfl ?_
  cases hgenerate : gen.generate q.inp s.gen with
  | overrun => exact .throw rfl
  | refused status g => exact .bind_run rfl (.pure fun s' hs' => hnothing status s' (by rw [hs']; rfl))
  | sql combinedSQL g =>
    have hanswer : q.answer gen s.gen = some (q.database combinedSQL (gen.bindVars g), gen.reset g) := by
      rw [Request.answer, hgenerate]
    have hopen := hopens _ _ hanswer
    refine .bind_run rfl ?_
    obtain ⟨status, n, s₁, hrun, hrec, hrow⟩ :=
      @cmlGetFirstRowFromSql_run G gen q.database combinedSQL { s with gen := g } hopen.executes
    refine .bind_run hrun ?_
    cases hrow with
    | failed hneg hne hs =>
      simp only
      rw [if_pos hneg, if_neg fun h => hne h.1]
      exact .pure fun s' hs' => hnothing status s' (by rw [hs']; exact hs)
    | noRows hfree hnone hgen hs =>
      simp only
      rw [if_pos (by decide)]
      refine .ite (fun hfall => ?_) fun _ => .pure fun s' hs' => hnothing _ s' (by rw [hs']; exact hs)
      have htable : s₁.stmtPtr = s.stmtPtr := hs
      have hsame : Server.freeSlot { s₁ with recursiveCall := true } = s.freeSlot := by
        simp only [Server.freeSlot, htable]
      refine .bind_run rfl (.bind (hagain _ _ hanswer hfree ⟨hnone, hfall.2⟩ _ hgen hs hsame) fun r => ?_)
      have hneg : ¬ 0 ≤ CAT_NO_ROWS_FOUND := by decide
      exact .pure fun s' hs' => .inl ⟨fun hpos => absurd hpos hneg, hs'⟩
    | @row n numOfCols row rest _ rowCount hfree hfirst hs =>
      have hn := (freeSlot_some hfree).1
      have hsome : (q.database combinedSQL (gen.bindVars g)).firstRow ≠ none := by
        rw [hfirst]
        exact nofun
      have hpage := hopen.firstPage n numOfCols row rest hfree hfirst
      have hflag := hopen.noFlag (by rw [show s.freeSlot = some n from hfree]; exact nofun) hsome
      have hcount : Triple (σ := Server G) Overruns (fun s' => Holds s.stmtPtr n
          (.stmt ⟨numOfCols, row, rest, rowCount⟩) s' ∧ s'.recursiveCall = s.recursiveCall) _ _ :=
        countRows_triple .init hn hflag
      have hbefore : ∀ s', s' = s₁ → Holds s.stmtPtr n (.stmt ⟨numOfCols, row, rest, rowCount⟩) s' ∧
          s'.recursiveCall = s.recursiveCall := by
        rintro _ rfl
        exact ⟨hs, hrec⟩
      simp only
      refine .bind (.conseq hcount hbefore fun _ _ h => h) fun (ended, out) s₂ ⟨hended, hcnt, hlen, hs₂⟩ => ?_
      subst hended
      refine (?_ : Triple Overruns (Holds s.stmtPtr n (.stmt ⟨numOfCols, row, rest, rowCount⟩)) _ _) s₂ hs₂
      have hcnt' : ({ out with continueInx := n + 1 } : GenQueryOut).rowCnt = 0 := hcnt
      have hfirstPage : Triple (σ := Server G) Overruns
          (Holds s.stmtPtr n (.stmt ⟨numOfCols, row, rest, rowCount⟩)) _ _ :=
        firstPage_triple hn hcnt' hpage.access
      have hpaged := Triple.conseq hfirstPage (fun _ h => h) fun r s' hr =>
        hpage.opened hfree hanswer hsome hcnt' hlen hr
      rw [if_neg Bool.false_ne_true]
      refine .ite (fun hinput => ?_) fun _ => hpaged
      have hexec : (q.access 0).Executes
          (Full (update s.stmtPtr n (.stmt ⟨numOfCols, row, rest, rowCount⟩))) := by
        rw [full_update (by simp)]
        exact hpage.access hinput 0 (by simp)
      refine .bind (checkCondInputAccess_triple hexec) fun status s' ⟨hstatus, hs'⟩ => ?_
      rw [hpage.granted hinput 0 (by simp)] at hstatus
      subst hstatus
      exact hpaged s' hs'

end Statements
