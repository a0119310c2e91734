-- SUMMARY: Who owns the statement slots, over a run.
import Irods.Icat.SlotsKept

/-!
# Slots and their owners

A slot belongs to a query whose `continueInx` the client can still pass, or to a result of
`cmlGetOneRowFromSqlV2` that its caller has not freed. The owners are kept beside the
session, from what the operations return. A run whose statements fail before they take a
slot, whose first rows are granted and whose clients pass back what they were given keeps
every slot owned.
-/

namespace Statements

open CString EStateM
open Function (update update_of_ne update_self)

variable {G : Type} {f : Nat → Slot} {n : Nat} {st : Stmt}

/-! ## Owners -/

inductive Owner where
  | query (continueInx : Int)
  | result (statementNum : Int)
  deriving DecidableEq

def Owner.slot : Owner → Int
  | .query continueInx => continueInx - 1
  | .result statementNum => statementNum

/-- Every owner has a statement of its own, and every occupied slot has an owner. -/
structure Owned (f : Nat → Slot) (owners : List Owner) : Prop where
  slot : ∀ o ∈ owners, ∃ (n : Nat) (st : Stmt), o.slot = n ∧ n < MAX_NUM_OF_CONCURRENT_STMTS ∧ f n = .stmt st
  apart : ∀ o ∈ owners, ∀ o' ∈ owners, o.slot = o'.slot → o = o'
  accounted : ∀ n, f n ≠ .empty → ∃ o ∈ owners, o.slot = n

namespace Owned

variable {owners : List Owner} {o : Owner}

theorem keep (h : Owned f owners) (hst : f n = .stmt st) (st' : Stmt) :
    Owned (update f n (.stmt st')) owners := by
  refine ⟨fun o ho => ?_, h.apart, fun m hm => ?_⟩
  · obtain ⟨m, stm, hslot, hm, hfm⟩ := h.slot o ho
    by_cases heq : m = n
    · subst heq
      exact ⟨m, st', hslot, hm, update_self ..⟩
    · exact ⟨m, stm, hslot, hm, by rw [update_of_ne heq, hfm]⟩
  · apply h.accounted
    by_cases heq : m = n
    · subst heq
      rw [hst]
      exact nofun
    · rwa [update_of_ne heq] at hm

theorem take (h : Owned f owners) (ho : o.slot = n) (hn : n < MAX_NUM_OF_CONCURRENT_STMTS) (hempty : f n = .empty)
    (st : Stmt) : Owned (update f n (.stmt st)) (o :: owners) := by
  have hother : ∀ o' ∈ owners, o'.slot ≠ n := by
    intro o' ho' hslot
    obtain ⟨m, st', hm, -, hfm⟩ := h.slot o' ho'
    obtain rfl : m = n := by omega
    rw [hempty] at hfm
    cases hfm
  refine ⟨fun o' ho' => ?_, fun o₁ h₁ o₂ h₂ heq => ?_, fun m hm => ?_⟩
  · rcases List.mem_cons.mp ho' with rfl | hmem
    · exact ⟨n, st, ho, hn, update_self ..⟩
    · obtain ⟨m, st', hslot, hm, hfm⟩ := h.slot o' hmem
      have hne : m ≠ n := by
        rintro rfl
        exact hother o' hmem hslot
      exact ⟨m, st', hslot, hm, by rw [update_of_ne hne, hfm]⟩
  · rcases List.mem_cons.mp h₁ with rfl | hmem₁ <;> rcases List.mem_cons.mp h₂ with rfl | hmem₂
    · rfl
    · exact absurd (heq.symm.trans ho) (hother o₂ hmem₂)
    · exact absurd (heq.trans ho) (hother o₁ hmem₁)
    · exact h.apart o₁ hmem₁ o₂ hmem₂ heq
  · by_cases heq : m = n
    · exact ⟨o, by simp, by rw [ho, heq]⟩
    · rw [update_of_ne heq] at hm
      obtain ⟨o', ho', hslot⟩ := h.accounted m hm
      exact ⟨o', by simp [ho'], hslot⟩

/-- The statement of an owner is freed, and the owner is gone. -/
theorem release (h : Owned f owners) (hmem : o ∈ owners) (ho : o.slot = n) :
    Owned (update f n .empty) (owners.filter (· ≠ o)) := by
  have hkept : ∀ o', o' ∈ owners.filter (· ≠ o) ↔ o' ∈ owners ∧ o' ≠ o := by simp
  refine ⟨fun o' ho' => ?_, fun o₁ h₁ o₂ h₂ => ?_, fun m hm => ?_⟩
  · obtain ⟨ho', hne⟩ := (hkept o').mp ho'
    obtain ⟨m, st, hslot, hm, hfm⟩ := h.slot o' ho'
    have hmn : m ≠ n := by
      rintro rfl
      exact hne (h.apart o' ho' o hmem (hslot.trans ho.symm))
    exact ⟨m, st, hslot, hm, by rw [update_of_ne hmn, hfm]⟩
  · exact h.apart o₁ ((hkept o₁).mp h₁).1 o₂ ((hkept o₂).mp h₂).1
  · have hmn : m ≠ n := by
      rintro rfl
      exact hm (update_self ..)
    rw [update_of_ne hmn] at hm
    obtain ⟨o', ho', hslot⟩ := h.accounted m hm
    refine ⟨o', (hkept o').mpr ⟨ho', ?_⟩, hslot⟩
    rintro rfl
    omega

theorem filter_empty (h : Owned f owners) (hempty : f n = .empty) (ho : o.slot = n) :
    owners.filter (· ≠ o) = owners := by
  rw [List.filter_eq_self]
  intro o' ho'
  obtain ⟨m, st, hslot, -, hst⟩ := h.slot o' ho'
  have hne : o' ≠ o := by
    rintro rfl
    obtain rfl : m = n := by omega
    rw [hempty] at hst
    cases hst
  simpa using hne

end Owned

/-! ## A session with its owners -/

structure Tracked (G : Type) where
  server : Server G
  owners : List Owner

/-- With this reply the client has nothing more to pass back. -/
def Request.Ends (q : Request) (reply : Reply) : Prop :=
  q.maxRows ≤ 0 ∨ reply.status = CAT_NO_ROWS_FOUND ∨ reply.status = CAT_GET_ROW_ERR ∨
    0 ≤ reply.status ∧ reply.continueInx ≤ 0

instance (q : Request) (reply : Reply) : Decidable (q.Ends reply) := by
  unfold Request.Ends
  infer_instance

/-- The owners after an operation. -/
def Op.owners (op : Op) (reply : Reply) (owners : List Owner) : List Owner :=
  match op with
  | .chlGenQuery q =>
    if q.continueInx = 0 then
      if 0 ≤ reply.status ∧ 0 < reply.continueInx then .query reply.continueInx :: owners else owners
    else if q.Ends reply then owners.filter (· ≠ .query q.continueInx)
    else owners
  | .cmlGetOneRowFromSqlV2 .. => if 0 ≤ reply.status then .result reply.status :: owners else owners
  | .cmlFreeStatement n => owners.filter (· ≠ .result n)
  | _ => owners

/-- An operation that stops the process leaves the session. -/
def Tracked.exec (gen : Generator G) (t : Tracked G) (op : Op) : Tracked G :=
  match op.run gen t.server with
  | .ok reply s => ⟨s, op.owners reply t.owners⟩
  | .error _ _ => t

/-- A slot is occupied only if it has an owner. -/
def Tracked.Accounted (t : Tracked G) : Prop :=
  ∀ n, t.server.stmtPtr n ≠ .empty → ∃ o ∈ t.owners, o.slot = n

/-- The operation reads no empty or half-made slot and no index outside the table. -/
def Tracked.Uses (gen : Generator G) (t : Tracked G) (op : Op) : Prop :=
  ∀ e s, op.run gen t.server = .error e s → e = .overrun

/-- A session in which nothing is open. -/
def Tracked.idle (g : G) (recursiveCall : Bool) (freed : List Nat) : Tracked G :=
  ⟨⟨g, fun _ => .empty, recursiveCall, freed⟩, []⟩

/-! ## What an operation needs -/

/-- A query is opened without losing a slot, here and in the call for the count. -/
structure Request.OpensWell (gen : Generator G) (q : Request) (s : Server G) : Prop where
  opens : ∀ answer g, q.answer gen s.gen = some (answer, g) → q.Opens s answer
  fallback : ∀ answer g, q.answer gen s.gen = some (answer, g) → s.freeSlot ≠ none → q.FallsBack answer →
    ∀ answer' g', q.withoutOffset.answer gen g = some (answer', g') →
      answer'.Executes (Full s.stmtPtr) ∧ answer'.firstRow = none

/-- The client passes back what it has, or closes a slot that is empty already; the access
checks come through, and their statuses do not look like the end of the rows. -/
structure Request.ContinuesWell (q : Request) (t : Tracked G) : Prop where
  known : .query q.continueInx ∈ t.owners ∨ q.maxRows ≤ 0 ∧ ∃ n : Nat, q.continueInx = n + 1 ∧
    n < MAX_NUM_OF_CONCURRENT_STMTS ∧ t.server.stmtPtr n = .empty
  access : ∀ (n : Nat) st, q.continueInx = n + 1 → t.server.stmtPtr n = .stmt st →
    AccessExecutes q (FullBut t.server.stmtPtr n) 0 ((leading st.rest).take q.maxRows.toNat)
  refusal : ∀ (n : Nat) st, q.continueInx = n + 1 → t.server.stmtPtr n = .stmt st → 0 < q.condInputLen →
    ∀ i < ((leading st.rest).take q.maxRows.toNat).length, (q.access i).status ≤ 0 ∧
      (q.access i).status ≠ CAT_NO_ROWS_FOUND ∧ (q.access i).status ≠ CAT_GET_ROW_ERR

def Op.Proper (gen : Generator G) (t : Tracked G) : Op → Prop
  | .chlGenQuery q =>
    if q.continueInx = 0 then q.OpensWell gen t.server else q.ContinuesWell t
  | .cmlGetOneRowFromSql answer _ => answer.Executes (Full t.server.stmtPtr)
  | .cmlGetOneRowFromSqlBV answer _ => answer.Executes (Full t.server.stmtPtr)
  | .cmlGetOneRowFromSqlV2 answer _ =>
    answer.Executes (Full t.server.stmtPtr) ∧ answer.HasRow (Full t.server.stmtPtr)
  | .cmlFreeStatement n => .result n ∈ t.owners

/-! ## One operation -/

/-- The owners after the reply own the table after it. -/
def Op.Kept (op : Op) (owners : List Owner) (reply : Reply) (s : Server G) : Prop :=
  Owned s.stmtPtr (op.owners reply owners)

variable {gen : Generator G} {t : Tracked G} {q : Request}

/-- So does an opening call. -/
theorem opening_kept (h : Owned t.server.stmtPtr t.owners) (hinx : q.continueInx = 0) (hq : q.OpensWell gen t.server) :
    Triple Overruns (· = t.server) (Op.run gen (.chlGenQuery q)) (Op.Kept (.chlGenQuery q) t.owners) := by
  have hinner : ∀ answer g, q.answer gen t.server.gen = some (answer, g) → t.server.freeSlot ≠ none →
      q.FallsBack answer → ∀ s', s'.gen = g → Table t.server.stmtPtr s' → s'.freeSlot = t.server.freeSlot →
        Triple Overruns (· = s') (openQuery gen (fun _ => pure (0, .init)) q.withoutOffset)
          fun _ => Table t.server.stmtPtr := by
    rintro answer g hanswer hfree hfall s' rfl htable hsame
    have hnone := hq.fallback answer s'.gen hanswer hfree hfall
    refine .conseq (openQuery_triple (fun answer' g' hanswer' => ?_) fun _ _ _ _ hagain => ?_) (fun _ h => h)
      fun r s'' hopened => ?_
    · obtain ⟨hexec, hfirst⟩ := hnone answer' g' hanswer'
      rw [← show s'.stmtPtr = t.server.stmtPtr from htable] at hexec
      refine ⟨hexec, fun _ hsome => absurd hfirst hsome, fun _ _ _ _ _ hsome => ?_⟩
      rw [hfirst] at hsome
      cases hsome
    · exact absurd hagain.2.2 (by simp [Request.withoutOffset])
    · rcases hopened with ⟨-, hs⟩ | ⟨-, n, st, -, -, -, answer', g', hanswer', hsome⟩
      · exact Eq.trans hs htable
      · exact absurd (hnone answer' g' hanswer').2 hsome
  rw [Op.run, Statements.chlGenQuery, if_pos hinx]
  refine .bind (openQuery_triple hq.opens hinner) fun r => .pure fun s hs => ?_
  obtain ⟨status, out⟩ := r
  replace hs : Opened gen q t.server status out.continueInx s := hs
  simp only [Op.Kept, Op.owners, if_pos hinx]
  rcases hs with ⟨hnot, hs⟩ | ⟨rfl, n, st, hout, hfree, hs, -⟩
  · rw [if_neg (by omega), show s.stmtPtr = _ from hs]
    exact h
  · rw [if_pos (by omega), show s.stmtPtr = _ from hs]
    obtain ⟨hn, hempty⟩ := freeSlot_some hfree
    exact h.take (by simp only [Owner.slot]; omega) hn hempty st

variable {s : Server G} {reply : Reply} {status continueInx : Int}

theorem holds_self {x : Slot} (h : s.stmtPtr n = x) : Holds s.stmtPtr n x s := by
  show s.stmtPtr = _
  rw [← h, Function.update_eq_self]

theorem owners_ends (owners : List Owner) (hinx : q.continueInx ≠ 0) (h : q.Ends reply) :
    (Op.chlGenQuery q).owners reply owners = owners.filter (· ≠ .query q.continueInx) := by
  simp only [Op.owners, if_neg hinx, if_pos h]

theorem owners_stays (owners : List Owner) (hinx : q.continueInx ≠ 0) (h : ¬ q.Ends reply) :
    (Op.chlGenQuery q).owners reply owners = owners := by
  simp only [Op.owners, if_neg hinx, if_neg h]

theorem Request.not_ends (hmax : 0 < q.maxRows) (hno : status ≠ CAT_NO_ROWS_FOUND) (hget : status ≠ CAT_GET_ROW_ERR)
    (h : 0 ≤ status → 0 < continueInx) : ¬ q.Ends ⟨status, continueInx⟩ := by
  rintro (hle | heq | heq | ⟨hpos, hle⟩)
  · omega
  · exact hno heq
  · exact hget heq
  · exact absurd (h hpos) (Int.not_lt.mpr hle)

/-- A page of a query with an owner: the owner is gone when the statement is. -/
theorem PageLeft.kept {numOfCols : Nat} {rows : List (List Text)} {p : Page} (h : Owned t.server.stmtPtr t.owners)
    (hmem : .query q.continueInx ∈ t.owners) (hn : q.continueInx = n + 1) (hst : t.server.stmtPtr n = .stmt st)
    (hmax : 0 < q.maxRows) (hcnt : p.out.rowCnt = 0)
    (hrefusal : 0 < q.condInputLen → ∀ i < rows.length, (q.access i).status ≤ 0 ∧
      (q.access i).status ≠ CAT_NO_ROWS_FOUND ∧ (q.access i).status ≠ CAT_GET_ROW_ERR)
    (hleft : PageLeft q t.server.stmtPtr n numOfCols rows p status continueInx s) :
    (Op.chlGenQuery q).Kept t.owners ⟨status, continueInx⟩ s := by
  have hinx : q.continueInx ≠ 0 := by omega
  have hstays : (¬ q.Ends ⟨status, continueInx⟩) → ∀ st', Holds t.server.stmtPtr n (.stmt st') s →
      (Op.chlGenQuery q).Kept t.owners ⟨status, continueInx⟩ s := by
    intro hends st' hs
    rw [Op.Kept, owners_stays t.owners hinx hends, show s.stmtPtr = _ from hs]
    exact h.keep hst st'
  rcases hleft with ⟨rfl, rfl, st', hs⟩ | hended
  · exact hstays (Request.not_ends hmax (by decide) (by decide) fun _ => by omega) st' hs
  · cases hended with
    | exhausted hwhy hs =>
      have hends : q.Ends ⟨status, continueInx⟩ := by
        rcases hwhy with hno | hget | ⟨hzero, hle⟩
        · exact .inr (.inl hno)
        · exact .inr (.inr (.inl hget))
        · exact .inr (.inr (.inr ⟨by simp only; omega, hle⟩))
      rw [Op.Kept, owners_ends t.owners hinx hends, show s.stmtPtr = _ from hs]
      exact h.release hmem (by simp only [Owner.slot]; omega)
    | @refused _ _ _ st' i hi hinput hstatus hne hs =>
      rw [hcnt, Nat.zero_add] at hstatus
      obtain ⟨hle, hno, hget⟩ := hrefusal hinput i hi
      rw [← hstatus] at hle hno hget
      exact hstays (Request.not_ends hmax hno hget fun hpos => by omega) st' hs
    | @noRoom _ _ st' _ hs =>
      exact hstays (Request.not_ends hmax (by decide) (by decide) fun hpos => absurd hpos (by decide)) st' hs

/-- A continuation keeps every slot owned. -/
theorem continuation_kept (h : Owned t.server.stmtPtr t.owners) (hinx : q.continueInx ≠ 0) (hq : q.ContinuesWell t) :
    Triple Overruns (· = t.server) (Op.run gen (.chlGenQuery q)) (Op.Kept (.chlGenQuery q) t.owners) := by
  rw [Op.run, Statements.chlGenQuery, if_neg hinx, continueQuery]
  rcases hq.known with hmem | ⟨hmax, n, hn, hlt, hempty⟩
  · obtain ⟨n, st, hslot, hlt, hst⟩ := h.slot _ hmem
    have hn : q.continueInx - 1 = n := hslot
    have hholds : ∀ s, s = t.server → Holds t.server.stmtPtr n (.stmt st) s := by
      rintro _ rfl
      exact holds_self hst
    rw [hn]
    by_cases hmax : q.maxRows ≤ 0
    · rw [if_pos hmax]
      refine .bind (.bind (.conseq (cllFreeStatement_triple hlt) hholds fun _ _ h => h) fun status =>
        .pure (Q := fun _ => Holds t.server.stmtPtr n .empty) fun s hs => hs.2) fun r => .pure fun s hs => ?_
      rw [Op.Kept, owners_ends t.owners hinx (.inl hmax), show s.stmtPtr = _ from hs]
      exact h.release hmem hslot
    · rw [if_neg hmax]
      have hn' : q.continueInx = n + 1 := by omega
      have hloop := pageLoop_triple (G := G) hlt q.maxRows.toNat (p := ⟨.init, 0⟩) (hq.access n st hn' hst)
      refine .bind (.conseq (page_triple hlt hloop) hholds fun _ _ h => h) fun r => .pure fun s hs => ?_
      exact PageLeft.kept h hmem hn' hst (by omega) rfl (hq.refusal n st hn' hst) hs
  · have hn' : q.continueInx - 1 = n := by omega
    have htable : ∀ s, s = t.server → Table t.server.stmtPtr s := by
      rintro _ rfl
      rfl
    rw [hn', if_pos hmax]
    refine .bind (.bind (.conseq (cllFreeStatement_empty_triple hlt hempty) htable fun _ _ h => h) fun status =>
      .pure (Q := fun _ => Table t.server.stmtPtr) fun s hs => hs.2) fun r => .pure fun s hs => ?_
    rw [Op.Kept, owners_ends t.owners hinx (.inl hmax), show s.stmtPtr = _ from hs,
      h.filter_empty hempty (by simp only [Owner.slot]; omega)]
    exact h

theorem oneRow_kept (op : Op) {answer : ExecAnswer} (cValSize : List Nat) (h : Owned t.server.stmtPtr t.owners)
    (hexec : answer.Executes (Full t.server.stmtPtr)) (howners : ∀ reply, op.owners reply t.owners = t.owners) :
    Triple Overruns (· = t.server) (cmlGetOneRowFromSqlBV answer cValSize >>= fun r => pure ⟨r.1, 0⟩)
      (op.Kept t.owners) := by
  have htriple := cmlGetOneRowFromSqlBV_triple (G := G) cValSize hexec
  refine .bind (.conseq htriple (fun s hs => by rw [hs]; rfl) fun _ _ h => h) fun r => .pure fun s hs => ?_
  rw [Op.Kept, howners, show s.stmtPtr = _ from hs]
  exact h

/-- An operation whose needs are met keeps every slot owned. -/
theorem Op.Proper.kept {op : Op} (hop : op.Proper gen t) (h : Owned t.server.stmtPtr t.owners) :
    Triple Overruns (· = t.server) (op.run gen) (op.Kept t.owners) := by
  cases op with
  | chlGenQuery q =>
    simp only [Op.Proper] at hop
    split at hop
    case isTrue hinx => exact opening_kept h hinx hop
    case isFalse hinx => exact continuation_kept h hinx hop
  | cmlGetOneRowFromSql answer cValSize =>
    exact oneRow_kept (.cmlGetOneRowFromSql answer cValSize) cValSize h hop fun _ => rfl
  | cmlGetOneRowFromSqlBV answer cValSize =>
    exact oneRow_kept (.cmlGetOneRowFromSqlBV answer cValSize) cValSize h hop fun _ => rfl
  | cmlGetOneRowFromSqlV2 answer maxCols =>
    have htriple := cmlGetOneRowFromSqlV2_triple (G := G) maxCols hop.1 hop.2
    refine .bind (.conseq htriple (fun s hs => by rw [hs]; rfl) fun _ _ h => h) fun (status, row) =>
      .pure fun s hs => ?_
    simp only [Op.Kept, Op.owners]
    rcases hs with ⟨hneg, hs⟩ | ⟨n, st, hslot, hn, hempty, hs⟩
    · rw [if_neg (by simp only at hneg; omega), show s.stmtPtr = _ from hs]
      exact h
    · rw [if_pos (by simp only at hslot; omega), show s.stmtPtr = _ from hs]
      exact h.take (o := .result status) hslot hn hempty st
  | cmlFreeStatement n =>
    obtain ⟨m, st, hslot, hm, hst⟩ := h.slot _ hop
    obtain rfl : n = m := hslot
    refine .bind (.conseq (cllFreeStatement_triple hm) (fun s hs => by rw [hs]; exact holds_self hst)
      fun _ _ h => h) fun status => .pure fun s hs => ?_
    rw [Op.Kept, show s.stmtPtr = _ from hs.2]
    exact h.release hop rfl

/-! ## Runs -/

/-- Every operation of a run finds what it needs. -/
def Tracked.Sound (gen : Generator G) : Tracked G → List Op → Prop
  | _, [] => True
  | t, op :: ops => op.Proper gen t ∧ (t.exec gen op).Sound gen ops

/-- Between the operations of a run every occupied slot has an owner, and none of them uses
a slot that is empty or not there. -/
def Tracked.SlotsKept (gen : Generator G) : Tracked G → List Op → Prop
  | t, [] => t.Accounted
  | t, op :: ops => t.Accounted ∧ t.Uses gen op ∧ (t.exec gen op).SlotsKept gen ops

theorem Op.Proper.exec {op : Op} (hop : op.Proper gen t) (h : Owned t.server.stmtPtr t.owners) :
    t.Uses gen op ∧ Owned (t.exec gen op).server.stmtPtr (t.exec gen op).owners := by
  have htriple := hop.kept h
  refine ⟨fun e s hrun => htriple.error rfl hrun, ?_⟩
  unfold Tracked.exec
  cases hrun : op.run gen t.server with
  | ok reply s => exact htriple.ok rfl hrun
  | error e s => exact h

theorem Tracked.Sound.slotsKept {ops : List Op} (hops : t.Sound gen ops) (h : Owned t.server.stmtPtr t.owners) :
    t.SlotsKept gen ops := by
  induction ops generalizing t with
  | nil => exact h.accounted
  | cons op ops ih =>
    obtain ⟨huses, hnext⟩ := hops.1.exec h
    exact ⟨h.accounted, huses, ih hops.2 hnext⟩

/-- From a session in which nothing is open, whatever the flag for the count is. -/
theorem slots_owned (gen : Generator G) (ops : List Op) (g : G) (recursiveCall : Bool) (freed : List Nat)
    (hops : (Tracked.idle g recursiveCall freed).Sound gen ops) :
    (Tracked.idle g recursiveCall freed).SlotsKept gen ops :=
  hops.slotsKept ⟨nofun, nofun, fun _ h => absurd rfl h⟩

/-- Two rows in pages of one, and a helper for one row in between. -/
def pagesOfOne : List Op :=
  [.chlGenQuery (rowsRequest ["a", "b"] 1), .cmlGetOneRowFromSqlV2 (.result 1 [.row ["7".toList]] 1) 1,
    .chlGenQuery { rowsRequest [] 1 with continueInx := 1 }]

theorem slots_owned_pages : (Tracked.idle () false []).SlotsKept fixedQuery pagesOfOne := by
  refine slots_owned fixedQuery pagesOfOne () false [] ⟨?_, ⟨?_, ?_⟩, ?_, trivial⟩
  · refine ⟨?_, ?_⟩
    · rintro answer g ⟨⟩
      refine ⟨fun _ _ => ⟨_, _, _, rfl⟩, fun _ _ => nofun, ?_⟩
      rintro n numOfCols row rest ⟨⟩ ⟨⟩
      refine ⟨nofun, nofun, ?_⟩
      rintro (⟨-, hnone⟩ | hfalse)
      · exact absurd hnone (by decide)
      · exact hfalse
    · rintro answer g ⟨⟩ - ⟨⟨hfirst, -⟩, -⟩
      cases hfirst
  · exact fun _ _ => ⟨_, _, _, rfl⟩
  · rintro - - numOfCols rows rowCount ⟨⟩
    exact .inr ⟨by decide, by decide⟩
  · exact ⟨.inl (by decide), fun _ _ _ _ => nofun, fun _ _ _ _ => nofun⟩

/-- A statement that fails stays in its slot, and an index that was never returned is used. -/
theorem slots_not_owned :
    ¬ (Tracked.idle () false []).SlotsKept fixedQuery
      [.chlGenQuery { rowsRequest [] 1 with database := fun _ _ => .failure .sqlExecDirect }] ∧
    ¬ (Tracked.idle () false []).SlotsKept fixedQuery
      [.chlGenQuery { rowsRequest [] 1 with continueInx := 8 }] := by
  constructor
  · intro h
    obtain ⟨o, ho, -⟩ := h.2.2 0 (by decide)
    cases ho
  · intro h
    cases h.2.1 .emptySlot _ rfl

end Statements
