-- SUMMARY: Successive calls bring the rows of a query in order, each once.
import Irods.Icat.SlotFrame

/-!
# Paging

The rows of a query that a client pages through are those of its result table in order,
and the last call frees its slot, whatever other queries do with the other slots in
between. The room for a page is the product of the number of columns, the room for a
value and the number of rows asked for, computed as an `int`; the pages are as they should
be where the product is one.
-/

namespace Statements

open CString EStateM
open List (length_cons mem_cons nil_append sum_cons take_succ_cons)

variable {G : Type} {s : Server G} {n : Nat} {st : Stmt} {q : Request}

/-! ## Room -/

/-- The room for a value once a row is stored as number `i` of its page. -/
def newLen (i len : Nat) (row : List Text) : Nat :=
  if i = 0 then colSize row else if colSize row > len then colSize row + MINIMUM_COL_SIZE else len

/-- The bytes for a column of a page, after each of its rows, are an `int`. -/
def Fits (numOfCols maxRows : Nat) : Nat → Nat → List (List Text) → Prop
  | _, _, [] => True
  | i, len, row :: rows =>
    numOfCols * newLen i len row * maxRows < intBound ∧
      Fits numOfCols maxRows (i + 1) (newLen i len row) rows

variable {maxRows numOfCols : Nat}

theorem mallocColumn_fits {maxColSize : Nat} (hpos : 0 < maxRows) (h : numOfCols * maxColSize * maxRows < intBound) :
    mallocColumn numOfCols maxColSize maxRows = some (numOfCols * maxColSize * maxRows) := by
  have hle : numOfCols * maxColSize ≤ numOfCols * maxColSize * maxRows := Nat.le_mul_of_pos_right _ hpos
  have hinner : int32 ((numOfCols : Int) * maxColSize) = ((numOfCols * maxColSize : Nat) : Int) := by
    apply int32_eq_self <;> omega
  have houter : int32 (((numOfCols * maxColSize : Nat) : Int) * maxRows) =
      ((numOfCols * maxColSize * maxRows : Nat) : Int) := by
    apply int32_eq_self <;> omega
  simp only [mallocColumn, hinner, houter]
  rw [if_neg (by omega), Int.toNat_natCast]

/-- What was allocated has room for as many rows as were asked for. -/
structure Page.Roomy (p : Page) (numOfCols maxRows : Nat) : Prop where
  totalLen : 0 < p.out.rowCnt → p.totalLen = numOfCols * p.out.len * maxRows
  len : 0 < p.out.rowCnt → 0 < p.out.len

/-- The page with one row more. -/
def Page.add (p : Page) (numOfCols maxRows : Nat) (continueInx : Int) (row : List Text) : Page where
  out :=
    { p.out with
      rowCnt := p.out.rowCnt + 1
      attriCnt := numOfCols
      continueInx := continueInx
      rows := p.out.rows ++ [row]
      len := newLen p.out.rowCnt p.out.len row }
  totalLen := numOfCols * newLen p.out.rowCnt p.out.len row * maxRows

theorem rows_fit {numOfCols maxRows i len : Nat} (hi : i < maxRows) (hcols : 0 < numOfCols) :
    (i + 1) * len ≤ numOfCols * len * maxRows := by
  calc (i + 1) * len
    _ ≤ maxRows * len := Nat.mul_le_mul_right len hi
    _ = len * maxRows := Nat.mul_comm ..
    _ ≤ numOfCols * (len * maxRows) := Nat.le_mul_of_pos_left _ hcols
    _ = numOfCols * len * maxRows := (Nat.mul_assoc ..).symm

variable {p : Page}

theorem makeRoom_run {row : List Text} {continueInx : Int} (hp : p.Roomy numOfCols maxRows)
    (hleft : p.out.rowCnt < maxRows) (hcols : 0 < numOfCols)
    (hfits : numOfCols * newLen p.out.rowCnt p.out.len row * maxRows < intBound) :
    makeRoom numOfCols maxRows row
        ⟨{ p.out with rowCnt := p.out.rowCnt + 1, attriCnt := numOfCols, continueInx := continueInx },
          p.totalLen⟩ s =
      .ok (some ⟨{ p.out with
          rowCnt := p.out.rowCnt + 1
          attriCnt := numOfCols
          continueInx := continueInx
          len := newLen p.out.rowCnt p.out.len row },
        numOfCols * newLen p.out.rowCnt p.out.len row * maxRows⟩) s := by
  have hpos : 0 < maxRows := by omega
  unfold newLen at hfits ⊢
  by_cases hfirst : p.out.rowCnt = 0
  · simp only [hfirst, if_true] at hfits
    simp only [makeRoom, hfirst, Nat.zero_add, if_true, mallocColumn_fits hpos hfits]
    rfl
  · have htotal := hp.totalLen (by omega)
    have hne : ¬ p.out.rowCnt + 1 = 1 := by omega
    by_cases hgrow : colSize row > p.out.len
    · simp only [hfirst, hgrow, if_true, if_false] at hfits
      have hread : (p.out.rowCnt + 1 - 1) * p.out.len < p.totalLen := by
        have hrows := @rows_fit _ _ _ p.out.len hleft hcols
        have hlen := hp.len (by omega)
        rw [Nat.add_sub_cancel, htotal]
        rw [Nat.add_mul] at hrows
        omega
      have hwrite : (p.out.rowCnt + 1 - 1) * (colSize row + MINIMUM_COL_SIZE) + p.out.len ≤
          numOfCols * (colSize row + MINIMUM_COL_SIZE) * maxRows := by
        have hrows := @rows_fit _ _ _ (colSize row + MINIMUM_COL_SIZE) hleft hcols
        rw [Nat.add_sub_cancel]
        rw [Nat.add_mul _ _ (colSize row + MINIMUM_COL_SIZE)] at hrows
        omega
      simp only [makeRoom, hne, hfirst, hgrow, if_true, if_false, mallocColumn_fits hpos hfits]
      rw [if_neg (by omega)]
      rfl
    · simp only [makeRoom, hne, hfirst, hgrow, if_false, htotal]
      rfl

theorem colSize_pos (row : List Text) : 0 < colSize row := by
  unfold colSize
  omega

theorem newLen_pos {i len : Nat} (row : List Text) : 0 < newLen i len row := by
  have hrow := colSize_pos row
  unfold newLen
  split
  · exact hrow
  · split <;> omega

theorem storeRow_run (hn : n < MAX_NUM_OF_CONCURRENT_STMTS) (hst : s.stmtPtr n = .stmt st)
    (hp : p.Roomy st.numOfCols maxRows) (hleft : p.out.rowCnt < maxRows) (hcols : 0 < st.numOfCols)
    (hfits : st.numOfCols * newLen p.out.rowCnt p.out.len st.resultValue * maxRows < intBound) :
    storeRow (n : Int) maxRows p s =
      .ok (true, p.add st.numOfCols maxRows (n + 1) st.resultValue) s := by
  have hroom : (p.out.rowCnt + 1) * newLen p.out.rowCnt p.out.len st.resultValue ≤
      st.numOfCols * newLen p.out.rowCnt p.out.len st.resultValue * maxRows := rows_fit hleft hcols
  rw [storeRow, bind_run (stmtAt_run hn hst), bind_run (makeRoom_run hp hleft hcols hfits)]
  simp only
  rw [if_neg (by omega)]
  rfl

theorem Page.roomy_add (p : Page) (continueInx : Int) (row : List Text) :
    (p.add numOfCols maxRows continueInx row).Roomy numOfCols maxRows :=
  ⟨fun _ => rfl, fun _ => newLen_pos row⟩

/-! ## The loop -/

/-- A statement with its rows still to come. -/
structure Holding (s : Server G) (n : Nat) (numOfCols : Nat) (rows : List (List Text)) : Prop where
  inTable : n < MAX_NUM_OF_CONCURRENT_STMTS
  slot : ∃ st, s.stmtPtr n = .stmt st ∧ st.numOfCols = numOfCols ∧ st.rest = rows.map .row

/-- A call that reads rows of one statement leaves the rest as it is. -/
structure OnlySlot (n : Nat) (s s' : Server G) : Prop where
  gen : s'.gen = s.gen
  slots : ∀ m, m ≠ n → s'.stmtPtr m = s.stmtPtr m
  recursiveCall : s'.recursiveCall = s.recursiveCall

theorem OnlySlot.refl (n : Nat) (s : Server G) : OnlySlot n s s := ⟨rfl, fun _ _ => rfl, rfl⟩

variable {s' : Server G}

theorem OnlySlot.trans {s'' : Server G} (h : OnlySlot n s s') (h' : OnlySlot n s' s'') : OnlySlot n s s'' :=
  ⟨h'.gen.trans h.gen, fun m hm => (h'.slots m hm).trans (h.slots m hm),
    h'.recursiveCall.trans h.recursiveCall⟩

theorem onlySlot_setSlot (s : Server G) (n : Nat) (x : Slot) : OnlySlot n s (s.setSlot n x) :=
  ⟨rfl, fun _ hm => setSlot_ne s x hm, rfl⟩

theorem onlySlot_freeStmt (s : Server G) (n : Nat) : OnlySlot n s (s.freeStmt n) :=
  ⟨rfl, fun _ hm => setSlot_ne s .empty hm, rfl⟩

/-- The rows of a page as far as they go. -/
structure PageFilled (p p' : Page) (filled : List (List Text)) : Prop where
  rows : p'.out.rows = p.out.rows ++ filled
  rowCnt : p'.out.rowCnt = p.out.rowCnt + filled.length

variable {rest : List Fetch}

theorem nextRow_row {row : List Text} (hq : q.condInputLen = 0) (hn : n < MAX_NUM_OF_CONCURRENT_STMTS)
    (hst : s.stmtPtr n = .stmt st) (hrest : st.rest = .row row :: rest) (hcols : 0 < st.numOfCols) :
    nextRow q (n : Int) p s =
      .ok (none, p) (s.setSlot n (.stmt { st with resultValue := row, rest := rest })) := by
  rw [nextRow, cmlGetNextRowFromStatement, bind_run (getRowOrFree_row hn hst hrest (by omega)),
    if_neg (by decide), if_neg (by decide), hq]
  rfl

theorem nextRow_end (hn : n < MAX_NUM_OF_CONCURRENT_STMTS) (hst : s.stmtPtr n = .stmt st) (hrest : st.rest = []) :
    nextRow q (n : Int) p s =
      .ok (some (if p.out.rowCnt = 0 then CAT_NO_ROWS_FOUND else 0),
        ⟨{ p.out with continueInx := 0 }, p.totalLen⟩) (s.freeStmt n) := by
  have hempty : (s.freeStmt n).stmtPtr n = .empty := setSlot_self ..
  rw [nextRow, cmlGetNextRowFromStatement, bind_run (getRowOrFree_end hn hst hrest), if_pos rfl,
    cmlFreeStatement, bind_run (cllFreeStatement_empty hn hempty)]
  rfl

variable {left : Nat}

variable {row : List Text} {rows : List (List Text)}

theorem pageLoop_succ (hq : q.condInputLen = 0) (hn : n < MAX_NUM_OF_CONCURRENT_STMTS)
    (hst : s.stmtPtr n = .stmt st) (hrest : st.rest = .row row :: rest) (hp : p.Roomy st.numOfCols q.maxRows.toNat)
    (hleft : p.out.rowCnt < q.maxRows.toNat) (hcols : 0 < st.numOfCols)
    (hfits : st.numOfCols * newLen p.out.rowCnt p.out.len row * q.maxRows.toNat < intBound) :
    pageLoop q (n : Int) (left + 1) true p s =
      pageLoop q (n : Int) left true (p.add st.numOfCols q.maxRows.toNat (n + 1) row)
        (s.setSlot n (.stmt { st with resultValue := row, rest := rest })) := by
  rw [pageLoop, if_pos rfl, bind_run (nextRow_row hq hn hst hrest hcols)]
  have hset := setSlot_self s n (.stmt { st with resultValue := row, rest := rest })
  exact bind_run (storeRow_run hn hset hp hleft hcols hfits)

/-- The loop comes to the end of the page with rows left or none, or to the end of the
rows, and then the statement is freed. -/
theorem pageLoop_run {numOfCols : Nat} (hq : q.condInputLen = 0) (hcols : 0 < numOfCols) :
    ∀ (left : Nat) {rows : List (List Text)} {p : Page} {s : Server G},
      Holding s n numOfCols rows → p.out.rowCnt + left = q.maxRows.toNat →
      p.Roomy numOfCols q.maxRows.toNat →
      Fits numOfCols q.maxRows.toNat p.out.rowCnt p.out.len (rows.take left) →
      (left ≤ rows.length → ∃ p' s', pageLoop q (n : Int) left true p s = .ok (none, p') s' ∧
        PageFilled p p' (rows.take left) ∧ Holding s' n numOfCols (rows.drop left) ∧ OnlySlot n s s' ∧
        s'.freed = s.freed) ∧
      (rows.length < left → ∃ p' s', pageLoop q (n : Int) left true p s =
          .ok (some (if p'.out.rowCnt = 0 then CAT_NO_ROWS_FOUND else 0), p') s' ∧
        PageFilled p p' rows ∧ p'.out.continueInx = 0 ∧ s'.stmtPtr n = .empty ∧ OnlySlot n s s' ∧
        s'.freed = s.freed ++ [n])
  | 0, rows, p, s, hold, _, _, _ => by
    refine ⟨fun _ => ⟨p, s, rfl, ⟨by simp, by simp⟩, hold, .refl n s, rfl⟩, ?_⟩
    intro h
    exact absurd h (Nat.not_lt_zero _)
  | left + 1, [], p, s, hold, _, _, _ => by
    refine ⟨fun h => absurd h (Nat.not_succ_le_zero _), fun _ => ?_⟩
    obtain ⟨hn, st, hst, -, hrest⟩ := hold
    refine ⟨⟨{ p.out with continueInx := 0 }, p.totalLen⟩, s.freeStmt n, ?_, ⟨by simp, by simp⟩, rfl,
      setSlot_self .., onlySlot_freeStmt s n, rfl⟩
    rw [pageLoop, if_pos rfl, bind_run (nextRow_end hn hst hrest)]
    rfl
  | left + 1, row :: rows, p, s, hold, hcount, hroomy, hfits => by
    obtain ⟨hn, st, hst, rfl, hrest⟩ := hold
    rw [pageLoop_succ hq hn hst hrest hroomy (by omega) hcols hfits.1]
    have hstep : OnlySlot n s (s.setSlot n (.stmt { st with resultValue := row, rest := rows.map .row })) :=
      onlySlot_setSlot ..
    have ih := @pageLoop_run _ hq hcols left rows
      (p.add st.numOfCols q.maxRows.toNat (n + 1) row)
      (s.setSlot n (.stmt { st with resultValue := row, rest := rows.map .row }))
      ⟨hn, _, setSlot_self .., rfl, rfl⟩ (by simp only [Page.add]; omega) (Page.roomy_add ..) hfits.2
    refine ⟨fun h => ?_, fun h => ?_⟩
    · obtain ⟨p', s', hrun, hfilled, hhold, honly, hfreed⟩ := ih.1 (by simpa using h)
      refine ⟨p', s', hrun, ⟨?_, ?_⟩, hhold, hstep.trans honly, hfreed⟩
      · rw [hfilled.rows, take_succ_cons]
        simp [Page.add]
      · rw [hfilled.rowCnt, take_succ_cons]
        simp only [Page.add, length_cons]
        omega
    · obtain ⟨p', s', hrun, hfilled, hinx, hempty, honly, hfreed⟩ := ih.2 (by simpa using h)
      refine ⟨p', s', hrun, ⟨?_, ?_⟩, hinx, hempty, hstep.trans honly, hfreed⟩
      · rw [hfilled.rows]
        simp [Page.add]
      · rw [hfilled.rowCnt]
        simp only [Page.add, length_cons]
        omega

/-! ## The calls -/

/-- Rows are asked for, with none of the options that change what a call does. -/
structure Plain (q : Request) : Prop where
  maxRows : 0 < q.maxRows
  condInput : q.condInputLen = 0
  autoClose : q.autoClose = false
  noTotal : q.returnTotalRowCount = false

/-- What a call does for a client with rows to come from slot `n`: it brings a full page,
after which the others are to come, or a shorter one, and then it frees the slot. -/
structure Paged (n numOfCols : Nat) (coming : List (List Text)) (maxRows : Nat) (s s' : Server G)
    (status : Int) (out : GenQueryOut) : Prop where
  rows : out.rows = coming.take maxRows
  rowCnt : out.rowCnt = out.rows.length
  others : ∀ m, m ≠ n → s'.stmtPtr m = s.stmtPtr m
  full : maxRows ≤ coming.length → status = 0 ∧ out.continueInx = n + 1 ∧
    Holding s' n numOfCols (coming.drop maxRows) ∧ s'.freed = s.freed
  last : coming.length < maxRows → status = (if coming = [] then CAT_NO_ROWS_FOUND else 0) ∧
    out.continueInx = 0 ∧ s'.stmtPtr n = .empty ∧ s'.freed = s.freed ++ [n]

theorem page_run {out : GenQueryOut} {needToGetNextRow : Bool} (p₀ : Page) (hq : Plain q) (hloop :
      (q.maxRows.toNat ≤ rows.length →
        ∃ p' s', pageLoop q (n : Int) q.maxRows.toNat needToGetNextRow ⟨out, 0⟩ s = .ok (none, p') s' ∧
        PageFilled p₀ p' (rows.take q.maxRows.toNat) ∧ Holding s' n numOfCols (rows.drop q.maxRows.toNat) ∧
        OnlySlot n s s' ∧ s'.freed = s.freed) ∧
      (rows.length < q.maxRows.toNat →
        ∃ p' s', pageLoop q (n : Int) q.maxRows.toNat needToGetNextRow ⟨out, 0⟩ s =
          .ok (some (if p'.out.rowCnt = 0 then CAT_NO_ROWS_FOUND else 0), p') s' ∧
        PageFilled p₀ p' rows ∧ p'.out.continueInx = 0 ∧ s'.stmtPtr n = .empty ∧ OnlySlot n s s' ∧
        s'.freed = s.freed ++ [n]))
    (hrows : p₀.out.rows = []) (hcnt : p₀.out.rowCnt = 0) :
    ∃ status out' s', page q (n : Int) needToGetNextRow out s = .ok (status, out') s' ∧
      Paged n numOfCols rows q.maxRows.toNat s s' status out' := by
  by_cases hlen : q.maxRows.toNat ≤ rows.length
  · obtain ⟨p', s', hrun, hfilled, hhold, honly, hfreed⟩ := hloop.1 hlen
    refine ⟨0, { p'.out with continueInx := n + 1 }, s', ?_, ?_, ?_, honly.slots, fun _ => ⟨rfl, rfl, hhold, hfreed⟩,
      fun h => absurd h (by omega)⟩
    · rw [page, bind_run hrun]
      simp only [hq.autoClose]
      rfl
    · simpa [hrows] using hfilled.rows
    · simp only [hfilled.rows, hfilled.rowCnt, hrows, hcnt, nil_append, Nat.zero_add]
  · obtain ⟨p', s', hrun, hfilled, hinx, hempty, honly, hfreed⟩ := hloop.2 (by omega)
    have hcnt' : p'.out.rowCnt = rows.length := by rw [hfilled.rowCnt, hcnt, Nat.zero_add]
    refine ⟨if p'.out.rowCnt = 0 then CAT_NO_ROWS_FOUND else 0, p'.out, s', ?_, ?_, ?_, honly.slots,
      fun h => absurd h hlen, fun _ => ⟨?_, hinx, hempty, hfreed⟩⟩
    · rw [page, bind_run hrun]
      rfl
    · rw [hfilled.rows, hrows, nil_append, List.take_of_length_le (by omega)]
    · rw [hfilled.rows, hrows, nil_append, hcnt']
    · rw [hcnt']
      simp only [List.length_eq_zero_iff]

theorem continueQuery_page (h : 0 < q.maxRows) :
    continueQuery (G := G) q = page q (q.continueInx - 1) true .init := by
  simp only [continueQuery]
  rw [if_neg (by omega)]

theorem continue_run (gen : Generator G) {rows : List (List Text)} (hq : Plain q) (hinx : q.continueInx = n + 1)
    (hcols : 0 < numOfCols) (hold : Holding s n numOfCols rows)
    (hfits : Fits numOfCols q.maxRows.toNat 0 0 (rows.take q.maxRows.toNat)) :
    ∃ status out s', chlGenQuery gen q s = .ok (status, out) s' ∧
      Paged n numOfCols rows q.maxRows.toNat s s' status out := by
  have hpos := hq.maxRows
  have hn : (n : Int) + 1 - 1 = n := by omega
  rw [chlGenQuery, if_neg (by omega), continueQuery_page hpos, hinx, hn]
  refine page_run ⟨.init, 0⟩ hq ?_ rfl rfl
  exact pageLoop_run hq.condInput hcols q.maxRows.toNat hold (Nat.zero_add _)
    ⟨fun h => absurd h (Nat.lt_irrefl 0), fun h => absurd h (Nat.lt_irrefl 0)⟩ hfits

/-- The first row of a new query has been fetched. -/
theorem pageLoop_first (hn : n < MAX_NUM_OF_CONCURRENT_STMTS) (hst : s.stmtPtr n = .stmt st)
    (hp : p.Roomy st.numOfCols q.maxRows.toNat) (hleft : p.out.rowCnt < q.maxRows.toNat) (hcols : 0 < st.numOfCols)
    (hfits : st.numOfCols * newLen p.out.rowCnt p.out.len st.resultValue * q.maxRows.toNat < intBound) :
    pageLoop q (n : Int) (left + 1) false p s =
      pageLoop q (n : Int) left true (p.add st.numOfCols q.maxRows.toNat (n + 1) st.resultValue) s := by
  exact bind_run (storeRow_run hn hst hp hleft hcols hfits)

theorem firstPage_run (hq : Plain q)
    (hn : n < MAX_NUM_OF_CONCURRENT_STMTS) (hst : s.stmtPtr n = .stmt st) (hvalue : st.resultValue = row)
    (hrest : st.rest = rows.map .row) (hcols : 0 < st.numOfCols)
    (hfits : Fits st.numOfCols q.maxRows.toNat 0 0 ((row :: rows).take q.maxRows.toNat)) (continueInx : Int) :
    ∃ status out s', page q (n : Int) false { GenQueryOut.init with continueInx := continueInx } s =
        .ok (status, out) s' ∧
      Paged n st.numOfCols (row :: rows) q.maxRows.toNat s s' status out := by
  subst hvalue
  have hpos := hq.maxRows
  obtain ⟨left, hleft⟩ : ∃ left, q.maxRows.toNat = left + 1 := Nat.exists_eq_succ_of_ne_zero (by omega)
  let p : Page := ⟨{ GenQueryOut.init with continueInx := continueInx }, 0⟩
  have hp : p.Roomy st.numOfCols q.maxRows.toNat :=
    ⟨fun h => absurd h (Nat.lt_irrefl 0), fun h => absurd h (Nat.lt_irrefl 0)⟩
  have hfits' := hfits
  rw [hleft, take_succ_cons, ← hleft] at hfits'
  have hcount : (p.add st.numOfCols q.maxRows.toNat (n + 1) st.resultValue).out.rowCnt + left =
      q.maxRows.toNat := by
    simp only [Page.add, p, GenQueryOut.init]
    omega
  have hloop := pageLoop_run hq.condInput hcols left ⟨hn, st, hst, rfl, hrest⟩ hcount (Page.roomy_add ..) hfits'.2
  have hfirst : pageLoop q (n : Int) (left + 1) false p s = _ :=
    pageLoop_first hn hst hp (by rw [hleft]; exact Nat.succ_pos _) hcols hfits'.1
  refine page_run p hq ⟨fun h => ?_, fun h => ?_⟩ rfl rfl
  · obtain ⟨p', s', hrun, hfilled, hhold, honly, hfreed⟩ := hloop.1 (by rw [hleft] at h; simpa using h)
    rw [hleft, take_succ_cons, List.drop_succ_cons]
    refine ⟨p', s', hfirst.trans hrun, ⟨?_, ?_⟩, hhold, honly, hfreed⟩
    · simpa [Page.add] using hfilled.rows
    · rw [hfilled.rowCnt, length_cons]
      simp only [Page.add]
      omega
  · obtain ⟨p', s', hrun, hfilled, hinx, hempty, honly, hfreed⟩ := hloop.2 (by rw [hleft] at h; simpa using h)
    rw [hleft]
    refine ⟨p', s', hfirst.trans hrun, ⟨?_, ?_⟩, hinx, hempty, honly, hfreed⟩
    · simpa [Page.add] using hfilled.rows
    · rw [hfilled.rowCnt, length_cons]
      simp only [Page.add]
      omega

variable {gen : Generator G}

theorem open_run {sql : Text} {g : G} {row : List Text} {rows : List (List Text)} {rowCount : Int} (hq : Plain q)
    (hinx : q.continueInx = 0) (hsql : gen.generate q.inp s.gen = .sql sql g) (hfree : s.freeSlot = some n)
    (hanswer : q.database sql (gen.bindVars g) = .result numOfCols ((row :: rows).map .row) rowCount)
    (hcols : 0 < numOfCols) (hfits : Fits numOfCols q.maxRows.toNat 0 0 ((row :: rows).take q.maxRows.toNat)) :
    ∃ status out s', chlGenQuery gen q s = .ok (status, out) s' ∧
      Paged n numOfCols (row :: rows) q.maxRows.toNat s s' status out := by
  have hn := (freeSlot_some hfree).1
  let st : Stmt := ⟨numOfCols, row, rows.map .row, rowCount⟩
  let s₁ : Server G := Server.setSlot { s with gen := gen.reset g } n (.stmt st)
  have hst : s₁.stmtPtr n = .stmt st := setSlot_self ..
  have hexec : cllExecSqlWithResult gen q.database sql { s with gen := g } = .ok (.ok n)
      (Server.setSlot { s with gen := gen.reset g } n
        (.stmt ⟨numOfCols, List.replicate numOfCols [], (row :: rows).map .row, rowCount⟩)) := by
    rw [cllExecSqlWithResult, get_bind]
    simp only [hanswer]
    exact execWithResult_run hfree
  have hfetch : cmlGetFirstRowFromSql gen q.database sql { s with gen := g } = .ok (0, n) s₁ := by
    rw [cmlGetFirstRowFromSql, bind_run hexec]
    simp only
    rw [bind_run (getRowOrFree_row hn (setSlot_self ..) rfl (by simpa using Nat.pos_iff_ne_zero.mp hcols)),
      setSlot_setSlot]
    rfl
  obtain ⟨status, out, s', hrun, hpaged⟩ := firstPage_run hq hn hst rfl rfl hcols hfits (n + 1)
  have hothers : ∀ m, m ≠ n → s₁.stmtPtr m = s.stmtPtr m := fun m hm => setSlot_ne s _ hm
  refine ⟨status, out, s', ?_, hpaged.rows, hpaged.rowCnt,
    fun m hm => (hpaged.others m hm).trans (hothers m hm), hpaged.full, hpaged.last⟩
  rw [chlGenQuery, if_pos hinx, openQuery, get_bind, hsql]
  simp only [modify_bind]
  rw [bind_run hfetch]
  simp only [countRows, hq.noTotal, hq.condInput]
  exact hrun

/-! ## A client and the others -/

/-- The state after an operation; one that would stop the process is left out. -/
def Op.exec (gen : Generator G) (s : Server G) (op : Op) : Server G :=
  match op.run gen s with
  | .ok _ s'   => s'
  | .error _ _ => s

def Op.execAll (gen : Generator G) (ops : List Op) (s : Server G) : Server G := ops.foldl (Op.exec gen) s

theorem Op.exec_untouched (gen : Generator G) {op : Op} (h : op.slot ≠ some (n : Int)) (s : Server G) :
    Untouched n s (op.exec gen s) := by
  unfold Op.exec
  split
  case h_1 hrun => exact (Op.untouched h).apply hrun
  case h_2 => exact Untouched.refl n s

theorem Op.execAll_untouched (gen : Generator G) {ops : List Op} (h : ∀ op ∈ ops, op.slot ≠ some (n : Int))
    (s : Server G) : Untouched n s (Op.execAll gen ops s) := by
  induction ops generalizing s with
  | nil => exact Untouched.refl n s
  | cons op ops ih =>
    have hstep := Op.exec_untouched gen (h op (by simp)) s
    exact Untouched.trans _ _ _ hstep (ih (fun op' h' => h op' (by simp [h'])) (op.exec gen s))

/-- A call of the client with the states around it. -/
structure Call (G : Type) where
  before : Server G
  after : Server G
  maxRows : Nat
  status : Int
  out : GenQueryOut

/-- What the client passes back next; 0 when there is nothing to pass back. -/
def Call.next (c : Call G) : Int := if c.status < 0 then 0 else c.out.continueInx

def call (gen : Generator G) (q : Request) : StmtM G (Call G) := do
  let before ← get
  let (status, out) ← chlGenQuery gen q
  return ⟨before, ← get, q.maxRows.toNat, status, out⟩

/-- What others do before a continuation call, and the call. -/
structure Turn where
  others : List Op
  request : Request

/-- The continuation calls, as long as there is something to pass back. -/
def continueCalls (gen : Generator G) : List Turn → Int → StmtM G (List (Call G))
  | [], _ => pure []
  | t :: ts, continueInx =>
    if continueInx ≤ 0 then pure []
    else do
      modify (Op.execAll gen t.others)
      let c ← call gen { t.request with continueInx := continueInx }
      let cs ← continueCalls gen ts c.next
      return c :: cs

/-- The calls of a client for one query. -/
def calls (gen : Generator G) (q : Request) (turns : List Turn) : StmtM G (List (Call G)) := do
  let c ← call gen { q with continueInx := 0 }
  let cs ← continueCalls gen turns c.next
  return c :: cs

/-! ## All pages -/

/-- The room for each page is an `int`. -/
def PagesFit (numOfCols : Nat) : List (List Text) → List Nat → Prop
  | _, [] => True
  | rows, m :: ms => Fits numOfCols m 0 0 (rows.take m) ∧ PagesFit numOfCols (rows.drop m) ms

/-- A page as long as was asked for. -/
structure Call.Full (n : Nat) (c : Call G) : Prop where
  status : c.status = 0
  rowCnt : c.out.rowCnt = c.maxRows
  continueInx : c.out.continueInx = n + 1
  freed : c.after.freed = c.before.freed

/-- A shorter page or none, after which there is nothing to pass back; the slot is freed. -/
structure Call.Last (n : Nat) (c : Call G) : Prop where
  answer : (c.status = 0 ∧ c.out.rowCnt < c.maxRows) ∨ (c.status = CAT_NO_ROWS_FOUND ∧ c.out.rowCnt = 0)
  continueInx : c.out.continueInx = 0
  slot : c.after.stmtPtr n = .empty
  freed : c.after.freed = c.before.freed ++ [n]

/-- Rows of a table in pages of the sizes asked for. -/
structure Pages (n : Nat) (table : List (List Text)) (sizes : List Nat) (cs : List (Call G)) : Prop where
  rows : cs.flatMap (fun c => c.out.rows) = table.take sizes.sum
  others : ∀ c ∈ cs, ∀ m, m ≠ n → c.after.stmtPtr m = c.before.stmtPtr m
  full : sizes.sum ≤ table.length → cs.length = sizes.length ∧ ∀ c ∈ cs, c.Full n
  last : table.length < sizes.sum → ∃ front c, cs = front ++ [c] ∧ (∀ c' ∈ front, c'.Full n) ∧ c.Last n

/-- How often the statement was given to `SQLFreeStmt`. -/
def freesOf (table : List (List Text)) (sizes : List Nat) : Nat := if table.length < sizes.sum then 1 else 0

variable {m : Nat} {sizes : List Nat}

/-- A call that pages, and the calls after it where there are any. -/
theorem pages_cons {table : List (List Text)} {c : Call G} {cs : List (Call G)}
    (hc : Paged n numOfCols table m c.before c.after c.status c.out) (hm : c.maxRows = m)
    (hcs : m ≤ table.length → Pages n (table.drop m) sizes cs) (hnone : table.length < m → cs = []) :
    Pages n table (m :: sizes) (c :: cs) := by
  have hfull : m ≤ table.length → c.Full n := by
    intro hle
    obtain ⟨hstatus, hinx, -, hfreed⟩ := hc.full hle
    refine ⟨hstatus, ?_, hinx, hfreed⟩
    rw [hc.rowCnt, hc.rows, List.length_take, hm, Nat.min_eq_left hle]
  by_cases hle : m ≤ table.length
  · have hcs := hcs hle
    have hdrop : (table.drop m).length = table.length - m := List.length_drop ..
    refine ⟨?_, ?_, ?_, ?_⟩
    · rw [List.flatMap_cons, hcs.rows, hc.rows, sum_cons, List.take_add]
    · intro c' hmem
      rcases mem_cons.mp hmem with rfl | hmem
      · exact hc.others
      · exact hcs.others c' hmem
    · intro hsum
      rw [sum_cons] at hsum
      obtain ⟨hlen, hall⟩ := hcs.full (by omega)
      refine ⟨by simp [hlen], fun c' hmem => ?_⟩
      rcases mem_cons.mp hmem with rfl | hmem
      · exact hfull hle
      · exact hall c' hmem
    · intro hsum
      rw [sum_cons] at hsum
      obtain ⟨front, last, rfl, hfront, hlast⟩ := hcs.last (by omega)
      refine ⟨c :: front, last, rfl, fun c' hmem => ?_, hlast⟩
      rcases mem_cons.mp hmem with rfl | hmem
      · exact hfull hle
      · exact hfront c' hmem
  · obtain rfl := hnone (by omega)
    obtain ⟨hstatus, hinx, hempty, hfreed⟩ := hc.last (by omega)
    have hrows : c.out.rows = table := by rw [hc.rows, List.take_of_length_le (by omega)]
    refine ⟨?_, ?_, ?_, ?_⟩
    · rw [List.flatMap_cons, List.flatMap_nil, List.append_nil, hrows, sum_cons,
        List.take_of_length_le (by omega)]
    · intro c' hmem
      obtain rfl := List.mem_singleton.mp hmem
      exact hc.others
    · intro hsum
      rw [sum_cons] at hsum
      omega
    · intro _
      refine ⟨[], c, rfl, nofun, ?_, hinx, hempty, hfreed⟩
      rw [hstatus, hc.rowCnt, hrows, hm]
      by_cases htable : table = []
      · exact .inr ⟨if_pos htable, by simp [htable]⟩
      · exact .inl ⟨if_neg htable, by omega⟩

theorem call_run {status : Int} {out : GenQueryOut} (h : chlGenQuery gen q s = .ok (status, out) s') :
    call gen q s = .ok ⟨s, s', q.maxRows.toNat, status, out⟩ s' := by
  rw [call, get_bind, bind_run h]
  rfl

theorem continueCalls_ended (gen : Generator G) (ts : List Turn) (s : Server G) :
    continueCalls gen ts 0 s = .ok [] s := by
  cases ts with
  | nil => rfl
  | cons t ts =>
    rfl

theorem freesOf_cons {table : List (List Text)} (h : m ≤ table.length) :
    freesOf table (m :: sizes) = freesOf (table.drop m) sizes := by
  have hdrop : (table.drop m).length = table.length - m := List.length_drop ..
  unfold freesOf
  rw [sum_cons]
  split <;> split <;> omega

/-- A turn of the client, with requests of its own and others that leave its slot alone. -/
def Turn.Fair (n : Nat) (t : Turn) : Prop := Plain t.request ∧ ∀ op ∈ t.others, op.slot ≠ some (n : Int)

def Turn.size (t : Turn) : Nat := t.request.maxRows.toNat

/-- The calls page through what is left of the table. -/
theorem continueCalls_run (gen : Generator G) {numOfCols : Nat} (hcols : 0 < numOfCols) :
    ∀ {turns : List Turn} {table : List (List Text)} {s : Server G}, Holding s n numOfCols table →
      (∀ t ∈ turns, t.Fair n) → PagesFit numOfCols table (turns.map Turn.size) →
      ∃ cs s', continueCalls gen turns (n + 1) s = .ok cs s' ∧ Pages n table (turns.map Turn.size) cs ∧
        s'.freed.count n = s.freed.count n + freesOf table (turns.map Turn.size)
  | [], table, s, _, _, _ => by
    refine ⟨[], s, rfl, ⟨by simp, by simp, by simp, by simp⟩, rfl⟩
  | t :: ts, table, s, hold, hfair, hfits => by
    obtain ⟨hplain, hothers⟩ := hfair t (by simp)
    obtain ⟨hn, st, hst, hnum, hrest⟩ := hold
    obtain ⟨hslot, hcount⟩ := Op.execAll_untouched gen hothers s (by simp [hst])
    have hold' : Holding (Op.execAll gen t.others s) n numOfCols table :=
      ⟨hn, st, hslot.trans hst, hnum, hrest⟩
    let q : Request := { t.request with continueInx := n + 1 }
    have hq : Plain q := ⟨hplain.maxRows, hplain.condInput, hplain.autoClose, hplain.noTotal⟩
    obtain ⟨status, out, s₂, hrun, hpaged⟩ := continue_run gen hq rfl hcols hold' hfits.1
    have hcall := call_run hrun
    rw [continueCalls, if_neg (by omega), modify_bind, bind_run hcall]
    by_cases hle : t.size ≤ table.length
    · obtain ⟨rfl, hinx, hhold, hfreed⟩ := hpaged.full hle
      have hnext : Call.next ⟨Op.execAll gen t.others s, s₂, q.maxRows.toNat, 0, out⟩ = n + 1 := hinx
      obtain ⟨cs, s', hrun', hpages, hcount'⟩ :=
        continueCalls_run gen hcols hhold (fun t' h' => hfair t' (by simp [h'])) hfits.2
      rw [hnext, bind_run hrun']
      refine ⟨_, s', rfl, ?_, ?_⟩
      · exact pages_cons hpaged rfl (fun _ => hpages) (fun h => absurd hle (Nat.not_le_of_lt h))
      · rw [List.map_cons, freesOf_cons hle, hcount', hfreed, hcount]
        rfl
    · obtain ⟨hstatus, hinx, -, hfreed⟩ := hpaged.last (Nat.lt_of_not_le hle)
      have hnext : Call.next ⟨Op.execAll gen t.others s, s₂, q.maxRows.toNat, status, out⟩ = 0 := by
        simp only [Call.next, hinx, ite_self]
      rw [hnext, bind_run (continueCalls_ended gen ts s₂)]
      refine ⟨_, s₂, rfl, ?_, ?_⟩
      · exact pages_cons hpaged rfl (fun h => absurd h hle) (fun _ => rfl)
      · have hone : freesOf table ((t :: ts).map Turn.size) = 1 := by
          unfold freesOf
          rw [List.map_cons, sum_cons, if_pos (by omega)]
        rw [hone, hfreed, List.count_append, hcount, List.count_singleton_self]

/-- The request opens a query in slot `n` whose result table has the rows. -/
structure Opens (gen : Generator G) (s : Server G) (q : Request) (n numOfCols : Nat) (table : List (List Text)) :
    Prop where
  free : s.freeSlot = some n
  answer : ∃ sql g rowCount, gen.generate q.inp s.gen = .sql sql g ∧
    q.database sql (gen.bindVars g) = .result numOfCols (table.map .row) rowCount
  columns : 0 < numOfCols
  rows : table ≠ []

/-- A client that pages through a result table gets its rows in order, each once, in pages as long
as it asks for and a shorter last one, and the slot is freed once. Its calls leave other slots
alone, and the calls of others do not matter. -/
theorem pages_exact (gen : Generator G) (s : Server G) (q : Request) (n numOfCols : Nat)
    (table : List (List Text)) (turns : List Turn) (hopens : Opens gen s q n numOfCols table) (hplain : Plain q)
    (hfair : ∀ t ∈ turns, t.Fair n)
    (hfits : PagesFit numOfCols table (q.maxRows.toNat :: turns.map Turn.size)) :
    ∃ cs s', calls gen q turns s = .ok cs s' ∧ Pages n table (q.maxRows.toNat :: turns.map Turn.size) cs ∧
      s'.freed.count n = s.freed.count n + freesOf table (q.maxRows.toNat :: turns.map Turn.size) := by
  obtain ⟨hfree, ⟨sql, g, rowCount, hsql, hanswer⟩, hcols, hrows⟩ := hopens
  obtain ⟨row, rows, rfl⟩ := List.exists_cons_of_ne_nil hrows
  let q₀ : Request := { q with continueInx := 0 }
  have hq₀ : Plain q₀ := ⟨hplain.maxRows, hplain.condInput, hplain.autoClose, hplain.noTotal⟩
  obtain ⟨status, out, s₁, hrun, hpaged⟩ := open_run hq₀ rfl hsql hfree hanswer hcols hfits.1
  have hcall := call_run hrun
  rw [calls, bind_run hcall]
  by_cases hle : q.maxRows.toNat ≤ (row :: rows).length
  · obtain ⟨rfl, hinx, hhold, hfreed⟩ := hpaged.full hle
    have hnext : Call.next ⟨s, s₁, q₀.maxRows.toNat, 0, out⟩ = n + 1 := hinx
    obtain ⟨cs, s', hrun', hpages, hcount⟩ := continueCalls_run gen hcols hhold hfair hfits.2
    rw [hnext, bind_run hrun']
    refine ⟨_, s', rfl, ?_, ?_⟩
    · exact pages_cons hpaged rfl (fun _ => hpages) (fun h => absurd hle (Nat.not_le_of_lt h))
    · rw [freesOf_cons hle, hcount, hfreed]
  · obtain ⟨hstatus, hinx, -, hfreed⟩ := hpaged.last (Nat.lt_of_not_le hle)
    have hnext : Call.next ⟨s, s₁, q₀.maxRows.toNat, status, out⟩ = 0 := by
      simp only [Call.next, hinx, ite_self]
    rw [hnext, bind_run (continueCalls_ended gen turns s₁)]
    refine ⟨_, s₁, rfl, ?_, ?_⟩
    · exact pages_cons hpaged rfl (fun h => absurd h hle) (fun _ => rfl)
    · have hone : freesOf (row :: rows) (q.maxRows.toNat :: turns.map Turn.size) = 1 := by
        unfold freesOf
        rw [sum_cons, if_pos (by omega)]
      rw [hone, hfreed, List.count_append, List.count_singleton_self]

/-- A generator with one text and no bind variables. -/
def fixedQuery : Generator Unit where
  generate _ _ := .sql "select data_name from R_DATA_MAIN ".toList ()
  bindVars _ := []
  reset _ := ()

/-- A session without statements. -/
def idle : Server Unit := ⟨(), fun _ => .empty, false, []⟩

/-- A request for rows of a table with the names. -/
def rowsRequest (names : List String) (maxRows : Int) : Request where
  inp := ⟨[(403, 1#32)], [], 0#32, 0⟩
  maxRows := maxRows
  continueInx := 0
  condInputLen := 0
  database _ _ := .result 1 (names.map fun name => .row [name.toList]) names.length
  access _ := ⟨[], 0⟩

/-- Two rows in pages of one; another query is opened and read in between. -/
theorem pages_exact_two : ∃ cs s', calls fixedQuery (rowsRequest ["a", "b"] 1)
      [⟨[.chlGenQuery (rowsRequest ["c"] 5)], rowsRequest [] 1⟩, ⟨[], rowsRequest [] 1⟩] idle = .ok cs s' ∧
    Pages 0 [["a".toList], ["b".toList]] [1, 1, 1] cs ∧
    s'.freed.count 0 = idle.freed.count 0 + freesOf [["a".toList], ["b".toList]] [1, 1, 1] := by
  refine pages_exact fixedQuery idle (rowsRequest ["a", "b"] 1) 0 1 [["a".toList], ["b".toList]] _ ?_ ?_ ?_ ?_
  · exact ⟨by decide, ⟨_, _, _, rfl, rfl⟩, by decide, by decide⟩
  · exact ⟨by decide, rfl, by decide, by decide⟩
  · intro t ht
    simp only [mem_cons, List.not_mem_nil, or_false] at ht
    rcases ht with rfl | rfl
    · exact ⟨⟨by decide, rfl, by decide, by decide⟩, by simp [Op.slot, rowsRequest]⟩
    · exact ⟨⟨by decide, rfl, by decide, by decide⟩, by simp⟩
  · exact ⟨⟨by decide, trivial⟩, ⟨by decide, trivial⟩, trivial, trivial⟩

/-- Do the calls bring no rows at all? -/
def bringsNothing : EStateM.Result Misuse (Server Unit) (List (Call Unit)) → Bool
  | .ok cs _ => cs.all fun c => c.out.rows = []
  | .error _ _ => false

/-- The room for a page of the largest `int` of rows is negative. -/
theorem hugePage_fails : ¬ ∃ cs s', calls fixedQuery (rowsRequest ["a"] 2147483647) [] idle = .ok cs s' ∧
    Pages 0 [["a".toList]] [2147483647] cs ∧
    s'.freed.count 0 = idle.freed.count 0 + freesOf [["a".toList]] [2147483647] := by
  rintro ⟨cs, s', hrun, hpages, -⟩
  have hnone : bringsNothing (calls fixedQuery (rowsRequest ["a"] 2147483647) [] idle) = true := by
    decide +kernel
  rw [hrun] at hnone
  simp only [bringsNothing, List.all_eq_true, decide_eq_true_eq] at hnone
  have hrows := hpages.rows
  rw [List.flatMap_eq_nil_iff.mpr hnone] at hrows
  exact absurd hrows (by decide)

end Statements
