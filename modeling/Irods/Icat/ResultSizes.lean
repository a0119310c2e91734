-- SUMMARY: When the buffers of a page are large enough.
import Irods.Icat.ResultBuffers

/-!
# Sizes of result buffers

The size of a block is the product of three `int`s. Where it fits, the rows come out as they went in, in
whatever order the wide ones arrive. Where it does not, a block can be smaller than the rows it is for.
-/

namespace Statements

open CBuffer EStateM

variable {numOfCols maxRows : Nat} {rows : List (List Text)}

/-- The rows of one result have the same columns, with texts that end. -/
structure Rectangular (numOfCols : Nat) (rows : List (List Text)) : Prop where
  columns : ∀ row ∈ rows, row.length = numOfCols
  texts : ∀ row ∈ rows, ∀ t ∈ row, nul ∉ t

variable {row : List Text}

theorem Rectangular.head (h : Rectangular numOfCols (row :: rows)) : row.length = numOfCols ∧ ∀ t ∈ row, nul ∉ t :=
  ⟨h.columns row List.mem_cons_self, h.texts row List.mem_cons_self⟩

theorem Rectangular.tail (h : Rectangular numOfCols (row :: rows)) : Rectangular numOfCols rows :=
  ⟨fun r hr => h.columns r (List.mem_cons_of_mem _ hr), fun r hr => h.texts r (List.mem_cons_of_mem _ hr)⟩

/-! ## No columns -/

variable {b : Buffers}

theorem fillRow_nil (h : b.sqlResult = []) :
    ∃ b', fillRow maxRows b [] = .ok b' ∧ b'.rowCnt = b.rowCnt + 1 ∧ b'.sqlResult = [] := by
  have hput (b : Buffers) (h : b.sqlResult = []) : putRow [] b = .ok b := by
    obtain ⟨rowCnt, currentMaxColSize, sqlResult⟩ := b
    obtain rfl := h
    rfl
  cases hwanted : wanted [] b with
  | none =>
    refine ⟨{ b with rowCnt := b.rowCnt + 1 }, ?_, rfl, h⟩
    rw [fillRow, enlarge_kept hwanted]
    exact hput _ h
  | some width =>
    have hproduct : product ([] : List Text).length width maxRows = 0 := by simp [product]
    have hallocated : allocated 0 width [] b = some [] := by
      rw [allocated, h]
      split <;> rfl
    refine ⟨⟨b.rowCnt + 1, width, []⟩, ?_, rfl, rfl⟩
    rw [fillRow, enlarge_some hwanted, mallocColumn_eq, hproduct, if_pos (by decide), resized, hallocated]
    exact hput ⟨b.rowCnt + 1, width, []⟩ rfl

theorem fillRows_nil (hrect : Rectangular 0 rows) (h : b.sqlResult = []) :
    ∃ b', rows.foldlM (fillRow maxRows) b = .ok b' ∧ b'.rowCnt = b.rowCnt + rows.length := by
  induction rows generalizing b with
  | nil => exact ⟨b, rfl, rfl⟩
  | cons row rows ih =>
    obtain rfl := List.length_eq_zero_iff.mp hrect.head.1
    obtain ⟨b', hrow, hcnt, hb'⟩ := @fillRow_nil maxRows b h
    obtain ⟨b'', hrun, hcnt'⟩ := ih hrect.tail hb'
    refine ⟨b'', ?_, ?_⟩
    · rw [List.foldlM_cons, hrow]
      exact hrun
    · rw [hcnt', hcnt, List.length_cons]
      omega

/-! ## Rows that fit -/

theorem product_fits {i len : Nat} (h : numOfCols * newLen i len row * maxRows < intBound) :
    product numOfCols (newLen i len row) maxRows = numOfCols * newLen i len row * maxRows :=
  Nat.mod_eq_of_lt (h.trans (by decide))

variable {b : Buffers}

variable {front : List (List Text)}

/-- One row into blocks of which the sizes fit. -/
theorem fillRow_fits (hpos : 0 < numOfCols) (h : b.Shows numOfCols (numOfCols * b.currentMaxColSize * maxRows) front)
    (hcols : row.length = numOfCols) (hnul : ∀ t ∈ row, nul ∉ t) (hleft : front.length < maxRows)
    (hfits : numOfCols * newLen front.length b.currentMaxColSize row * maxRows < intBound) :
    ∃ b', fillRow maxRows b row = .ok b' ∧ b'.currentMaxColSize = newLen front.length b.currentMaxColSize row ∧
      b'.Shows numOfCols (numOfCols * b'.currentMaxColSize * maxRows) (front ++ [row]) := by
  by_cases hasked : Allocates front.length b.currentMaxColSize row
  · have hproduct := product_fits hfits
    have hold : front.length = 0 ∨ front.length * b.currentMaxColSize < numOfCols * b.currentMaxColSize * maxRows := by
      obtain hfirst | hfirst := Nat.eq_zero_or_pos front.length
      · exact .inl hfirst
      · have hwidth : 0 < b.currentMaxColSize := h.width (List.length_pos_iff.mp hfirst)
        have hrows := @rows_fit _ _ _ b.currentMaxColSize hleft hpos
        rw [Nat.add_mul] at hrows
        exact .inr (by omega)
    obtain ⟨b', hrow, hshows, hwidth⟩ := @fillRow_grown b numOfCols maxRows _ _ row h hcols hnul hasked
      (by rwa [hproduct]) hold (by rw [hproduct]; exact rows_fit hleft hpos)
    refine ⟨b', hrow, hwidth, ?_⟩
    rw [hwidth, ← hproduct]
    exact hshows
  · obtain ⟨b', hrow, hshows, hwidth⟩ := @fillRow_kept b numOfCols maxRows _ _ row h hcols
      hnul hasked (rows_fit hleft hpos)
    exact ⟨b', hrow, hwidth.trans (newLen_kept hasked).symm, by rwa [hwidth]⟩

theorem fillRows_fits (hpos : 0 < numOfCols) (hrect : Rectangular numOfCols rows)
    (h : b.Shows numOfCols (numOfCols * b.currentMaxColSize * maxRows) front)
    (hleft : front.length + rows.length ≤ maxRows)
    (hfits : Fits numOfCols maxRows front.length b.currentMaxColSize rows) :
    ∃ b' total, rows.foldlM (fillRow maxRows) b = .ok b' ∧ b'.Shows numOfCols total (front ++ rows) := by
  induction rows generalizing b front with
  | nil => exact ⟨b, _, rfl, by rwa [List.append_nil]⟩
  | cons row rows ih =>
    rw [List.length_cons] at hleft
    obtain ⟨b', hrow, hwidth, hshows⟩ := fillRow_fits hpos h hrect.head.1 hrect.head.2 (by omega) hfits.1
    have hlen : (front ++ [row]).length = front.length + 1 := List.length_append
    obtain ⟨b'', total, hrun, hall⟩ := ih hrect.tail hshows (by omega) (by rw [hlen, hwidth]; exact hfits.2)
    refine ⟨b'', total, ?_, by rwa [List.append_assoc] at hall⟩
    rw [List.foldlM_cons, hrow]
    exact hrun

theorem valueAt_columns {total j k : Nat} {t : Text} (h : b.Shows numOfCols total rows)
    (hrect : Rectangular numOfCols rows) (ht : (rows[k]?.bind fun row => row[j]?) = some t) :
    b.valueAt j k = some t := by
  obtain ⟨row, hrow, ht⟩ := Option.bind_eq_some_iff.mp ht
  obtain ⟨hk, rfl⟩ := List.getElem?_eq_some_iff.mp hrow
  obtain ⟨hj, rfl⟩ := List.getElem?_eq_some_iff.mp ht
  have hcolumns := h.columns (List.ne_nil_of_mem (List.getElem_mem hk))
  have hj' : j < b.sqlResult.length := by rwa [hcolumns.length, ← hrect.columns _ (List.getElem_mem hk)]
  have hk' : k < (columnOf rows j).length := by rwa [length_columnOf]
  rw [Buffers.valueAt, List.getElem?_eq_getElem hj', Option.bind_some, hcolumns.len j hj',
    (hcolumns.filled j hj').textAt hk']
  simp only [columnOf, List.getElem_map, List.getD_eq_getElem?_getD, List.getElem?_eq_getElem hj, Option.getD_some]

/-- Every value can be read at its row, whatever the order in which wider and narrower rows arrive. -/
theorem fillRows_values (hrect : Rectangular numOfCols rows) (hlen : rows.length ≤ maxRows)
    (hfits : Fits numOfCols maxRows 0 0 rows) :
    ∃ b, fillRows maxRows rows = .ok b ∧ b.rowCnt = rows.length ∧
      ∀ j k t, (rows[k]?.bind fun row => row[j]?) = some t → b.valueAt j k = some t := by
  obtain rfl | hpos := Nat.eq_zero_or_pos numOfCols
  · obtain ⟨b, hrun, hcnt⟩ := @fillRows_nil maxRows rows .init hrect rfl
    refine ⟨b, hrun, hcnt.trans (Nat.zero_add _), fun j k t ht => ?_⟩
    obtain ⟨row, hrow, ht⟩ := Option.bind_eq_some_iff.mp ht
    rw [List.length_eq_zero_iff.mp (hrect.columns row (List.mem_of_getElem? hrow))] at ht
    cases ht
  · obtain ⟨b, total, hrun, hshows⟩ := @fillRows_fits numOfCols maxRows rows .init [] hpos hrect shows_init (by simpa)
      hfits
    exact ⟨b, hrun, hshows.rowCnt, fun j k t => valueAt_columns hshows hrect⟩

theorem fillRows_values_widening :
    ∃ b, fillRows 2 [["a".toList], [List.replicate 60 'b']] = .ok b ∧ b.rowCnt = 2 ∧
      ∀ j k t, ([["a".toList], [List.replicate 60 'b']][k]?.bind fun row => row[j]?) = some t →
      b.valueAt j k = some t :=
  @fillRows_values 1 2 [["a".toList], [List.replicate 60 'b']] ⟨by decide, by decide⟩ (by decide)
    ⟨by decide, by decide, trivial⟩

/-! ## Rows of any size -/

/-- What is allocated for each row is enough for all of the page. -/
def Enough (maxRows : Nat) (b : Buffers) (rows : List (List Text)) : Prop :=
  ∀ front row back b' width totalLen, rows = front ++ row :: back → row ≠ [] →
    front.foldlM (fillRow maxRows) b = .ok b' → wanted row b' = some width →
    mallocColumn row.length width maxRows = some totalLen → width * maxRows ≤ totalLen

/-- Either the call fails for want of memory, or its blocks are large enough and no row is put past their ends. -/
def LargeEnough (maxRows : Nat) (rows : List (List Text)) : Prop :=
  fillRows maxRows rows = .error .noMemory ∨
    Enough maxRows .init rows ∧ fillRows maxRows rows ≠ .error .outside

section Runs

variable {b : Buffers} {total : Nat} {front : List (List Text)} {row : List Text}

theorem foldlM_error {e : Stop} (h : fillRow maxRows b row = .error e) :
    (row :: rows).foldlM (fillRow maxRows) b = .error e := by
  rw [List.foldlM_cons, h]
  rfl

theorem foldlM_ok {b' : Buffers} (h : fillRow maxRows b row = .ok b') :
    (row :: rows).foldlM (fillRow maxRows) b = rows.foldlM (fillRow maxRows) b' := by
  rw [List.foldlM_cons, h]
  rfl

/-- The call ends for want of memory exactly where a product is negative before a row leaves its blocks. -/
theorem noMemory_iff (hpos : 0 < numOfCols) (hrect : Rectangular numOfCols rows) (h : b.Shows numOfCols total front) :
    rows.foldlM (fillRow maxRows) b = .error .noMemory ↔
      RunsOut numOfCols maxRows front.length b.currentMaxColSize total rows := by
  induction rows generalizing b front total with
  | nil => exact ⟨nofun, False.elim⟩
  | cons row rows ih =>
    have hcols := hrect.head.1
    have hnul := hrect.head.2
    have hlen : (front ++ [row]).length = front.length + 1 := List.length_append
    rw [RunsOut]
    by_cases hasked : Allocates front.length b.currentMaxColSize row
    · rw [if_pos hasked]
      by_cases hmalloc : intBound ≤ product numOfCols (newLen front.length b.currentMaxColSize row) maxRows
      · exact iff_of_true (foldlM_error (fillRow_noMemory h hcols hasked hmalloc)) (.inl hmalloc)
      · rw [or_iff_right hmalloc, ← and_assoc]
        by_cases hroom : (front.length = 0 ∨ front.length * b.currentMaxColSize < total) ∧
            (front.length + 1) * newLen front.length b.currentMaxColSize row ≤
              product numOfCols (newLen front.length b.currentMaxColSize row) maxRows
        · obtain ⟨b', hrow, hshows, hwidth⟩ :=
            fillRow_grown h hcols hnul hasked (Nat.lt_of_not_le hmalloc) hroom.1 hroom.2
          rw [foldlM_ok hrow, and_iff_right hroom, ih hrect.tail hshows, hlen, hwidth]
        · have hrow := fillRow_grown_outside h hcols hpos hasked (Nat.lt_of_not_le hmalloc) hroom
          rw [foldlM_error hrow]
          exact iff_of_false nofun fun hout => hroom hout.1
    · rw [if_neg hasked]
      by_cases hroom : (front.length + 1) * b.currentMaxColSize ≤ total
      · obtain ⟨b', hrow, hshows, hwidth⟩ := @fillRow_kept b numOfCols maxRows _ _ row h hcols hnul hasked hroom
        rw [foldlM_ok hrow, and_iff_right hroom, ih hrect.tail hshows, hlen, hwidth]
      · rw [foldlM_error (fillRow_kept_outside h hcols hpos hasked hroom)]
        exact iff_of_false nofun fun hout => hroom hout.1

/-- What is enough for a row and for those after it. -/
theorem enough_cons : Enough maxRows b (row :: rows) ↔
    (∀ width totalLen, row ≠ [] → wanted row b = some width → mallocColumn row.length width maxRows = some totalLen →
      width * maxRows ≤ totalLen) ∧ ∀ b', fillRow maxRows b row = .ok b' → Enough maxRows b' rows := by
  refine ⟨fun h => ⟨fun width totalLen hne => ?_, fun b' hrow => ?_⟩, fun h => ?_⟩
  · exact h [] row rows b width totalLen rfl hne rfl
  · intro front r back b'' width totalLen hrows hne hrun
    exact h (row :: front) r back b'' width totalLen (congrArg (row :: ·) hrows) hne ((foldlM_ok hrow).trans hrun)
  · intro front r back b' width totalLen hrows hne hrun
    cases front with
    | nil =>
      obtain ⟨rfl, rfl⟩ := List.cons.inj hrows
      obtain rfl := Except.ok.inj hrun
      exact h.1 width totalLen hne
    | cons r' front =>
      obtain ⟨rfl, htail⟩ := List.cons.inj hrows
      cases hrow : fillRow maxRows b row with
      | error e =>
        rw [foldlM_error hrow] at hrun
        cases hrun
      | ok b'' => exact h.2 b'' hrow front r back b' width totalLen htail hne ((foldlM_ok hrow).symm.trans hrun)

/-- The blocks are large enough exactly where the products say so; then no row leaves them. -/
theorem enough_iff (hpos : 0 < numOfCols) (hrect : Rectangular numOfCols rows) (h : b.Shows numOfCols total front)
    (hroom : front ≠ [] → b.currentMaxColSize * maxRows ≤ total) (hleft : front.length + rows.length ≤ maxRows) :
    (Enough maxRows b rows ↔ AllLarge numOfCols maxRows front.length b.currentMaxColSize rows) ∧
      (AllLarge numOfCols maxRows front.length b.currentMaxColSize rows →
        rows.foldlM (fillRow maxRows) b ≠ .error .outside) := by
  induction rows generalizing b front total with
  | nil =>
    refine ⟨iff_of_true (fun front row back b' width totalLen hrows => ?_) trivial, fun _ => nofun⟩
    exact absurd hrows (by simp)
  | cons row rows ih =>
    have hcols := hrect.head.1
    have hnul := hrect.head.2
    have hne : row ≠ [] := List.length_pos_iff.mp (hcols ▸ hpos)
    have hlen : (front ++ [row]).length = front.length + 1 := List.length_append
    rw [List.length_cons] at hleft
    have hfits (width : Nat) : (front.length + 1) * width ≤ width * maxRows := by
      rw [Nat.mul_comm width]
      exact Nat.mul_le_mul_right width (by omega)
    rw [enough_cons, AllLarge, wanted_eq h, hcols]
    by_cases hasked : Allocates front.length b.currentMaxColSize row
    · rw [if_pos hasked, if_pos hasked]
      by_cases hmalloc : intBound ≤ product numOfCols (newLen front.length b.currentMaxColSize row) maxRows
      · have hrow := fillRow_noMemory h hcols hasked hmalloc
        refine ⟨iff_of_true ⟨fun width totalLen _ hwidth hgot => ?_, fun b' hok => ?_⟩ (.inl hmalloc), fun _ => ?_⟩
        · obtain rfl := Option.some.inj hwidth
          rw [mallocColumn_eq, if_neg (Nat.not_lt.mpr hmalloc)] at hgot
          cases hgot
        · rw [hrow] at hok
          cases hok
        · rw [foldlM_error hrow]
          nofun
      · rw [or_iff_right hmalloc]
        have hgot := (mallocColumn_eq numOfCols (newLen front.length b.currentMaxColSize row) maxRows).trans
          (if_pos (Nat.lt_of_not_le hmalloc))
        by_cases hlarge : newLen front.length b.currentMaxColSize row * maxRows ≤
            product numOfCols (newLen front.length b.currentMaxColSize row) maxRows
        · have hold : front.length = 0 ∨ front.length * b.currentMaxColSize < total := by
            obtain hfirst | hfirst := Nat.eq_zero_or_pos front.length
            · exact .inl hfirst
            · have hfront : front ≠ [] := List.length_pos_iff.mp hfirst
              have hwidth := h.width hfront
              have hbefore := (hfits b.currentMaxColSize).trans (hroom hfront)
              rw [Nat.add_mul] at hbefore
              exact .inr (by omega)
          obtain ⟨b', hrow, hshows, hwidth⟩ := fillRow_grown h hcols hnul hasked (Nat.lt_of_not_le hmalloc) hold
            ((hfits _).trans hlarge)
          obtain ⟨hiff, hinside⟩ := ih hrect.tail hshows (fun _ => by rwa [hwidth]) (by omega)
          rw [hlen, hwidth] at hiff hinside
          refine ⟨?_, fun hall => by rw [foldlM_ok hrow]; exact hinside hall.2⟩
          rw [and_iff_right hlarge, ← hiff]
          refine ⟨fun hand => hand.2 b' hrow, fun henough => ⟨fun width totalLen _ hw hm => ?_, fun b'' hok => ?_⟩⟩
          · obtain rfl := Option.some.inj hw
            obtain rfl := Option.some.inj (hgot.symm.trans hm)
            exact hlarge
          · obtain rfl := Except.ok.inj (hrow.symm.trans hok)
            exact henough
        · refine ⟨iff_of_false (fun hand => hlarge ?_) fun hand => hlarge hand.1, fun hand => absurd hand.1 hlarge⟩
          exact hand.1 _ _ hne rfl hgot
    · rw [if_neg hasked, if_neg hasked]
      have hfront : front ≠ [] := fun hnil => hasked (.inl (by rw [hnil]; rfl))
      obtain ⟨b', hrow, hshows, hwidth⟩ := @fillRow_kept b numOfCols maxRows _ _ row h hcols hnul hasked
        ((hfits _).trans (hroom hfront))
      obtain ⟨hiff, hinside⟩ := ih hrect.tail hshows (fun _ => by rw [hwidth]; exact hroom hfront) (by omega)
      rw [hlen, hwidth] at hiff hinside
      refine ⟨?_, fun hall => by rw [foldlM_ok hrow]; exact hinside hall⟩
      rw [← hiff]
      refine ⟨fun hand => hand.2 b' hrow, fun henough => ⟨nofun, fun b'' hok => ?_⟩⟩
      obtain rfl := Except.ok.inj (hrow.symm.trans hok)
      exact henough

end Runs

/-- The buffers of a call are large enough exactly where each product is, up to one that is negative, or
where one is negative before any row leaves the blocks. -/
theorem largeEnough_iff (hrect : Rectangular numOfCols rows) (hlen : rows.length ≤ maxRows) :
    LargeEnough maxRows rows ↔
      numOfCols = 0 ∨ AllLarge numOfCols maxRows 0 0 rows ∨ RunsOut numOfCols maxRows 0 0 0 rows := by
  obtain rfl | hpos := Nat.eq_zero_or_pos numOfCols
  · obtain ⟨b, hrun, -⟩ := @fillRows_nil maxRows rows .init hrect rfl
    refine iff_of_true (.inr ⟨?_, ?_⟩) (.inl rfl)
    · intro front row back b' width totalLen hrows hne
      exact absurd (List.length_eq_zero_iff.mp (hrect.columns row (hrows ▸ by simp))) hne
    · rw [fillRows, hrun]
      nofun
  · rw [or_iff_right hpos.ne']
    have hout := @noMemory_iff numOfCols maxRows rows .init 0 [] hpos hrect shows_init
    obtain ⟨henough, hinside⟩ := @enough_iff numOfCols maxRows rows .init 0 [] hpos hrect shows_init
      (fun h => absurd rfl h)
      (by simpa)
    rw [LargeEnough, or_comm]
    refine or_congr ?_ hout
    exact ⟨fun h => henough.mp h.1, fun h => ⟨henough.mpr h, hinside h⟩⟩

theorem largeEnough_iff_small : LargeEnough 100 [["a".toList]] ↔
    1 = 0 ∨ AllLarge 1 100 0 0 [["a".toList]] ∨ RunsOut 1 100 0 0 0 [["a".toList]] :=
  @largeEnough_iff 1 100 [["a".toList]] ⟨by decide, by decide⟩ (by decide)

/-- One column and 85899346 rows asked for: four bytes are allocated, and the first row is put past them. -/
theorem largeEnough_wrapped : ¬ LargeEnough 85899346 [["a".toList]] := by
  have hrun : fillRows 85899346 [["a".toList]] = .error .outside := by decide
  rintro (h | ⟨-, h⟩)
  · cases h
  · exact h hrun

end Statements
