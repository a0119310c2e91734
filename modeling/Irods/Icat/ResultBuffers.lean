-- SUMMARY: The buffers of a query result when wider rows arrive.
import Irods.Base.CBuffer
import Irods.Icat.Paging

/-!
# Result buffers

The columns of a page are blocks of characters in which each row has `len` of them. A row that is wider
than those before makes `chlGenQuery` allocate new blocks and copy the rows, with the one that is counted
but not there yet. The result is cleared by the caller. Widths are taken to be in the range of an `int`,
and the columns to be at most the 50 of a result. The last section connects the blocks with the page
loop, which keeps rows of texts.
-/

namespace Statements

open CBuffer

/-- A column of the result. -/
structure SqlResult where
  len : Nat
  value : Text
  deriving DecidableEq

structure Buffers where
  rowCnt : Nat
  currentMaxColSize : Nat
  sqlResult : List SqlResult
  deriving DecidableEq

/-- Why a page ends early. -/
inductive Stop where
  | noMemory
  | outside
  deriving DecidableEq

def Buffers.init : Buffers := ⟨0, 0, []⟩

/-- The width for which the columns are allocated when the row arrives. -/
def wanted (row : List Text) (b : Buffers) : Option Nat :=
  if b.rowCnt = 0 then some (colSize row)
  else if colSize row > b.currentMaxColSize then some (colSize row + MINIMUM_COL_SIZE)
  else none

/-- `rowCnt` rows are copied to a block with another stride. -/
def repack (old : Text) (len : Nat) (new : Text) (maxColSize : Nat) : Nat → Option Text
  | 0 => some new
  | rowCnt + 1 => do
    strncpy (← repack old len new maxColSize rowCnt) (rowCnt * maxColSize) (← textWithin old (rowCnt * len) len) len

/-- A column is copied to a block of the size, with the row that is counted but not there yet. -/
def widened (totalLen maxColSize rowCnt : Nat) (c : SqlResult) : Option SqlResult :=
  (repack c.value c.len (cleared totalLen) maxColSize rowCnt).map fun value => ⟨maxColSize, value⟩

/-- Blocks of the size for all columns, with the rows before. -/
def allocated (totalLen maxColSize : Nat) (row : List Text) (b : Buffers) : Option (List SqlResult) :=
  if b.rowCnt = 0 then some (row.map fun _ => ⟨maxColSize, cleared totalLen⟩)
  else b.sqlResult.mapM (widened totalLen maxColSize (b.rowCnt + 1))

def putValue (currentMaxColSize rowCnt : Nat) (c : SqlResult × Text) : Option SqlResult :=
  (strncpy c.1.value (currentMaxColSize * (rowCnt - 1)) c.2 currentMaxColSize).map fun value => { c.1 with value }

/-- The columns in blocks that `malloc` has given or not. -/
def resized (row : List Text) (b : Buffers) (maxColSize : Nat) : Option Nat → Except Stop Buffers
  | none => .error .noMemory
  | some totalLen =>
    match allocated totalLen maxColSize row b with
    | none => .error .outside
    | some sqlResult => .ok ⟨b.rowCnt + 1, maxColSize, sqlResult⟩

/-- The blocks in force for the row, which is counted. -/
def enlarge (maxRows : Nat) (row : List Text) (b : Buffers) : Except Stop Buffers :=
  match wanted row b with
  | none => .ok { b with rowCnt := b.rowCnt + 1 }
  | some maxColSize => resized row b maxColSize (mallocColumn row.length maxColSize maxRows)

/-- The values of the row are copied to the blocks. -/
def putRow (row : List Text) (b : Buffers) : Except Stop Buffers :=
  match (b.sqlResult.zip row).mapM (putValue b.currentMaxColSize b.rowCnt) with
  | none => .error .outside
  | some sqlResult => .ok { b with sqlResult }

def fillRow (maxRows : Nat) (b : Buffers) (row : List Text) : Except Stop Buffers := do
  putRow row (← enlarge maxRows row b)

/-- The value of a column in a row as a client reads it. -/
def Buffers.valueAt (b : Buffers) (j k : Nat) : Option Text := b.sqlResult[j]?.bind fun c => textAt c.value (k * c.len)

def fillRows (maxRows : Nat) (rows : List (List Text)) : Except Stop Buffers := rows.foldlM (fillRow maxRows) .init

/-! ## Blocks -/

section Blocks

variable {old new new' : Text} {len width total total' n : Nat} {xs : List Text}

theorem length_strncpy {mem mem' t : Text} {pos : Nat} (h : strncpy mem pos t n = some mem') :
    mem'.length = mem.length :=
  length_store h

theorem length_repack (h : repack old len new width n = some new') : new'.length = new.length := by
  induction n generalizing new' with
  | zero => exact congrArg List.length (Option.some.inj h).symm
  | succ n ih =>
    obtain ⟨before, hbefore, h⟩ := Option.bind_eq_some_iff.mp h
    obtain ⟨t, ht, h⟩ := Option.bind_eq_some_iff.mp h
    exact (length_strncpy h).trans (ih hbefore)

/-- The rows are at the new stride after the copy; the one not there yet brings nothing along. -/
theorem repack_spec (h : Filled len total old xs) (hlen : len ≤ width) (hpos : 0 < len)
    (hold : xs.length * len < total) (hnew : (xs.length + 1) * width ≤ total') :
    ∃ new', repack old len (cleared total') width (xs.length + 1) = some new' ∧ Filled width total' new' xs := by
  have hsteps (n : Nat) (hn : n ≤ xs.length) :
      ∃ new', repack old len (cleared total') width n = some new' ∧ Filled width total' new' (xs.take n) := by
    induction n with
    | zero => exact ⟨_, rfl, filled_cleared⟩
    | succ n ih =>
      obtain ⟨new', hrepack, hfilled⟩ := ih (Nat.le_of_succ_le hn)
      have hshort : xs[n].length < len := h.short _ (List.getElem_mem hn)
      have htake : (xs.take n).length = n := List.length_take_of_le (Nat.le_of_succ_le hn)
      have hbefore : (n + 1) * width ≤ (xs.length + 1) * width := Nat.mul_le_mul_right width (by omega)
      rw [Nat.add_mul] at hbefore
      obtain ⟨new'', hcpy⟩ := @strncpy_eq new' (n * width) len (by rw [hfilled.length]; omega) xs[n]
      refine ⟨new'', ?_, ?_⟩
      · rw [repack, hrepack, (h.text n hn).textWithin hshort]
        exact hcpy
      · rw [← List.take_append_getElem hn]
        exact hfilled.push (h.text n hn).ends hshort hlen (by rwa [htake])
  obtain ⟨new', hrepack, hfilled⟩ := hsteps xs.length le_rfl
  rw [List.take_length] at hfilled
  rw [Nat.add_mul] at hnew
  obtain ⟨new'', hcpy⟩ := @strncpy_eq new' (xs.length * width) len (by rw [hfilled.length]; omega) []
  refine ⟨new'', ?_, hfilled.strncpy_nil hcpy⟩
  rw [repack, hrepack, h.textWithin_rest hold hpos]
  exact hcpy

/-- Behind a full block there is nothing to read. -/
theorem repack_none (h : Filled len total old xs) (hpos : 0 < len) (hold : total ≤ xs.length * len) :
    repack old len new width (xs.length + 1) = none := by
  rw [repack, h.textWithin_none hold hpos]
  cases repack old len new width xs.length <;> rfl

end Blocks

section Columns

variable {α β : Type} {f : α → Option β} {l : List α}

theorem mapM_some {Q : Nat → β → Prop} (h : ∀ i (hi : i < l.length), ∃ b, f l[i] = some b ∧ Q i b) :
    ∃ l', l.mapM f = some l' ∧ l'.length = l.length ∧ ∀ i (hi : i < l'.length), Q i l'[i] := by
  induction l generalizing Q with
  | nil => exact ⟨[], rfl, rfl, nofun⟩
  | cons a l ih =>
    obtain ⟨b, hb, hq⟩ := h 0 (Nat.succ_pos _)
    obtain ⟨l', hl', hlen, hrest⟩ := @ih (fun i => Q (i + 1)) fun i hi => h (i + 1) (Nat.succ_lt_succ hi)
    refine ⟨b :: l', ?_, congrArg (· + 1) hlen, fun i hi => ?_⟩
    · rw [List.mapM_cons, show f a = some b from hb, hl']
      rfl
    · cases i with
      | zero => exact hq
      | succ i => exact hrest i (Nat.lt_of_succ_lt_succ hi)

theorem mapM_none {a : α} (ha : a ∈ l) (h : f a = none) : l.mapM f = none := by
  induction l with
  | nil => cases ha
  | cons b l ih =>
    rw [List.mapM_cons]
    obtain rfl | ha := List.mem_cons.mp ha
    · rw [h]
      rfl
    · rw [ih ha]
      cases f b <;> rfl

theorem mapM_forall {P : β → Prop} (h : ∀ a b, f a = some b → P b) {l' : List β} (hl : l.mapM f = some l') :
    l'.length = l.length ∧ ∀ b ∈ l', P b := by
  induction l generalizing l' with
  | nil =>
    obtain rfl := Option.some.inj hl
    exact ⟨rfl, nofun⟩
  | cons a l ih =>
    rw [List.mapM_cons] at hl
    obtain ⟨b, hb, hl⟩ := Option.bind_eq_some_iff.mp hl
    obtain ⟨bs, hbs, hl⟩ := Option.bind_eq_some_iff.mp hl
    obtain rfl := Option.some.inj hl
    obtain ⟨hlen, hall⟩ := ih hbs
    exact ⟨congrArg (· + 1) hlen, fun c hc => (List.mem_cons.mp hc).elim (fun heq => heq ▸ h a b hb) (hall c)⟩

end Columns

theorem lt_colSize {row : List Text} {t : Text} (ht : t ∈ row) : t.length < colSize row := by
  have hmax (l : List Nat) (m n : Nat) (h : n ∈ l ∨ n ≤ m) : n ≤ l.foldl max m := by
    induction l generalizing m with
    | nil => exact h.resolve_left nofun
    | cons a l ih =>
      refine ih (max m a) ?_
      obtain h | h := h
      · obtain rfl | h := List.mem_cons.mp h
        · exact .inr (Nat.le_max_right _ _)
        · exact .inl h
      · exact .inr (h.trans (Nat.le_max_left _ _))
  have hle := hmax (row.map List.length) 0 t.length (.inl (List.mem_map_of_mem ht))
  rw [colSize]
  omega

/-! ## Rows in the blocks -/

/-- The values of a column, row by row. -/
def columnOf (rows : List (List Text)) (j : Nat) : List Text := rows.map fun row => row.getD j []

/-- The columns hold the rows, in blocks of the size. -/
structure Columns (sqlResult : List SqlResult) (numOfCols width total : Nat) (rows : List (List Text)) : Prop where
  length : sqlResult.length = numOfCols
  len : ∀ j (hj : j < sqlResult.length), sqlResult[j].len = width
  filled : ∀ j (hj : j < sqlResult.length), Filled width total sqlResult[j].value (columnOf rows j)

/-- The rows are in the blocks. -/
structure Buffers.Shows (b : Buffers) (numOfCols total : Nat) (rows : List (List Text)) : Prop where
  rowCnt : b.rowCnt = rows.length
  width : rows ≠ [] → 0 < b.currentMaxColSize
  columns : rows ≠ [] → Columns b.sqlResult numOfCols b.currentMaxColSize total rows

/-- The rows are in the blocks, and one more is counted. -/
structure Ready (b : Buffers) (numOfCols total : Nat) (rows : List (List Text)) (row : List Text) : Prop where
  rowCnt : b.rowCnt = rows.length + 1
  width : colSize row ≤ b.currentMaxColSize
  columns : Columns b.sqlResult numOfCols b.currentMaxColSize total rows

section Rows

variable {b : Buffers} {numOfCols maxRows total total' width : Nat} {rows : List (List Text)} {row : List Text}

theorem shows_init : Buffers.init.Shows numOfCols total [] := ⟨rfl, fun h => absurd rfl h, fun h => absurd rfl h⟩

theorem length_columnOf (rows : List (List Text)) (j : Nat) :
    (columnOf rows j).length = rows.length := List.length_map _

theorem wanted_first (h : b.rowCnt = 0) : wanted row b = some (colSize row) := if_pos h

theorem wanted_later (h : b.rowCnt ≠ 0) :
    wanted row b = if colSize row > b.currentMaxColSize then some (colSize row + MINIMUM_COL_SIZE) else none := if_neg h

theorem enlarge_kept (h : wanted row b = none) : enlarge maxRows row b = .ok { b with rowCnt := b.rowCnt + 1 } := by
  simp only [enlarge, h]

theorem enlarge_some (h : wanted row b = some width) :
    enlarge maxRows row b = resized row b width (mallocColumn row.length width maxRows) := by
  simp only [enlarge, h]

/-- Every column is copied, with the rows before. -/
theorem widened_all (h : b.Shows numOfCols total rows) (hrows : rows ≠ []) (hwidth : b.currentMaxColSize ≤ width)
    (hold : rows.length * b.currentMaxColSize < total) (hnew : (rows.length + 1) * width ≤ total') :
    ∃ cols, b.sqlResult.mapM (widened total' width (b.rowCnt + 1)) = some cols ∧
      Columns cols numOfCols width total' rows := by
  have hcolumns := h.columns hrows
  obtain ⟨cols, hcols, hlen, hspec⟩ := @mapM_some _ SqlResult (widened total' width (b.rowCnt + 1)) b.sqlResult
    (fun j c => c.len = width ∧ Filled width total' c.value (columnOf rows j)) fun j hj => by
      obtain ⟨value, hrepack, hfilled⟩ := @repack_spec _ _ width total total' _ (hcolumns.filled j hj) hwidth
        (h.width hrows) (by rwa [length_columnOf]) (by rwa [length_columnOf])
      rw [length_columnOf, ← h.rowCnt] at hrepack
      refine ⟨⟨width, value⟩, ?_, rfl, hfilled⟩
      rw [widened, hcolumns.len j hj, hrepack]
      rfl
  exact ⟨cols, hcols, hlen.trans hcolumns.length, fun j hj => (hspec j hj).1, fun j hj => (hspec j hj).2⟩

theorem wanted_width (h : wanted row b = some width) :
    colSize row ≤ width ∧ (b.rowCnt ≠ 0 → b.currentMaxColSize ≤ width) := by
  by_cases hcnt : b.rowCnt = 0
  · rw [wanted_first hcnt] at h
    obtain rfl := Option.some.inj h
    exact ⟨le_rfl, fun hne => absurd hcnt hne⟩
  · rw [wanted_later hcnt] at h
    split at h
    · rename_i hwide
      obtain rfl := Option.some.inj h
      exact ⟨Nat.le_add_right _ _, fun _ => Nat.le_add_right_of_le hwide.le⟩
    · cases h

theorem Buffers.Shows.rowCnt_ne (h : b.Shows numOfCols total rows) : b.rowCnt ≠ 0 ↔ rows ≠ [] := by
  rw [h.rowCnt, ne_eq, List.length_eq_zero_iff]

theorem resized_spec (h : b.Shows numOfCols total rows) (hcols : row.length = numOfCols)
    (hwanted : wanted row b = some width) (hold : rows ≠ [] → rows.length * b.currentMaxColSize < total)
    (hnew : (rows.length + 1) * width ≤ total') :
    ∃ b', resized row b width (some total') = .ok b' ∧ Ready b' numOfCols total' rows row ∧
      b'.currentMaxColSize = width := by
  obtain ⟨hwide, hgrown⟩ := wanted_width hwanted
  by_cases hrows : rows = []
  · subst hrows
    refine ⟨⟨b.rowCnt + 1, width, row.map fun _ => ⟨width, cleared total'⟩⟩, ?_, ?_, rfl⟩
    · rw [resized, allocated, if_pos (show b.rowCnt = 0 from h.rowCnt)]
    · refine ⟨congrArg (· + 1) h.rowCnt, hwide, (List.length_map _).trans hcols, fun j hj => ?_, fun j hj => ?_⟩
      · rw [List.getElem_map]
      · rw [List.getElem_map]
        exact filled_cleared
  · have hcnt : b.rowCnt ≠ 0 := h.rowCnt_ne.mpr hrows
    obtain ⟨cols, hcopied, hcolumns⟩ := widened_all h hrows (hgrown hcnt) (hold hrows) hnew
    refine ⟨⟨b.rowCnt + 1, width, cols⟩, ?_, ⟨congrArg (· + 1) h.rowCnt, hwide, hcolumns⟩, rfl⟩
    rw [resized, allocated, if_neg hcnt, hcopied]

variable {got : Nat}

/-- A full block is read over its end for the row that is not there yet. -/
theorem resized_full (h : b.Shows numOfCols total rows) (hpos : 0 < numOfCols) (hrows : rows ≠ [])
    (hfull : total ≤ rows.length * b.currentMaxColSize) : resized row b width (some got) = .error .outside := by
  have hcolumns := h.columns hrows
  have hfirst : 0 < b.sqlResult.length := hcolumns.length ▸ hpos
  rw [resized, allocated, if_neg (h.rowCnt_ne.mpr hrows), mapM_none (List.getElem_mem hfirst)]
  have hnone := @repack_none _ (cleared got) _ width _ _ (hcolumns.filled 0 hfirst) (h.width hrows)
    (by rwa [length_columnOf])
  rw [length_columnOf, ← h.rowCnt] at hnone
  rw [widened, hcolumns.len 0 hfirst, hnone]
  rfl

theorem resized_size {b' : Buffers} (h : b.Shows numOfCols total rows) (hcols : row.length = numOfCols)
    (hrun : resized row b width (some got) = .ok b') :
    b'.rowCnt = rows.length + 1 ∧ b'.currentMaxColSize = width ∧ b'.sqlResult.length = numOfCols ∧
      ∀ c ∈ b'.sqlResult, c.value.length = got := by
  have hcleared : (cleared got).length = got := List.length_replicate
  rw [resized] at hrun
  cases hallocated : allocated got width row b with
  | none =>
    rw [hallocated] at hrun
    cases hrun
  | some cols =>
    rw [hallocated] at hrun
    obtain rfl := Except.ok.inj hrun
    refine ⟨congrArg (· + 1) h.rowCnt, rfl, ?_⟩
    by_cases hcnt : b.rowCnt = 0
    · rw [allocated, if_pos hcnt] at hallocated
      obtain rfl := Option.some.inj hallocated
      refine ⟨(List.length_map _).trans hcols, fun c hc => ?_⟩
      obtain ⟨_, -, rfl⟩ := List.mem_map.mp hc
      exact hcleared
    · rw [allocated, if_neg hcnt] at hallocated
      obtain ⟨hlen, hsize⟩ := @mapM_forall _ SqlResult _ _ (fun c => c.value.length = got) (fun c c' hc => by
        obtain ⟨value, hvalue, rfl⟩ := Option.map_eq_some_iff.mp hc
        exact (length_repack hvalue).trans hcleared) _ hallocated
      exact ⟨hlen.trans (h.columns (h.rowCnt_ne.mp hcnt)).length, hsize⟩

theorem putRow_spec (h : Ready b numOfCols total rows row) (hcols : row.length = numOfCols) (hnul : ∀ t ∈ row, nul ∉ t)
    (hroom : (rows.length + 1) * b.currentMaxColSize ≤ total) :
    ∃ b', putRow row b = .ok b' ∧ b'.Shows numOfCols total (rows ++ [row]) ∧
      b'.currentMaxColSize = b.currentMaxColSize := by
  have hlen : (b.sqlResult.zip row).length = numOfCols := by
    rw [List.length_zip, h.columns.length, hcols, Nat.min_self]
  have hwidth : 0 < b.currentMaxColSize := (colSize_pos row).trans_le h.width
  obtain ⟨cols, hput, hcount, hspec⟩ := @mapM_some _ SqlResult (putValue b.currentMaxColSize b.rowCnt)
    (b.sqlResult.zip row) (fun j c => c.len = b.currentMaxColSize ∧
      Filled b.currentMaxColSize total c.value (columnOf (rows ++ [row]) j)) fun j hj => by
    have hj' : j < b.sqlResult.length := by rw [h.columns.length, ← hlen]; exact hj
    have hjrow : j < row.length := by rw [hcols, ← hlen]; exact hj
    have hfilled := h.columns.filled j hj'
    have hmem : row[j] ∈ row := List.getElem_mem hjrow
    have hshort : row[j].length < b.currentMaxColSize := (lt_colSize hmem).trans_le h.width
    rw [Nat.add_mul, Nat.one_mul] at hroom
    obtain ⟨value, hcpy⟩ := @strncpy_eq b.sqlResult[j].value (rows.length * b.currentMaxColSize) b.currentMaxColSize
      (by rw [hfilled.length]; exact hroom) row[j]
    refine ⟨{ b.sqlResult[j] with value }, ?_, h.columns.len j hj', ?_⟩
    · rw [List.getElem_zip, putValue, h.rowCnt, Nat.add_sub_cancel, Nat.mul_comm, hcpy]
      rfl
    · rw [columnOf, List.map_append, List.map_singleton, List.getD_eq_getElem?_getD,
        List.getElem?_eq_getElem hjrow, Option.getD_some]
      exact hfilled.push (hnul _ hmem) hshort le_rfl (by rw [length_columnOf]; exact hcpy)
  refine ⟨{ b with sqlResult := cols }, by rw [putRow, hput], ?_, rfl⟩
  refine ⟨?_, fun _ => hwidth, fun _ => ⟨hcount.trans hlen, fun j hj => (hspec j hj).1, fun j hj => (hspec j hj).2⟩⟩
  rw [List.length_append]
  exact h.rowCnt

/-- The row does not lie in its blocks. -/
theorem putRow_outside (hcols : row.length = numOfCols) (hpos : 0 < numOfCols) (hcnt : b.rowCnt = rows.length + 1)
    (hlen : b.sqlResult.length = numOfCols) (hsize : ∀ c ∈ b.sqlResult, c.value.length = total)
    (hroom : total < (rows.length + 1) * b.currentMaxColSize) : putRow row b = .error .outside := by
  have hfirst : 0 < b.sqlResult.length := hlen ▸ hpos
  have hzip : 0 < (b.sqlResult.zip row).length := by
    rw [List.length_zip, hlen, hcols, Nat.min_self]
    exact hpos
  rw [putRow, mapM_none (List.getElem_mem hzip)]
  rw [List.getElem_zip, putValue, strncpy, store, if_neg, Option.map_none]
  rw [List.length_append, List.length_take, List.length_replicate, hsize _ (List.getElem_mem hfirst), hcnt,
    Nat.add_sub_cancel, Nat.mul_comm]
  rw [Nat.add_mul] at hroom
  omega

end Rows

/-! ## Sizes -/

/-- The bytes for a column when the product is kept in 32 bits; from 2^31 on it is negative as an `int`. -/
def product (numOfCols maxColSize maxRows : Nat) : Nat := numOfCols * maxColSize * maxRows % 4294967296

theorem mallocColumn_eq (numOfCols maxColSize maxRows : Nat) :
    mallocColumn numOfCols maxColSize maxRows =
      if product numOfCols maxColSize maxRows < intBound
      then some (product numOfCols maxColSize maxRows) else none := by
  have hproduct : int32 (int32 ((numOfCols : Int) * maxColSize) * maxRows) =
      int32 (product numOfCols maxColSize maxRows : Nat) := by
    have hmul : int32 (int32 ((numOfCols : Int) * maxColSize) * maxRows) =
        int32 ((numOfCols : Int) * maxColSize * maxRows) := by
      simp [int32, Int.bmod_mul_bmod]
    rw [hmul]
    refine int32_congr (numOfCols * maxColSize * maxRows / 4294967296 : Nat) ?_
    rw [← Int.natCast_mul, ← Int.natCast_mul, product]
    omega
  have hlt : product numOfCols maxColSize maxRows < 4294967296 := Nat.mod_lt _ (by decide)
  simp only [mallocColumn, hproduct]
  generalize product numOfCols maxColSize maxRows = r at hlt ⊢
  have hbound : intBound = 2147483648 := rfl
  by_cases hr : r < intBound
  · rw [int32_natCast hr, if_neg (by omega), if_pos hr, Int.toNat_natCast]
  · have hneg : int32 r = (r : Int) - 4294967296 := by
      rw [int32_congr (y := (r : Int) - 4294967296) 1 (by omega)]
      exact int32_eq_self (by omega) (by omega)
    rw [hneg, if_pos (by omega), if_neg hr]

/-- The columns are allocated when the row arrives. -/
def Allocates (i len : Nat) (row : List Text) : Prop := i = 0 ∨ colSize row > len

instance (i len : Nat) (row : List Text) : Decidable (Allocates i len row) :=
  inferInstanceAs (Decidable (i = 0 ∨ colSize row > len))

/-- Each product is negative, and the rows end there, or it is enough. -/
def AllLarge (numOfCols maxRows : Nat) : Nat → Nat → List (List Text) → Prop
  | _, _, [] => True
  | i, len, row :: rows =>
    let maxColSize := newLen i len row
    let totalLen := product numOfCols maxColSize maxRows
    if Allocates i len row then
      intBound ≤ totalLen ∨ maxColSize * maxRows ≤ totalLen ∧ AllLarge numOfCols maxRows (i + 1) maxColSize rows
    else AllLarge numOfCols maxRows (i + 1) len rows

/-- A product is negative, and until then the rows lie in the blocks. -/
def RunsOut (numOfCols maxRows : Nat) : Nat → Nat → Nat → List (List Text) → Prop
  | _, _, _, [] => False
  | i, len, total, row :: rows =>
    let maxColSize := newLen i len row
    let totalLen := product numOfCols maxColSize maxRows
    if Allocates i len row then
      intBound ≤ totalLen ∨ (i = 0 ∨ i * len < total) ∧ (i + 1) * maxColSize ≤ totalLen ∧
        RunsOut numOfCols maxRows (i + 1) maxColSize totalLen rows
    else (i + 1) * len ≤ total ∧ RunsOut numOfCols maxRows (i + 1) len total rows

section Outcomes

variable {b : Buffers} {numOfCols maxRows total : Nat} {rows : List (List Text)} {row : List Text}

theorem newLen_kept (h : ¬ Allocates rows.length b.currentMaxColSize row) :
    newLen rows.length b.currentMaxColSize row = b.currentMaxColSize := by
  rw [newLen, if_neg fun hfirst => h (.inl hfirst), if_neg fun hwide => h (.inr hwide)]

theorem wanted_eq (h : b.Shows numOfCols total rows) :
    wanted row b = if Allocates rows.length b.currentMaxColSize row
      then some (newLen rows.length b.currentMaxColSize row) else none := by
  unfold wanted newLen Allocates
  rw [h.rowCnt]
  split
  · rename_i hcnt
    rw [if_pos (.inl hcnt)]
  · rename_i hcnt
    split
    · rename_i hwide
      rw [if_pos (.inr hwide)]
    · rename_i hwide
      rw [if_neg fun hor => hor.elim hcnt hwide]

theorem fillRow_kept (h : b.Shows numOfCols total rows) (hcols : row.length = numOfCols) (hnul : ∀ t ∈ row, nul ∉ t)
    (hasked : ¬ Allocates rows.length b.currentMaxColSize row)
    (hroom : (rows.length + 1) * b.currentMaxColSize ≤ total) :
    ∃ b', fillRow maxRows b row = .ok b' ∧ b'.Shows numOfCols total (rows ++ [row]) ∧
      b'.currentMaxColSize = b.currentMaxColSize := by
  have hrows : rows ≠ [] := fun hnil => hasked (.inl (by rw [hnil]; rfl))
  have hready : Ready { b with rowCnt := b.rowCnt + 1 } numOfCols total rows row :=
    ⟨congrArg (· + 1) h.rowCnt, Nat.le_of_not_gt fun hwide => hasked (.inr hwide), h.columns hrows⟩
  obtain ⟨b', hput, hb'⟩ := putRow_spec hready hcols hnul hroom
  refine ⟨b', ?_, hb'⟩
  rw [fillRow, enlarge_kept ((wanted_eq h).trans (if_neg hasked))]
  exact hput

theorem fillRow_kept_outside (h : b.Shows numOfCols total rows) (hcols : row.length = numOfCols) (hpos : 0 < numOfCols)
    (hasked : ¬ Allocates rows.length b.currentMaxColSize row)
    (hroom : ¬ (rows.length + 1) * b.currentMaxColSize ≤ total) : fillRow maxRows b row = .error .outside := by
  have hcolumns := h.columns fun hnil => hasked (.inl (by rw [hnil]; rfl))
  rw [fillRow, enlarge_kept ((wanted_eq h).trans (if_neg hasked))]
  refine @putRow_outside { b with rowCnt := b.rowCnt + 1 } numOfCols total rows row hcols hpos
    (congrArg (· + 1) h.rowCnt) hcolumns.length (fun c hc => ?_) (Nat.lt_of_not_le hroom)
  obtain ⟨j, hj, rfl⟩ := List.getElem_of_mem hc
  exact (hcolumns.filled j hj).length

theorem fillRow_noMemory (h : b.Shows numOfCols total rows) (hcols : row.length = numOfCols)
    (hasked : Allocates rows.length b.currentMaxColSize row)
    (hmalloc : intBound ≤ product numOfCols (newLen rows.length b.currentMaxColSize row) maxRows) :
    fillRow maxRows b row = .error .noMemory := by
  rw [fillRow, enlarge_some ((wanted_eq h).trans (if_pos hasked)), hcols, mallocColumn_eq,
    if_neg (Nat.not_lt.mpr hmalloc)]
  rfl

theorem fillRow_grown (h : b.Shows numOfCols total rows) (hcols : row.length = numOfCols) (hnul : ∀ t ∈ row, nul ∉ t)
    (hasked : Allocates rows.length b.currentMaxColSize row)
    (hmalloc : product numOfCols (newLen rows.length b.currentMaxColSize row) maxRows < intBound)
    (hold : rows.length = 0 ∨ rows.length * b.currentMaxColSize < total)
    (hroom : (rows.length + 1) * newLen rows.length b.currentMaxColSize row ≤
      product numOfCols (newLen rows.length b.currentMaxColSize row) maxRows) :
    ∃ b', fillRow maxRows b row = .ok b' ∧
      b'.Shows numOfCols (product numOfCols (newLen rows.length b.currentMaxColSize row) maxRows) (rows ++ [row]) ∧
      b'.currentMaxColSize = newLen rows.length b.currentMaxColSize row := by
  have hwanted := (wanted_eq h).trans (if_pos hasked)
  obtain ⟨b', hresized, hready, hwidth⟩ := resized_spec h hcols hwanted
    (fun hrows => hold.resolve_left fun hnil => hrows (List.length_eq_zero_iff.mp hnil)) hroom
  obtain ⟨b'', hput, hshows, hwidth'⟩ := putRow_spec hready hcols hnul (by rwa [hwidth])
  refine ⟨b'', ?_, hshows, hwidth'.trans hwidth⟩
  rw [fillRow, enlarge_some hwanted, hcols, mallocColumn_eq, if_pos hmalloc, hresized]
  exact hput

theorem fillRow_grown_outside (h : b.Shows numOfCols total rows) (hcols : row.length = numOfCols) (hpos : 0 < numOfCols)
    (hasked : Allocates rows.length b.currentMaxColSize row)
    (hmalloc : product numOfCols (newLen rows.length b.currentMaxColSize row) maxRows < intBound)
    (hnot : ¬ ((rows.length = 0 ∨ rows.length * b.currentMaxColSize < total) ∧
      (rows.length + 1) * newLen rows.length b.currentMaxColSize row ≤
        product numOfCols (newLen rows.length b.currentMaxColSize row) maxRows)) :
    fillRow maxRows b row = .error .outside := by
  have hwanted := (wanted_eq h).trans (if_pos hasked)
  rw [fillRow, enlarge_some hwanted, hcols, mallocColumn_eq, if_pos hmalloc]
  by_cases hold : rows.length = 0 ∨ rows.length * b.currentMaxColSize < total
  · cases hresized : resized row b (newLen rows.length b.currentMaxColSize row)
        (some (product numOfCols (newLen rows.length b.currentMaxColSize row) maxRows)) with
    | error e =>
      rw [resized] at hresized
      split at hresized
      · obtain rfl := Except.error.inj hresized
        rfl
      · cases hresized
    | ok b' =>
      obtain ⟨hcnt, hwidth, hlen, hsize⟩ := resized_size h hcols hresized
      refine putRow_outside hcols hpos hcnt hlen hsize ?_
      rw [hwidth]
      exact Nat.lt_of_not_le fun hroom => hnot ⟨hold, hroom⟩
  · have hrows : rows ≠ [] := fun hnil => hold (.inl (by rw [hnil]; rfl))
    rw [resized_full h hpos hrows (Nat.le_of_not_lt fun hlt => hold (.inr hlt))]
    rfl

end Outcomes

/-! ## The rows of the page loop -/

section Page

open EStateM

variable {G : Type} {s : Server G} {n : Nat} {st : Stmt} {numOfCols maxRows : Nat} {row : List Text}

/-- The room for a row behind `p.out.rowCnt - 1` others. -/
theorem makeRoom_eq {p : Page} {i : Nat} (hcnt : p.out.rowCnt = i + 1) :
    makeRoom numOfCols maxRows row p s =
      if Allocates i p.out.len row then
        match mallocColumn numOfCols (newLen i p.out.len row) maxRows with
        | none => .ok none s
        | some totalLen =>
          if i ≠ 0 ∧ (i * p.out.len ≥ p.totalLen ∨ i * newLen i p.out.len row + p.out.len > totalLen) then
            .error .overrun s
          else .ok (some ⟨{ p.out with len := newLen i p.out.len row }, totalLen⟩) s
      else .ok (some p) s := by
  by_cases hasked : Allocates i p.out.len row
  · rw [if_pos hasked]
    by_cases hfirst : i = 0
    · subst hfirst
      simp only [makeRoom, newLen, hcnt, Nat.zero_add, if_true, ne_eq, not_true, false_and, if_false]
      cases mallocColumn numOfCols (colSize row) maxRows <;> rfl
    · have hne : ¬ i + 1 = 1 := by omega
      have hgrow : colSize row > p.out.len := hasked.resolve_left hfirst
      simp only [makeRoom, newLen, hcnt, hne, hfirst, hgrow, Nat.add_sub_cancel, if_true, if_false, ne_eq,
        not_false_eq_true, true_and]
      cases mallocColumn numOfCols (colSize row + MINIMUM_COL_SIZE) maxRows with
      | none => rfl
      | some totalLen =>
        dsimp only
        by_cases hover : i * p.out.len ≥ p.totalLen ∨
            i * (colSize row + MINIMUM_COL_SIZE) + p.out.len > totalLen
        · rw [if_pos hover, if_pos hover]
          rfl
        · rw [if_neg hover, if_neg hover]
          rfl
  · obtain ⟨hfirst, hgrow⟩ := not_or.mp hasked
    have hne : ¬ i + 1 = 1 := by omega
    simp only [makeRoom, hcnt, hne, hgrow, hasked, if_false]
    rfl

/-- The blocks hold the rows of the page. -/
structure Buffers.OnPage (b : Buffers) (numOfCols : Nat) (p : Page) : Prop where
  rowCnt : p.out.rowCnt = p.out.rows.length
  len : p.out.len = b.currentMaxColSize
  rows : b.Shows numOfCols p.totalLen p.out.rows

/-- The page with the row counted. -/
def Page.counted (p : Page) (numOfCols : Nat) (continueInx : Int) : Page :=
  ⟨{ p.out with rowCnt := p.out.rowCnt + 1, attriCnt := numOfCols, continueInx := continueInx }, p.totalLen⟩

section Stored

variable {p q : Page} (hn : n < MAX_NUM_OF_CONCURRENT_STMTS) (hst : s.stmtPtr n = .stmt st)

include hn hst

theorem storeRow_error
    (h : makeRoom st.numOfCols maxRows st.resultValue (p.counted st.numOfCols (n + 1)) s = .error .overrun s) :
    storeRow (n : Int) maxRows p s = .error .overrun s := by
  rw [storeRow, bind_run (stmtAt_run hn hst)]
  exact bind_error.mpr (.inl h)

theorem storeRow_noMemory
    (h : makeRoom st.numOfCols maxRows st.resultValue (p.counted st.numOfCols (n + 1)) s = .ok none s) :
    storeRow (n : Int) maxRows p s = .ok (false, p.counted st.numOfCols (n + 1)) s := by
  rw [storeRow, bind_run (stmtAt_run hn hst)]
  exact bind_run h

theorem storeRow_some
    (h : makeRoom st.numOfCols maxRows st.resultValue (p.counted st.numOfCols (n + 1)) s = .ok (some q) s) :
    storeRow (n : Int) maxRows p s =
      if q.out.rowCnt * q.out.len > q.totalLen then .error .overrun s
      else .ok (true, ⟨{ q.out with rows := q.out.rows ++ [st.resultValue] }, q.totalLen⟩) s := by
  rw [storeRow, bind_run (stmtAt_run hn hst)]
  refine (bind_run h).trans ?_
  dsimp only
  split <;> rfl

end Stored

/-- The room for a row on a page that the blocks hold. -/
theorem makeRoom_counted {b : Buffers} {p : Page} {row : List Text} {k : Int} (h : b.OnPage numOfCols p) :
    makeRoom numOfCols maxRows row (p.counted numOfCols k) s =
      if Allocates p.out.rows.length b.currentMaxColSize row then
        match mallocColumn numOfCols (newLen p.out.rows.length b.currentMaxColSize row) maxRows with
        | none => .ok none s
        | some totalLen =>
          if p.out.rows.length ≠ 0 ∧ (p.out.rows.length * b.currentMaxColSize ≥ p.totalLen ∨
              p.out.rows.length * newLen p.out.rows.length b.currentMaxColSize row +
                b.currentMaxColSize > totalLen) then
            .error .overrun s
          else .ok (some ⟨{ (p.counted numOfCols k).out with
            len := newLen p.out.rows.length b.currentMaxColSize row }, totalLen⟩) s
      else .ok (some (p.counted numOfCols k)) s := by
  have hcounted : (p.counted numOfCols k).out.rowCnt = p.out.rows.length + 1 := congrArg (· + 1) h.rowCnt
  have hlen : (p.counted numOfCols k).out.len = b.currentMaxColSize := h.len
  have htotal : (p.counted numOfCols k).totalLen = p.totalLen := rfl
  rw [makeRoom_eq hcounted, hlen, htotal]

theorem le_newLen {i len : Nat} {row : List Text} (h : i ≠ 0) : len ≤ newLen i len row := by
  rw [newLen, if_neg h]
  split <;> omega

/-- A row is stored on the page exactly as it is filled into the blocks: with them, without
memory, or past an end. -/
theorem storeRow_fillRow {b : Buffers} {p : Page} (hn : n < MAX_NUM_OF_CONCURRENT_STMTS)
    (hst : s.stmtPtr n = .stmt st) (hpage : b.OnPage st.numOfCols p) (hpos : 0 < st.numOfCols)
    (hcols : st.resultValue.length = st.numOfCols) (hnul : ∀ t ∈ st.resultValue, nul ∉ t) :
    match fillRow maxRows b st.resultValue with
    | .ok b' => ∃ p', storeRow (n : Int) maxRows p s = .ok (true, p') s ∧
        p'.out.rows = p.out.rows ++ [st.resultValue] ∧ b'.OnPage st.numOfCols p'
    | .error .noMemory => ∃ p', storeRow (n : Int) maxRows p s = .ok (false, p') s
    | .error .outside => storeRow (n : Int) maxRows p s = .error .overrun s := by
  have hroom := @makeRoom_counted _ s _ maxRows b p st.resultValue (n + 1) hpage
  obtain ⟨hcnt, hlen, hrows⟩ := hpage
  have hcounted : (p.counted st.numOfCols (n + 1)).out.rowCnt = p.out.rows.length + 1 := congrArg (· + 1) hcnt
  have hlength : (p.out.rows ++ [st.resultValue]).length = p.out.rows.length + 1 := List.length_append
  by_cases hasked : Allocates p.out.rows.length b.currentMaxColSize st.resultValue
  · rw [if_pos hasked, mallocColumn_eq] at hroom
    by_cases hmalloc : product st.numOfCols
        (newLen p.out.rows.length b.currentMaxColSize st.resultValue) maxRows < intBound
    · rw [if_pos hmalloc] at hroom
      dsimp only at hroom
      split at hroom
      · rename_i hover
        rw [fillRow_grown_outside hrows hcols hpos hasked hmalloc fun ⟨hold, hfits⟩ => ?_]
        · exact storeRow_error hn hst hroom
        · have hwide := @le_newLen _ b.currentMaxColSize st.resultValue hover.1
          rw [Nat.succ_mul] at hfits
          have := hold.resolve_left hover.1
          omega
      · rename_i hover
        have hstored := storeRow_some hn hst hroom
        dsimp only at hstored
        rw [hcounted] at hstored
        by_cases hfits : (p.out.rows.length + 1) * newLen p.out.rows.length b.currentMaxColSize st.resultValue ≤
            product st.numOfCols (newLen p.out.rows.length b.currentMaxColSize st.resultValue) maxRows
        · have hold : p.out.rows.length = 0 ∨ p.out.rows.length * b.currentMaxColSize < p.totalLen := by omega
          obtain ⟨b', hfill, hshows, hwidth⟩ := fillRow_grown hrows hcols hnul hasked hmalloc hold hfits
          rw [if_neg (Nat.not_lt.mpr hfits)] at hstored
          rw [hfill]
          exact ⟨_, hstored, rfl, hlength.symm, hwidth.symm, hshows⟩
        · rw [fillRow_grown_outside hrows hcols hpos hasked hmalloc fun h => hfits h.2]
          rwa [if_pos (Nat.lt_of_not_le hfits)] at hstored
    · rw [fillRow_noMemory hrows hcols hasked (Nat.le_of_not_lt hmalloc)]
      rw [if_neg hmalloc] at hroom
      exact ⟨_, storeRow_noMemory hn hst hroom⟩
  · rw [if_neg hasked] at hroom
    have hstored := storeRow_some hn hst hroom
    have hcurrent : (p.counted st.numOfCols (n + 1)).out.len = b.currentMaxColSize := hlen
    rw [hcounted, hcurrent] at hstored
    change _ = (if _ > p.totalLen then _ else _) at hstored
    by_cases hfits : (p.out.rows.length + 1) * b.currentMaxColSize ≤ p.totalLen
    · obtain ⟨b', hfill, hshows, hwidth⟩ :=
        @fillRow_kept b _ maxRows _ _ _ hrows hcols hnul hasked hfits
      rw [if_neg (Nat.not_lt.mpr hfits)] at hstored
      rw [hfill]
      exact ⟨_, hstored, rfl, hcounted.trans hlength.symm, hlen.trans hwidth.symm, hshows⟩
    · rw [fillRow_kept_outside hrows hcols hpos hasked hfits]
      rwa [if_pos (Nat.lt_of_not_le hfits)] at hstored

end Page

end Statements
