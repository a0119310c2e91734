-- SUMMARY: Concatenating two query results column by column.
import Irods.Api.RodsDef
import Irods.Base.CInt
import Mathlib.Algebra.Order.Ring.Int
import Mathlib.Data.List.Basic

/-!
# Concatenated query results

`catGenQueryOut` of `rcMisc.c`. A result has an array of columns, and a column of positive
width points to a block with its rows one after another. Blocks are byte lists; a read or
write outside one gives `none`.
-/

namespace CatGenQuery

def SYS_STRUCT_ELEMENT_MISMATCH : Int := -119000
def MAX_SQL_ATTR : Nat := 50

abbrev Block := List UInt8

structure SqlResult where
  attriInx : Int
  len : Int
  value : Option Block
  deriving DecidableEq

structure GenQueryOut where
  rowCnt : Int
  attriCnt : Int
  continueInx : Int
  totalRowCount : Int
  sqlResult : List SqlResult
  deriving DecidableEq

/-- What `malloc` gives for column `i`: NULL, or a block with some bytes in it. -/
structure Memory where
  malloc : Nat → Option (Nat → UInt8)
  errno : Nat

/-- An `int` where a `size_t` is expected. -/
def sizeT (x : Int) : Nat := (x % 2 ^ 64).toNat

/-- `memcpy (&dst[ofs], src, n)`. -/
def memcpy (dst : Block) (ofs : Nat) (src : Option Block) (n : Nat) : Option Block :=
  match src with
  | none => none
  | some src =>
    if ofs + n ≤ dst.length ∧ n ≤ src.length then
      some (dst.take ofs ++ src.take n ++ dst.drop (ofs + n))
    else none

/-- The value of a rebuilt column. -/
def catValue (block : Block) (targRowCnt rowCnt : Int) (targ src : SqlResult) : Option Block := do
  let old := int32 (src.len * targRowCnt)
  let block ← if targ.value.isSome then memcpy block 0 targ.value (sizeT old) else some block
  memcpy block (sizeT old) src.value (sizeT (int32 (src.len * rowCnt)))

/-- The loop over the columns from `i` on: the status and the columns of the target. -/
def catColumns (mem : Memory) (targRowCnt rowCnt totalRowCnt : Int) (src : List SqlResult) :
    Nat → Nat → List SqlResult → Option (Int × List SqlResult)
  | 0, _, targ => some (0, targ)
  | n + 1, i, targ =>
    match targ[i]?, src[i]? with
    | some t, some s =>
      if s.len ≤ 0 then catColumns mem targRowCnt rowCnt totalRowCnt src n (i + 1) targ
      else match mem.malloc i with
        | none => some (SYS_MALLOC_ERR - mem.errno, targ)
        | some bytes => do
          let block := (List.range (sizeT (int32 (totalRowCnt * s.len)))).map bytes
          let value ← catValue block targRowCnt rowCnt t s
          catColumns mem targRowCnt rowCnt totalRowCnt src n (i + 1)
            (targ.set i { t with value := some value })
    | _, _ => none

/-- The checks of the columns from `i` on. -/
def columnsMatch (targ src : List SqlResult) : Nat → Nat → Option Bool
  | 0, _ => some true
  | n + 1, i =>
    match targ[i]?, src[i]? with
    | some t, some s =>
      if t.attriInx ≠ s.attriInx then some false
      else if t.len ≠ s.len then some false
      else columnsMatch targ src n (i + 1)
    | _, _ => none

/-- The status and the target afterwards. -/
def catGenQueryOut (mem : Memory) (targ src : Option GenQueryOut) (maxRowCnt : Int) :
    Option (Int × Option GenQueryOut) :=
  match targ, src with
  | some targ', some src =>
    if src.rowCnt = 0 then some (0, targ)
    else
      let totalRowCnt := int32 (targ'.rowCnt + src.rowCnt)
      if totalRowCnt > maxRowCnt then some (SYS_STRUCT_ELEMENT_MISMATCH, targ)
      else if targ'.attriCnt ≠ src.attriCnt then some (SYS_STRUCT_ELEMENT_MISMATCH, targ)
      else
        match columnsMatch targ'.sqlResult src.sqlResult src.attriCnt.toNat 0 with
        | none => none
        | some false => some (SYS_STRUCT_ELEMENT_MISMATCH, targ)
        | some true =>
          match catColumns mem targ'.rowCnt src.rowCnt totalRowCnt src.sqlResult
            src.attriCnt.toNat 0 targ'.sqlResult with
          | none => none
          | some (status, columns) =>
            if status < 0 then some (status, some { targ' with sqlResult := columns })
            else some (0, some { targ' with sqlResult := columns, rowCnt := totalRowCnt })
  | _, _ => some (USER__NULL_INPUT_ERR, targ)

/-! ## Rows -/

/-- The first `n` rows of width `w` in a block. -/
def rowsOf (v : Block) (w n : Nat) : List Block :=
  (List.range n).map fun j => (v.drop (j * w)).take w

/-- The first `n` rows of a column. -/
def SqlResult.rows (c : SqlResult) (n : Int) : List Block :=
  rowsOf (c.value.getD []) c.len.toNat n.toNat

/-- The block of a column of positive width holds `n` rows. -/
def SqlResult.Holds (n : Int) (c : SqlResult) : Prop :=
  0 < c.len → match c.value with
    | none => n = 0
    | some v => (n * c.len).toNat ≤ v.length

/-- A result whose `attriCnt` columns hold its rows. -/
structure GenQueryOut.Valid (g : GenQueryOut) : Prop where
  rowCnt_nonneg : 0 ≤ g.rowCnt
  columns : g.sqlResult.length = MAX_SQL_ATTR
  attriCnt_le : g.attriCnt ≤ MAX_SQL_ATTR
  holds : ∀ i c, i < g.attriCnt.toNat → g.sqlResult[i]? = some c → c.Holds g.rowCnt

/-- The summed row count and its products with the widths are within `int`. -/
def FitsInt (targ src : GenQueryOut) : Prop :=
  targ.rowCnt + src.rowCnt < intBound ∧
    ∀ c ∈ src.sqlResult, (targ.rowCnt + src.rowCnt) * c.len < intBound

/-- A column that has the rows of both. -/
def Joined (m n : Int) (targ src targ' : SqlResult) : Prop :=
  targ'.attriInx = targ.attriInx ∧ targ'.len = targ.len ∧
    (0 < targ.len → targ'.rows (m + n) = targ.rows m ++ src.rows n)

theorem rowsOf_take {v : Block} {w n j : Nat} (hj : j < n) :
    ((v.take (n * w)).drop (j * w)).take w = (v.drop (j * w)).take w := by
  rw [List.drop_take, List.take_take, min_eq_left]
  rw [← Nat.sub_mul]
  exact Nat.le_mul_of_pos_left w (by omega)

theorem rowsOf_append {a b : Block} {w m n : Nat} (ha : m * w ≤ a.length) :
    rowsOf (a.take (m * w) ++ b.take (n * w)) w (m + n) = rowsOf a w m ++ rowsOf b w n := by
  have hlen : (a.take (m * w)).length = m * w := by simp [ha]
  unfold rowsOf
  rw [List.range_add, List.map_append, List.map_map]
  congr 1
  · refine List.map_congr_left fun j hj => ?_
    have hj : j < m := List.mem_range.mp hj
    have hle : (j + 1) * w ≤ m * w := Nat.mul_le_mul_right w hj
    rw [Nat.succ_mul] at hle
    rw [List.drop_append_of_le_length (by omega), List.take_append_of_le_length
      (by rw [List.length_drop]; omega), rowsOf_take hj]
  · refine List.map_congr_left fun j hj => ?_
    have hj : j < n := List.mem_range.mp hj
    have hdrop : (m + j) * w = (a.take (m * w)).length + j * w := by rw [hlen, Nat.add_mul]
    rw [Function.comp_apply, hdrop, List.drop_append, List.drop_eq_nil_of_le (by omega),
      List.nil_append, Nat.add_sub_cancel_left, rowsOf_take hj]

/-! ## One column -/

theorem memcpy_eq {dst src : Block} (ofs : Nat) {n : Nat} (hdst : ofs + n ≤ dst.length)
    (hsrc : n ≤ src.length) :
    memcpy dst ofs (some src) n = some (dst.take ofs ++ src.take n ++ dst.drop (ofs + n)) := by
  simp [memcpy, hdst, hsrc]

theorem sizeT_mul {len n : Int} (hlen : 0 < len) (hn : 0 ≤ n) (hfit : n * len < intBound) :
    sizeT (int32 (len * n)) = n.toNat * len.toNat := by
  have hnn : 0 ≤ n * len := Int.mul_nonneg hn hlen.le
  rw [Int.mul_comm, int32_eq_self (by unfold intBound; omega) hfit, sizeT,
    Int.emod_eq_of_lt hnn (by unfold intBound at hfit; omega), Int.toNat_mul hn hlen.le]

theorem SqlResult.Holds.length_le {c : SqlResult} {n : Int} (h : c.Holds n) (hn : 0 ≤ n)
    (hlen : 0 < c.len) : n.toNat * c.len.toNat ≤ (c.value.getD []).length := by
  have h := h hlen
  rw [← Int.toNat_mul hn hlen.le]
  cases hv : c.value with
  | none => rw [hv] at h; simp [show n = 0 from h]
  | some v => rw [hv] at h; exact h

variable {block : Block} {m n : Int} {t s : SqlResult}

/-- The new block has the old rows first and then the added ones. -/
theorem catValue_eq (hm : 0 ≤ m) (hn : 0 < n)
    (hlen : 0 < s.len) (hts : t.len = s.len) (ht : t.Holds m) (hs : s.Holds n)
    (hfit : (m + n) * s.len < intBound) (hblock : block.length = (m + n).toNat * s.len.toNat) :
    catValue block m n t s = some ((t.value.getD []).take (m.toNat * s.len.toNat) ++
      (s.value.getD []).take (n.toNat * s.len.toNat)) := by
  have hmlen : 0 ≤ m * s.len := Int.mul_nonneg hm hlen.le
  have hnlen : 0 < n * s.len := Int.mul_pos hn hlen
  have hsum : (m + n) * s.len = m * s.len + n * s.len := Int.add_mul ..
  have hold := sizeT_mul hlen hm (by omega)
  have hnew := sizeT_mul hlen hn.le (by omega)
  rw [Int.toNat_add hm hn.le, Nat.add_mul] at hblock
  have htl := ht.length_le hm (hts ▸ hlen)
  have hsl := hs.length_le hn.le hlen
  rw [hts] at htl
  obtain ⟨v, hv⟩ : ∃ v, s.value = some v := by
    cases hv : s.value with
    | none => have := hs hlen; rw [hv] at this; omega
    | some v => exact ⟨v, rfl⟩
  rw [hv, Option.getD_some] at hsl
  have hdrop : block.drop (m.toNat * s.len.toNat + n.toNat * s.len.toNat) = [] :=
    List.drop_eq_nil_of_le hblock.le
  unfold catValue
  simp only [hold, hnew, hv, Option.getD_some]
  cases htv : t.value with
  | none =>
    have hm0 : m = 0 := by simpa [htv] using ht (hts ▸ hlen)
    rw [hm0, Int.toNat_zero, Nat.zero_mul, Nat.zero_add] at hdrop hblock
    have hcpy := memcpy_eq 0 (show 0 + _ ≤ block.length by omega) hsl
    simp [hm0, hcpy, hdrop]
  | some u =>
    rw [htv, Option.getD_some] at htl
    have hu : (u.take (m.toNat * s.len.toNat)).length = m.toNat * s.len.toNat := by simpa using htl
    have hcpy := memcpy_eq 0 (show 0 + _ ≤ block.length by omega) htl
    rw [List.take_zero, List.nil_append, Nat.zero_add] at hcpy
    simp only [Option.isSome_some, if_true, hcpy, Option.bind_eq_bind, Option.bind_some, Option.getD_some]
    rw [memcpy_eq _ (by rw [List.length_append, List.length_drop]; omega) hsl, List.take_append_of_le_length hu.ge,
      List.take_of_length_le hu.le, List.drop_append, List.drop_drop, hu, Nat.add_sub_cancel_left, hdrop,
      List.drop_eq_nil_of_le (by omega)]
    simp

theorem catValue_joined (hm : 0 ≤ m) (hn : 0 < n)
    (hlen : 0 < s.len) (hts : t.len = s.len) (ht : t.Holds m) (hs : s.Holds n)
    (hfit : (m + n) * s.len < intBound) (hblock : block.length = (m + n).toNat * s.len.toNat) :
    ∃ v, catValue block m n t s = some v ∧ Joined m n t s { t with value := some v } := by
  refine ⟨_, catValue_eq hm hn hlen hts ht hs hfit hblock, rfl, rfl, fun hpos => ?_⟩
  have htl := ht.length_le hm hpos
  simp only [SqlResult.rows, Option.getD_some, hts] at htl ⊢
  rw [Int.toNat_add hm hn.le, rowsOf_append htl]

/-! ## All columns -/

theorem columnsMatch_spec {targ src : List SqlResult} (n : Nat) :
    ∀ i, i + n ≤ targ.length → i + n ≤ src.length → ∃ b, columnsMatch targ src n i = some b ∧
      (b = true → ∀ k t s, i ≤ k → k < i + n → targ[k]? = some t → src[k]? = some s → t.len = s.len) := by
  induction n with
  | zero => exact fun i _ _ => ⟨true, rfl, fun _ k _ _ hik hki => by omega⟩
  | succ n ih =>
    intro i ht hs
    have hti : targ[i]? = some targ[i] := List.getElem?_eq_getElem (by omega)
    have hsi : src[i]? = some src[i] := List.getElem?_eq_getElem (by omega)
    simp only [columnsMatch, hti, hsi]
    split
    · exact ⟨false, rfl, nofun⟩
    · split
      · exact ⟨false, rfl, nofun⟩
      · next hlen =>
        obtain ⟨b, hb, hall⟩ := ih (i + 1) (by omega) (by omega)
        refine ⟨b, hb, fun hbt k t s hik hki htk hsk => ?_⟩
        obtain rfl | hlt := hik.eq_or_lt
        · rw [hti] at htk; rw [hsi] at hsk
          cases htk; cases hsk
          exact not_not.mp hlen
        · exact hall hbt k t s hlt (by omega) htk hsk

/-- From column `i` on each column is joined, and no other column is touched. -/
theorem catColumns_spec {mem : Memory} {m n : Int} {src : List SqlResult} (hm : 0 ≤ m) (hn : 0 < n)
    (hfit : m + n < intBound ∧ ∀ c ∈ src, (m + n) * c.len < intBound) (cnt : Nat) :
    ∀ i targ, i + cnt ≤ targ.length → i + cnt ≤ src.length →
      (∀ k t s, i ≤ k → k < i + cnt → targ[k]? = some t → src[k]? = some s →
        t.len = s.len ∧ t.Holds m ∧ s.Holds n) →
      ∃ status targ', catColumns mem m n (int32 (m + n)) src cnt i targ = some (status, targ') ∧
        (status = SYS_MALLOC_ERR - mem.errno ∧ (∃ k, mem.malloc k = none) ∨ status = 0 ∧
          targ'.length = targ.length ∧ (∀ k, k < i → targ'[k]? = targ[k]?) ∧
          ∀ k t s t', i ≤ k → k < i + cnt → targ[k]? = some t → src[k]? = some s → targ'[k]? = some t' →
            Joined m n t s t') := by
  induction cnt with
  | zero => exact fun i targ _ _ _ => ⟨0, targ, rfl, .inr ⟨rfl, rfl, fun _ _ => rfl, fun k _ _ _ _ _ => by omega⟩⟩
  | succ cnt ih =>
    intro i targ ht hs hcols
    have hti : targ[i]? = some targ[i] := List.getElem?_eq_getElem (by omega)
    have hsi : src[i]? = some src[i] := List.getElem?_eq_getElem (by omega)
    obtain ⟨hlen, htm, hsn⟩ := hcols i _ _ le_rfl (by omega) hti hsi
    simp only [catColumns, hti, hsi]
    by_cases hpos : src[i].len ≤ 0
    · -- a column of no width stays as it is
      obtain ⟨status, targ', hrun, hres⟩ := ih (i + 1) targ (by omega) (by omega)
        fun k t s hik hki => hcols k t s (by omega) (by omega)
      refine ⟨status, targ', by rw [if_pos hpos, hrun], hres.imp id fun ⟨h0, hsame, hkeep, hall⟩ => ⟨h0,
        hsame, fun k hk => hkeep k (by omega), fun k t s t' hik hki htk hsk htk' => ?_⟩⟩
      obtain rfl | hlt := hik.eq_or_lt
      · rw [hkeep i (by omega), htk] at htk'
        rw [hti] at htk
        cases htk; cases htk'
        exact ⟨rfl, rfl, fun h => by omega⟩
      · exact hall k t s t' hlt (by omega) htk hsk htk'
    · rw [if_neg hpos]
      cases hmal : mem.malloc i with
      | none => exact ⟨_, targ, rfl, .inl ⟨rfl, i, hmal⟩⟩
      | some bytes =>
        have hfit' := hfit.2 _ (List.getElem_mem (show i < src.length by omega))
        obtain ⟨v, hv, hjoined⟩ := catValue_joined hm hn (by omega) hlen htm hsn hfit'
          (show ((List.range (sizeT (int32 (int32 (m + n) * src[i].len)))).map bytes).length = _ by
            rw [int32_eq_self (x := m + n) (by unfold intBound; omega) hfit.1, Int.mul_comm,
              sizeT_mul (by omega) (by omega) hfit', List.length_map, List.length_range])
        obtain ⟨status, targ', hrun, hres⟩ := ih (i + 1) (targ.set i { targ[i] with value := some v })
          (by rw [List.length_set]; omega) (by omega) fun k t s hik hki htk =>
            hcols k t s (by omega) (by omega) (by rwa [List.getElem?_set_ne (by omega)] at htk)
        refine ⟨status, targ', by simp only [hv, Option.bind_eq_bind, Option.bind_some, hrun],
          hres.imp id fun ⟨h0, hsame, hkeep, hall⟩ => ⟨h0, by rw [hsame, List.length_set], fun k hk => ?_,
            fun k t s t' hik hki htk hsk htk' => ?_⟩⟩
        · rw [hkeep k (by omega), List.getElem?_set_ne (by omega)]
        · obtain rfl | hlt := hik.eq_or_lt
          · rw [hkeep i (by omega), List.getElem?_set_self (by omega)] at htk'
            rw [hti] at htk; rw [hsi] at hsk
            cases htk; cases hsk; cases htk'
            exact hjoined
          · exact hall k t s t' hlt (by omega) (by rwa [List.getElem?_set_ne (by omega)]) hsk htk'

/-! ## The results joined, or the target as it was -/

/-- The rows of the source follow those of the target, or the target is as it was. -/
theorem results_joined (mem : Memory) (targ src : GenQueryOut) (maxRowCnt : Int) (ht : targ.Valid)
    (hs : src.Valid) (hfit : FitsInt targ src) :
    ∃ status targ', catGenQueryOut mem (some targ) (some src) maxRowCnt = some (status, some targ') ∧
      (status = 0 → targ'.rowCnt = targ.rowCnt + src.rowCnt ∧ targ'.attriCnt = targ.attriCnt ∧
        targ'.sqlResult.length = targ.sqlResult.length ∧ ∀ i t s t', i < targ.attriCnt.toNat →
          targ.sqlResult[i]? = some t → src.sqlResult[i]? = some s → targ'.sqlResult[i]? = some t' →
            Joined targ.rowCnt src.rowCnt t s t') ∧
      (status ≠ 0 → targ' = targ ∨
        status = SYS_MALLOC_ERR - mem.errno ∧ ∃ i, mem.malloc i = none) := by
  have hm := ht.rowCnt_nonneg
  have hnn := hs.rowCnt_nonneg
  by_cases hn : src.rowCnt = 0
  · refine ⟨0, targ, by simp [catGenQueryOut, hn], fun _ => ⟨by omega, rfl, rfl,
      fun i t s t' _ ht _ ht' => ?_⟩, fun h => absurd rfl h⟩
    rw [ht] at ht'
    cases ht'
    refine ⟨rfl, rfl, fun _ => ?_⟩
    rw [hn]
    simp [SqlResult.rows, rowsOf]
  have refused : SYS_STRUCT_ELEMENT_MISMATCH ≠ 0 := by decide
  simp only [catGenQueryOut, if_neg hn]
  split
  · exact ⟨_, targ, rfl, fun h => absurd h refused, fun _ => .inl rfl⟩
  · split
    · exact ⟨_, targ, rfl, fun h => absurd h refused, fun _ => .inl rfl⟩
    · next hcnt =>
      have hle : src.attriCnt.toNat ≤ MAX_SQL_ATTR := Int.toNat_le.mpr hs.attriCnt_le
      have htlen := ht.columns
      have hslen := hs.columns
      obtain ⟨b, hb, hlens⟩ := columnsMatch_spec src.attriCnt.toNat 0
        (show _ ≤ targ.sqlResult.length by omega) (show _ ≤ src.sqlResult.length by omega)
      rw [hb]
      cases b with
      | false => exact ⟨_, targ, rfl, fun h => absurd h refused, fun _ => .inl rfl⟩
      | true =>
        obtain ⟨status, columns, hrun, hres⟩ := @catColumns_spec mem _ src.rowCnt _ hm (by omega)
          hfit src.attriCnt.toNat 0 targ.sqlResult (by omega) (by omega) fun k t s _ hk htk hsk =>
            ⟨hlens rfl k t s (by omega) hk htk hsk, ht.holds k t (by omega) htk, hs.holds k s (by omega) hsk⟩
        simp only [hrun]
        obtain ⟨hst, hnone⟩ | ⟨rfl, hsame, -, hall⟩ := hres
        · have hneg : status < 0 := by rw [hst]; unfold SYS_MALLOC_ERR; omega
          exact ⟨status, { targ with sqlResult := columns }, if_pos hneg, fun h => by omega,
            fun _ => .inr ⟨hst, hnone⟩⟩
        · refine ⟨0, { targ with sqlResult := columns, rowCnt := int32 (targ.rowCnt + src.rowCnt) },
            if_neg (by decide), fun _ => ⟨int32_eq_self (by unfold intBound; omega) hfit.1, rfl, hsame,
            fun i t s t' hi => hall i t s t' (by omega) (by omega)⟩, fun h => absurd rfl h⟩

/-- A row of two columns, the second one without width. -/
def sample (rows : Int) (value : Block) : GenQueryOut where
  rowCnt := rows
  attriCnt := 2
  continueInx := 0
  totalRowCount := 0
  sqlResult := ⟨401, 3, some value⟩ :: List.replicate 49 ⟨0, 0, none⟩

theorem sample_valid {rows : Int} {value : Block} (h0 : 0 ≤ rows) (h : (rows * 3).toNat ≤ value.length) :
    (sample rows value).Valid where
  rowCnt_nonneg := h0
  columns := by simp [sample, MAX_SQL_ATTR]
  attriCnt_le := (by decide : (2 : Int) ≤ 50)
  holds
    | 0, c, _, hc => by cases hc; exact fun _ => h
    | 1, c, _, hc => by cases hc; exact fun h => absurd h (by decide)
    | i + 2, c, hi, _ => absurd hi (by simp [sample])

theorem results_joined_sample :
    ∃ status targ', catGenQueryOut ⟨fun _ => some fun _ => 7, 0⟩ (some (sample 1 [1, 2, 0]))
      (some (sample 2 [3, 4, 0, 5, 0, 0])) 10 = some (status, some targ') ∧
      (status = 0 → targ'.rowCnt = 3 ∧ targ'.attriCnt = 2 ∧ targ'.sqlResult.length = 50 ∧ ∀ i t s t', i < 2 →
        (sample 1 [1, 2, 0]).sqlResult[i]? = some t → (sample 2 [3, 4, 0, 5, 0, 0]).sqlResult[i]? = some s →
          targ'.sqlResult[i]? = some t' → Joined 1 2 t s t') ∧
      (status ≠ 0 → targ' = sample 1 [1, 2, 0] ∨ status = SYS_MALLOC_ERR - ((0 : Nat) : Int) ∧
        ∃ _ : Nat, (some fun _ => 7 : Option (Nat → UInt8)) = none) :=
  results_joined ⟨fun _ => some fun _ => 7, 0⟩ (sample 1 [1, 2, 0]) (sample 2 [3, 4, 0, 5, 0, 0]) 10
    (sample_valid (by decide) (by decide)) (sample_valid (by decide) (by decide))
    ⟨by decide, by simp [sample, intBound]⟩

end CatGenQuery
