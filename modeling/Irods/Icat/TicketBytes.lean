-- SUMMARY: The limit on the bytes written with a ticket: 64 bits against 32.
import Irods.Icat.Ticket

/-!
# Bytes written with a ticket

`cmlTicketUpdateWriteBytes` adds the sizes of the objects written to `write_byte_count`; both columns go
through decimal texts. A check for modify access reads them with `atoi`. The columns are declared as `int`,
which for some databases is not a type of 32 bits; the database is taken to keep what it is given, or to
refuse the update.
-/

namespace Ticket

open CString

/-! ## The columns -/

/-- A row of `R_TICKET_MAIN` as texts. -/
structure Columns where
  ticketId : Text
  usesLimit : Text
  usesCount : Text
  ticketExpiry : Text
  writeFileCount : Text
  writeFileLimit : Text
  writeByteCount : Text
  writeByteLimit : Text
  deriving DecidableEq

/-- The limits as a check reads them. -/
def Columns.row (c : Columns) : Row :=
  ⟨c.ticketId, atoi c.usesLimit, c.ticketExpiry, atoi c.writeFileLimit, atoi c.writeByteLimit⟩

def Columns.counts (c : Columns) : Counts := ⟨atoi c.usesCount, atoi c.writeFileCount, atoi c.writeByteCount⟩

/-- What a check returns for the columns. -/
def checkColumns (x : Check) (w : Answers) (c : Columns) (s : Session) : Int :=
  (checkObjIdByTicket x { w with row := some c.row } (s.setCounts c.ticketId c.counts)).1

/-- What is stored as the count, if anything. -/
def cmlTicketUpdateWriteBytes (dataSize writeByteLimit writeByteCount : Text) : Option Text :=
  let iDataSize := atol dataSize
  if iDataSize = 0 then none
  else if atol writeByteLimit = 0 then none
  else some (decimal (int64 (atol writeByteCount + iDataSize)))

/-- A call, and whether the database makes the update. -/
structure Written where
  dataSize : Text
  updated : Bool
  deriving DecidableEq

def Written.run (writeByteLimit writeByteCount : Text) (e : Written) : Text :=
  if e.updated then (cmlTicketUpdateWriteBytes e.dataSize writeByteLimit writeByteCount).getD writeByteCount
  else writeByteCount

def writes (writeByteLimit writeByteCount : Text) (es : List Written) : Text :=
  es.foldl (Written.run writeByteLimit) writeByteCount

/-! ## Counting -/

/-- The bytes that a call counts. -/
def Written.bytes (L : Int) (e : Written) : Int := if e.updated ∧ L ≠ 0 then atol e.dataSize else 0

def written (L : Int) (es : List Written) : Int := (es.map (Written.bytes L)).sum

variable {L : Int}

variable {e : Written} {es : List Written} {c : Int}

theorem Written.bytes_nonneg (h : 0 ≤ atol e.dataSize) : 0 ≤ e.bytes L := by
  unfold Written.bytes
  split <;> omega

theorem written_cons (L : Int) (e : Written) (es : List Written) : written L (e :: es) = e.bytes L + written L es := by
  rw [written, List.map_cons, List.sum_cons, written]

theorem written_nonneg (h : ∀ e ∈ es, 0 ≤ atol e.dataSize) : 0 ≤ written L es := by
  induction es with
  | nil => exact Int.le_refl 0
  | cons e es ih =>
    exact Int.add_nonneg (Written.bytes_nonneg (h e List.mem_cons_self))
      (ih fun e' he => h e' (List.mem_cons_of_mem e he))

theorem Written.run_spec (hL : 0 ≤ L) (hL' : L < longBound) (hc : 0 ≤ c) (hsize : 0 ≤ atol e.dataSize)
    (hsum : c + e.bytes L < longBound) : e.run (decimal L) (decimal c) = decimal (c + e.bytes L) := by
  have hnonneg := e.bytes_nonneg (L := L) hsize
  have hlimit : atol (decimal L) = L := atol_decimal_int (by omega) hL'
  have hcount : atol (decimal c) = c := atol_decimal_int (by omega) (by omega)
  unfold Written.bytes at hsum ⊢
  unfold Written.run cmlTicketUpdateWriteBytes
  rw [hlimit, hcount]
  by_cases hupdated : e.updated = true
  · rw [if_pos hupdated]
    by_cases hzero : atol e.dataSize = 0
    · rw [if_pos hzero, hzero, ite_self, Int.add_zero]
      rfl
    · by_cases hnone : L = 0
      · have hkept : ¬ (e.updated = true ∧ L ≠ 0) := fun h => h.2 hnone
        rw [if_neg hzero, if_pos hnone, if_neg hkept, Int.add_zero]
        rfl
      · have hcounted : e.updated = true ∧ L ≠ 0 := ⟨hupdated, hnone⟩
        rw [if_pos hcounted] at hsum ⊢
        rw [if_neg hzero, if_neg hnone, int64_eq_self (by omega) hsum]
        rfl
  · rw [if_neg hupdated, if_neg fun h => hupdated h.1, Int.add_zero]

/-- The count is that of all calls as long as a `long` holds it. -/
theorem writes_spec (hL : 0 ≤ L) (hL' : L < longBound) (hc : 0 ≤ c) (hsizes : ∀ e ∈ es, 0 ≤ atol e.dataSize)
    (hsum : c + written L es < longBound) : writes (decimal L) (decimal c) es = decimal (c + written L es) := by
  induction es generalizing c with
  | nil =>
    rw [written, List.map_nil, List.sum_nil, Int.add_zero]
    rfl
  | cons e es ih =>
    have hfirst := hsizes e List.mem_cons_self
    have hrest : ∀ e' ∈ es, 0 ≤ atol e'.dataSize := fun e' he => hsizes e' (List.mem_cons_of_mem e he)
    have hnonneg := written_nonneg (L := L) hrest
    have hbytes := e.bytes_nonneg (L := L) hfirst
    rw [written_cons] at hsum ⊢
    rw [writes, List.foldl_cons, Written.run_spec hL hL' hc hfirst (by omega), ← Int.add_assoc]
    exact ih (by omega) hrest (by omega)

/-! ## Comparing -/

/-- The part of a number that an `int` drops: blocks of 2^32, each with the numbers nearest to it. -/
def block (x : Int) : Int := (x + 2147483648) / 4294967296

/-- Where in its block a number is. -/
def offset (x : Int) : Int := x - 4294967296 * block x

theorem offset_range (x : Int) : -2147483648 ≤ offset x ∧ offset x < 2147483648 := by
  unfold offset block
  omega

theorem int32_eq_offset (x : Int) : int32 x = offset x := by
  have hrange := offset_range x
  have hbound : intBound = 2147483648 := rfl
  rw [int32_congr (y := offset x) (block x) (by unfold offset; omega)]
  exact int32_eq_self (by omega) (by omega)

theorem atoi_decimal_offset {x : Int} (hlo : 0 ≤ x) (hhi : x < longBound) : atoi (decimal x) = offset x := by
  rw [atoi, atol_decimal_int (by omega) hhi, int32_eq_offset]

/-- The comparison of the offsets comes out as that of the numbers. -/
def Comparable (L c : Int) : Prop :=
  L = 0 ∨
    if 0 < offset L then block c = block L ∨ (L < c ∧ offset L < offset c) ∨ (c < L ∧ offset c ≤ offset L)
    else c ≤ L

theorem comparable_iff (hL : 0 ≤ L) : ((0 < offset L ∧ offset L < offset c) ↔ (0 < L ∧ L < c)) ↔ Comparable L c := by
  have hLeq : L = offset L + 4294967296 * block L := by unfold offset; omega
  have hceq : c = offset c + 4294967296 * block c := by unfold offset; omega
  unfold Comparable
  obtain rfl | hpos := Int.le_iff_eq_or_lt.mp hL
  · exact iff_of_true (iff_of_false (fun h => absurd h.1 (by decide)) fun h => absurd h.1 (Int.lt_irrefl 0)) (.inl rfl)
  · rw [or_iff_right (by omega), and_iff_right hpos]
    by_cases hoffset : 0 < offset L
    · rw [if_pos hoffset, and_iff_right hoffset]
      constructor
      · intro hiff
        by_cases hlt : L < c
        · exact .inr (.inl ⟨hlt, hiff.mpr hlt⟩)
        · by_cases heq : c = L
          · exact .inl (heq ▸ rfl)
          · exact .inr (.inr ⟨by omega, Int.not_lt.mp fun h => hlt (hiff.mp h)⟩)
      · rintro (hblock | ⟨hlt, hoff⟩ | ⟨hlt, hoff⟩)
        · constructor <;> intro h <;> omega
        · exact iff_of_true hoff hlt
        · exact iff_of_false (by omega) (by omega)
    · rw [if_neg hoffset]
      constructor
      · intro hiff
        exact Int.not_lt.mp fun h => hoffset (hiff.mpr h).1
      · intro hle
        exact iff_of_false (fun h => hoffset h.1) (by omega)

/-! ## The check -/

variable {x : Check} {w : Answers} {row : Row} {s : Session}

/-- The status of a failed update is none of the ticket's. -/
structure PlainStatus (w : Answers) : Prop where
  writeFileCount : w.updateWriteFileCount ≠ CAT_TICKET_WRITE_BYTES_EXCEEDED
  usesCount : w.updateUsesCount ≠ CAT_TICKET_WRITE_BYTES_EXCEEDED

theorem statuses_ne : (0 : Int) ≠ CAT_TICKET_WRITE_BYTES_EXCEEDED ∧
    CAT_TICKET_USES_EXCEEDED ≠ CAT_TICKET_WRITE_BYTES_EXCEEDED ∧
    CAT_TICKET_WRITE_USES_EXCEEDED ≠ CAT_TICKET_WRITE_BYTES_EXCEEDED := by decide

variable {e : Int}

theorem orReturn_ne {r : Int × Session} {next : Session → Int × Session} (h : r.1 ≠ e) (hnext : ∀ s, (next s).1 ≠ e) :
    (orReturn r next).1 ≠ e := by
  unfold orReturn
  split
  · exact h
  · exact hnext _

theorem update_ne {status : Int} {c : Counts} (t : Text) (h : status ≠ e) (hzero : 0 ≠ e) :
    (update status t c s).1 ≠ e := by
  unfold update
  split
  · exact h
  · exact hzero

theorem countUse_ne (h : PlainStatus w) (seen : Counts) :
    (countUse x w row seen s).1 ≠ CAT_TICKET_WRITE_BYTES_EXCEEDED := by
  unfold countUse
  split
  · split
    · exact statuses_ne.2.1
    · refine orReturn_ne ?_ fun _ => statuses_ne.1
      split
      · exact update_ne _ h.usesCount statuses_ne.1
      · exact statuses_ne.1
  · exact statuses_ne.1

theorem countWrite_ne (h : PlainStatus w)
    (hnot : ¬ (0 < row.writeByteLimit ∧ row.writeByteLimit < (s.counts row.ticketId).writeByteCount)) :
    (countWrite x w row s).1 ≠ CAT_TICKET_WRITE_BYTES_EXCEEDED := by
  simp only [countWrite]
  rw [if_neg hnot]
  split
  · split
    · exact statuses_ne.2.2
    · refine orReturn_ne ?_ fun _ => statuses_ne.1
      split
      · exact update_ne _ h.writeFileCount statuses_ne.1
      · exact statuses_ne.1
  · exact statuses_ne.1

/-- A check for modify access that passes the tests before is refused for the bytes where the numbers read say so. -/
theorem exceeded_iff (hrow : w.row = some row) (hmodify : x.modify = true) (hadmits : Admits w row s)
    (hplain : PlainStatus w) : (checkObjIdByTicket x w s).1 = CAT_TICKET_WRITE_BYTES_EXCEEDED ↔
      0 < row.writeByteLimit ∧ row.writeByteLimit < (s.counts row.ticketId).writeByteCount := by
  obtain ⟨p, hp⟩ := auditUse_state w row s
  simp only [checkObjIdByTicket, hrow]
  rw [orReturn, if_neg (not_not.mpr (auditUse_status.mpr hadmits.audit)), hp, if_neg (by simp [hadmits.notExpired]),
    hadmits.restrictions, orReturn_zero, if_pos hmodify]
  by_cases hbytes : 0 < row.writeByteLimit ∧ row.writeByteLimit < (s.counts row.ticketId).writeByteCount
  · refine iff_of_true ?_ hbytes
    have hrefused : countWrite x w row { s with prevTicketId := p } =
        (CAT_TICKET_WRITE_BYTES_EXCEEDED, { s with prevTicketId := p }) := by
      simp only [countWrite]
      rw [if_pos hbytes]
    rw [hrefused, orReturn_refused _ statuses_ne.1.symm]
  · exact iff_of_false (orReturn_ne (countWrite_ne hplain hbytes) fun _ => countUse_ne hplain _) hbytes

/-- After any writes a check refuses for the bytes when it should exactly where limit and count are comparable
in 32 bits. -/
theorem exceeded_iff_comparable {cols : Columns} {L c : Int} {es : List Written} (hL : 0 ≤ L) (hL' : L < longBound)
    (hc : 0 ≤ c) (hsizes : ∀ e ∈ es, 0 ≤ atol e.dataSize) (hsum : c + written L es < longBound)
    (hlimit : cols.writeByteLimit = decimal L) (hcount : cols.writeByteCount = writes (decimal L) (decimal c) es)
    (hmodify : x.modify = true) (hadmits : Admits w cols.row s) (hplain : PlainStatus w) :
    (checkColumns x w cols s = CAT_TICKET_WRITE_BYTES_EXCEEDED ↔ 0 < L ∧ L < c + written L es) ↔
      Comparable L (c + written L es) := by
  have hnonneg := written_nonneg (L := L) hsizes
  have hcheck := @exceeded_iff x { w with row := some cols.row } cols.row
    (s.setCounts cols.ticketId cols.counts) rfl hmodify
    ⟨hadmits.audit, hadmits.notExpired, hadmits.restrictions⟩ ⟨hplain.writeFileCount, hplain.usesCount⟩
  have hseen : ((s.setCounts cols.ticketId cols.counts).counts cols.row.ticketId).writeByteCount =
      atoi cols.writeByteCount := by
    show (Function.update s.counts cols.ticketId cols.counts cols.ticketId).writeByteCount = cols.counts.writeByteCount
    rw [Function.update_self]
  have hread : cols.row.writeByteLimit = atoi cols.writeByteLimit := rfl
  rw [hseen, hread, hcount, writes_spec hL hL' hc hsizes hsum, hlimit, atoi_decimal_offset hL hL',
    atoi_decimal_offset (by omega) hsum] at hcheck
  rw [checkColumns, hcheck]
  exact comparable_iff hL

/-- A ticket of another limit and count. -/
def sampleColumns (writeByteLimit writeByteCount : Text) : Columns :=
  ⟨"7".toList, "0".toList, "0".toList, [], "0".toList, "0".toList, writeByteCount, writeByteLimit⟩

def sampleCheck : Check := ⟨"12".toList, "modify object".toList, "t".toList, [], [], []⟩

def sampleAnswers : Answers := ⟨none, [], 0, 0, 0, 0⟩

def sampleSession : Session := ⟨fun _ => ⟨0, 0, 0⟩, 0, 0, []⟩

theorem exceeded_iff_comparable_small :
    (checkColumns sampleCheck sampleAnswers (sampleColumns (decimal 100)
      (writes (decimal 100) (decimal 0) [⟨"200".toList, true⟩]))
        sampleSession = CAT_TICKET_WRITE_BYTES_EXCEEDED ↔
        (0 : Int) < 100 ∧ 100 < 0 + written 100 [⟨"200".toList, true⟩]) ↔
      Comparable 100 (0 + written 100 [⟨"200".toList, true⟩]) :=
  exceeded_iff_comparable (by decide) (by decide) (by decide) (by decide) (by decide) rfl rfl (by decide)
    ⟨fun _ => rfl, by decide, rfl⟩ ⟨by decide, by decide⟩

/-- A limit of 2^32 + 100 refuses after 200 bytes. -/
theorem exceeded_truncated :
    ¬ (checkColumns sampleCheck sampleAnswers
        (sampleColumns (decimal 4294967396) (writes (decimal 4294967396) (decimal 0)
          [⟨"200".toList, true⟩])) sampleSession =
      CAT_TICKET_WRITE_BYTES_EXCEEDED ↔
        (0 : Int) < 4294967396 ∧ 4294967396 < 0 + written 4294967396 [⟨"200".toList, true⟩]) := by
  decide

end Ticket
