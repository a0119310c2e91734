-- SUMMARY: The count of descriptors in use, and which runs keep it right.
import Irods.Fuse.Rename

/-!
# The count of descriptors in use

`allocIFuseDesc` and `freeIFuseDesc` count the entries of the table that are in use, and three
scans stop once they have met that many. Between them an open descriptor is filled in and
changed, which does not change whether it is in use. A scan that reads a path through a null
pointer stops the model with `none`.
-/

namespace Fuse

open Function (update update_of_ne update_self)

def SYS_OUT_OF_FILE_DESC : Int := -18000

def SYS_FILE_DESC_OUT_OF_RANGE : Int := -19000

/-- What the scans read of an entry; connections are numbered. -/
structure DescEntry where
  inuseFlag : Bool := false
  iFuseConn : Option Nat := none
  localPath : Option Path := none
  locCacheState : ReadCacheState := .noFileCache
  deriving DecidableEq

structure DescTable where
  entry : Nat → DescEntry
  IFuseDescInuseCnt : Int

namespace DescTable

/-- The table as it is at first. -/
def init : DescTable := ⟨fun _ => {}, 0⟩

/-! ## Operations -/

def allocIFuseDesc (t : DescTable) : Int × DescTable :=
  match State.descRange.find? fun i => ! (t.entry i).inuseFlag with
  | none => (SYS_OUT_OF_FILE_DESC, t)
  | some i =>
    (i, { entry := update t.entry i { t.entry i with inuseFlag := true }
          IFuseDescInuseCnt := int32 (t.IFuseDescInuseCnt + 1) })

/-- The index is in the range of descriptors. -/
def inRange (descInx : Int) : Prop := 3 ≤ descInx ∧ descInx < maxIFuseDesc

instance (descInx : Int) : Decidable (inRange descInx) := inferInstanceAs (Decidable (_ ∧ _))

def freeIFuseDesc (t : DescTable) (descInx : Int) : Int × DescTable :=
  if inRange descInx then
    (0, { entry := update t.entry descInx.toNat {}
          IFuseDescInuseCnt := int32 (t.IFuseDescInuseCnt - 1) })
  else (SYS_FILE_DESC_OUT_OF_RANGE, t)

/-- What is done with a descriptor in between. -/
def fill (t : DescTable) (i : Nat) (iFuseConn : Option Nat) (localPath : Option Path)
    (locCacheState : ReadCacheState) : DescTable :=
  { t with entry := update t.entry i ⟨(t.entry i).inuseFlag, iFuseConn, localPath, locCacheState⟩ }

inductive Op where
  | alloc
  | free (descInx : Int)
  | fill (i : Nat) (iFuseConn : Option Nat) (localPath : Option Path) (locCacheState : ReadCacheState)
  deriving DecidableEq

def step (t : DescTable) : Op → DescTable
  | .alloc => t.allocIFuseDesc.2
  | .free descInx => (t.freeIFuseDesc descInx).2
  | .fill i iFuseConn localPath locCacheState => t.fill i iFuseConn localPath locCacheState

def run (t : DescTable) (ops : List Op) : DescTable := ops.foldl step t

/-! ## Scans -/

/-- The first entry in use that passes a test, where the test is defined. -/
abbrev Scan := (DescEntry → Option Bool) → Option (Option Nat)

/-- Stops after `IFuseDescInuseCnt` entries in use. -/
def scanInuse (t : DescTable) (test : DescEntry → Option Bool) : (inuseCnt : Int) → List Nat → Option (Option Nat)
  | _, [] => some none
  | inuseCnt, i :: is =>
    if inuseCnt ≥ t.IFuseDescInuseCnt then some none
    else if (t.entry i).inuseFlag then
      match test (t.entry i) with
      | none => none
      | some true => some (some i)
      | some false => scanInuse t test (inuseCnt + 1) is
    else scanInuse t test inuseCnt is

def scanAll (t : DescTable) (test : DescEntry → Option Bool) : List Nat → Option (Option Nat)
  | [] => some none
  | i :: is =>
    if (t.entry i).inuseFlag then
      match test (t.entry i) with
      | none => none
      | some true => some (some i)
      | some false => scanAll t test is
    else scanAll t test is

def earlyScan (t : DescTable) : Scan := fun test => t.scanInuse test 0 State.descRange

def fullScan (t : DescTable) : Scan := fun test => t.scanAll test State.descRange

/-- Is the connection, if any, that of a descriptor? -/
def iFuseConnInuse (scan : Scan) : (iFuseConn : Option Nat) → Option Bool
  | none => some false
  | some c => (scan fun e => some (e.iFuseConn = some c)).map Option.isSome

/-- The descriptor whose connection is used again; `conn` tells which connections are connected. -/
def getIFuseConnByPath (scan : Scan) (conn : Nat → Bool) (localPath : Path) : Option (Option Nat) :=
  scan fun e =>
    match e.iFuseConn with
    | none => some false
    | some c => if conn c then e.localPath.map (· = localPath) else some false

def getNewlyCreatedDescByPath (scan : Scan) (path : Path) : Option (Option Nat) :=
  scan fun e => some (e.locCacheState = .haveNewlyCreatedCache ∧ e.localPath = some path)

/-- How many entries are in use. -/
def inuse (entry : Nat → DescEntry) : Nat := State.descRange.countP fun i => (entry i).inuseFlag

/-- The count is right, and the scans that trust it miss nothing. -/
structure Counted (t : DescTable) : Prop where
  count : t.IFuseDescInuseCnt = inuse t.entry
  iFuseConnInuse : iFuseConnInuse t.earlyScan = iFuseConnInuse t.fullScan
  getIFuseConnByPath : getIFuseConnByPath t.earlyScan = getIFuseConnByPath t.fullScan
  getNewlyCreatedDescByPath : getNewlyCreatedDescByPath t.earlyScan = getNewlyCreatedDescByPath t.fullScan

/-- Only descriptors in use are freed. -/
def FreesInuse (t : DescTable) : List Op → Prop
  | [] => True
  | .free descInx :: ops =>
    (inRange descInx → (t.entry descInx.toNat).inuseFlag) ∧ FreesInuse (t.step (.free descInx)) ops
  | op :: ops => FreesInuse (t.step op) ops

variable {t : DescTable}

theorem scanAll_none (test : DescEntry → Option Bool) {is : List Nat} (h : ∀ i ∈ is, (t.entry i).inuseFlag = false) :
    t.scanAll test is = some none := by
  induction is with
  | nil => rfl
  | cons i is ih =>
    rw [scanAll, if_neg (by simp [h i List.mem_cons_self]), ih fun j hj => h j (List.mem_cons_of_mem i hj)]

/-- A scan may stop when no entry in use is left. -/
theorem scanInuse_eq (test : DescEntry → Option Bool) (is : List Nat) : ∀ inuseCnt : Int,
    inuseCnt + is.countP (fun i => (t.entry i).inuseFlag) ≤ t.IFuseDescInuseCnt →
      t.scanInuse test inuseCnt is = t.scanAll test is := by
  induction is with
  | nil => exact fun _ _ => rfl
  | cons i is ih =>
    intro inuseCnt hcount
    by_cases hstop : inuseCnt ≥ t.IFuseDescInuseCnt
    · have hzero : (i :: is).countP (fun i => (t.entry i).inuseFlag) = 0 := by omega
      rw [scanInuse, if_pos hstop, scanAll_none]
      exact fun j hj => Bool.eq_false_iff.mpr (List.countP_eq_zero.mp hzero j hj)
    · rw [scanInuse, scanAll, if_neg hstop]
      rw [List.countP_cons] at hcount
      cases hi : (t.entry i).inuseFlag with
      | true =>
        rw [hi, if_pos rfl] at hcount
        rw [if_pos rfl, if_pos rfl, ih (inuseCnt + 1) (by omega)]
      | false =>
        rw [if_neg Bool.false_ne_true, if_neg Bool.false_ne_true, ih inuseCnt (by omega)]

theorem Counted.of_count (h : t.IFuseDescInuseCnt = inuse t.entry) : Counted t := by
  have hscan : t.earlyScan = t.fullScan := by
    funext test
    exact scanInuse_eq test State.descRange 0 (by rw [h, inuse]; omega)
  refine ⟨h, ?_, ?_, ?_⟩ <;> rw [hscan]

/-! ## Runs -/

variable {entry : Nat → DescEntry} {i : Nat} {e : DescEntry}

theorem inuse_lt (entry : Nat → DescEntry) : inuse entry < intBound := by
  have hle : inuse entry ≤ State.descRange.length := List.countP_le_length
  rw [State.descRange, List.length_range'] at hle
  unfold maxIFuseDesc at hle
  unfold intBound
  omega

/-- An entry that was free is in use afterwards. -/
theorem inuse_on (hi : i ∈ State.descRange) (hfree : (entry i).inuseFlag = false) (he : e.inuseFlag = true) :
    inuse (update entry i e) = inuse entry + 1 := by
  refine countP_update descRange_nodup hi hfree ?_ fun d hd => ?_
  · rw [update_self, he]
  · rw [update_of_ne hd]

/-- An entry that was in use is free afterwards. -/
theorem inuse_off (hi : i ∈ State.descRange) (hinuse : (entry i).inuseFlag = true) (he : e.inuseFlag = false) :
    inuse entry = inuse (update entry i e) + 1 := by
  refine countP_update descRange_nodup hi ?_ hinuse fun d hd => ?_
  · rw [update_self, he]
  · rw [update_of_ne hd]

theorem inuse_same (he : e.inuseFlag = (entry i).inuseFlag) : inuse (update entry i e) = inuse entry := by
  refine List.countP_congr fun d _ => ?_
  by_cases hd : d = i
  · rw [hd, update_self, he]
  · rw [update_of_ne hd]

variable {descInx : Int}

theorem inRange.mem (h : inRange descInx) : descInx.toNat ∈ State.descRange := by
  obtain ⟨hlo, hhi⟩ := h
  rw [mem_descRange]
  omega

theorem alloc_count (h : t.IFuseDescInuseCnt = inuse t.entry) :
    t.allocIFuseDesc.2.IFuseDescInuseCnt = inuse t.allocIFuseDesc.2.entry := by
  unfold allocIFuseDesc
  split
  · exact h
  · rename_i i hfind
    have hfree : (t.entry i).inuseFlag = false := by simpa using List.find?_some hfind
    have hon := inuse_on (List.mem_of_find?_eq_some hfind) hfree (e := { t.entry i with inuseFlag := true }) rfl
    have hlt := inuse_lt (update t.entry i { t.entry i with inuseFlag := true })
    rw [h, hon, int32_eq_self (by omega) (by omega)]
    rfl

theorem fill_count (i : Nat) (iFuseConn : Option Nat) (localPath : Option Path) (locCacheState : ReadCacheState)
    (h : t.IFuseDescInuseCnt = inuse t.entry) : (t.fill i iFuseConn localPath locCacheState).IFuseDescInuseCnt =
      inuse (t.fill i iFuseConn localPath locCacheState).entry := by
  have hsame : inuse (update t.entry i ⟨(t.entry i).inuseFlag, iFuseConn, localPath, locCacheState⟩) =
      inuse t.entry := inuse_same rfl
  exact h.trans (congrArg Nat.cast hsame.symm)

theorem freeIFuseDesc_inRange (h : inRange descInx) : (t.freeIFuseDesc descInx).2 =
    ⟨update t.entry descInx.toNat {}, int32 (t.IFuseDescInuseCnt - 1)⟩ := by
  rw [freeIFuseDesc, if_pos h]

/-- A free takes one off the count. It is right afterwards exactly when the descriptor was in use. -/
theorem free_count (h : t.IFuseDescInuseCnt = inuse t.entry) :
    (t.freeIFuseDesc descInx).2.IFuseDescInuseCnt = inuse (t.freeIFuseDesc descInx).2.entry ↔
      (inRange descInx → (t.entry descInx.toNat).inuseFlag) := by
  by_cases hrange : inRange descInx
  · have hlt := inuse_lt t.entry
    have hcount : int32 (t.IFuseDescInuseCnt - 1) = inuse t.entry - 1 := by
      rw [h]
      exact int32_eq_self (by unfold intBound; omega) (by omega)
    rw [freeIFuseDesc_inRange hrange]
    cases hinuse : (t.entry descInx.toNat).inuseFlag with
    | true =>
      have hoff := inuse_off hrange.mem hinuse (e := {}) rfl
      simp only [implies_true, iff_true]
      omega
    | false =>
      rw [inuse_same hinuse.symm]
      simp only [hrange, Bool.false_eq_true, imp_false, not_true, iff_false]
      omega
  · rw [freeIFuseDesc, if_neg hrange]
    simp only [h, hrange, false_implies]

/-- The count is right in every state of a run exactly when every free is of a descriptor in use. The
induction is on the calls, from a state with a right count. -/
theorem counted_run_iff (ops : List Op) : ∀ t : DescTable, t.IFuseDescInuseCnt = inuse t.entry →
    ((∀ called, called <+: ops → Counted (t.run called)) ↔ FreesInuse t ops) := by
  induction ops with
  | nil =>
    intro t h
    refine ⟨fun _ => trivial, fun _ called hcalled => ?_⟩
    rw [List.prefix_nil.mp hcalled]
    exact .of_count h
  | cons op ops ih =>
    intro t h
    have hsplit : (∀ called, called <+: op :: ops → Counted (t.run called)) ↔
        ∀ called, called <+: ops → Counted ((t.step op).run called) := by
      constructor
      · exact fun hrun called hcalled => hrun (op :: called) (List.cons_prefix_cons.mpr ⟨rfl, hcalled⟩)
      · intro hrun called hcalled
        cases called with
        | nil => exact .of_count h
        | cons op' called =>
          obtain ⟨rfl, hrest⟩ := List.cons_prefix_cons.mp hcalled
          exact hrun called hrest
    rw [hsplit]
    cases op with
    | alloc => exact ih _ (alloc_count h)
    | fill i iFuseConn localPath locCacheState => exact ih _ (fill_count i iFuseConn localPath locCacheState h)
    | free descInx =>
      constructor
      · intro hrun
        have hcount := (free_count h).mp (hrun [] (List.nil_prefix)).count
        exact ⟨hcount, (ih _ ((free_count h).mpr hcount)).mp hrun⟩
      · rintro ⟨hinuse, hfrees⟩
        exact (ih _ ((free_count h).mpr hinuse)).mpr hfrees

theorem init_count : init.IFuseDescInuseCnt = inuse init.entry := by
  have hzero : inuse init.entry = 0 := List.countP_eq_zero.mpr fun _ _ => Bool.false_ne_true
  rw [hzero]
  rfl

/-- The count is the number of entries in use in every run whose frees are of such entries, and
no other. -/
theorem counted_iff (ops : List Op) :
    (∀ called, called <+: ops → Counted (init.run called)) ↔ FreesInuse init ops :=
  counted_run_iff ops init init_count

/-- A descriptor is freed twice, and an open one, whose connection is in use, is overlooked. -/
theorem freed_twice : ¬ ∀ called, called <+: [.alloc, .alloc,
      .fill 4 (some 7) (some []) .noFileCache, .free 3, .free 3] →
    Counted (init.run called) := by
  intro hrun
  have hscan := congrFun (hrun _ (List.prefix_refl _)).iFuseConnInuse (some 7)
  exact absurd hscan (by decide +kernel)

end DescTable

end Fuse
