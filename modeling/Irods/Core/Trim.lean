-- SUMMARY: Trimming replicas, and how many copies are left.
import Irods.Base.Bindings
import Irods.Base.CNumber
import Irods.Core.PairList
import Mathlib.Data.List.Perm.Subperm

/-!
# Trimming

`rsDataObjTrim` asks `resolveInfoForTrim` which replicas of a data object to remove. A list of
`dataObjInfo_t` is the list of its elements, and taking an element off one list to queue it on
another keeps it. Counts are taken to be in the range of an `int`.
-/

namespace Trim

open CString
open List (count_append count_cons length_nil mem_filter nil_append nil_sublist perm_iff_count)

def DEF_MIN_COPY_CNT : Int := 2

/-! ## Replicas -/

/-- `RescClass[rescClassInx].classType`. -/
inductive RescClassType where
  | archival
  | bundle
  | compound
  | other
  deriving DecidableEq

/-- Where the server of a resource is, once that is known. -/
inductive ServerHost where
  | local
  | remote
  deriving DecidableEq

structure RescInfo where
  rescStatusDown : Bool
  classType : RescClassType
  rodsServerHost : Option ServerHost
  deriving DecidableEq

/-- A replica with its resource. -/
structure DataObjInfo where
  rescName : Text
  rescGroupName : Text
  replNum : Int
  replStatus : Int
  rescInfo : RescInfo
  deriving DecidableEq

def DataObjInfo.current (info : DataObjInfo) : Bool := info.replStatus > 0

abbrev KeyValPair := List (Text × Text)

def getValByKey (condInput : KeyValPair) (keyWord : Text) : Option Text :=
  (condInput.find? fun pair => pair.1 = keyWord).map Prod.snd

/-- It is what the two arrays of a `keyValPair_t` with these pairs give. -/
theorem getValByKey_shown {l : PairList Text Text} {condInput : KeyValPair}
    (h : PairList.Shows l condInput) (keyWord : Text) :
    KeyValPair.getValByKey l keyWord = some (getValByKey condInput keyWord) := by
  simp only [KeyValPair.getValByKey_spec h, getValByKey, Bindings.lookup_eq_find?, beq_eq_decide]

/-- To the top or to the bottom: a single element, or a whole list. -/
def queDataObjInfo {α : Type} (head info : List α) (topFlag : Bool) : List α :=
  if topFlag then info ++ head else head ++ info

/-! ## Sorting -/

structure Sorted where
  currentArch : List DataObjInfo := []
  currentCache : List DataObjInfo := []
  oldArch : List DataObjInfo := []
  oldCache : List DataObjInfo := []
  downCurrent : List DataObjInfo := []
  downOld : List DataObjInfo := []
  currentBundle : List DataObjInfo := []
  oldBundle : List DataObjInfo := []
  currentComp : List DataObjInfo := []
  oldComp : List DataObjInfo := []

/-- By the class of the resource and the currency of the copy. -/
def Sorted.queue (s : Sorted) (info : DataObjInfo) (topFlag : Bool) : Sorted :=
  match info.current, info.rescInfo.classType with
  | true, .archival => { s with currentArch := queDataObjInfo s.currentArch [info] topFlag }
  | true, .compound => { s with currentComp := queDataObjInfo s.currentComp [info] topFlag }
  | true, .bundle => { s with currentBundle := queDataObjInfo s.currentBundle [info] topFlag }
  | true, .other => { s with currentCache := queDataObjInfo s.currentCache [info] topFlag }
  | false, .archival => { s with oldArch := queDataObjInfo s.oldArch [info] topFlag }
  | false, .compound => { s with oldComp := queDataObjInfo s.oldComp [info] topFlag }
  | false, .bundle => { s with oldBundle := queDataObjInfo s.oldBundle [info] topFlag }
  | false, .other => { s with oldCache := queDataObjInfo s.oldCache [info] topFlag }

/-- A resource that is down is only noticed when its server is known. -/
def Sorted.add (s : Sorted) (info : DataObjInfo) : Sorted :=
  match info.rescInfo.rodsServerHost with
  | none => s.queue info false
  | some host =>
    if info.rescInfo.rescStatusDown then
      if info.current then { s with downCurrent := queDataObjInfo s.downCurrent [info] true }
      else { s with downOld := queDataObjInfo s.downOld [info] true }
    else s.queue info (host = .local)

/-- Archives, then compound resources, then bundles go together. -/
def sortObjInfo (infos : List DataObjInfo) : Sorted :=
  let s := infos.foldl Sorted.add {}
  { s with
    oldArch := s.oldArch ++ s.oldComp ++ s.oldBundle
    currentArch := s.currentArch ++ s.currentComp ++ s.currentBundle }

/-- With `deleteOldFlag` 0. The old copies stand in when there are no current ones; old copies
that are down are dropped. -/
def sortObjInfoForRepl (infos : List DataObjInfo) : List DataObjInfo × List DataObjInfo :=
  let s := sortObjInfo infos
  let head := s.currentCache ++ s.currentArch ++ s.downCurrent
  if head ≠ [] then (head, s.oldCache ++ s.oldArch) else (s.oldCache ++ s.oldArch, [])

/-! ## Matching -/

def replNumKW : Text := "replNum".toList
def rescNameKW : Text := "rescName".toList
def copiesKW : Text := "copies".toList

/-- Is the replica number the one of the condition? -/
def matchesReplNum (condInput : KeyValPair) (info : DataObjInfo) : Bool :=
  match getValByKey condInput replNumKW with
  | none => false
  | some tmpStr => atoi tmpStr = info.replNum

/-- Is the resource, or its group, the one of the condition? -/
def matchesResc (condInput : KeyValPair) (info : DataObjInfo) : Bool :=
  match getValByKey condInput rescNameKW with
  | none => false
  | some rescName => rescName = info.rescGroupName ∨ rescName = info.rescName

/-- For the old copies the comparison with 0 is outside of the parentheses. -/
def matchesOldResc (condInput : KeyValPair) (info : DataObjInfo) : Bool :=
  match getValByKey condInput rescNameKW with
  | none => false
  | some rescName => ¬ (rescName = info.rescGroupName ∨ rescName ≠ info.rescName)

structure Matched where
  head : List DataObjInfo
  oldHead : List DataObjInfo
  matched : List DataObjInfo
  matchedOld : List DataObjInfo
  condFlag : Int

/-- The status, or the lists with the replicas that match taken out, and the number of conditions. -/
def matchDataObjInfoByCondInput (head oldHead : List DataObjInfo) (condInput : KeyValPair) :
    Except Int Matched :=
  if head = [] then .error USER__NULL_INPUT_ERR
  else
    let condFlag := (getValByKey condInput replNumKW).toList.length +
      (getValByKey condInput rescNameKW).toList.length
    if condFlag = 0 then .ok ⟨head, oldHead, [], [], 0⟩
    else
      let matches' (info : DataObjInfo) := matchesReplNum condInput info || matchesResc condInput info
      let matchesOld (info : DataObjInfo) := matchesReplNum condInput info || matchesOldResc condInput info
      let matched := head.filter matches'
      let matchedOld := oldHead.filter matchesOld
      if matched = [] ∧ matchedOld = [] then .error CAT_NO_ROWS_FOUND
      else .ok ⟨head.filter (! matches' ·), oldHead.filter (! matchesOld ·), matched, matchedOld, condFlag⟩

/-! ## Trimming -/

/-- Frees the last element, again and again. -/
def takeOffBottom : Nat → List DataObjInfo → List DataObjInfo
  | 0, infos => infos
  | n + 1, infos => takeOffBottom n infos.dropLast

def minCnt (condInput : KeyValPair) : Int :=
  match getValByKey condInput copiesKW with
  | none => DEF_MIN_COPY_CNT
  | some tmpStr => if atoi tmpStr ≤ 0 then DEF_MIN_COPY_CNT else atoi tmpStr

/-- The replicas to trim, from what was matched and how many were not. -/
def trimMatched (minCnt unmatchedInfoCnt unmatchedOldInfoCnt : Int) (matched matchedOld : List DataObjInfo) :
    List DataObjInfo :=
  let matchedInfoCnt : Int := matched.length
  let toTrim := min (unmatchedInfoCnt + matchedInfoCnt - minCnt) matchedInfoCnt
  if toTrim ≥ 0 then takeOffBottom (matchedInfoCnt - toTrim).toNat matched ++ matchedOld
  else
    let matchedOldInfoCnt : Int := matchedOld.length
    let toTrim := min (matchedOldInfoCnt + unmatchedOldInfoCnt + toTrim) matchedOldInfoCnt
    if toTrim ≤ 0 then [] else takeOffBottom (matchedOldInfoCnt - toTrim).toNat matchedOld

/-- The status, or the replicas to trim for the status 0. -/
def resolveInfoForTrim (infos : List DataObjInfo) (condInput : KeyValPair) : Except Int (List DataObjInfo) :=
  let (head, oldHead) := sortObjInfoForRepl infos
  match matchDataObjInfoByCondInput head oldHead condInput with
  | .error status => if status = CAT_NO_ROWS_FOUND then .ok [] else .error status
  | .ok m =>
    if m.matched = [] ∧ m.matchedOld = [] then
      -- There is no condition, so that all copies can be trimmed.
      if m.condFlag = 0 then .ok (trimMatched (minCnt condInput) 0 0 m.head m.oldHead) else .ok []
    else .ok (trimMatched (minCnt condInput) m.head.length m.oldHead.length m.matched m.matchedOld)

/-! ## What sorting keeps -/

namespace Sorted

def currents (s : Sorted) : List DataObjInfo :=
  s.currentCache ++ (s.currentArch ++ s.currentComp ++ s.currentBundle) ++ s.downCurrent

def olds (s : Sorted) : List DataObjInfo := s.oldCache ++ (s.oldArch ++ s.oldComp ++ s.oldBundle)

theorem count_queDataObjInfo (head : List DataObjInfo) (info a : DataObjInfo) (topFlag : Bool) :
    (queDataObjInfo head [info] topFlag).count a = [info].count a + head.count a := by
  cases topFlag with
  | false => rw [queDataObjInfo, if_neg Bool.false_ne_true, count_append, Nat.add_comm]
  | true => rw [queDataObjInfo, if_pos rfl, count_append]

/-- A replica goes to one of the queues, with its currency. -/
structure Adds (s : Sorted) (info : DataObjInfo) (s' : Sorted) : Prop where
  currents : s'.currents.Perm ((if info.current then [info] else []) ++ s.currents)
  olds : (s'.olds ++ s'.downOld).Perm ((if info.current then [] else [info]) ++ (s.olds ++ s.downOld))

theorem queue_adds (s : Sorted) (info : DataObjInfo) (topFlag : Bool) : Adds s info (s.queue info topFlag) := by
  constructor
  all_goals
    rw [perm_iff_count]
    intro a
    unfold queue
    split
    all_goals
      rename_i hcurrent _
      simp only [hcurrent, currents, olds, Bool.false_eq_true, if_true, if_false, count_append,
        count_queDataObjInfo, nil_append]
      try omega

theorem add_adds (s : Sorted) (info : DataObjInfo) : Adds s info (s.add info) := by
  unfold add
  split
  · exact s.queue_adds info false
  · split
    · split
      · rename_i hcurrent
        refine ⟨?_, ?_⟩
        · rw [perm_iff_count]
          intro a
          simp only [hcurrent, currents, if_true, count_append, count_queDataObjInfo]
          omega
        · simp only [hcurrent, if_true]
          exact .refl _
      · rename_i hcurrent
        refine ⟨?_, ?_⟩
        · simp only [hcurrent]
          exact .refl _
        · rw [perm_iff_count]
          intro a
          simp only [hcurrent, olds, Bool.false_eq_true, if_false, count_append, count_queDataObjInfo]
          omega
    · exact s.queue_adds info _

theorem foldl_add_perm (infos : List DataObjInfo) : ∀ s : Sorted,
    ((infos.foldl add s).currents.Perm (infos.filter (·.current) ++ s.currents)) ∧
    (((infos.foldl add s).olds ++ (infos.foldl add s).downOld).Perm
      (infos.filter (! ·.current) ++ (s.olds ++ s.downOld))) := by
  induction infos with
  | nil => exact fun s => ⟨.refl _, .refl _⟩
  | cons info is ih =>
    intro s
    obtain ⟨hcurrent, hold⟩ := s.add_adds info
    obtain ⟨ihcurrent, ihold⟩ := ih (s.add info)
    refine ⟨(ihcurrent.trans (hcurrent.append_left _)).trans ?_, (ihold.trans (hold.append_left _)).trans ?_⟩
    · rw [perm_iff_count]
      intro a
      cases hc : info.current <;> simp [hc, count_cons]
      omega
    · rw [perm_iff_count]
      intro a
      cases hc : info.current <;> simp [hc, count_cons]
      omega

end Sorted

/-- The lists to trim from hold different replicas; the first holds the current ones, unless
there are none. -/
structure Heads (infos head oldHead : List DataObjInfo) : Prop where
  subperm : (head ++ oldHead).Subperm infos
  currency : (head.Perm (infos.filter (·.current)) ∧ ∀ info ∈ oldHead, info.current = false) ∨
    ∀ info ∈ infos, info.current = false

theorem sortObjInfoForRepl_heads (infos : List DataObjInfo) :
    Heads infos (sortObjInfoForRepl infos).1 (sortObjInfoForRepl infos).2 := by
  obtain ⟨hcurrent, hold⟩ := Sorted.foldl_add_perm infos {}
  have hcurrent : (infos.foldl Sorted.add {}).currents.Perm (infos.filter (·.current)) := by
    simpa [Sorted.currents] using hcurrent
  have hold : ((infos.foldl Sorted.add {}).olds ++ (infos.foldl Sorted.add {}).downOld).Perm
      (infos.filter (! ·.current)) := by
    simpa [Sorted.olds] using hold
  have holds : (infos.foldl Sorted.add {}).olds.Subperm (infos.filter (! ·.current)) :=
    (List.sublist_append_left _ _).subperm.trans hold.subperm
  have hboth : (infos.filter (·.current) ++ infos.filter (! ·.current)).Perm infos := List.filter_append_perm _ _
  unfold sortObjInfoForRepl sortObjInfo
  dsimp only
  split
  · refine ⟨?_, .inl ⟨hcurrent, fun info hinfo => ?_⟩⟩
    · exact ((hcurrent.append_right _).subperm.trans ((List.subperm_append_left _).mpr holds)).trans hboth.subperm
    · simpa using (mem_filter.mp (holds.subset hinfo)).2
  · rename_i hnone
    rw [not_not] at hnone
    have hempty : infos.filter (·.current) = [] := by
      rw [← List.perm_nil]
      exact hcurrent.symm.trans (List.Perm.of_eq hnone)
    refine ⟨?_, .inr fun info hinfo => ?_⟩
    · rw [List.append_nil]
      exact holds.trans (List.filter_sublist.subperm)
    · simpa using List.filter_eq_nil_iff.mp hempty info hinfo

/-! ## How many are left -/

theorem takeOffBottom_sublist : ∀ (n : Nat) (infos : List DataObjInfo), (takeOffBottom n infos).Sublist infos
  | 0, _ => List.Sublist.refl _
  | n + 1, infos => (takeOffBottom_sublist n _).trans (List.dropLast_sublist infos)

theorem length_takeOffBottom : ∀ (n : Nat) (infos : List DataObjInfo),
    (takeOffBottom n infos).length = infos.length - n
  | 0, _ => rfl
  | n + 1, infos => by
    rw [takeOffBottom, length_takeOffBottom n, List.length_dropLast, Nat.sub_sub, Nat.add_comm]

/-- What is trimmed leaves the minimum in the first list, and in both lists together. -/
structure Leaves (minCnt unmatched unmatchedOld : Int) (matched matchedOld returned : List DataObjInfo) : Prop where
  split : ∃ trimmed trimmedOld, returned = trimmed ++ trimmedOld ∧ trimmed.Sublist matched ∧
    trimmedOld.Sublist matchedOld ∧
    min minCnt (unmatched + matched.length) ≤ unmatched + matched.length - trimmed.length
  both : min minCnt (unmatched + matched.length + unmatchedOld + matchedOld.length) ≤
    unmatched + matched.length + unmatchedOld + matchedOld.length - returned.length

theorem trimMatched_leaves (minCnt unmatched : Int) {unmatchedOld : Int} (hunOld : 0 ≤ unmatchedOld)
    (matched matchedOld : List DataObjInfo) :
    Leaves minCnt unmatched unmatchedOld matched matchedOld
      (trimMatched minCnt unmatched unmatchedOld matched matchedOld) := by
  unfold trimMatched
  dsimp only
  split
  · have hlen := length_takeOffBottom
      ((matched.length : Int) - min (unmatched + matched.length - minCnt) matched.length).toNat matched
    refine ⟨⟨_, _, rfl, takeOffBottom_sublist _ _, .refl _, ?_⟩, ?_⟩
    · omega
    · rw [List.length_append, hlen]
      omega
  · split
    · refine ⟨⟨[], [], rfl, nil_sublist _, nil_sublist _, ?_⟩, ?_⟩
      · rw [length_nil]
        omega
      · rw [length_nil]
        omega
    · have hlen := length_takeOffBottom ((matchedOld.length : Int) - min (matchedOld.length + unmatchedOld +
        min (unmatched + matched.length - minCnt) matched.length) matchedOld.length).toNat matchedOld
      refine ⟨⟨[], _, rfl, nil_sublist _, takeOffBottom_sublist _ _, ?_⟩, ?_⟩
      · rw [length_nil]
        omega
      · omega

/-- What `resolveInfoForTrim` takes the replicas from. -/
structure Chosen (infos : List DataObjInfo) (condInput : KeyValPair) (returned : List DataObjInfo) : Prop where
  subperm : returned.Subperm infos
  fits : ∀ info ∈ returned, (getValByKey condInput replNumKW = none ∧ getValByKey condInput rescNameKW = none) ∨
    matchesReplNum condInput info = true ∨ matchesResc condInput info = true
  left : min (minCnt condInput) infos.length ≤ infos.length - returned.length
  leftCurrent : min (minCnt condInput) (infos.countP (·.current)) ≤
    (infos.countP (·.current) : Int) - returned.countP (·.current)

theorem Chosen.nil (infos : List DataObjInfo) (condInput : KeyValPair) : Chosen infos condInput [] where
  subperm := List.nil_subperm
  fits := nofun
  left := by
    rw [length_nil]
    omega
  leftCurrent := by
    rw [List.countP_nil]
    omega

variable {condInput : KeyValPair}

theorem matchesResc_of_old {info : DataObjInfo} (h : matchesOldResc condInput info = true) :
    matchesResc condInput info = true := by
  unfold matchesOldResc at h
  unfold matchesResc
  split at h
  · cases h
  · rw [decide_eq_true_eq, not_or, not_not] at h
    exact decide_eq_true (.inr h.2)

variable {head oldHead : List DataObjInfo}

/-- Replicas taken from parts of the two lists. -/
theorem Heads.chosen {infos : List DataObjInfo} (h : Heads infos head oldHead) {unmatched unmatchedOld : Nat}
    {matched matchedOld returned : List DataObjInfo}
    (hleaves : Leaves (minCnt condInput) unmatched unmatchedOld matched matchedOld returned)
    (hmatched : matched.Sublist head) (hmatchedOld : matchedOld.Sublist oldHead)
    (hlen : unmatched + matched.length = head.length) (hlenOld : unmatchedOld + matchedOld.length = oldHead.length)
    (hfits : ∀ info ∈ matched ++ matchedOld,
      (getValByKey condInput replNumKW = none ∧ getValByKey condInput rescNameKW = none) ∨
      matchesReplNum condInput info = true ∨ matchesResc condInput info = true) :
    Chosen infos condInput returned := by
  obtain ⟨trimmed, trimmedOld, rfl, htrimmed, htrimmedOld, hfirst⟩ := hleaves.split
  have hboth := hleaves.both
  have hsub : (trimmed ++ trimmedOld).Subperm infos :=
    ((htrimmed.trans hmatched).append (htrimmedOld.trans hmatchedOld)).subperm.trans h.subperm
  have hinfos : head.length + oldHead.length ≤ infos.length := by
    rw [← List.length_append]
    exact h.subperm.length_le
  refine ⟨hsub, fun info hinfo => hfits info ((htrimmed.append htrimmedOld).subset hinfo), ?_, ?_⟩
  · omega
  · obtain ⟨hcurrent, hold⟩ | hnone := h.currency
    · have hcount : infos.countP (·.current) = head.length := by
        rw [List.countP_eq_length_filter, hcurrent.length_eq]
      have hle : trimmed.countP (·.current) ≤ trimmed.length := List.countP_le_length
      have hzero : trimmedOld.countP (·.current) = 0 := List.countP_eq_zero.mpr fun info hinfo =>
        Bool.eq_false_iff.mp (hold info ((htrimmedOld.trans hmatchedOld).subset hinfo))
      rw [hcount, List.countP_append, hzero]
      omega
    · have hall : infos.countP (·.current) = 0 := List.countP_eq_zero.mpr fun info hinfo =>
        Bool.eq_false_iff.mp (hnone info hinfo)
      have hreturned := hsub.countP_le (fun info : DataObjInfo => info.current)
      omega

theorem length_filter_not (p : DataObjInfo → Bool) (infos : List DataObjInfo) :
    (infos.filter (! p ·)).length + (infos.filter p).length = infos.length := by
  have h := infos.length_eq_length_filter_add p
  omega

/-- Nothing is matched without a condition; else some replicas are, and the others stay. -/
theorem matchDataObjInfoByCondInput_ok {m : Matched} (h : matchDataObjInfoByCondInput head oldHead condInput = .ok m) :
    (getValByKey condInput replNumKW = none ∧ getValByKey condInput rescNameKW = none ∧
      m = ⟨head, oldHead, [], [], 0⟩) ∨
    (¬ (m.matched = [] ∧ m.matchedOld = []) ∧
      m.matched = head.filter (fun info => matchesReplNum condInput info || matchesResc condInput info) ∧
      m.head = head.filter (fun info => ! (matchesReplNum condInput info || matchesResc condInput info)) ∧
      m.matchedOld = oldHead.filter (fun info => matchesReplNum condInput info || matchesOldResc condInput info) ∧
      m.oldHead =
        oldHead.filter (fun info => ! (matchesReplNum condInput info || matchesOldResc condInput info))) := by
  unfold matchDataObjInfoByCondInput at h
  dsimp only at h
  split at h
  · cases h
  · split at h
    · rename_i hcond
      cases h
      rw [Nat.add_eq_zero_iff, List.length_eq_zero_iff, List.length_eq_zero_iff, Option.toList_eq_nil_iff,
        Option.toList_eq_nil_iff] at hcond
      exact .inl ⟨hcond.1, hcond.2, rfl⟩
    · split at h
      · cases h
      · rename_i hsome
        cases h
        exact .inr ⟨hsome, rfl, rfl, rfl, rfl⟩

/-- Replicas of the input are trimmed that satisfy one of the conditions, and enough copies and
enough current copies are left. -/
theorem resolveInfoForTrim_leaves (infos : List DataObjInfo) (condInput : KeyValPair) (returned : List DataObjInfo)
    (h : resolveInfoForTrim infos condInput = .ok returned) :
    returned.Subperm infos ∧
    (∀ info ∈ returned, (getValByKey condInput replNumKW = none ∧ getValByKey condInput rescNameKW = none) ∨
      matchesReplNum condInput info = true ∨ matchesResc condInput info = true) ∧
    min (minCnt condInput) infos.length ≤ infos.length - returned.length ∧
    min (minCnt condInput) (infos.countP (·.current)) ≤
      (infos.countP (·.current) : Int) - returned.countP (·.current) := by
  have hheads := sortObjInfoForRepl_heads infos
  have hchosen : Chosen infos condInput returned := by
    unfold resolveInfoForTrim at h
    dsimp only at h
    split at h
    · split at h
      · cases h
        exact Chosen.nil infos condInput
      · cases h
    · rename_i m hm
      obtain ⟨hrepl, hresc, rfl⟩ | ⟨hsome, hmatched, hhead, hmatchedOld, holdHead⟩ :=
        matchDataObjInfoByCondInput_ok hm
      · cases h
        exact hheads.chosen (trimMatched_leaves _ _ (Int.natCast_nonneg 0) _ _) (.refl _) (.refl _) (Nat.zero_add _)
          (Nat.zero_add _) fun _ _ => .inl ⟨hrepl, hresc⟩
      · rw [if_neg hsome] at h
        cases h
        refine hheads.chosen (trimMatched_leaves _ _ (Int.natCast_nonneg _) _ _) ?_ ?_ ?_ ?_ ?_
        · rw [hmatched]
          exact List.filter_sublist
        · rw [hmatchedOld]
          exact List.filter_sublist
        · rw [hmatched, hhead]
          exact length_filter_not _ _
        · rw [hmatchedOld, holdHead]
          exact length_filter_not _ _
        · intro info hinfo
          obtain hinfo | hinfo := List.mem_append.mp hinfo
          · rw [hmatched] at hinfo
            exact .inr (Bool.or_eq_true_iff.mp (mem_filter.mp hinfo).2)
          · rw [hmatchedOld] at hinfo
            exact .inr ((Bool.or_eq_true_iff.mp (mem_filter.mp hinfo).2).imp_right matchesResc_of_old)
  exact ⟨hchosen.subperm, hchosen.fits, hchosen.left, hchosen.leftCurrent⟩

/-- A current copy in the cache `rescName`. -/
def copyIn (rescName : Text) (replNum : Int) : DataObjInfo where
  rescName := rescName
  rescGroupName := []
  replNum := replNum
  replStatus := 1
  rescInfo := ⟨false, .other, some .local⟩

def threeCopies : List DataObjInfo := [copyIn ['A'] 0, copyIn ['B'] 1, copyIn ['C'] 2]

theorem resolveInfoForTrim_leaves_two :
    min 2 (threeCopies.length : Int) ≤ threeCopies.length - [copyIn ['C'] 2].length :=
  (resolveInfoForTrim_leaves threeCopies [(replNumKW, ['2'])] [copyIn ['C'] 2] (by decide +kernel)).2.2.1

/-- With a replica number and a resource, a copy that has only one of them is trimmed. -/
theorem resolveInfoForTrim_either :
    resolveInfoForTrim threeCopies [(replNumKW, ['1']), (rescNameKW, ['A']), (copiesKW, ['1'])] =
      .ok [copyIn ['B'] 1, copyIn ['A'] 0] ∧
    matchesReplNum [(replNumKW, ['1']), (rescNameKW, ['A']), (copiesKW, ['1'])] (copyIn ['A'] 0) = false ∧
    matchesResc [(replNumKW, ['1']), (rescNameKW, ['A']), (copiesKW, ['1'])] (copyIn ['B'] 1) = false := by
  decide +kernel

end Trim
