-- SUMMARY: Resource groups: sorting by class, and the preferred resource on top.
import Irods.Api.RodsDef
import Irods.Core.StrArray
import Mathlib.Data.List.Rotate

/-!
# Resource groups

`queRescGrp`, `sortRescByType` and the `preferred` branch of `setDefaultResc` of `resource.c`. Each
member of a group has its `rescInfo`, and the sorting exchanges these only.
-/

namespace ResourceGroups

open List (append_assoc cons_append filter_append nil_append pairwise_append pairwise_cons)

/-- `classType` is the one that the `RescClass` table has for `rescClassInx`. -/
structure RescInfo where
  rescName : Text
  classType : Nat
  rescStatus : Int
  deriving DecidableEq

structure RescGrpInfo where
  rescInfo : RescInfo
  rescGroupName : Text
  status : Int
  deriving DecidableEq

/-! ## The order of the classes -/

inductive QueFlag where
  | top | bottom | byType

/-- In front of the first one of a higher class. -/
def queByType (my : RescGrpInfo) : List RescGrpInfo → List RescGrpInfo
  | [] => [my]
  | r :: group =>
    if my.rescInfo.classType < r.rescInfo.classType then my :: r :: group else r :: queByType my group

def queRescGrp (group : List RescGrpInfo) (my : RescGrpInfo) : QueFlag → List RescGrpInfo
  | .top => my :: group
  | .bottom => group ++ [my]
  | .byType => queByType my group

/-- The first one of a class above `cl` comes to the place of `resc`, and `resc` to its place. -/
def exchange (cl : Nat) (resc : RescInfo) : List RescInfo → List RescInfo × RescInfo
  | [] => ([], resc)
  | r :: before =>
    if cl < r.classType then (resc :: before, r)
    else
      let (before, r') := exchange cl resc before
      (r :: before, r')

def floatLoop (cl : Nat) : (before after : List RescInfo) → List RescInfo
  | before, [] => before
  | before, r :: after =>
    if r.classType = cl then
      let (before, r) := exchange cl r before
      floatLoop cl (before ++ [r]) after
    else floatLoop cl (before ++ [r]) after

/-- The second loop begins where the first one has ended, behind the last resource. -/
def sortRescByType (rescs : List RescInfo) : List RescInfo :=
  floatLoop ARCHIVAL_CL (floatLoop CACHE_CL [] rescs) []

/-- By class, and for each class as they came. -/
structure Queued (infos group : List RescGrpInfo) : Prop where
  sorted : group.Pairwise fun a b => a.rescInfo.classType ≤ b.rescInfo.classType
  stable : ∀ cl, group.filter (·.rescInfo.classType = cl) = infos.filter (·.rescInfo.classType = cl)

theorem mem_queByType {my r : RescGrpInfo} {group : List RescGrpInfo} :
    r ∈ queByType my group ↔ r = my ∨ r ∈ group := by
  induction group with
  | nil => simp [queByType]
  | cons r' group ih =>
    unfold queByType
    split
    · simp
    · simp [ih, or_left_comm]

theorem Queued.step {infos group : List RescGrpInfo} (h : Queued infos group) (my : RescGrpInfo) :
    Queued (infos ++ [my]) (queByType my group) := by
  have hstep : (queByType my group).Pairwise (fun a b => a.rescInfo.classType ≤ b.rescInfo.classType) ∧
      ∀ cl, (queByType my group).filter (·.rescInfo.classType = cl) =
        group.filter (·.rescInfo.classType = cl) ++ [my].filter (·.rescInfo.classType = cl) := by
    have hsorted := h.sorted
    clear h
    induction group with
    | nil => exact ⟨List.pairwise_singleton _ _, fun _ => rfl⟩
    | cons r group ih =>
      obtain ⟨hr, hgroup⟩ := pairwise_cons.mp hsorted
      unfold queByType
      split
      · rename_i hlt
        have hall : ∀ r' ∈ r :: group, my.rescInfo.classType < r'.rescInfo.classType :=
          List.forall_mem_cons.mpr ⟨hlt, fun r' hr' => hlt.trans_le (hr r' hr')⟩
        refine ⟨pairwise_cons.mpr ⟨fun r' hr' => (hall r' hr').le, hsorted⟩, fun cl => ?_⟩
        by_cases hcl : my.rescInfo.classType = cl
        · have hnone : (r :: group).filter (·.rescInfo.classType = cl) = [] :=
            List.filter_eq_nil_iff.mpr fun r' hr' => by simpa [← hcl] using (hall r' hr').ne'
          rw [hnone, List.filter_cons_of_pos (by simpa using hcl), hnone, List.filter_cons_of_pos (by simpa using hcl)]
          rfl
        · rw [List.filter_cons_of_neg (by simpa using hcl), List.filter_cons_of_neg (a := my) (by simpa using hcl)]
          exact (List.append_nil _).symm
      · rename_i hle
        obtain ⟨hpair, hfilter⟩ := ih hgroup
        refine ⟨pairwise_cons.mpr ⟨fun r' hr' => ?_, hpair⟩, fun cl => ?_⟩
        · obtain rfl | hr' := mem_queByType.mp hr'
          · exact Nat.not_lt.mp hle
          · exact hr r' hr'
        · rw [List.filter_cons, List.filter_cons, hfilter]
          split
          · rfl
          · rfl
  exact ⟨hstep.1, fun cl => by rw [hstep.2, h.stable, filter_append]⟩

theorem queued_foldl (infos : List RescGrpInfo) : Queued infos (infos.foldl (queRescGrp · · .byType) []) := by
  induction infos using List.reverseRecOn with
  | nil => exact ⟨.nil, fun _ => rfl⟩
  | append_singleton infos my ih =>
    rw [List.foldl_concat]
    exact ih.step my

/-- A queue of the resources that are no caches, of which each cache sends the first one to the end. -/
def turned (queue rescs : List RescInfo) : List RescInfo :=
  rescs.foldl (fun queue r => if r.classType = CACHE_CL then queue.rotate 1 else queue ++ [r]) queue

theorem exchange_spec {caches queue : List RescInfo} (r : RescInfo) (hcaches : ∀ c ∈ caches, c.classType = CACHE_CL)
    (hqueue : ∀ q ∈ queue, q.classType ≠ CACHE_CL) :
    (exchange CACHE_CL r (caches ++ queue)).1 ++ [(exchange CACHE_CL r (caches ++ queue)).2] =
      caches ++ r :: queue.rotate 1 := by
  induction caches with
  | nil =>
    cases queue with
    | nil => rfl
    | cons q queue =>
      have hq : CACHE_CL < q.classType := Nat.pos_of_ne_zero (hqueue q List.mem_cons_self)
      simp [exchange, hq]
  | cons c caches ih =>
    obtain ⟨hc, hcaches⟩ := List.forall_mem_cons.mp hcaches
    have hle : ¬ CACHE_CL < c.classType := hc ▸ Nat.lt_irrefl _
    simpa [exchange, hle] using ih hcaches

theorem floatLoop_spec {caches queue : List RescInfo} (after : List RescInfo)
    (hcaches : ∀ c ∈ caches, c.classType = CACHE_CL) (hqueue : ∀ q ∈ queue, q.classType ≠ CACHE_CL) :
    floatLoop CACHE_CL (caches ++ queue) after =
      (caches ++ after.filter (·.classType = CACHE_CL)) ++ turned queue after := by
  induction after generalizing caches queue with
  | nil => simp [floatLoop, turned]
  | cons r after ih =>
    unfold floatLoop turned
    by_cases hr : r.classType = CACHE_CL
    · have hcaches' : ∀ c ∈ caches ++ [r], c.classType = CACHE_CL :=
        List.forall_mem_append.mpr ⟨hcaches, List.forall_mem_singleton.mpr hr⟩
      have hqueue' : ∀ q ∈ queue.rotate 1, q.classType ≠ CACHE_CL := fun q hq => hqueue q (List.mem_rotate.mp hq)
      rw [if_pos hr]
      simp only [exchange_spec r hcaches hqueue, List.foldl_cons, if_pos hr]
      simpa [hr, turned] using ih hcaches' hqueue'
    · rw [if_neg hr, append_assoc, ih hcaches
        (List.forall_mem_append.mpr ⟨hqueue, List.forall_mem_singleton.mpr hr⟩)]
      simp [hr, turned]

theorem turned_perm (queue rescs : List RescInfo) :
    (turned queue rescs).Perm (queue ++ rescs.filter (! ·.classType = CACHE_CL)) := by
  induction rescs generalizing queue with
  | nil => simp [turned]
  | cons r rescs ih =>
    unfold turned at ih ⊢
    rw [List.foldl_cons]
    split
    · rename_i hr
      simpa [hr] using (ih _).trans ((queue.rotate_perm 1).append_right _)
    · rename_i hr
      simpa [hr] using ih (queue ++ [r])

/-- Caches, archives, the others. -/
def rank (cl : Nat) : Nat := min cl 2

/-- The classes are in order exactly if the resources that are no caches come out of the queue with
the archives first: the loop that should float them never runs. -/
theorem sortRescByType_iff (rescs : List RescInfo) :
    ((sortRescByType rescs).Perm rescs ∧
      (sortRescByType rescs).Pairwise (fun a b => rank a.classType ≤ rank b.classType) ∧
      ∀ infos, Queued infos (infos.foldl (queRescGrp · · .byType) [])) ↔
    (turned [] rescs).Pairwise fun a b => b.classType = ARCHIVAL_CL → a.classType = ARCHIVAL_CL := by
  have hsort : sortRescByType rescs = rescs.filter (·.classType = CACHE_CL) ++ turned [] rescs :=
    @floatLoop_spec [] [] rescs nofun nofun
  have hturned := turned_perm [] rescs
  have hothers : ∀ r ∈ turned [] rescs, r.classType ≠ CACHE_CL := fun r hr => by
    simpa using (List.mem_filter.mp (hturned.subset hr)).2
  have hcaches : ∀ r ∈ rescs.filter (·.classType = CACHE_CL), r.classType = CACHE_CL := fun r hr => by
    simpa using (List.mem_filter.mp hr).2
  have hperm : (sortRescByType rescs).Perm rescs :=
    hsort ▸ (hturned.append_left _).trans (List.filter_append_perm _ rescs)
  rw [and_iff_right hperm, and_iff_left queued_foldl, hsort, pairwise_append]
  have hrank (cl : Nat) (h : cl ≠ CACHE_CL) : 0 < cl := Nat.pos_of_ne_zero h
  constructor
  · rintro ⟨-, hpair, -⟩
    refine hpair.imp_of_mem fun ha _ hle hb => ?_
    have := hrank _ (hothers _ ha)
    unfold rank ARCHIVAL_CL at *
    omega
  · intro hpair
    refine ⟨?_, hpair.imp_of_mem fun ha hb himp => ?_, fun a ha b _ => ?_⟩
    · exact List.pairwise_of_forall_mem_list fun a ha b hb => by rw [hcaches a ha, hcaches b hb]
    · have ha := hrank _ (hothers _ ha)
      have hb := hrank _ (hothers _ hb)
      unfold rank ARCHIVAL_CL at *
      omega
    · rw [hcaches a ha]
      exact Nat.zero_le _

/-- An archive behind another resource stays there. -/
theorem sortRescByType_archive : ¬ (sortRescByType [⟨['d'], 2, 0⟩, ⟨['a'], ARCHIVAL_CL, 0⟩]).Pairwise
    (fun a b => rank a.classType ≤ rank b.classType) := by decide

/-! ## The preferred resource -/

/-- `&value[j * size]`, as long as it is not in front of the block. -/
def nameAt (strArray : StrArray) (j : Int) : Option Text :=
  if j < 0 then none else CBuffer.textAt strArray.value (j.toNat * strArray.size.toNat)

/-- `random` is the number that is drawn. -/
def startInx (random len : Nat) : Nat := if len ≤ 1 then 0 else random % len

/-- The index in the turn `i`. -/
def turnInx (len startInx i : Nat) : Int :=
  let j : Int := startInx + i
  if j ≥ len then len - j else j

/-- Whether the member is meant by the name and can be reached. -/
def RescInfo.reachable (r : RescInfo) (name : Text) : Bool :=
  name = r.rescName ∧ r.rescStatus ≠ INT_RESC_STATUS_DOWN

/-- The first reachable member with the name goes to the top. -/
def putOnTop (name : Text) : (before after : List RescInfo) → List RescInfo
  | before, [] => before
  | before, r :: after =>
    if r.reachable name then r :: (before ++ after) else putOnTop name (before ++ [r]) after

/-- `none` where a name is read in front of the block. -/
def preferred (strArray : StrArray) (startInx : Nat) (group : List RescInfo) : Option (List RescInfo) :=
  (List.range strArray.len).foldlM
    (fun group i => return putOnTop (← nameAt strArray (turnInx strArray.len startInx i)) [] group) group

variable (name : Text) (before after : List RescInfo)

theorem putOnTop_perm : (putOnTop name before after).Perm (before ++ after) := by
  induction after generalizing before with
  | nil => rw [putOnTop, List.append_nil]
  | cons r after ih =>
    unfold putOnTop
    split
    · exact List.perm_middle.symm
    · simpa using ih (before ++ [r])

theorem putOnTop_top {after : List RescInfo}
    (h : after.any (·.reachable name)) : ∃ r ∈ (putOnTop name before after).head?, r.reachable name := by
  induction after generalizing before with
  | nil => cases h
  | cons r after ih =>
    unfold putOnTop
    split
    · rename_i hr
      exact ⟨r, rfl, hr⟩
    · rename_i hr
      exact ih _ (by simpa [hr] using h)

theorem putOnTop_none {name : Text} {after : List RescInfo} (before : List RescInfo)
    (h : ¬ after.any (·.reachable name)) : putOnTop name before after = before ++ after := by
  induction after generalizing before with
  | nil => rw [putOnTop, List.append_nil]
  | cons r after ih =>
    simp only [List.any_cons, Bool.or_eq_true, not_or] at h
    rw [putOnTop, if_neg h.1, ih _ h.2, append_assoc, List.singleton_append]

theorem putOnTop_foldl (names : List Text) (group : List RescInfo) :
    let group' := names.foldl (fun group name => putOnTop name [] group) group
    group'.Perm group ∧
      ∀ name ∈ (names.filter fun name => group.any (·.reachable name)).getLast?,
        ∃ r ∈ group'.head?, r.reachable name := by
  induction names using List.reverseRecOn with
  | nil => exact ⟨.refl _, nofun⟩
  | append_singleton names name ih =>
    obtain ⟨hperm, htop⟩ := ih
    rw [List.foldl_concat]
    set group' := names.foldl (fun group name => putOnTop name [] group) group with hgroup'
    have hany : group'.any (·.reachable name) = group.any (·.reachable name) := hperm.any_eq
    refine ⟨(putOnTop_perm name [] group').trans hperm, fun n hn => ?_⟩
    rw [filter_append] at hn
    cases hmember : group.any (·.reachable name) with
    | true =>
      obtain rfl : name = n := by simpa [hmember] using hn
      exact putOnTop_top name [] (hany.trans hmember)
    | false =>
      rw [putOnTop_none [] (by simp [hany, hmember])]
      exact htop n (by simpa [hmember] using hn)

/-- Each name once, from the start on and around, and the last one that is a reachable member is on top. -/
structure Preferred (names : List Text) (strArray : StrArray) (startInx : Nat) (group : List RescInfo) : Prop where
  inx : ∀ i < names.length, turnInx strArray.len startInx i = ((startInx + i) % names.length : Nat)
  top : ∃ group', preferred strArray startInx group = some group' ∧ group'.Perm group ∧
    ∀ name ∈ ((names.rotate startInx).filter fun name => group.any (·.reachable name)).getLast?,
      ∃ r ∈ group'.head?, r.reachable name

theorem preferred_eq {names : List Text} {strArray : StrArray} {startInx : Nat} (group : List RescInfo)
    (h : strArray.Shows names)
    (hinx : ∀ i < names.length, turnInx strArray.len startInx i = ((startInx + i) % names.length : Nat)) :
    preferred strArray startInx group =
      some ((names.rotate startInx).foldl (fun group name => putOnTop name [] group) group) := by
  have hread (i : Nat) (hi : i < names.length) :
      nameAt strArray (turnInx strArray.len startInx i) = (names.rotate startInx)[i]? := by
    have hlt : (startInx + i) % names.length < names.length := Nat.mod_lt _ (by omega)
    rw [hinx i hi, nameAt, if_neg (by omega), Int.toNat_natCast, h.laid.textAt hlt,
      List.getElem?_eq_getElem (by simpa using hi), List.getElem_rotate]
    simp only [Nat.add_comm]
  have hsteps (n : Nat) (hn : n ≤ names.length) : (List.range n).foldlM (fun group i =>
        return putOnTop (← nameAt strArray (turnInx strArray.len startInx i)) [] group) group =
      some (((names.rotate startInx).take n).foldl (fun group name => putOnTop name [] group) group) := by
    induction n with
    | zero => rfl
    | succ n ih =>
      have hlt : n < (names.rotate startInx).length := by rwa [List.length_rotate]
      rw [List.range_succ, List.foldlM_append, ih (by omega), List.take_succ_eq_append_getElem hlt, List.foldl_concat]
      simp [hread n hn, List.getElem?_eq_getElem hlt]
  rw [preferred, hsteps _ h.len.le, h.len, List.take_of_length_le (by simp)]

/-- The index falls below 0 in a turn behind the one that comes to the length of the list. -/
theorem preferred_iff (random : Nat) (group : List RescInfo) {defaultRescList : Text}
    (hnul : CBuffer.nul ∉ defaultRescList) :
    ∃ strArray, StrArray.parseMultiStr defaultRescList .empty = some (strArray.len, strArray) ∧
      (Preferred (StrArray.pieces defaultRescList) strArray (startInx random strArray.len) group ↔
        (StrArray.pieces defaultRescList).length ≤ 1 ∨
          random % (StrArray.pieces defaultRescList).length ≤ 1) := by
  obtain ⟨strArray, hparse, hshows⟩ := StrArray.parseMultiStr_spec StrArray.shows_empty hnul
  rw [nil_append] at hshows
  refine ⟨strArray, hparse, ?_⟩
  set names := StrArray.pieces defaultRescList
  rw [hshows.len]
  have hstart : (names.length ≤ 1 ∨ random % names.length ≤ 1) ↔ startInx random names.length ≤ 1 := by
    unfold startInx
    split
    · simp [*]
    · simp [*]
  rw [hstart]
  constructor
  · intro h
    by_contra hlarge
    have hlt : startInx random names.length < names.length := by
      unfold startInx at hlarge ⊢
      split at hlarge
      · omega
      · rename_i hlen
        rw [if_neg hlen]
        exact Nat.mod_lt _ (by omega)
    have := h.inx (names.length - 1) (by omega)
    rw [turnInx, hshows.len, if_pos (by omega)] at this
    omega
  · intro hle
    have hinx : ∀ i < names.length, turnInx strArray.len (startInx random names.length) i =
        ((startInx random names.length + i) % names.length : Nat) := by
      intro i hi
      rw [turnInx, hshows.len]
      by_cases hwrap : startInx random names.length + i < names.length
      · rw [if_neg (by omega), Nat.mod_eq_of_lt hwrap]
        push_cast
        rfl
      · obtain heq : startInx random names.length + i = names.length := by omega
        rw [if_pos (by omega), heq, Nat.mod_self]
        omega
    exact ⟨hinx, _, preferred_eq group hshows hinx, by simpa using putOnTop_foldl (names.rotate _) group⟩

theorem preferred_iff_two : ∃ strArray, StrArray.parseMultiStr "a%b".toList .empty = some (strArray.len, strArray) ∧
    (Preferred (StrArray.pieces "a%b".toList) strArray (startInx 3 strArray.len) [⟨['b'], 0, 0⟩, ⟨['a'], 0, 0⟩] ↔
      (StrArray.pieces "a%b".toList).length ≤ 1 ∨ 3 % (StrArray.pieces "a%b".toList).length ≤ 1) :=
  preferred_iff 3 [⟨['b'], 0, 0⟩, ⟨['a'], 0, 0⟩] (by decide)

/-- Of three names from the last one on, the third is read in front of the block. -/
theorem preferred_below : ∃ strArray,
    StrArray.parseMultiStr "a%b%c".toList .empty = some (strArray.len, strArray) ∧
      turnInx strArray.len (startInx 2 strArray.len) 2 = -1 ∧
      preferred strArray (startInx 2 strArray.len) [⟨['a'], 0, 0⟩] = none := by
  obtain ⟨strArray, hparse, hshows⟩ := @StrArray.parseMultiStr_spec _ _ "a%b%c".toList StrArray.shows_empty (by decide)
  have hlen : strArray.len = 3 := hshows.len
  refine ⟨strArray, hparse, by rw [hlen]; rfl, ?_⟩
  have hneg : nameAt strArray (turnInx 3 2 2) = none := rfl
  simp only [preferred, hlen, startInx, List.range_succ, List.foldlM_append, List.foldlM_cons]
  simp [hneg]

end ResourceGroups
