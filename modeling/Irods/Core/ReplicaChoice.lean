-- SUMMARY: Which replicas are offered for opening and copying, and in what order.
import Irods.Api.RodsDef
import Irods.Core.Trim

/-!
# Replicas for opening

`sortObjInfoForOpen`, `sortObjInfoForRepl` and `requeDataObjInfoByResc` of `dataObjOpr.c`, on
replicas of which the resource may be unresolved. `none` stands for reading through a NULL
`rescInfo`. What is freed is kept as a list.
-/

namespace ReplicaChoice

open CString
open List (append_assoc append_nil filter_congr)
open Trim (RescClassType getValByKey queDataObjInfo)
open Option (bind_eq_bind bind_eq_some_iff bind_some isSome_iff_exists)

def SYS_RESC_IS_DOWN : Int := -105000

def destRescNameKW : Text := "destRescName".toList
def defRescNameKW : Text := "defRescName".toList
def backupRescNameKW : Text := "backupRescName".toList

structure RescInfo extends Trim.RescInfo where
  rescName : Text
  deriving DecidableEq

structure DataObjInfo where
  rescInfo : Option RescInfo
  rescGroupName : Text
  replStatus : Int
  deriving DecidableEq

def DataObjInfo.current (info : DataObjInfo) : Bool := 0 < info.replStatus

/-! ## Sorting -/

inductive Queue where
  | currentCache | currentArch | currentComp | currentBundle
  | oldCache | oldArch | oldComp | oldBundle
  | downCurrent | downOld
  deriving DecidableEq

def classQueue (current : Bool) : RescClassType → Queue
  | .archival => if current then .currentArch else .oldArch
  | .compound => if current then .currentComp else .oldComp
  | .bundle => if current then .currentBundle else .oldBundle
  | .other => if current then .currentCache else .oldCache

/-- The queue of a replica, and whether it goes to the top. The class is read from `rescInfo` even
where that was found to be NULL. -/
def place (info : DataObjInfo) : Option (Queue × Bool) := do
  let r ← info.rescInfo
  match r.rodsServerHost with
  | none => return (classQueue info.current r.classType, false)
  | some host =>
    if r.rescStatusDown then return (if info.current then .downCurrent else .downOld, true)
    else return (classQueue info.current r.classType, host = .local)

def sortLoop : List DataObjInfo → (Queue → List DataObjInfo) → Option (Queue → List DataObjInfo)
  | [], queues => some queues
  | info :: infos, queues => do
    let (q, topFlag) ← place info
    sortLoop infos (Function.update queues q (queDataObjInfo (queues q) [info] topFlag))

structure Sorted where
  currentCache : List DataObjInfo
  currentArch : List DataObjInfo
  oldCache : List DataObjInfo
  oldArch : List DataObjInfo
  downCurrent : List DataObjInfo
  downOld : List DataObjInfo

def sortObjInfo (infos : List DataObjInfo) : Option Sorted := do
  let queues ← sortLoop infos fun _ => []
  return {
    currentCache := queues .currentCache
    currentArch := queues .currentArch ++ queues .currentComp ++ queues .currentBundle
    oldCache := queues .oldCache
    oldArch := queues .oldArch ++ queues .oldComp ++ queues .oldBundle
    downCurrent := queues .downCurrent
    downOld := queues .downOld }

/-! ## The preferred resource -/

/-- On the resource, or in the group. -/
def DataObjInfo.isOn (preferredResc : Text) (info : DataObjInfo) : Bool :=
  match info.rescInfo with
  | none => false
  | some r => preferredResc = r.rescName ∨ preferredResc = info.rescGroupName

/-- The status and the list; `before` is what the loop has passed. -/
def requeLoop (preferredResc : Text) (writeFlag : Int) (topFlag : Bool) :
    (before after : List DataObjInfo) → (status : Int) → Int × List DataObjInfo
  | before, [], status => (status, before)
  | before, info :: after, status =>
    if info.isOn preferredResc ∧ (0 < writeFlag ∨ info.current) then
      if topFlag then (0, info :: (before ++ after))
      else if before = [] then requeLoop preferredResc writeFlag topFlag [info] after 0
      -- nothing is behind it at the bottom, so that the loop ends
      else (0, before ++ after ++ [info])
    else requeLoop preferredResc writeFlag topFlag (before ++ [info]) after status

def requeDataObjInfoByResc (infos : List DataObjInfo) (preferredResc : Option Text) (writeFlag : Int)
    (topFlag : Bool) : Option (Int × List DataObjInfo) :=
  match preferredResc, infos with
  | none, infos => some (0, infos)
  | some _, [] => some (0, [])
  | some resc, [info] => do
    let r ← info.rescInfo
    return (if resc = r.rescName ∨ resc = info.rescGroupName then 0 else -1, [info])
  | some resc, infos => some (requeLoop resc writeFlag topFlag [] infos (-1))

/-! ## Opening and copying -/

/-- Of the resource that is asked for; `getRescInfo` is the status of `_getRescInfo` for a name. -/
def getRescStatus (getRescInfo : Text → Int) (condInput : Trim.KeyValPair) : Int :=
  match (getValByKey condInput backupRescNameKW).or
      ((getValByKey condInput destRescNameKW).or (getValByKey condInput defRescNameKW)) with
  | none => INT_RESC_STATUS_DOWN
  | some rescName => if getRescInfo rescName < 0 then INT_RESC_STATUS_DOWN else INT_RESC_STATUS_UP

def preferred (condInput : Trim.KeyValPair) : Option Text :=
  (getValByKey condInput destRescNameKW).or
    ((getValByKey condInput defRescNameKW).or (getValByKey condInput backupRescNameKW))

structure Chosen where
  status : Int
  head : List DataObjInfo
  freed : List DataObjInfo

def sortObjInfoForOpen (getRescInfo : Text → Int) (infos : List DataObjInfo) (condInput : Trim.KeyValPair)
    (writeFlag : Int) : Option Chosen := do
  let s ← sortObjInfo infos
  let head := s.currentCache ++ s.currentArch
  let old := s.oldCache ++ s.oldArch
  let down := s.downCurrent ++ s.downOld
  if writeFlag = 0 then
    if head ≠ [] then return ⟨0, head, old ++ down⟩
    else if s.downCurrent ≠ [] then return ⟨SYS_RESC_IS_DOWN, [], old ++ down⟩
    else return ⟨0, old, down⟩
  else if head ++ old = [] then
    if getRescStatus getRescInfo condInput = INT_RESC_STATUS_DOWN then return ⟨SYS_RESC_IS_DOWN, [], down⟩
    else return ⟨0, down, []⟩
  else
    let (_, head) ← requeDataObjInfoByResc (head ++ old) (preferred condInput) writeFlag true
    return ⟨0, head, down⟩

/-- The choice, and the old copies that are kept aside. -/
def sortObjInfoForRepl (infos : List DataObjInfo) (deleteOldFlag : Int) : Option (Chosen × List DataObjInfo) := do
  let s ← sortObjInfo infos
  let head := s.currentCache ++ s.currentArch ++ s.downCurrent
  let old := s.oldCache ++ s.oldArch
  if head ≠ [] then
    if deleteOldFlag = 0 then return (⟨0, head, s.downOld⟩, old) else return (⟨0, head, s.downOld ++ old⟩, [])
  else return (⟨if old = [] then SYS_RESC_IS_DOWN else 0, old, s.downOld⟩, [])

/-! ## What is asked of the order -/

/-- The server of the resource is known and the resource is marked as down. -/
def DataObjInfo.down (info : DataObjInfo) : Bool :=
  info.rescInfo.any fun r => r.rescStatusDown && r.rodsServerHost.isSome

def classRank : RescClassType → Nat
  | .other => 0
  | .archival => 1
  | .compound => 2
  | .bundle => 3

/-- Current before old, then by class, then the local host before others. -/
def DataObjInfo.rank (info : DataObjInfo) : Nat :=
  (if info.current then 0 else 8) + info.rescInfo.elim 0 fun r =>
    2 * classRank r.classType + if r.rodsServerHost = some .local then 0 else 1

/-- The first element with a property in front of the others. -/
def toFront (p : DataObjInfo → Bool) (infos : List DataObjInfo) : List DataObjInfo :=
  match infos.find? p with
  | none => infos
  | some info => info :: infos.eraseP p

/-- Exactly the current replicas that can be reached, or the old ones if there are no current ones at all. -/
structure Chosen.ForRead (out : Chosen) (infos : List DataObjInfo) : Prop where
  order : out.head.Pairwise fun a b => a.rank ≤ b.rank
  status : out.status =
    if (∃ info ∈ infos, info.current) ∧ ∀ info ∈ infos, info.current → info.down then SYS_RESC_IS_DOWN else 0
  head : out.head.Perm (infos.filter fun info => !info.down && (info.current || !infos.any (·.current)))

/-- Exactly the replicas that can be reached, the first one on the preferred resource in front. -/
def Chosen.ForWrite (out : Chosen) (infos : List DataObjInfo) (condInput : Trim.KeyValPair) : Prop :=
  ∃ order, order.Perm (infos.filter fun info => !info.down) ∧ (order.Pairwise fun a b => a.rank ≤ b.rank) ∧
    out.head = (preferred condInput).elim order fun resc => toFront (·.isOn resc) order

/-! ## The queues -/

def Queue.down (q : Queue) : Bool := q = .downCurrent ∨ q = .downOld

def Queue.current (q : Queue) : Bool := q ∈ [.currentCache, .currentArch, .currentComp, .currentBundle, .downCurrent]

def Queue.rank : Queue → Nat
  | .currentCache => 0
  | .currentArch => 2
  | .currentComp => 4
  | .currentBundle => 6
  | .oldCache => 8
  | .oldArch => 10
  | .oldComp => 12
  | .oldBundle => 14
  | _ => 16

theorem classQueue_spec (current : Bool) (classType : RescClassType) :
    (classQueue current classType).down = false ∧ (classQueue current classType).current = current ∧
      (classQueue current classType).rank = (if current then 0 else 8) + 2 * classRank classType := by
  cases current <;> cases classType <;> exact ⟨rfl, rfl, rfl⟩

section

variable {infos : List DataObjInfo} {info : DataObjInfo} {q : Queue}

/-- What the queue of a replica tells of it. -/
theorem place_spec {topFlag : Bool} (h : place info = some (q, topFlag)) :
    q.down = info.down ∧ q.current = info.current ∧
      (q.down = false → info.rank = q.rank + if topFlag then 0 else 1) := by
  obtain ⟨r, hr, h⟩ := bind_eq_some_iff.mp h
  obtain ⟨hdown, hcurrent, hrank⟩ := classQueue_spec info.current r.classType
  have hinfo : info.down = (r.rescStatusDown && r.rodsServerHost.isSome) := by rw [DataObjInfo.down, hr]; rfl
  have hplace : info.rank = (classQueue info.current r.classType).rank +
      if r.rodsServerHost = some .local then 0 else 1 := by
    rw [DataObjInfo.rank, hr, hrank, Nat.add_assoc]
    rfl
  cases hhost : r.rodsServerHost with
  | none =>
    rw [hhost] at h hinfo hplace
    cases h
    exact ⟨by rw [hdown, hinfo, Option.isSome_none, Bool.and_false], hcurrent, fun _ => hplace⟩
  | some host =>
    simp only [hhost, Option.isSome_some, Bool.and_true] at h hinfo hplace
    split at h
    · rename_i hmarked
      cases h
      rw [hinfo, hmarked]
      cases info.current <;> exact ⟨rfl, rfl, nofun⟩
    · rename_i hmarked
      cases h
      exact ⟨by rw [hdown, hinfo, Bool.eq_false_of_not_eq_true hmarked], hcurrent, fun _ => by simpa using hplace⟩

theorem place_isSome : (place info).isSome = info.rescInfo.isSome := by
  unfold place
  cases info.rescInfo with
  | none => rfl
  | some r => simp only [bind_eq_bind, bind_some]; split <;> [rfl; (split <;> rfl)]

/-- What a queue holds in the end: those that went to its top, the last one first, and the others. -/
def placed (infos : List DataObjInfo) (q : Queue) : List DataObjInfo :=
  (infos.filter (place · = some (q, true))).reverse ++ infos.filter (place · = some (q, false))

theorem sortLoop_eq (h : ∀ info ∈ infos, info.rescInfo.isSome) (queues : Queue → List DataObjInfo) :
    sortLoop infos queues = some fun q => (infos.filter (place · = some (q, true))).reverse ++ queues q ++
      infos.filter (place · = some (q, false)) := by
  induction infos generalizing queues with
  | nil => simp [sortLoop]
  | cons info infos ih =>
    obtain ⟨⟨q, topFlag⟩, hplace⟩ := isSome_iff_exists.mp (place_isSome.trans (h info List.mem_cons_self))
    simp only [sortLoop, hplace, bind_eq_bind, bind_some]
    rw [ih fun i hi => h i (List.mem_cons_of_mem _ hi)]
    congr 1
    funext q'
    by_cases hq : q' = q
    · subst hq
      cases topFlag <;> simp [hplace, queDataObjInfo]
    · simp [hplace, hq, Ne.symm hq]

theorem sortLoop_resolved {queues result : Queue → List DataObjInfo} (h : sortLoop infos queues = some result) :
    ∀ info ∈ infos, info.rescInfo.isSome := by
  induction infos generalizing queues with
  | nil => nofun
  | cons info infos ih =>
    obtain ⟨r, hplace, hrest⟩ := bind_eq_some_iff.mp h
    exact List.forall_mem_cons.mpr ⟨place_isSome ▸ Option.isSome_of_eq_some hplace, ih hrest⟩

theorem filter_or_perm {p r : DataObjInfo → Bool} (hdisjoint : ∀ a, p a = true → r a = false) :
    (infos.filter p ++ infos.filter r).Perm (infos.filter fun a => p a || r a) := by
  induction infos with
  | nil => exact .refl _
  | cons a infos ih =>
    cases hp : p a with
    | true => simpa [hp, hdisjoint a hp] using ih
    | false =>
      cases hr : r a with
      | true => simpa [hp, hr] using List.perm_middle.trans (ih.cons a)
      | false => simpa [hp, hr] using ih

theorem placed_perm (qs : List Queue) (hqs : qs.Nodup) :
    (qs.flatMap (placed infos)).Perm (infos.filter fun info => (place info).any (·.1 ∈ qs)) := by
  induction qs with
  | nil => simp
  | cons q qs ih =>
    obtain ⟨hq, hqs⟩ := List.nodup_cons.mp hqs
    have hone : (placed infos q).Perm (infos.filter fun info => (place info).any (·.1 = q)) := by
      refine ((List.reverse_perm _).append_right _).trans ((filter_or_perm fun a ha => ?_).trans (.of_eq ?_))
      · simp_all
      · refine filter_congr fun info _ => ?_
        rcases place info with _ | ⟨q', _ | _⟩ <;> simp
    refine (hone.append (ih hqs)).trans ((filter_or_perm fun a ha => ?_).trans (.of_eq ?_))
    · rcases hplace : place a with _ | ⟨q', topFlag⟩
      · rfl
      · obtain rfl : q' = q := by simpa [hplace] using ha
        simpa using hq
    · refine filter_congr fun info _ => ?_
      cases place info <;> simp

/-- Queues in the order of their ranks make one list in the order of the ranks. -/
theorem placed_pairwise (qs : List Queue) (hup : ∀ q ∈ qs, q.down = false)
    (hqs : qs.Pairwise fun q q' => q.rank + 2 ≤ q'.rank) :
    (qs.flatMap (placed infos)).Pairwise fun a b => a.rank ≤ b.rank := by
  have hrank : ∀ q ∈ qs, ∀ topFlag, ∀ a ∈ infos.filter (place · = some (q, topFlag)),
      a.rank = q.rank + if topFlag then 0 else 1 := fun q hq topFlag a ha =>
    (place_spec (by simpa using (List.mem_filter.mp ha).2)).2.2 (hup q hq)
  have hsides : ∀ q ∈ qs, ∀ a ∈ placed infos q, q.rank ≤ a.rank ∧ a.rank ≤ q.rank + 1 := by
    intro q hq a ha
    rcases List.mem_append.mp ha with ha | ha
    · have h := hrank q hq true a (List.mem_reverse.mp ha)
      exact ⟨h.ge, h.le.trans (Nat.le_succ _)⟩
    · have h := hrank q hq false a ha
      exact ⟨(Nat.le_succ _).trans h.ge, h.le⟩
  refine List.pairwise_flatMap.mpr ⟨fun q hq => List.pairwise_append.mpr ⟨?_, ?_, ?_⟩, ?_⟩
  · refine List.pairwise_reverse.mpr (List.pairwise_of_forall_mem_list fun a ha b hb => ?_)
    rw [hrank q hq true a ha, hrank q hq true b hb]
  · refine List.pairwise_of_forall_mem_list fun a ha b hb => ?_
    rw [hrank q hq false a ha, hrank q hq false b hb]
  · intro a ha b hb
    rw [hrank q hq true a (List.mem_reverse.mp ha), hrank q hq false b hb]
    exact Nat.le_succ _
  · refine hqs.imp_of_mem fun hq hq' hlt a ha b hb => ?_
    have h := (hsides _ hq a ha).2
    have h' := (hsides _ hq' b hb).1
    omega

/-- The lists that sorting makes of resolved replicas. -/
structure Sorted.Of (s : Sorted) (infos : List DataObjInfo) : Prop where
  current : (s.currentCache ++ s.currentArch).Perm (infos.filter fun info => info.current && !info.down)
  reached : (s.currentCache ++ s.currentArch ++ (s.oldCache ++ s.oldArch)).Perm (infos.filter fun info => !info.down)
  order : (s.currentCache ++ s.currentArch ++ (s.oldCache ++ s.oldArch)).Pairwise fun a b => a.rank ≤ b.rank
  downCurrent : s.downCurrent.Perm (infos.filter fun info => info.current && info.down)
  all : (s.currentCache ++ s.currentArch ++ (s.oldCache ++ s.oldArch) ++ (s.downCurrent ++ s.downOld)).Perm infos

theorem sortObjInfo_of (h : ∀ info ∈ infos, info.rescInfo.isSome) :
    ∃ s, sortObjInfo infos = some s ∧ s.Of infos := by
  have hperm : ∀ (qs : List Queue) (p : DataObjInfo → Bool), qs.Nodup →
      (∀ info q, q.down = info.down → q.current = info.current → p info = decide (q ∈ qs)) →
      (qs.flatMap (placed infos)).Perm (infos.filter p) := by
    refine fun qs p hqs hp => (placed_perm qs hqs).trans (.of_eq (filter_congr fun info hinfo => ?_))
    obtain ⟨⟨q, topFlag⟩, hplace⟩ := isSome_iff_exists.mp (place_isSome.trans (h info hinfo))
    obtain ⟨hdown, hcurrent, -⟩ := place_spec hplace
    rw [hplace, hp info q hdown hcurrent]
    rfl
  have hcurrent := hperm [.currentCache, .currentArch, .currentComp, .currentBundle]
    (fun info => info.current && !info.down) (by decide) fun _ q hd hc => by rw [← hd, ← hc]; cases q <;> rfl
  have hreached := hperm [.currentCache, .currentArch, .currentComp, .currentBundle, .oldCache, .oldArch, .oldComp,
    .oldBundle] (fun info => !info.down) (by decide) fun _ q hd _ => by rw [← hd]; cases q <;> rfl
  have hdown := hperm [.downCurrent] (fun info => info.current && info.down) (by decide)
    fun _ q hd hc => by rw [← hd, ← hc]; cases q <;> rfl
  have hall := hperm [.currentCache, .currentArch, .currentComp, .currentBundle, .oldCache, .oldArch, .oldComp,
    .oldBundle, .downCurrent, .downOld] (fun _ => true) (by decide) fun _ q _ _ => by cases q <;> rfl
  have horder := @placed_pairwise infos [.currentCache, .currentArch, .currentComp, .currentBundle,
    .oldCache, .oldArch, .oldComp, .oldBundle] (by decide) (by decide)
  rw [List.filter_true] at hall
  have hloop : sortLoop infos (fun _ => []) = some (placed infos) := by
    rw [sortLoop_eq h]
    simp only [append_nil]
    rfl
  refine ⟨_, by rw [sortObjInfo, hloop]; rfl, ?_⟩
  simp only [List.flatMap_cons, List.flatMap_nil, append_nil] at hcurrent hreached hdown hall horder
  constructor <;> simpa only [append_assoc]

end

/-! ## The preferred resource in front -/

theorem requeLoop_perm (resc : Text) (writeFlag : Int) (topFlag : Bool) (before after : List DataObjInfo)
    (status : Int) : (requeLoop resc writeFlag topFlag before after status).2.Perm (before ++ after) := by
  induction after generalizing before status with
  | nil => rw [requeLoop, append_nil]
  | cons info after ih =>
    have hgo := fun status => ih (before ++ [info]) status
    rw [append_assoc, List.singleton_append] at hgo
    unfold requeLoop
    split
    · split
      · exact List.perm_middle.symm
      · split
        · rename_i hbefore
          simpa [hbefore] using hgo 0
        · rw [append_assoc]
          exact (List.perm_append_singleton info after).append_left before
    · exact hgo status

theorem requeLoop_front {writeFlag : Int} (hwrite : 0 < writeFlag) (resc : Text) (before after : List DataObjInfo)
    (status : Int) : (requeLoop resc writeFlag true before after status).2 =
      match after.find? (·.isOn resc) with
      | none => before ++ after
      | some info => info :: (before ++ after.eraseP (·.isOn resc)) := by
  induction after generalizing before status with
  | nil => rw [requeLoop, List.find?_nil, append_nil]
  | cons info after ih =>
    unfold requeLoop
    cases hon : info.isOn resc with
    | true => simp [hon, hwrite]
    | false =>
      rw [if_neg (by simp), ih]
      cases hfind : after.find? (·.isOn resc) <;> simp [hon, hfind]

theorem requeDataObjInfoByResc_eq {infos : List DataObjInfo} (h : ∀ info ∈ infos, info.rescInfo.isSome)
    (preferredResc : Option Text) (writeFlag : Int) (topFlag : Bool) :
    ∃ status head, requeDataObjInfoByResc infos preferredResc writeFlag topFlag = some (status, head) ∧
      head.Perm infos ∧ (0 < writeFlag → topFlag = true →
        head = preferredResc.elim infos fun resc => toFront (·.isOn resc) infos) := by
  unfold requeDataObjInfoByResc
  split
  · exact ⟨_, _, rfl, .refl _, fun _ _ => rfl⟩
  · exact ⟨_, _, rfl, .refl _, fun _ _ => rfl⟩
  · rename_i resc info
    obtain ⟨r, hr⟩ := isSome_iff_exists.mp (h info List.mem_cons_self)
    refine ⟨_, _, by rw [hr]; rfl, .refl _, fun _ _ => ?_⟩
    cases hon : info.isOn resc <;> simp [toFront, hon]
  · rename_i resc _ _
    refine ⟨_, _, rfl, requeLoop_perm resc writeFlag topFlag [] infos (-1), fun hwrite htop => ?_⟩
    subst htop
    rw [requeLoop_front hwrite]
    rfl

/-! ## The choice -/

section

variable (getRescInfo : Text → Int) {infos : List DataObjInfo} (hresolved : ∀ info ∈ infos, info.rescInfo.isSome)
  (condInput : Trim.KeyValPair)

include hresolved

theorem forOpen_read : ∃ out, sortObjInfoForOpen getRescInfo infos condInput 0 = some out ∧
    (out.head ++ out.freed).Perm infos ∧ out.ForRead infos := by
  obtain ⟨s, hs, hof⟩ := sortObjInfo_of hresolved
  have hmem : ∀ info, info ∈ s.currentCache ++ s.currentArch ↔ info ∈ infos ∧ info.current ∧ info.down = false :=
    fun info => by simp [hof.current.mem_iff]
  have hdown : ∀ info, info ∈ s.downCurrent ↔ info ∈ infos ∧ info.current ∧ info.down := fun info => by
    simp [hof.downCurrent.mem_iff]
  have horder := List.pairwise_append.mp hof.order
  have hall := hof.all
  simp only [sortObjInfoForOpen, hs, bind_eq_bind, bind_some, if_true]
  by_cases hhead : s.currentCache ++ s.currentArch = []
  · have hreached := hof.reached
    rw [hhead, List.nil_append] at hreached hall
    simp only [hhead, List.not_mem_nil, false_iff, not_and, Bool.not_eq_false] at hmem
    rw [if_neg (not_not.mpr hhead)]
    by_cases hcurrent : s.downCurrent = []
    · simp only [hcurrent, List.not_mem_nil, false_iff, not_and] at hdown
      have hnone : ∀ info ∈ infos, info.current = false := fun info hi =>
        Bool.eq_false_iff.mpr fun hc => hdown info hi hc (hmem info hi hc)
      rw [if_neg (not_not.mpr hcurrent)]
      refine ⟨_, rfl, hall, horder.2.1, (if_neg fun h => ?_).symm, hreached.trans (.of_eq ?_)⟩
      · obtain ⟨⟨info, hi, hc⟩, -⟩ := h
        exact absurd hc (Bool.eq_false_iff.mp (hnone info hi))
      · exact filter_congr fun info _ => by simpa using fun _ => .inr hnone
    · obtain ⟨info, hinfo⟩ := List.exists_mem_of_ne_nil _ hcurrent
      obtain ⟨hi, hc, -⟩ := (hdown info).mp hinfo
      have hany : infos.any (·.current) = true := List.any_eq_true.mpr ⟨info, hi, hc⟩
      rw [if_pos hcurrent]
      refine ⟨_, rfl, hall, .nil, (if_pos ⟨⟨info, hi, hc⟩, hmem⟩).symm, .of_eq (Eq.symm ?_)⟩
      rw [List.filter_eq_nil_iff]
      intro a ha h
      simp only [hany, Bool.not_true, Bool.or_false, Bool.and_eq_true, Bool.not_eq_true'] at h
      exact absurd (hmem a ha h.2) (Bool.eq_false_iff.mp h.1)
  · obtain ⟨info, hinfo⟩ := List.exists_mem_of_ne_nil _ hhead
    obtain ⟨hi, hc, hup⟩ := (hmem info).mp hinfo
    have hany : infos.any (·.current) = true := List.any_eq_true.mpr ⟨info, hi, hc⟩
    rw [if_pos hhead]
    refine ⟨_, rfl, by rwa [← append_assoc], horder.1, (if_neg fun h => ?_).symm, hof.current.trans (.of_eq ?_)⟩
    · exact absurd (h.2 info hi hc) (Bool.eq_false_iff.mp hup)
    · exact filter_congr fun a _ => by rw [hany, Bool.not_true, Bool.or_false, Bool.and_comm]

theorem forOpen_write {writeFlag : Int} (hwrite : writeFlag ≠ 0) :
    ∃ out, sortObjInfoForOpen getRescInfo infos condInput writeFlag = some out ∧ (out.head ++ out.freed).Perm infos ∧
      (infos ≠ [] → out.status = 0 → out.head ≠ []) ∧
      (0 < writeFlag → (∃ info ∈ infos, info.down = false) → out.ForWrite infos condInput) := by
  obtain ⟨s, hs, hof⟩ := sortObjInfo_of hresolved
  have hall := hof.all
  simp only [sortObjInfoForOpen, hs, bind_eq_bind, bind_some, if_neg hwrite]
  by_cases hhead : s.currentCache ++ s.currentArch ++ (s.oldCache ++ s.oldArch) = []
  · have hnone : ¬ ∃ info ∈ infos, info.down = false := fun ⟨info, hi, hup⟩ => by
      have hmem := hof.reached.mem_iff.mpr (List.mem_filter.mpr ⟨hi, by rw [hup]; rfl⟩)
      rw [hhead] at hmem
      cases hmem
    rw [hhead, List.nil_append] at hall
    rw [if_pos hhead]
    split
    · exact ⟨_, rfl, hall, fun _ => nofun, fun _ h => absurd h hnone⟩
    · refine ⟨_, rfl, by rwa [append_nil], fun hne _ (hnil : _ ++ _ = []) => ?_, fun _ h => absurd h hnone⟩
      rw [hnil] at hall
      exact hne hall.nil_eq.symm
  · have hmem : ∀ info ∈ s.currentCache ++ s.currentArch ++ (s.oldCache ++ s.oldArch), info.rescInfo.isSome :=
      fun info hinfo => hresolved info (hall.subset (List.mem_append_left _ hinfo))
    obtain ⟨status, head, hreque, hperm, hfront⟩ :=
      requeDataObjInfoByResc_eq hmem (preferred condInput) writeFlag true
    rw [if_neg hhead, hreque]
    refine ⟨_, rfl, (hperm.append_right _).trans hall, fun _ _ (hnil : head = []) => ?_,
      fun hpos _ => ⟨_, hof.reached, hof.order, hfront hpos rfl⟩⟩
    rw [hnil] at hperm
    exact hhead hperm.nil_eq.symm

/-- Replicas on resources that are found are offered in the order of their ranks, and the others are freed. -/
theorem replicas_in_order (writeFlag : Int) :
    ∃ out, sortObjInfoForOpen getRescInfo infos condInput writeFlag = some out ∧ (out.head ++ out.freed).Perm infos ∧
      (writeFlag = 0 → out.ForRead infos) ∧
      (0 < writeFlag → (∃ info ∈ infos, info.down = false) → out.ForWrite infos condInput) := by
  by_cases hread : writeFlag = 0
  · subst hread
    obtain ⟨out, hout, hperm, hchosen⟩ := forOpen_read getRescInfo hresolved condInput
    exact ⟨out, hout, hperm, fun _ => hchosen, fun h => absurd h (Int.lt_irrefl 0)⟩
  · obtain ⟨out, hout, hperm, -, hchosen⟩ := forOpen_write getRescInfo hresolved condInput hread
    exact ⟨out, hout, hperm, fun h => absurd h hread, hchosen⟩

end

/-- A replica on a resource of no class in particular. -/
def DataObjInfo.sample (down : Bool) (replStatus : Int) : DataObjInfo :=
  ⟨some ⟨⟨down, .other, some .remote⟩, "demoResc".toList⟩, [], replStatus⟩

theorem replicas_in_order_sample :
    ∃ out, sortObjInfoForOpen (fun _ => 0) [.sample true 1, .sample false 0] [] 0 = some out ∧
      out.ForRead [.sample true 1, .sample false 0] :=
  let ⟨out, hout, _, hread, _⟩ := @replicas_in_order (fun _ => 0)
    [.sample true 1, .sample false 0] (by decide) [] 0
  ⟨out, hout, hread rfl⟩

/-- No NULL is read in any mode, and a status of 0 comes with a replica. -/
def Usable (getRescInfo : Text → Int) (infos : List DataObjInfo) (condInput : Trim.KeyValPair)
    (preferredResc : Option Text) (writeFlag : Int) (topFlag : Bool) (deleteOldFlag : Int) : Prop :=
  (sortObjInfo infos).isSome ∧ (requeDataObjInfoByResc infos preferredResc writeFlag topFlag).isSome ∧
  (∃ out, sortObjInfoForOpen getRescInfo infos condInput writeFlag = some out ∧ (out.status = 0 → out.head ≠ [])) ∧
  ∃ out, sortObjInfoForRepl infos deleteOldFlag = some out ∧ (out.1.status = 0 → out.1.head ≠ [])

theorem forRepl_nonempty {infos : List DataObjInfo} (hresolved : ∀ info ∈ infos, info.rescInfo.isSome)
    (deleteOldFlag : Int) :
    ∃ out, sortObjInfoForRepl infos deleteOldFlag = some out ∧ (out.1.status = 0 → out.1.head ≠ []) := by
  obtain ⟨s, hs, -⟩ := sortObjInfo_of hresolved
  simp only [sortObjInfoForRepl, hs, bind_eq_bind, bind_some]
  split
  · rename_i hhead
    split <;> exact ⟨_, rfl, fun _ => hhead⟩
  · refine ⟨_, rfl, fun (h : (if _ then _ else _) = 0) (hold : _ ++ _ = []) => ?_⟩
    rw [if_pos hold] at h
    cases h

/-- Old replicas that are all down are freed when one is to be read, and the status is 0. -/
theorem usable_iff_resolved (getRescInfo : Text → Int) {infos : List DataObjInfo} (hne : infos ≠ [])
    (condInput : Trim.KeyValPair) (preferredResc : Option Text) (writeFlag : Int) (topFlag : Bool)
    (deleteOldFlag : Int) :
    Usable getRescInfo infos condInput preferredResc writeFlag topFlag deleteOldFlag ↔
      (∀ info ∈ infos, info.rescInfo.isSome) ∧
        ¬ (writeFlag = 0 ∧ ∀ info ∈ infos, info.current = false ∧ info.down) := by
  by_cases hresolved : ∀ info ∈ infos, info.rescInfo.isSome
  · obtain ⟨s, hs, -⟩ := sortObjInfo_of hresolved
    obtain ⟨status, head, hreque, -⟩ := requeDataObjInfoByResc_eq hresolved preferredResc writeFlag topFlag
    have hsort : (sortObjInfo infos).isSome := by rw [hs]; rfl
    have hfront : (requeDataObjInfoByResc infos preferredResc writeFlag topFlag).isSome := by rw [hreque]; rfl
    have hrepl := forRepl_nonempty hresolved deleteOldFlag
    by_cases hread : writeFlag = 0
    · subst hread
      obtain ⟨out, hout, -, -, hstatus, hhead⟩ := forOpen_read getRescInfo hresolved condInput
      refine ⟨fun ⟨_, _, ⟨out', hout', hsome⟩, _⟩ => ⟨hresolved, fun ⟨_, hold⟩ => ?_⟩, fun ⟨_, hsome⟩ =>
        ⟨hsort, hfront, ⟨out, hout, fun hzero hnil => hsome ⟨rfl, ?_⟩⟩, hrepl⟩⟩
      · cases hout.symm.trans hout'
        have hnone : ¬ ∃ info ∈ infos, info.current := fun ⟨info, hi, hc⟩ => by
          rw [(hold info hi).1] at hc
          cases hc
        refine hsome (hstatus.trans (if_neg fun h => hnone h.1)) (List.perm_nil.mp (hhead.trans (.of_eq ?_)))
        exact List.filter_eq_nil_iff.mpr fun info hi => by simp [(hold info hi).2]
      · rw [hnil] at hhead
        have hfree := List.filter_eq_nil_iff.mp hhead.nil_eq.symm
        have hnone : ¬ ∃ info ∈ infos, info.current := fun hany => by
          refine absurd (hzero.symm.trans (hstatus.trans (if_pos ⟨hany, fun info hi hc => ?_⟩))) (by decide)
          simpa [hc] using hfree info hi
        have hold : ∀ info ∈ infos, info.current = false := fun info hi =>
          Bool.eq_false_iff.mpr fun hc => hnone ⟨info, hi, hc⟩
        have hany : infos.any (·.current) = false := by simpa using hold
        exact fun info hi => ⟨hold info hi, by simpa [hany] using hfree info hi⟩
    · obtain ⟨out, hout, -, hsome, -⟩ := forOpen_write getRescInfo hresolved condInput hread
      exact iff_of_true ⟨hsort, hfront, ⟨out, hout, hsome hne⟩, hrepl⟩ ⟨hresolved, fun h => hread h.1⟩
  · refine iff_of_false (fun h => hresolved ?_) fun h => hresolved h.1
    obtain ⟨s, hs⟩ := isSome_iff_exists.mp h.1
    obtain ⟨queues, hqueues, -⟩ := bind_eq_some_iff.mp hs
    exact sortLoop_resolved hqueues

/-- One old copy on a resource that is down: it is freed, and the status is 0. -/
theorem usable_iff_resolved_old : ¬ Usable (fun _ => 0) [.sample true 0] [] none 0 true 0 := fun h =>
  ((usable_iff_resolved (fun _ => 0) (List.cons_ne_nil _ _) [] none 0 true 0).mp h).2 (by decide)

theorem unresolved_not_usable : ¬ Usable (fun _ => 0) [⟨none, [], 1⟩] [] none 0 true 0 := fun h =>
  absurd h.1 (by decide)

end ReplicaChoice
