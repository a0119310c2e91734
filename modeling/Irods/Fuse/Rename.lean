-- SUMMARY: A renamed file that only exists in the local cache is stored under its new name.
import Irods.Fuse.Keeps
import Irods.Fuse.NewlyCreated

/-!
# Renaming a newly created file

Three tables hold the name of a newly created file: its descriptor, its slot among
the newly created files, and its entry in the path cache. A rename changes the first
and the third. A close looks the local cache file up under the name it is given, so
that the three have to agree for the data to be stored.
-/

namespace Fuse

open Cache
open Function (update_of_ne update_self)

/-- The descriptor counts as one of a newly created file. -/
def IFuseDesc.Pending (r : IFuseDesc) : Prop :=
  r.inuseFlag = true ∧ r.locCacheState = .haveNewlyCreatedCache

instance (r : IFuseDesc) : Decidable r.Pending := inferInstanceAs (Decidable (_ ∧ _))

/-- Descriptor `d` has the newly created local cache file `f` open. -/
def Held (s : State) (d f : Nat) : Prop :=
  (s.desc d).Pending ∧ ∃ pos, (s.desc d).iFd = .localFd f pos

/-- A descriptor that now counts as one of a newly created file did so before, under the
same name and for the same local cache file. -/
def IFuseDesc.SameFile (r r' : IFuseDesc) : Prop :=
  r'.Pending → r.Pending ∧ r'.localPath = r.localPath ∧
    ∀ g pos, r'.iFd = .localFd g pos → ∃ pos', r.iFd = .localFd g pos'

/-- The descriptor table: what is not in use is blank, and the entries in use are counted. -/
structure TableOk (s : State) : Prop where
  blank : ∀ d, (s.desc d).inuseFlag = false → s.desc d = .zeroed
  range : ∀ d, (s.desc d).inuseFlag = true → d ∈ State.descRange
  count : s.inuseCnt = State.descRange.countP fun d => (s.desc d).inuseFlag

/-- The tables agree on the file behind `d`: its name has the one entry that owns the
local cache file, no other newly created file has the name, and a slot names it just
when it holds it. -/
structure Track (s : State) (d f : Nat) : Prop where
  kept : s.cache.Keeps (s.desc d).localPath f
  alone : ∀ d', d' ≠ d → (s.desc d').Pending → (s.desc d').localPath ≠ (s.desc d).localPath
  slot : ∀ i, (s.newly i).filePath ≠ [] →
    ((s.newly i).filePath = (s.desc d).localPath ↔ (s.newly i).descInx = d)
  old : f < s.nextFile

/-- Local cache files are numbered in the order of their creation. -/
def Bounded (s : State) : Prop := ∀ g, s.cache.Refs g → g < s.nextFile

/-- No slot that names `p` holds another descriptor than `d`. -/
def SlotOf (s : State) (p : Path) (d : Nat) : Prop :=
  ∀ i, (s.newly i).filePath ≠ [] → (s.newly i).filePath = p → (s.newly i).descInx = d

/-- What happens between `s` and `t` creates and renames nothing, and leaves the local
cache file `f` of `p` alone as long as `d` has it open. -/
structure Follows (now d f : Nat) (p : Path) (s t : State) : Prop where
  table : TableOk s → TableOk t
  pend : TableOk s → ∀ d', (s.desc d').SameFile (t.desc d')
  slots : ∀ i, (t.newly i).filePath ≠ [] →
    (t.newly i).filePath = (s.newly i).filePath ∧ (t.newly i).descInx = (s.newly i).descInx
  nextFile : s.nextFile ≤ t.nextFile
  bounded : Bounded s → Bounded t
  carries : TableOk s → Held t d f → f < s.nextFile → SlotOf s p d → Carries now p f s.cache t.cache

namespace IFuseDesc.SameFile

theorem refl (r : IFuseDesc) : r.SameFile r := fun h => ⟨h, rfl, fun _ pos hg => ⟨pos, hg⟩⟩

variable {r r' : IFuseDesc}

theorem trans {r'' : IFuseDesc} (h₁ : r.SameFile r') (h₂ : r'.SameFile r'') : r.SameFile r'' := by
  intro h
  obtain ⟨h', hpath, hfile⟩ := h₂ h
  obtain ⟨hr, hpath', hfile'⟩ := h₁ h'
  refine ⟨hr, hpath.trans hpath', fun g pos hg => ?_⟩
  obtain ⟨pos', hg'⟩ := hfile g pos hg
  exact hfile' g pos' hg'

theorem of_eq (h : r' = r) : r.SameFile r' := h ▸ refl r

theorem of_not_pending (h : r'.locCacheState ≠ .haveNewlyCreatedCache) : r.SameFile r' :=
  fun hp => absurd hp.2 h

end IFuseDesc.SameFile

/-! ## The descriptor table -/

variable {d : Nat} {s t : State}

theorem mem_descRange : d ∈ State.descRange ↔ 3 ≤ d ∧ d < maxIFuseDesc := by
  unfold State.descRange maxIFuseDesc
  rw [List.mem_range']
  constructor
  · rintro ⟨i, hi, rfl⟩; omega
  · intro h; exact ⟨d - 3, by omega, by omega⟩

theorem descRange_nodup : State.descRange.Nodup := List.nodup_range'

/-- Turning one entry of a list without duplicates on adds one to a count. -/
theorem countP_update {l : List Nat} (hl : l.Nodup) (hd : d ∈ l) {p q : Nat → Bool} (hp : p d = false)
    (hq : q d = true) (h : ∀ d', d' ≠ d → q d' = p d') : l.countP q = l.countP p + 1 := by
  induction l with
  | nil => cases hd
  | cons a l ih =>
    obtain ⟨ha, hl⟩ := List.nodup_cons.mp hl
    obtain rfl | hd := List.mem_cons.mp hd
    · have hrest : l.countP q = l.countP p :=
        List.countP_congr fun x hx => by
          rw [h x fun hxd => ha (hxd ▸ hx)]
      rw [List.countP_cons_of_pos hq, List.countP_cons_of_neg (by simp [hp]), hrest]
    · have hne : a ≠ d := fun had => ha (had ▸ hd)
      rw [List.countP_cons, List.countP_cons, ih hl hd, h a hne]
      omega

theorem TableOk.congr (h : TableOk s) (hdesc : t.desc = s.desc) (hcnt : t.inuseCnt = s.inuseCnt) : TableOk t := by
  refine ⟨?_, ?_, ?_⟩
  · rw [hdesc]; exact h.blank
  · rw [hdesc]; exact h.range
  · rw [hcnt, hdesc]; exact h.count

/-- A descriptor in use is changed and stays in use. -/
theorem TableOk.set (h : TableOk s) (hd : (s.desc d).inuseFlag = true)
    (hothers : ∀ d', d' ≠ d → t.desc d' = s.desc d') (hself : (t.desc d).inuseFlag = true)
    (hcnt : t.inuseCnt = s.inuseCnt) : TableOk t := by
  have hinuse : ∀ d', (t.desc d').inuseFlag = (s.desc d').inuseFlag := by
    intro d'
    by_cases hdd : d' = d
    · subst hdd; exact hself.trans hd.symm
    · rw [hothers d' hdd]
  refine ⟨fun d' hfree => ?_, fun d' hused => ?_, ?_⟩
  · have hdd : d' ≠ d := by
      rintro rfl
      rw [hinuse, hd] at hfree
      cases hfree
    rw [hothers d' hdd] at hfree ⊢
    exact h.blank d' hfree
  · exact h.range d' (hinuse d' ▸ hused)
  · rw [hcnt, h.count]
    simp only [hinuse]

theorem TableOk.onlyDesc (h : TableOk s) (hd : (s.desc d).inuseFlag = true) (ht : OnlyDesc d s t) : TableOk t :=
  h.set hd ht.others (ht.inuse.trans hd) ht.inuseCnt

theorem TableOk.alloc (h : TableOk s) (halloc : s.allocIFuseDesc = some (t, d)) : TableOk t := by
  obtain ⟨hfree, hlo, hhi, rfl⟩ := State.allocIFuseDesc_spec halloc
  have hrange : d ∈ State.descRange := mem_descRange.mpr ⟨hlo, hhi⟩
  refine ⟨fun d' hfree' => ?_, fun d' hused => ?_, ?_⟩
  · by_cases hdd : d' = d
    · subst hdd
      simp [State.setDesc] at hfree'
    · simp only [State.setDesc, update_of_ne hdd] at hfree' ⊢
      exact h.blank d' hfree'
  · by_cases hdd : d' = d
    · subst hdd; exact hrange
    · simp only [State.setDesc, update_of_ne hdd] at hused
      exact h.range d' hused
  · have hcount := countP_update descRange_nodup hrange (p := fun d => (s.desc d).inuseFlag)
      (q := fun d' => ((s.setDesc d fun r => { r with inuseFlag := true }).desc d').inuseFlag) hfree
      (by simp [State.setDesc]) fun d' hdd => by simp [State.setDesc, hdd]
    show s.inuseCnt + 1 = _
    rw [h.count]
    exact_mod_cast hcount.symm

theorem TableOk.free (h : TableOk s) (hd : (s.desc d).inuseFlag = true) : TableOk (s.freeIFuseDesc d) := by
  have hcount := countP_update descRange_nodup (h.range d hd)
    (p := fun d' => ((s.freeIFuseDesc d).desc d').inuseFlag) (q := fun d => (s.desc d).inuseFlag)
    (by simp [State.freeIFuseDesc, State.setDesc, IFuseDesc.zeroed]) hd
    fun d' hdd => by simp [State.freeIFuseDesc, State.setDesc, hdd]
  refine ⟨fun d' hfree => ?_, fun d' hused => ?_, ?_⟩
  · by_cases hdd : d' = d
    · subst hdd; simp [State.freeIFuseDesc, State.setDesc]
    · simp only [State.freeIFuseDesc, State.setDesc, update_of_ne hdd] at hfree ⊢
      exact h.blank d' hfree
  · by_cases hdd : d' = d
    · subst hdd; exact h.range d' hd
    · simp only [State.freeIFuseDesc, State.setDesc, update_of_ne hdd] at hused
      exact h.range d' hused
  · show s.inuseCnt - 1 = _
    rw [h.count]
    omega

/-! ## What follows -/

variable {d' : Nat}

theorem allocIFuseDesc_others (h : s.allocIFuseDesc = some (t, d)) (hne : d' ≠ d) : t.desc d' = s.desc d' := by
  obtain ⟨-, -, -, rfl⟩ := State.allocIFuseDesc_spec h
  exact update_of_ne hne _ _

variable {e : Nat} {u : State}

namespace Follows

variable {now f : Nat} {p : Path}

theorem trans (h₁ : Follows now d f p s t) (h₂ : Follows now d f p t u) :
    Follows now d f p s u where
  table h := h₂.table (h₁.table h)
  pend h d' := (h₁.pend h d').trans (h₂.pend (h₁.table h) d')
  slots i hi := by
    obtain ⟨hpath, hinx⟩ := h₂.slots i hi
    obtain ⟨hpath', hinx'⟩ := h₁.slots i (hpath ▸ hi)
    exact ⟨hpath.trans hpath', hinx.trans hinx'⟩
  nextFile := h₁.nextFile.trans h₂.nextFile
  bounded h := h₂.bounded (h₁.bounded h)
  carries h hu hold hslot := by
    obtain ⟨hpend, pos, hpos⟩ := hu
    obtain ⟨ht, -, hfile⟩ := h₂.pend (h₁.table h) d hpend
    refine (h₁.carries h ⟨ht, hfile f pos hpos⟩ hold hslot).trans
      (h₂.carries (h₁.table h) ⟨hpend, pos, hpos⟩ (hold.trans_le h₁.nextFile) fun i hi hp => ?_)
    obtain ⟨hpath, hinx⟩ := h₁.slots i hi
    exact hinx.trans (hslot i (hpath ▸ hi) (hpath ▸ hp))

theorem bounded_of_refs (hnext : s.nextFile ≤ t.nextFile)
    (hrefs : ∀ g, t.cache.Refs g → s.cache.Refs g ∨ g < t.nextFile) (h : Bounded s) : Bounded t := by
  intro g hg
  obtain hs | hlt := hrefs g hg
  · exact Nat.lt_of_lt_of_le (h g hs) hnext
  · exact hlt

theorem of_same (h : SameTables s t) (hnext : s.nextFile ≤ t.nextFile)
    (hrefs : ∀ g, t.cache.Refs g → s.cache.Refs g ∨ g < t.nextFile)
    (hc : Held s d f → f < s.nextFile → Carries now p f s.cache t.cache) : Follows now d f p s t where
  table hs := hs.congr h.desc h.inuseCnt
  pend _ d' := .of_eq (congrFun h.desc d')
  slots i _ := by rw [h.newly]; exact ⟨rfl, rfl⟩
  nextFile := hnext
  bounded := bounded_of_refs hnext hrefs
  carries _ hheld hold _ := hc (by unfold Held at hheld ⊢; rwa [h.desc] at hheld) hold

theorem refl (s : State) : Follows now d f p s s :=
  .of_same (.refl s) le_rfl (fun _ => .inl) fun _ _ => .refl _

/-- A slot is blanked, or only its mark changes. -/
theorem setSlot (s : State) (i : Slot) {g : NewlyCreatedFile → NewlyCreatedFile}
    (hg : (g (s.newly i)).filePath ≠ [] → (g (s.newly i)).filePath = (s.newly i).filePath ∧
      (g (s.newly i)).descInx = (s.newly i).descInx) : Follows now d f p s (s.setSlot i g) where
  table hs := hs.congr rfl rfl
  pend _ _ := .refl _
  slots j hj := by
    by_cases hji : j = i
    · subst hji
      simp only [State.setSlot, update_self] at hj ⊢
      exact hg hj
    · have heq : (s.setSlot i g).newly j = s.newly j := update_of_ne hji _ _
      rw [heq]
      exact ⟨rfl, rfl⟩
  nextFile := le_rfl
  bounded := id
  carries _ _ _ _ := .refl _

theorem mark (s : State) (i : Slot) (b : Bool) :
    Follows now d f p s (s.setSlot i fun r => { r with inuseFlag := b }) :=
  .setSlot s i (g := fun r => { r with inuseFlag := b }) fun _ => ⟨rfl, rfl⟩

theorem blankSlot (s : State) (i : Slot) : Follows now d f p s (s.setSlot i fun _ => .zeroed) :=
  .setSlot s i (g := fun _ => .zeroed) fun h => absurd rfl h

theorem opened (s : State) (o : Nat → Bool) : Follows now d f p s { s with opened := o } where
  table hs := hs.congr rfl rfl
  pend _ _ := .refl _
  slots _ _ := ⟨rfl, rfl⟩
  nextFile := le_rfl
  bounded := id
  carries _ _ _ _ := .refl _

/-- A descriptor in use goes back to the table. -/
theorem free (he : (s.desc e).inuseFlag = true) :
    Follows now d f p s (s.freeIFuseDesc e) where
  table hs := hs.free he
  pend _ d' := by
    by_cases hne : d' = e
    · subst hne
      refine .of_not_pending ?_
      simp [State.freeIFuseDesc, State.setDesc, IFuseDesc.zeroed]
    · exact .of_eq (update_of_ne hne _ _)
  slots _ _ := ⟨rfl, rfl⟩
  nextFile := le_rfl
  bounded := id
  carries _ _ _ _ := .refl _

/-- A descriptor is closed and goes back to the table; the file of another is left alone. -/
theorem close (h : SameTables s t) (hnext : t.nextFile = s.nextFile) (hrefs : ∀ g, t.cache.Refs g → s.cache.Refs g)
    (he : (s.desc e).inuseFlag = true) (hc : e ≠ d → Held s d f → SlotOf s p d → Carries now p f s.cache t.cache) :
    Follows now d f p s (t.freeIFuseDesc e) := by
  have hfree : Follows now d f p t (t.freeIFuseDesc e) := .free (by rw [h.desc]; exact he)
  refine ⟨fun hs => hfree.table (hs.congr h.desc h.inuseCnt), fun hs d' => ?_, fun j hj => ?_,
    hnext.symm.le, bounded_of_refs hnext.symm.le fun g hg => .inl (hrefs g hg), fun hs hheld _ hslot => ?_⟩
  · have hpend := hfree.pend (hs.congr h.desc h.inuseCnt) d'
    rwa [h.desc] at hpend
  · show (t.newly j).filePath = _ ∧ (t.newly j).descInx = _
    rw [h.newly]
    exact ⟨rfl, rfl⟩
  · -- the descriptor that is closed has no file open any more
    have hed : e ≠ d := by
      rintro rfl
      have hin := hheld.1.1
      simp [State.freeIFuseDesc, State.setDesc, IFuseDesc.zeroed] at hin
    obtain ⟨hpend, pos, hpos⟩ := hheld
    obtain ⟨hpend', -, hfile⟩ := hfree.pend (hs.congr h.desc h.inuseCnt) d hpend
    rw [h.desc] at hpend' hfile
    exact hc hed ⟨hpend', hfile f pos hpos⟩ hslot

variable {g : IFuseDesc → IFuseDesc}

/-- A new descriptor is filled; it is not one of a newly created file. -/
theorem alloc (h : s.allocIFuseDesc = some (t, e)) (hg : ∀ r, (g r).inuseFlag = r.inuseFlag)
    (hstate : ∀ r, r.locCacheState = .noFileCache → (g r).locCacheState ≠ .haveNewlyCreatedCache) :
    Follows now d f p s (t.setDesc e g) where
  table hs := by
    refine (hs.alloc h).onlyDesc ?_ (OnlyDesc.setDesc t e hg)
    obtain ⟨-, -, -, rfl⟩ := State.allocIFuseDesc_spec h
    simp [State.setDesc]
  pend hs d' := by
    by_cases hne : d' = e
    · subst hne
      obtain ⟨hfree, -, -, rfl⟩ := State.allocIFuseDesc_spec h
      refine .of_not_pending ?_
      simp only [State.setDesc, update_self]
      refine hstate _ ?_
      rw [hs.blank d' hfree]
      rfl
    · exact .of_eq ((update_of_ne hne _ _).trans (allocIFuseDesc_others h hne))
  slots i _ := by
    obtain ⟨-, -, -, rfl⟩ := State.allocIFuseDesc_spec h
    exact ⟨rfl, rfl⟩
  nextFile := by
    obtain ⟨-, -, -, rfl⟩ := State.allocIFuseDesc_spec h
    exact le_rfl
  bounded := by
    obtain ⟨-, -, -, rfl⟩ := State.allocIFuseDesc_spec h
    exact id
  carries _ _ _ _ := by
    obtain ⟨-, -, -, rfl⟩ := State.allocIFuseDesc_spec h
    exact .refl _

theorem fill (h : s.allocIFuseDesc = some (t, e)) (iFd : Handle) (objPath path : Path) :
    Follows now d f p s (t.fillIFuseDesc e iFd objPath path) := by
  refine .alloc h (g := fun r => { r with iFd := iFd, objPath := objPath, localPath := path })
    (fun _ => rfl) fun r hr => ?_
  rw [hr]
  exact nofun

/-- A descriptor in use becomes, or stays, one of another kind. -/
theorem setOther (he : (s.desc e).inuseFlag = true) (hg : ∀ r, (g r).inuseFlag = r.inuseFlag)
    (hstate : (g (s.desc e)).locCacheState ≠ .haveNewlyCreatedCache) :
    Follows now d f p s (s.setDesc e g) where
  table hs := hs.onlyDesc he (.setDesc s e hg)
  pend _ d' := by
    by_cases hne : d' = e
    · subst hne
      refine .of_not_pending ?_
      simpa [State.setDesc] using hstate
    · exact .of_eq (update_of_ne hne _ _)
  slots _ _ := ⟨rfl, rfl⟩
  nextFile := le_rfl
  bounded := id
  carries _ _ _ _ := .refl _

end Follows

namespace State

variable (parse : Path → Option Path)

/-! ## The library functions -/

theorem ifuseClose_nextFile (s : State) (now : Nat) (path : Path) (d : Nat) (put : Reply) :
    (s.ifuseClose parse now path d put).1.nextFile = s.nextFile := by
  have hentry : (s.closeEntry now path).1.nextFile = s.nextFile := by
    unfold closeEntry
    dsimp only
    split <;> rfl
  have hput : ∀ (t : State) g, (t.ifusePut parse path g put).1.nextFile = t.nextFile := by
    intro t g
    unfold ifusePut
    split
    · rfl
    · dsimp only
      split <;> rfl
  have hfile : (s.closeFile parse now path d put).1.nextFile = s.nextFile := by
    unfold closeFile
    split
    · rfl
    · split
      · unfold closeNewlyCreated
        generalize s.closeEntry now path = r at hentry
        obtain ⟨t, _ | ⟨e, g⟩⟩ := r
        · exact hentry
        · dsimp only
          split <;> exact (hput _ g).trans hentry
      · rfl
  unfold ifuseClose
  dsimp only
  split <;> exact hfile

/-- Closing a slot: the file of another descriptor is left alone. -/
theorem closeNewlyCreatedCache_follows (s : State) (now d f : Nat) (p : Path) (i : Slot) (put : Reply) :
    Follows now d f p s (s.closeNewlyCreatedCache parse now i put).1 := by
  unfold closeNewlyCreatedCache
  split
  · exact .refl s
  · rename_i hpath
    split
    · rename_i hcheck
      have hsame := s.sameTables_ifuseClose parse now (s.newly i).filePath (s.newly i).descInx put
      have hnext := s.ifuseClose_nextFile parse now (s.newly i).filePath (s.newly i).descInx put
      have hinuse := checkFuseDesc_inuse hcheck
      have hcarry : (s.newly i).filePath ≠ p → Carries now p f s.cache
          (s.ifuseClose parse now (s.newly i).filePath (s.newly i).descInx put).1.cache :=
        s.ifuseClose_carries parse _ put
      have hleaves := s.ifuseClose_leaves parse now (s.newly i).filePath (s.newly i).descInx put
      refine .trans (.close hsame hnext (fun g => (hleaves g).refs) hinuse fun hne _ hslot => hcarry fun hp => ?_)
        (.blankSlot _ i)
      exact hne (hslot i (by simpa using hpath) hp)
    · exact .refl s

theorem chooseSlotStep_follows {now f : Nat} {p : Path} (puts : Slot → Reply) (acc : State × Option Slot) (i : Slot) :
    Follows now d f p acc.1 (chooseSlotStep parse now puts acc i).1 := by
  obtain ⟨s, newlyInx⟩ := acc
  unfold chooseSlotStep
  dsimp only
  split
  · exact .mark s i true
  · split
    · have hclose := s.closeNewlyCreatedCache_follows parse now d f p i (puts i)
      split
      · exact hclose
      · exact hclose.trans (.mark _ i false)
    · exact .refl s

theorem chooseSlot_follows (s : State) (now d f : Nat) (p : Path) (puts : Slot → Reply) :
    Follows now d f p s (s.chooseSlot parse now puts).1 := by
  have hloop : ∀ (is : List Slot) (acc : State × Option Slot),
      Follows now d f p acc.1 (is.foldl (chooseSlotStep parse now puts) acc).1 := by
    intro is
    induction is with
    | nil => exact fun acc => .refl acc.1
    | cons i is ih =>
      intro acc
      exact (chooseSlotStep_follows parse puts acc i).trans (ih _)
  have hfold := hloop (List.finRange numNewlyCreatedSlot) (s, none)
  unfold chooseSlot
  generalize (List.finRange numNewlyCreatedSlot).foldl (chooseSlotStep parse now puts) (s, none) = r at hfold
  obtain ⟨t, _ | i⟩ := r
  · exact (hfold.trans (t.closeNewlyCreatedCache_follows parse now d f p _ _)).trans (.mark _ _ true)
  · exact hfold

theorem lookupPath_nextFile (s : State) (now : Nat) (path : Path) (reply : StatReply) :
    (s.lookupPath parse now path reply).1.nextFile = s.nextFile := by
  have hcached : ∀ t : State, (t.lookupCached now path).1.nextFile = t.nextFile := by
    intro t
    unfold lookupCached
    dsimp only
    split
    · rfl
    · split <;> rfl
  have hserver : ∀ t : State, (t.lookupServer parse now path reply).1.nextFile = t.nextFile := by
    intro t
    unfold lookupServer
    split
    · rfl
    · split
      · split <;> rfl
      · rfl
  unfold lookupPath
  generalize s.cache.matchPathInPathCache now path .nonExistPathArray = r
  obtain ⟨c, _ | e⟩ := r
  · have hc := hcached { s with cache := c }
    dsimp only
    generalize ({ s with cache := c } : State).lookupCached now path = r at hc
    obtain ⟨t, _ | e⟩ := r
    · exact (hserver t).trans hc
    · exact hc
  · rfl

theorem irodsGetattr_nextFile (s : State) (now : Nat) (path : Path) (reply : StatReply) :
    (s.irodsGetattr parse now path reply).1.nextFile = s.nextFile := by
  have h := s.lookupPath_nextFile parse now path reply
  unfold irodsGetattr
  generalize s.lookupPath parse now path reply = r at h
  obtain ⟨t, _ | _ | e | size⟩ := r <;> exact h

theorem irodsGetattr_follows (s : State) (now d f : Nat) (p : Path) (path : Path) (reply : StatReply) :
    Follows now d f p s (s.irodsGetattr parse now path reply).1 :=
  .of_same (s.sameTables_irodsGetattr parse now path reply)
    (s.irodsGetattr_nextFile parse now path reply).symm.le (fun _ hg => .inl (irodsGetattr_refs parse hg))
    fun _ _ => s.irodsGetattr_carries parse path reply

theorem createFile_follows (s : State) (now d f : Nat) (p : Path) (content : Option (List Byte)) :
    Follows now d f p s (s.createFile content).1 := by
  cases content with
  | none => exact .of_same ⟨rfl, rfl, rfl, rfl⟩ (Nat.le_succ _) (fun _ => .inl) fun _ _ => .refl _
  | some bs =>
    exact .of_same ⟨rfl, rfl, rfl, rfl⟩ (Nat.le_succ _) (fun _ => .inl) fun _ hold =>
      s.cache.carries_files _ hold.ne'

theorem mknodHandle_follows (s : State) (now d f : Nat) (p : Path) (path : Path) (env : MknodEnv) :
    Follows now d f p s (s.mknodHandle parse path env).1 := by
  unfold mknodHandle
  split
  · exact s.createFile_follows now d f p _
  · have hnone := s.createFile_follows now d f p none
    dsimp only
    split
    · exact hnone
    · split
      · exact hnone.trans (.of_same ⟨rfl, rfl, rfl, rfl⟩ le_rfl (fun _ => .inl) fun _ _ => .refl _)
      · exact hnone

theorem rmNonExist_follows (s : State) (now d f : Nat) (p : Path) (path : Path) :
    Follows now d f p s (s.onCache fun c => c.rmPathFromCache path .nonExistPathArray) :=
  .of_same ⟨rfl, rfl, rfl, rfl⟩ le_rfl (fun _ hg => .inl (refs_rm hg)) fun _ _ =>
    s.cache.carries_rm (.inl nofun)

theorem mknodDesc_follows (s : State) (now d f : Nat) (p : Path) (path : Path) (env : MknodEnv) :
    Follows now d f p s (s.mknodDesc parse now path env).1 := by
  have hattr := s.irodsGetattr_follows parse now d f p path env.stat
  unfold mknodDesc
  generalize s.irodsGetattr parse now path env.stat = r at hattr
  obtain ⟨t, _ | err⟩ := r
  · exact hattr
  · dsimp only at hattr ⊢
    have hhandle := hattr.trans (t.mknodHandle_follows parse now d f p path env)
    generalize t.mknodHandle parse path env = u at hhandle
    obtain ⟨u, g, _ | ⟨iFd, objPath⟩⟩ := u
    · exact hhandle
    · have hrm := hhandle.trans (u.rmNonExist_follows now d f p path)
      dsimp only
      split
      · exact hrm
      · rename_i v e halloc
        exact hrm.trans (.fill halloc iFd objPath path)

theorem readCacheFile_follows (s : State) (now d f : Nat) (p : Path) (path : Path) (env : OpenEnv) :
    Follows now d f p s (s.readCacheFile parse now path env).1 := by
  obtain ⟨hlookup, hown⟩ := s.lookupPath_carries parse now p f path env.stat
  have hsame := s.sameTables_lookupPath parse now path env.stat
  have hnext := s.lookupPath_nextFile parse now path env.stat
  have hrefs : ∀ g, (s.lookupPath parse now path env.stat).1.cache.Refs g → s.cache.Refs g :=
    fun _ => lookupPath_refs parse
  unfold readCacheFile
  generalize s.lookupPath parse now path env.stat = r at hlookup hown hsame hnext hrefs
  obtain ⟨t, res⟩ := r
  have hfirst : Follows now d f p s t :=
    .of_same hsame hnext.symm.le (fun g hg => .inl (hrefs g hg)) fun _ _ => hlookup
  -- a path without a local cache file is not the one of the kept file
  have hadd : (s.cache.Keeps p f → s.cache.Fresh now p → path ≠ p) → ∀ (size : Nat),
      Follows now d f p s (t.onCache fun c => c.addPathToCache .pathArray (.plain path size now)) := by
    intro hne size
    refine .of_same ⟨hsame.desc, hsame.newly, hsame.opened, hsame.inuseCnt⟩ hnext.symm.le
      (fun g hg => .inl (hrefs g ((refs_add hg).resolve_right nofun))) fun _ _ hk hf => ?_
    exact hlookup.trans (carries_add t.cache (.inr (hne hk hf)) nofun) hk hf
  cases res with
  | missing => exact hfirst
  | badPath => exact hfirst
  | hit e =>
    dsimp only
    split
    · exact hfirst
    · split
      · exact hfirst
      · rename_i copy hloc _ _
        refine .of_same ⟨hsame.desc, hsame.newly, hsame.opened, hsame.inuseCnt⟩
          (Nat.le_succ_of_le hnext.symm.le) (fun g hg => ?_) fun _ hold hk hf => ?_
        · obtain h | ⟨_, _, _, h⟩ := refs_set hg
          · exact .inl (hrefs g h)
          · exact .inr (Option.some.inj h ▸ Nat.lt_succ_self _)
        have hne : path ≠ p := by
          intro hp
          obtain h | ⟨e', h, hloc'⟩ := hown hk hf hp
          · cases h
          · cases h
            rw [hloc] at hloc'
            cases hloc'
        have hg : t.nextFile ≠ f := by
          rw [show t.nextFile = s.nextFile from hnext]
          exact Nat.ne_of_gt hold
        refine (hlookup.trans (t.cache.carries_files ⟨true, copy⟩ hg)).trans ?_ hk hf
        exact carries_set _ hne (fun _ => rfl) fun _ ho => absurd (Option.some.inj ho) hg
      · exact hfirst
  | fetched size =>
    have hne : s.cache.Keeps p f → s.cache.Fresh now p → path ≠ p := by
      intro hk hf hp
      obtain h | ⟨e', h, -⟩ := hown hk hf hp <;> cases h
    dsimp only
    split
    · exact hadd hne size
    · split
      · rename_i copy _ _
        refine .of_same ⟨hsame.desc, hsame.newly, hsame.opened, hsame.inuseCnt⟩
          (Nat.le_succ_of_le hnext.symm.le) (fun g hg => ?_) fun _ hold hk hf => ?_
        · obtain h | h := refs_add hg
          · exact .inl (hrefs g h)
          · exact .inr (Option.some.inj h ▸ Nat.lt_succ_self _)
        have hg : t.nextFile ≠ f := by
          rw [show t.nextFile = s.nextFile from hnext]
          exact Nat.ne_of_gt hold
        refine (hlookup.trans (t.cache.carries_files ⟨true, copy⟩ hg)).trans ?_ hk hf
        exact carries_add _ (.inr (hne hk hf)) fun ho => absurd (Option.some.inj ho) hg
      · exact hadd hne size

theorem irodsOpenWithReadCache_follows (s : State) (now d f : Nat) (p : Path) (path : Path) (env : OpenEnv) :
    Follows now d f p s (s.irodsOpenWithReadCache parse now path env).1 := by
  have hread := s.readCacheFile_follows parse now d f p path env
  unfold irodsOpenWithReadCache
  generalize s.readCacheFile parse now path env = r at hread
  obtain ⟨t, _ | g⟩ := r
  · exact hread
  · dsimp only
    split
    · exact hread
    · split
      · exact hread
      · rename_i u e halloc
        have hfill := hread.trans (.fill halloc (.localFd g 0) ((parse path).getD []) path)
        refine hfill.trans (.setOther (g := fun r => { r with locCacheState := .haveReadCache }) ?_
          (fun _ => rfl) nofun)
        obtain ⟨-, -, -, rfl⟩ := allocIFuseDesc_spec halloc
        simp [fillIFuseDesc, setDesc]

theorem irodsOpenRemote_follows (s : State) (now d f : Nat) (p : Path) (path : Path) (env : OpenEnv) :
    Follows now d f p s (s.irodsOpenRemote parse path env).1 := by
  have hrm := s.rmNonExist_follows now d f p path
  unfold irodsOpenRemote
  split
  · exact .refl s
  · rename_i obj _
    split
    · dsimp only
      split
      · exact hrm
      · rename_i t e halloc
        exact hrm.trans (.fill halloc (.l1desc obj 0) obj path)
    · exact .refl s

theorem getDescInxInNewlyCreatedCache_follows (s : State) (now d f : Nat) (p : Path) (path : Path)
    (write : Bool) (put : Reply) :
    Follows now d f p s (s.getDescInxInNewlyCreatedCache parse now path write put).1 := by
  unfold getDescInxInNewlyCreatedCache
  split
  · exact .refl s
  · rename_i i _
    split
    · exact s.closeNewlyCreatedCache_follows parse now d f p i put
    · split <;> exact .blankSlot s i

theorem irodsOpen_follows (s : State) (now d f : Nat) (p : Path) (path : Path) (write : Bool)
    (env : OpenEnv) : Follows now d f p s (s.irodsOpen parse now path write env).1 := by
  have hslot := s.getDescInxInNewlyCreatedCache_follows parse now d f p path write env.put
  unfold irodsOpen
  generalize s.getDescInxInNewlyCreatedCache parse now path write env.put = r at hslot
  obtain ⟨t, _ | e⟩ := r
  · have hread : Follows now d f p t
        (if write then (t, none) else t.irodsOpenWithReadCache parse now path env).1 := by
      split
      · exact .refl t
      · exact t.irodsOpenWithReadCache_follows parse now d f p path env
    dsimp only at hslot ⊢
    generalize (if write then (t, none) else t.irodsOpenWithReadCache parse now path env) = u at hread
    obtain ⟨u, _ | e⟩ := u
    · have hremote := (hslot.trans hread).trans (u.irodsOpenRemote_follows parse now d f p path env)
      dsimp only at hremote ⊢
      generalize u.irodsOpenRemote parse path env = v at hremote
      obtain ⟨v, err | e⟩ := v
      · exact hremote
      · exact hremote.trans (.opened v _)
    · exact (hslot.trans hread).trans (.opened u _)
  · exact hslot.trans (.opened t _)

end State

/-! ## Every step -/

/-- No newly created file goes by the name `q`. -/
def FreeName (s : State) (q : Path) : Prop :=
  (∀ d, (s.desc d).Pending → (s.desc d).localPath ≠ q) ∧
  ∀ i, (s.newly i).filePath ≠ [] → (s.newly i).filePath ≠ q

/-- When an operation keeps the tables in agreement on the newly created files: none of
them has expired, is still in a slot when it is renamed, or has its name taken, and a
handle is used under the name of its descriptor. -/
def RenameOk (parse : Path → Option Path) (s : State) (op : Op) : Prop :=
  SlotReuseOk s op ∧ (∀ d f, Held s d f → s.cache.Fresh op.now (s.desc d).localPath) ∧
  match op with
  | .mknod _ path _ =>
    FreeName s path ∧ (s.cache.entries .pathArray path).length ≤ 1 ∧
    (s.cache.entries .pathArray path = [] ∨ s.cache.entries .nonExistPathArray path = [])
  | .mkdir _ path _ _ => ∀ d f, Held s d f → (s.desc d).localPath ≠ path
  | .unlink _ path _ _ => ∀ d f, Held s d f → (s.desc d).localPath ≠ path
  | .rmdir _ path _ _ => ∀ d f, Held s d f → (s.desc d).localPath ≠ path
  | .rename _ src dest _ =>
    FreeName s dest ∧ parse dest ≠ none ∧ (s.cache.entries .pathArray dest).length ≤ 1 ∧
    ∀ d f, Held s d f → (s.desc d).localPath = src →
      ∀ i, (s.newly i).filePath ≠ [] → (s.newly i).descInx ≠ d
  | .write _ path d _ _ _ =>
    (s.desc d).locCacheState ≠ .haveReadCache ∧ ∀ f, Held s d f → path = (s.desc d).localPath
  | .release _ path d _ =>
    ∀ d' f, d' ≠ d → Held s d' f → (s.desc d').localPath = path →
      (s.desc d).newFlag = false ∧ (s.desc d).locCacheState ≠ .haveNewlyCreatedCache ∧
      (s.desc d).bytesWritten = 0
  | _ => True

/-- The tables agree on every newly created file. -/
structure Tracked (s : State) : Prop where
  slots : SlotsOk s
  table : TableOk s
  bounded : Bounded s
  track : ∀ d f, Held s d f → Track s d f

variable {now f : Nat}

variable {p : Path}

theorem Held.follows (h : Follows now d f p s t) (hs : TableOk s) (ht : Held t d f) :
    Held s d f ∧ (t.desc d).localPath = (s.desc d).localPath := by
  obtain ⟨hpend, pos, hpos⟩ := ht
  obtain ⟨hpend', hpath, hfile⟩ := h.pend hs d hpend
  exact ⟨⟨hpend', hfile f pos hpos⟩, hpath⟩

theorem Track.follows (h : Track s d f) (hs : TableOk s) (hf : Follows now d f (s.desc d).localPath s t)
    (hfresh : s.cache.Fresh now (s.desc d).localPath) (ht : Held t d f) : Track t d f := by
  obtain ⟨-, hpath⟩ := ht.follows hf hs
  have hslot : SlotOf s (s.desc d).localPath d := fun i hi hp => (h.slot i hi).mp hp
  refine ⟨?_, fun d' hne hpend => ?_, fun i hi => ?_, h.old.trans_le hf.nextFile⟩
  · rw [hpath]
    exact (hf.carries hs ht h.old hslot h.kept hfresh).1
  · obtain ⟨hpend', hpath', -⟩ := hf.pend hs d' hpend
    rw [hpath, hpath']
    exact h.alone d' hne hpend'
  · obtain ⟨hname, hinx⟩ := hf.slots i hi
    rw [hname, hinx, hpath]
    exact h.slot i (hname ▸ hi)

/-- What creates and renames nothing keeps the tables in agreement. -/
theorem Tracked.follows (h : Tracked s) (hslots : SlotsOk t)
    (hfresh : ∀ d f, Held s d f → s.cache.Fresh now (s.desc d).localPath)
    (hf : ∀ d f, Follows now d f (s.desc d).localPath s t) : Tracked t where
  slots := hslots
  table := (hf 0 0).table h.table
  bounded := (hf 0 0).bounded h.bounded
  track d f ht := by
    obtain ⟨hheld, -⟩ := ht.follows (hf d f) h.table
    exact (h.track d f hheld).follows h.table (hf d f) (hfresh d f hheld) ht

/-- A file that is still held was held before, in no slot unless it was in one, and under
the same name unless the operation renames it. -/
structure Continues (s t : State) (op : Op) (d f : Nat) : Prop where
  held : Held s d f
  name : (∀ now dest reply, op ≠ .rename now (s.desc d).localPath dest reply) →
    (t.desc d).localPath = (s.desc d).localPath
  slots : (∀ i, (s.newly i).filePath ≠ [] → (s.newly i).descInx ≠ d) →
    ∀ i, (t.newly i).filePath ≠ [] → (t.newly i).descInx ≠ d

theorem Held.continues (h : Follows now d f p s t) (hs : TableOk s) (ht : Held t d f) (op : Op) :
    Continues s t op d f := by
  obtain ⟨hheld, hname⟩ := ht.follows h hs
  refine ⟨hheld, fun _ => hname, fun hslot i hi => ?_⟩
  obtain ⟨hpath, hinx⟩ := h.slots i hi
  rw [hinx]
  exact hslot i (hpath ▸ hi)

/-- The tables agree after the operation, and the files held before are still called the same. -/
structure StepOk (s t : State) (op : Op) : Prop where
  tracked : Tracked t
  nextFile : s.nextFile ≤ t.nextFile
  continues : ∀ d f, f < s.nextFile → Held t d f → Continues s t op d f

theorem Tracked.stepOk (h : Tracked s) (hslots : SlotsOk t)
    (hfresh : ∀ d f, Held s d f → s.cache.Fresh now (s.desc d).localPath)
    (hf : ∀ d f, Follows now d f (s.desc d).localPath s t) (op : Op) : StepOk s t op :=
  ⟨h.follows hslots hfresh hf, (hf 0 0).nextFile, fun d f _ ht => ht.continues (hf d f) h.table op⟩

variable {i : Slot} {obj path : Path}

namespace State

variable (parse : Path → Option Path)

theorem irodsMkdir_follows (s : State) (now d f : Nat) (first retry : Reply) (hne : Held s d f → p ≠ path) :
    Follows now d f p s (s.irodsMkdir parse now path first retry).1 := by
  unfold irodsMkdir
  split
  · exact .refl s
  · split
    · refine .of_same ⟨rfl, rfl, rfl, rfl⟩ le_rfl (fun g hg => .inl ?_) fun hheld _ => ?_
      · exact (refs_add (refs_rm hg)).resolve_right nofun
      · have hadd : Carries now p f s.cache (s.cache.addPathToCache .pathArray (.plain path dirSz now)) :=
          carries_add s.cache (.inr (Ne.symm (hne hheld))) nofun
        exact hadd.trans (carries_rm _ (.inl nofun))
    · split <;> exact .refl s

theorem removePath_follows (s : State) (now d f : Nat) (first retry : Reply) (hne : Held s d f → p ≠ path) :
    Follows now d f p s (s.removePath parse path first retry).1 := by
  unfold removePath
  split
  · exact .refl s
  · split
    · exact .of_same ⟨rfl, rfl, rfl, rfl⟩ le_rfl (fun g hg => .inl (refs_rm hg)) fun hheld _ =>
        carries_rm s.cache (.inr (Ne.symm (hne hheld)))
    · split <;> exact .refl s

theorem irodsRelease_follows (s : State) (now d f : Nat) (e : Nat) (put : Reply)
    (hclean : e ≠ d → Held s d f → p = path → (s.desc e).newFlag = false ∧
      (s.desc e).locCacheState ≠ .haveNewlyCreatedCache ∧ (s.desc e).bytesWritten = 0) :
    Follows now d f p s (s.irodsRelease parse now path e put).1 := by
  unfold irodsRelease
  split
  · exact .refl s
  · rename_i hcheck
    have hinuse : (s.desc e).inuseFlag = true := checkFuseDesc_inuse (by simpa using hcheck)
    refine .close (s.sameTables_ifuseClose parse now path e put) (s.ifuseClose_nextFile parse now path e put)
      (fun g => (s.ifuseClose_leaves parse now path e put g).refs) hinuse fun hne hheld _ => ?_
    by_cases hp : p = path
    · obtain ⟨hnew, hstate, hbytes⟩ := hclean hne hheld hp
      rw [s.ifuseClose_carries_clean parse path e put hnew hstate hbytes]
      exact .refl _
    · exact s.ifuseClose_carries parse e put (Ne.symm hp)

/-! ## write -/

/-- What a write through `e` does: nothing to the cache, or it changes the local cache
file behind `e`, which is given up when it has grown too large. -/
inductive WriteOutcome (s : State) (path : Path) (e : Nat) (t : State) : Prop where
  | same (hcache : t.cache = s.cache)
  | wrote (g : Nat) (bs : List Byte) (hcache : t.cache = (s.setContent g bs).cache)
  | switched (g : Nat) (bs : List Byte) (hfile : ∃ pos, (s.desc e).iFd = .localFd g pos)
      (hstate : (s.desc e).locCacheState ≠ .noFileCache)
      (hcache : t.cache = (s.setContent g bs).cache.rmPathFromCache path .pathArray)
      (hgone : ∀ f, ¬ Held t e f)

theorem setDesc_self (s : State) (e : Nat) (g : IFuseDesc → IFuseDesc) :
    (s.setDesc e g).desc e = g (s.desc e) := update_self ..

theorem ifuseLseek_outcome {offset : Nat} {reply : Reply} (h : s.ifuseLseek e offset reply = some t) :
    t.cache = s.cache ∧ t.nextFile = s.nextFile ∧ (s.desc e).SameFile (t.desc e) ∧
    (t.desc e).locCacheState = (s.desc e).locCacheState ∧
    ∀ g pos, (t.desc e).iFd = .localFd g pos → ∃ pos', (s.desc e).iFd = .localFd g pos' := by
  unfold ifuseLseek at h
  split at h
  · cases h
    exact ⟨rfl, rfl, .refl _, rfl, fun g pos hg => ⟨pos, hg⟩⟩
  · split at h
    · rename_i hd hseek
      cases h
      have hfile : ∀ g pos, hd = .localFd g pos → ∃ pos', (s.desc e).iFd = .localFd g pos' := by
        intro g pos hg
        unfold seekHandle at hseek
        split at hseek <;> cases hseek
        · cases hg
        · rename_i _ pos' _ hfd
          cases hg
          exact ⟨pos', hfd⟩
        · rename_i _ pos' _ hfd
          cases hg
          exact ⟨pos', hfd⟩
      rw [setDesc_self]
      exact ⟨rfl, rfl, fun hp => ⟨hp, rfl, hfile⟩, rfl, hfile⟩
    · cases h

theorem switchToIrods_outcome (s : State) (path : Path) (e file : Nat) (env : WriteEnv) :
    (s.switchToIrods parse path e file env).1.cache = s.cache.rmPathFromCache path .pathArray ∧
    (s.switchToIrods parse path e file env).1.nextFile = s.nextFile ∧
    (s.desc e).SameFile ((s.switchToIrods parse path e file env).1.desc e) ∧
    ∀ f, ¬ Held (s.switchToIrods parse path e file env).1 e f := by
  -- after a failure the descriptor has no open file, after success a server object
  have hgone : ∀ h : Handle, (∀ f pos, h ≠ .localFd f pos) →
      (s.desc e).SameFile ((s.setDesc e fun r => { r with iFd := h }).desc e) ∧
      ∀ f, ¬ Held ((s.setDesc e fun r => { r with iFd := h }).onCache fun c =>
        c.rmPathFromCache path .pathArray) e f := by
    intro h hne
    refine ⟨?_, ?_⟩
    · rw [setDesc_self]
      exact fun hp => ⟨hp, rfl, fun g pos hg => absurd hg (hne g pos)⟩
    · rintro f ⟨-, pos, hpos⟩
      simp only [onCache, setDesc, update_self] at hpos
      exact hne f pos hpos
  unfold switchToIrods
  dsimp only
  split
  · exact ⟨rfl, rfl, hgone .closed (by simp)⟩
  · split
    · exact ⟨rfl, rfl, hgone .closed (by simp)⟩
    · split
      · exact ⟨rfl, rfl, hgone .zero (by simp)⟩
      · have hremote : ∀ t : State, (t.desc e).locCacheState = .noFileCache →
            (s.desc e).SameFile (t.desc e) ∧ ∀ f, ¬ Held t e f := by
          intro t ht
          refine ⟨.of_not_pending (by simp [ht]), ?_⟩
          rintro f ⟨⟨-, hstate⟩, -⟩
          rw [ht] at hstate
          cases hstate
        split
        · exact ⟨rfl, rfl, hremote _ (by simp [setDesc])⟩
        · rename_i t hseek
          obtain ⟨hcache, hnext, -, hstate, -⟩ := ifuseLseek_outcome hseek
          refine ⟨hcache, hnext, hremote t ?_⟩
          rw [hstate]
          simp [setDesc]

theorem irodsWrite_outcome (s : State) (path : Path) (e : Nat) (data : List Byte) (offset : Nat)
    (env : WriteEnv) :
    (s.irodsWrite parse path e data offset env).1.nextFile = s.nextFile ∧
    (s.desc e).SameFile ((s.irodsWrite parse path e data offset env).1.desc e) ∧
    WriteOutcome s path e (s.irodsWrite parse path e data offset env).1 := by
  unfold irodsWrite
  split
  · exact ⟨rfl, .refl _, .same rfl⟩
  · split
    · exact ⟨rfl, .refl _, .same rfl⟩
    · rename_i t hseek
      obtain ⟨hcache, hnext, hdesc, hstate, hfile⟩ := ifuseLseek_outcome hseek
      have hset : ∀ g bs, (t.setContent g bs).cache = (s.setContent g bs).cache := by
        intro g bs
        unfold setContent
        rw [hcache]
      split
      · exact ⟨hnext, hdesc, .same hcache⟩
      · unfold ifuseWrite
        split
        · rename_i obj pos n hno _ _
          unfold writeRemote
          have hnot : ∀ r : IFuseDesc, r.locCacheState = (t.desc e).locCacheState →
              (s.desc e).SameFile r := by
            intro r hr
            refine .of_not_pending ?_
            rw [hr, hno]
            exact nofun
          split
          · refine ⟨hnext, hnot _ ?_, .same hcache⟩
            simp [addBytesWritten, setDesc, upload]
          · refine ⟨hnext, hnot _ ?_, .same hcache⟩
            simp [setDesc, upload]
        · exact ⟨hnext, hdesc, .same hcache⟩
        · rename_i g pos n hlocal _ hne
          unfold writeLocal
          dsimp only
          have hwrote : (s.desc e).SameFile ((t.localWritten e g pos n data).desc e) := by
            refine hdesc.trans fun hp => ?_
            unfold localWritten at hp ⊢
            rw [setDesc_self] at hp ⊢
            refine ⟨hp, rfl, fun g' pos' hg' => ?_⟩
            cases hg'
            exact ⟨pos, hlocal⟩
          have hcontent : ∃ bs, (t.localWritten e g pos n data).cache = (s.setContent g bs).cache :=
            ⟨_, hset g _⟩
          have hnextw : (t.localWritten e g pos n data).nextFile = s.nextFile := hnext
          generalize t.localWritten e g pos n data = u at hwrote hcontent hnextw
          obtain ⟨bs, hcontent⟩ := hcontent
          have hadd : ∀ v : State, (v.desc e).SameFile ((v.addBytesWritten e n).desc e) := by
            intro v hp
            unfold addBytesWritten at hp ⊢
            rw [setDesc_self] at hp ⊢
            exact ⟨hp, rfl, fun _ pos hg => ⟨pos, hg⟩⟩
          split
          · obtain ⟨hscache, hsnext, hsdesc, hsheld⟩ := u.switchToIrods_outcome parse path e g env
            generalize u.switchToIrods parse path e g env = v at hscache hsnext hsdesc hsheld
            have hswitched : ∀ w : State, w.cache = v.1.cache → (∀ f, ¬ Held w e f) →
                WriteOutcome s path e w := by
              intro w hw hheld
              refine .switched g bs (hfile g pos hlocal) (hstate ▸ ?_) ?_ hheld
              · intro hno
                exact hne hno
              · rw [hw, hscache, hcontent]
            obtain ⟨v, _ | err⟩ := v
            · refine ⟨hsnext.trans hnextw, (hwrote.trans hsdesc).trans (hadd v), hswitched _ rfl ?_⟩
              rintro f ⟨hpend, pos', hpos'⟩
              obtain ⟨hpend', -, hfile'⟩ := hadd v hpend
              exact hsheld f ⟨hpend', hfile' f pos' hpos'⟩
            · exact ⟨hsnext.trans hnextw, hwrote.trans hsdesc, hswitched _ rfl hsheld⟩
          · exact ⟨hnextw, hwrote.trans (hadd u), .wrote g bs hcontent⟩
        · exact ⟨hnext, hdesc, .same hcache⟩

theorem setContent_linked (s : State) (g : Nat) (bs : List Byte) (f : Nat) :
    ((s.setContent g bs).cache.files f).linked = (s.cache.files f).linked := by
  unfold setContent
  dsimp only
  by_cases hfg : f = g
  · subst hfg
    rw [update_self]
  · rw [update_of_ne hfg]

/-- What a local cache file holds does not matter for whether it is kept. -/
theorem keeps_setContent (h : s.cache.Keeps p f) (g : Nat) (bs : List Byte) : (s.setContent g bs).cache.Keeps p f :=
  ⟨h.entry, h.owner, (s.setContent_linked g bs f).trans h.linked⟩

theorem irodsWrite_stepOk (h : Tracked s) (hfresh : ∀ d f, Held s d f → s.cache.Fresh now (s.desc d).localPath)
    (hopen : s.opened e = true) (hread : (s.desc e).locCacheState ≠ .haveReadCache)
    (hname : ∀ f, Held s e f → path = (s.desc e).localPath) (data : List Byte) (offset : Nat) (env : WriteEnv)
    (op : Op) : StepOk s (s.irodsWrite parse path e data offset env).1 op := by
  have honly := s.irodsWrite_onlyDesc parse path e data offset env
  obtain ⟨hnext, hdesc, hout⟩ := s.irodsWrite_outcome parse path e data offset env
  generalize (s.irodsWrite parse path e data offset env).1 = t at honly hnext hdesc hout
  have hinuse := h.slots.inuse e hopen
  have hfile : ∀ d', (s.desc d').SameFile (t.desc d') := by
    intro d'
    by_cases hde : d' = e
    · subst hde; exact hdesc
    · exact .of_eq (honly.others d' hde)
  have hkept : ∀ d f, Held s d f → Held t d f → Track s d f → t.cache.Keeps (s.desc d).localPath f := by
    intro d f hbefore hheld htrack
    cases hout with
    | same hcache => rw [hcache]; exact htrack.kept
    | wrote g bs hcache => rw [hcache]; exact keeps_setContent htrack.kept g bs
    | switched g bs hg hstate hcache hgone =>
      -- the entry that is dropped is the one of the descriptor written to
      have hde : d ≠ e := fun hde => hgone f (hde ▸ hheld)
      have hpending : (s.desc e).Pending := by
        refine ⟨hinuse, ?_⟩
        cases hc : (s.desc e).locCacheState with
        | noFileCache => exact absurd hc hstate
        | haveReadCache => exact absurd hc hread
        | haveNewlyCreatedCache => rfl
      have hpath : path ≠ (s.desc d).localPath := by
        rw [hname g ⟨hpending, hg⟩]
        exact htrack.alone e hde.symm hpending
      rw [hcache]
      have hcarry : Carries now (s.desc d).localPath f (s.setContent g bs).cache
          ((s.setContent g bs).cache.rmPathFromCache path .pathArray) := carries_rm _ (.inr hpath)
      exact (hcarry (keeps_setContent htrack.kept g bs) (hfresh d f hbefore)).1
  have hback : ∀ d f, Held t d f → Held s d f ∧ (t.desc d).localPath = (s.desc d).localPath := by
    rintro d f ⟨hp, pos, hpos⟩
    obtain ⟨hpend, hpath, hsame⟩ := hfile d hp
    exact ⟨⟨hpend, hsame f pos hpos⟩, hpath⟩
  refine ⟨⟨h.slots.of_onlyDesc hopen honly, h.table.onlyDesc hinuse honly, ?_, fun d f hheld => ?_⟩,
    hnext.symm.le, fun d f _ hheld => ⟨(hback d f hheld).1, fun _ => (hback d f hheld).2,
      by rw [honly.newly]; exact id⟩⟩
  · refine Follows.bounded_of_refs hnext.symm.le (fun g hg => .inl ?_) h.bounded
    cases hout with
    | same hcache => rwa [hcache] at hg
    | wrote g bs hcache => rw [hcache] at hg; exact hg
    | switched g bs hf hstate hcache hgone => rw [hcache] at hg; exact refs_rm hg
  · obtain ⟨hbefore, hpath⟩ := hback d f hheld
    have htrack := h.track d f hbefore
    refine ⟨?_, fun d' hne hpend' => ?_, fun i hi => ?_, hnext ▸ htrack.old⟩
    · rw [hpath]; exact hkept d f hbefore hheld htrack
    · obtain ⟨hp, hloc, -⟩ := hfile d' hpend'
      rw [hloc, hpath]
      exact htrack.alone d' hne hp
    · rw [honly.newly] at hi ⊢
      rw [hpath]
      exact htrack.slot i hi

/-! ## mknod -/

theorem closeNewlyCreatedCache_desc (now : Nat) (h : (s.newly i).filePath ≠ [] → (s.newly i).descInx ≠ d)
    (put : Reply) : (s.closeNewlyCreatedCache parse now i put).1.desc d = s.desc d := by
  unfold closeNewlyCreatedCache
  split
  · rfl
  · rename_i hpath
    split
    · have hsame := s.sameTables_ifuseClose parse now (s.newly i).filePath (s.newly i).descInx put
      have hne : d ≠ (s.newly i).descInx := Ne.symm (h (by simpa using hpath))
      exact (update_of_ne hne _ _).trans (congrFun hsame.desc d)
    · rfl

theorem closeNewlyCreatedCache_leaves (s : State) (now : Nat) (i : Slot) (put : Reply) (g : Nat) :
    Leaves g s.cache (s.closeNewlyCreatedCache parse now i put).1.cache := by
  unfold closeNewlyCreatedCache
  split
  · exact .refl g _
  · split
    · exact s.ifuseClose_leaves parse now (s.newly i).filePath (s.newly i).descInx put g
    · exact .refl g _

/-- Making room for a new file leaves the new file itself alone: its descriptor is in no
slot, and no entry names its local cache file. -/
theorem chooseSlot_frame (now g : Nat) (puts : Slot → Reply)
    (h : ∀ i, (s.newly i).filePath ≠ [] → (s.newly i).descInx ≠ d) :
    (s.chooseSlot parse now puts).1.desc d = s.desc d ∧
    Leaves g s.cache (s.chooseSlot parse now puts).1.cache := by
  -- the slots hold nothing they did not hold before
  have hslots : ∀ t : State, Follows now d g [] s t →
      ∀ i, (t.newly i).filePath ≠ [] → (t.newly i).descInx ≠ d := by
    intro t ht i hi
    obtain ⟨hpath, hinx⟩ := ht.slots i hi
    rw [hinx]
    exact h i (hpath ▸ hi)
  have hstep : ∀ acc i, Follows now d g [] s acc.1 →
      (chooseSlotStep parse now puts acc i).1.desc d = acc.1.desc d ∧
      Leaves g acc.1.cache (chooseSlotStep parse now puts acc i).1.cache := by
    rintro ⟨t, newlyInx⟩ i ht
    have hclose := closeNewlyCreatedCache_desc parse now (hslots t ht i) (puts i)
    have hleaves := t.closeNewlyCreatedCache_leaves parse now i (puts i) g
    unfold chooseSlotStep
    dsimp only
    split
    · exact ⟨rfl, .refl g _⟩
    · split
      · split <;> exact ⟨hclose, hleaves⟩
      · exact ⟨rfl, .refl g _⟩
  have hfold : ∀ (is : List Slot) acc, Follows now d g [] s acc.1 →
      Follows now d g [] s (is.foldl (chooseSlotStep parse now puts) acc).1 ∧
      (is.foldl (chooseSlotStep parse now puts) acc).1.desc d = acc.1.desc d ∧
      Leaves g acc.1.cache (is.foldl (chooseSlotStep parse now puts) acc).1.cache := by
    intro is
    induction is with
    | nil => exact fun acc hacc => ⟨hacc, rfl, .refl g _⟩
    | cons i is ih =>
      intro acc hacc
      obtain ⟨hdesc, hleaves⟩ := hstep acc i hacc
      obtain ⟨hf, hdesc', hleaves'⟩ := ih (chooseSlotStep parse now puts acc i)
        (hacc.trans (chooseSlotStep_follows parse puts acc i))
      exact ⟨hf, hdesc'.trans hdesc, hleaves.trans hleaves'⟩
  obtain ⟨hf, hdesc, hleaves⟩ := hfold (List.finRange numNewlyCreatedSlot) (s, none) (.refl s)
  unfold chooseSlot
  generalize (List.finRange numNewlyCreatedSlot).foldl (chooseSlotStep parse now puts) (s, none) = r
    at hf hdesc hleaves
  obtain ⟨t, _ | i⟩ := r
  · exact ⟨(closeNewlyCreatedCache_desc parse now (hslots t hf _) _).trans hdesc,
      hleaves.trans (t.closeNewlyCreatedCache_leaves parse now _ _ g)⟩
  · exact ⟨hdesc, hleaves⟩

theorem lookupCached_absent (hone : (s.cache.entries .pathArray path).length ≤ 1)
    (h : (s.lookupCached now path).2 = none) : (s.lookupCached now path).1.cache.entries .pathArray path = [] := by
  have hmatch := shrinks_matchPathInPathCache s.cache now path .pathArray
  have hnone := s.cache.entries_match_none now path .pathArray
  unfold lookupCached at h ⊢
  generalize s.cache.matchPathInPathCache now path .pathArray = r at h hmatch hnone
  obtain ⟨c, _ | e⟩ := r
  · exact hnone rfl
  · dsimp only at h ⊢
    split
    · exact entries_rm_of_unique (Nat.le_trans (hmatch _ _) hone)
    · rename_i hstat
      rw [hstat] at h
      cases h

variable {reply : StatReply}

theorem lookupServer_absent (h : s.cache.entries .pathArray path = []) :
    (s.lookupServer parse now path reply).1.cache.entries .pathArray path = [] := by
  have hadd : (s.addNonExist now path).cache.entries .pathArray path = [] := by
    exact h
  unfold lookupServer
  split
  · exact h
  · split
    · split
      · exact h
      · exact h
      · exact hadd
    · exact hadd

/-- A path that the caches do not contradict each other about is not cached as existing
when it is not found. -/
theorem lookupPath_absent (hone : (s.cache.entries .pathArray path).length ≤ 1)
    (hsep : s.cache.entries .pathArray path = [] ∨ s.cache.entries .nonExistPathArray path = [])
    (h : ∀ e, (s.lookupPath parse now path reply).2 ≠ .hit e) :
    (s.lookupPath parse now path reply).1.cache.entries .pathArray path = [] := by
  have hmiss := shrinks_matchPathInPathCache s.cache now path .nonExistPathArray
  have hhit : ∀ e, (s.cache.matchPathInPathCache now path .nonExistPathArray).2 = some e → _ :=
    fun _ => s.cache.entries_match_some now path .nonExistPathArray
  unfold lookupPath at h ⊢
  generalize s.cache.matchPathInPathCache now path .nonExistPathArray = r at h hmiss hhit
  obtain ⟨c, _ | e⟩ := r
  · have habsent : (({ s with cache := c } : State).lookupCached now path).2 = none → _ :=
      lookupCached_absent (Nat.le_trans (hmiss .pathArray path) hone)
    dsimp only at h ⊢
    generalize ({ s with cache := c } : State).lookupCached now path = r at h habsent
    obtain ⟨t, _ | e⟩ := r
    · exact lookupServer_absent parse (habsent rfl)
    · exact absurd rfl (h e)
  · obtain hnil | hnil := hsep
    · exact hmiss.nil hnil
    · exact absurd (hmiss.nil hnil) (hhit e rfl)

theorem irodsGetattr_absent (hone : (s.cache.entries .pathArray path).length ≤ 1)
    (hsep : s.cache.entries .pathArray path = [] ∨ s.cache.entries .nonExistPathArray path = [])
    (h : (s.irodsGetattr parse now path reply).2 ≠ .ok) :
    (s.irodsGetattr parse now path reply).1.cache.entries .pathArray path = [] := by
  have habsent : (∀ e, (s.lookupPath parse now path reply).2 ≠ .hit e) → _ :=
    lookupPath_absent parse hone hsep
  unfold irodsGetattr at h ⊢
  generalize s.lookupPath parse now path reply = r at h habsent
  obtain ⟨t, _ | _ | e | size⟩ := r
  · exact habsent nofun
  · exact habsent nofun
  · exact absurd rfl h
  · exact absurd rfl h

/-- The descriptor and the local cache file of a new file. -/
structure Created (s t : State) (path : Path) (d f : Nat) : Prop where
  free : (s.desc d).inuseFlag = false
  inuse : (t.desc d).inuseFlag = true
  path : (t.desc d).localPath = path
  number : f = s.nextFile
  next : t.nextFile = f + 1
  file : ∀ g pos, (t.desc d).iFd = .localFd g pos → g = f ∧ (t.cache.files f).linked = true
  refs : ∀ g, t.cache.Refs g → s.cache.Refs g
  others : ∀ d', d' ≠ d → t.desc d' = s.desc d'

variable {env : MknodEnv}

theorem mknodDesc_created (hb : Bounded s) (h : s.mknodDesc parse now path env = (t, .ok (d, f))) :
    Created s t path d f := by
  have hsame := s.sameTables_irodsGetattr parse now path env.stat
  have hnext := s.irodsGetattr_nextFile parse now path env.stat
  have hrefs : ∀ g, (s.irodsGetattr parse now path env.stat).1.cache.Refs g → s.cache.Refs g :=
    fun _ => irodsGetattr_refs parse
  unfold mknodDesc at h
  generalize s.irodsGetattr parse now path env.stat = r at h hsame hnext hrefs
  obtain ⟨u, _ | err⟩ := r
  · cases h
  · dsimp only at h hsame hnext hrefs
    have hhandle := u.sameTables_mknodHandle parse path env
    have hque := u.mknodHandle_que parse path env
    have hfile : ∀ v g hd, u.mknodHandle parse path env = (v, g, hd) → g = u.nextFile ∧
        v.nextFile = g + 1 ∧ ∀ iFd objPath, hd = some (iFd, objPath) →
          ∀ g' pos, iFd = .localFd g' pos → g' = g ∧ (v.cache.files g).linked = true := by
      intro v g hd hv
      unfold mknodHandle at hv
      split at hv
      · cases hv
        refine ⟨rfl, rfl, fun iFd objPath ho g' pos hg' => ?_⟩
        cases ho
        cases hg'
        refine ⟨rfl, ?_⟩
        simp
      · dsimp only at hv
        split at hv
        · cases hv
          exact ⟨rfl, rfl, nofun⟩
        · split at hv <;> cases hv
          · refine ⟨rfl, rfl, fun iFd objPath ho g' pos hg' => ?_⟩
            cases ho
            cases hg'
          · exact ⟨rfl, rfl, nofun⟩
    generalize u.mknodHandle parse path env = v at h hhandle hque hfile
    obtain ⟨v, g, _ | ⟨iFd, objPath⟩⟩ := v
    · cases h
    · obtain ⟨hg, hgnext, hlinked⟩ := hfile v g _ rfl
      dsimp only at h hhandle hque
      split at h
      · cases h
      · rename_i w e halloc
        cases h
        have hcache := allocIFuseDesc_cache halloc
        have hdesc : v.desc = s.desc := hhandle.desc.trans hsame.desc
        have hrefs' : ∀ g', v.cache.Refs g' → s.cache.Refs g' := by
          rintro g' ⟨w', i, e, he, hloc⟩
          exact hrefs g' ⟨w', i, e, by rwa [hque] at he, hloc⟩
        obtain ⟨hfree, -, -, hw⟩ := allocIFuseDesc_spec halloc
        refine ⟨?_, ?_, ?_, hg.trans hnext, ?_, ?_, ?_, ?_⟩
        · rw [← hdesc]; exact hfree
        · subst hw; simp [fillIFuseDesc, setDesc]
        · simp [fillIFuseDesc, setDesc]
        · subst hw; exact hgnext
        · intro g' pos hg'
          obtain ⟨rfl, hlink⟩ := hlinked iFd objPath rfl g' pos (by
            simpa [fillIFuseDesc, setDesc] using hg')
          refine ⟨rfl, ?_⟩
          -- forgetting that the path is missing frees no file that was just made
          have hnew : ¬ v.cache.Refs g' := by
            intro hr
            have := hb g' (hrefs' g' hr)
            omega
          show (w.cache.files g').linked = true
          rw [hcache, show ((v.onCache fun c => c.rmPathFromCache path .nonExistPathArray).cache.files g') = _ from
            (leaves_rm v.cache path .nonExistPathArray g' hnew).2]
          exact hlink
        · intro g' hg'
          have hr : w.cache.Refs g' := hg'
          rw [hcache] at hr
          exact hrefs' g' (refs_rm hr)
        · intro d' hne
          refine (update_of_ne hne _ _).trans ((allocIFuseDesc_others halloc hne).trans ?_)
          exact congrFun hdesc d'

theorem mknodDesc_absent (hone : (s.cache.entries .pathArray path).length ≤ 1)
    (hsep : s.cache.entries .pathArray path = [] ∨ s.cache.entries .nonExistPathArray path = [])
    (h : s.mknodDesc parse now path env = (t, .ok (d, f))) : t.cache.entries .pathArray path = [] := by
  have habsent : (s.irodsGetattr parse now path env.stat).2 ≠ .ok → _ := irodsGetattr_absent parse hone hsep
  unfold mknodDesc at h
  generalize s.irodsGetattr parse now path env.stat = r at h habsent
  obtain ⟨u, _ | err⟩ := r
  · cases h
  · have hnil := habsent nofun
    have hque := u.mknodHandle_que parse path env
    dsimp only at h hnil
    generalize u.mknodHandle parse path env = v at h hque
    obtain ⟨v, g, _ | ⟨iFd, objPath⟩⟩ := v
    · cases h
    · dsimp only at h hque
      split at h
      · cases h
      · rename_i w e halloc
        cases h
        show w.cache.entries .pathArray path = []
        rw [allocIFuseDesc_cache halloc]
        show (v.cache.rmPathFromCache path .nonExistPathArray).entries .pathArray path = []
        rw [entries_rmPathFromCache, if_neg (by simp)]
        simpa only [entries, hque] using hnil

/-- The state a creation leaves, after room was made for it in slot `i` of `u`. -/
def created (u : State) (i : Slot) (now : Nat) (path : Path) (d f mode : Nat) : State :=
  (u.fillSlot i now path d f).setDesc d fun r =>
    { r with locCacheState := .haveNewlyCreatedCache, createMode := mode }

section Created

variable {now mode : Nat}

theorem created_others (h : d' ≠ d) : (u.created i now path d f mode).desc d' = u.desc d' :=
  (update_of_ne h _ _).trans (update_of_ne h _ _)

theorem created_self : (u.created i now path d f mode).desc d =
    { u.desc d with newFlag := true, locCacheState := .haveNewlyCreatedCache, createMode := mode } := by
  unfold created
  simp [fillSlot, onCache, setDesc, setSlot]

theorem created_slots {j : Slot} (h : j ≠ i) : (u.created i now path d f mode).newly j = u.newly j :=
  update_of_ne h _ _

theorem created_slot : (u.created i now path d f mode).newly i =
    { u.newly i with filePath := rstrcpy (u.newly i).filePath path MAX_NAME_LEN, descInx := d, cachedTime := now } :=
  update_self ..

theorem created_cache : (u.created i now path d f mode).cache = u.cache.addPathToCache .pathArray
    { filePath := path, locCachePath := some f, stSize := 0, cachedTime := now,
      locCacheState := .haveNewlyCreatedCache } := rfl

/-- A slot that was blank names either nothing or the new file. -/
theorem created_slot_path (h : (u.newly i).filePath = [])
    (hne : ((u.created i now path d f mode).newly i).filePath ≠ []) :
    ((u.created i now path d f mode).newly i).filePath = path := by
  rw [created_slot] at hne ⊢
  unfold rstrcpy at hne ⊢
  split
  · rfl
  · rename_i hlong
    rw [if_neg hlong] at hne
    exact absurd h hne

theorem track_created (hempty : (u.newly i).filePath = []) (hpath : (u.desc d).localPath = path)
    (hslots : ∀ j, (u.newly j).filePath ≠ [] → (u.newly j).filePath ≠ path ∧ (u.newly j).descInx ≠ d)
    (hpend : ∀ d', d' ≠ d → (u.desc d').Pending → (u.desc d').localPath ≠ path)
    (hnil : u.cache.entries .pathArray path = []) (hrefs : ¬ u.cache.Refs f)
    (hlinked : (u.cache.files f).linked = true) (hold : f < u.nextFile) :
    Track (u.created i now path d f mode) d f := by
  have hname : ((u.created i now path d f mode).desc d).localPath = path := by
    rw [created_self]; exact hpath
  refine ⟨?_, fun d' hne hp => ?_, fun j hj => ?_, hold⟩
  · rw [hname, created_cache]
    refine ⟨?_, fun w k e he hloc => ?_, hlinked⟩
    · rw [entries_addPathToCache, if_pos ⟨rfl, rfl⟩, hnil]
      exact ⟨_, rfl, rfl, rfl⟩
    · unfold addPathToCache at he
      dsimp only at he
      by_cases hw : w = .pathArray
      · subst hw
        obtain hmem | ⟨rfl, hk⟩ := HashQueues.mem_push he
        · exact absurd ⟨_, k, e, hmem, hloc⟩ hrefs
        · exact ⟨rfl, hk, rfl⟩
      · rw [update_of_ne hw] at he
        exact absurd ⟨w, k, e, he, hloc⟩ hrefs
  · rw [created_others hne] at hp ⊢
    rw [hname]
    exact hpend d' hne hp
  · rw [hname]
    by_cases hji : j = i
    · subst hji
      have hp := created_slot_path hempty hj
      rw [hp, created_slot]
      exact ⟨fun _ => rfl, fun _ => rfl⟩
    · rw [created_slots hji] at hj ⊢
      obtain ⟨hpath', hinx⟩ := hslots j hj
      exact ⟨fun h => absurd h hpath', fun h => absurd h hinx⟩

/-- The files that were there before stay tracked. -/
theorem track_created_other {g : Nat} (h : Track u e g) (hfresh : u.cache.Fresh now (u.desc e).localPath)
    (hempty : (u.newly i).filePath = []) (hed : e ≠ d) (hgf : f ≠ g) (hpath : (u.desc d).localPath = path)
    (hne : path ≠ (u.desc e).localPath) : Track (u.created i now path d f mode) e g := by
  have hdesc : (u.created i now path d f mode).desc e = u.desc e := created_others hed
  refine ⟨?_, fun d' hne' hp => ?_, fun j hj => ?_, h.old⟩
  · rw [hdesc, created_cache]
    have hcarry : Carries now (u.desc e).localPath g u.cache (u.cache.addPathToCache .pathArray
        { filePath := path, locCachePath := some f, stSize := 0, cachedTime := now,
          locCacheState := .haveNewlyCreatedCache }) :=
      carries_add u.cache (.inr hne) fun ho => hgf (Option.some.inj ho)
    exact (hcarry h.kept hfresh).1
  · rw [hdesc]
    by_cases hd' : d' = d
    · subst hd'
      rw [created_self]
      exact hpath ▸ hne
    · rw [created_others hd'] at hp ⊢
      exact h.alone d' hne' hp
  · rw [hdesc]
    by_cases hji : j = i
    · subst hji
      have hp := created_slot_path hempty hj
      rw [hp, created_slot]
      exact ⟨fun h => absurd h hne, fun h => absurd h.symm hed⟩
    · rw [created_slots hji] at hj ⊢
      exact h.slot j hj

end Created

theorem irodsMknod_stepOk (h : Tracked s) (hok : RenameOk parse s (.mknod now path env)) :
    StepOk s (s.irodsMknod parse now path env).1 (.mknod now path env) := by
  obtain ⟨hreuse, hfresh, ⟨hpend, hslot⟩, hone, hsep⟩ := hok
  have hfinal := irodsMknod_slots parse h.slots hreuse path env
  have hfirst := fun d f => s.mknodDesc_follows parse now d f (s.desc d).localPath path env
  obtain ⟨hdslots, hdnewly, hdspare⟩ := mknodDesc_slots parse h.slots now path env
  have hnew : ∀ t d f, s.mknodDesc parse now path env = (t, .ok (d, f)) →
      Created s t path d f ∧ t.cache.entries .pathArray path = [] :=
    fun t d f hd => ⟨mknodDesc_created parse h.bounded hd, mknodDesc_absent parse hone hsep hd⟩
  unfold irodsMknod at hfinal ⊢
  generalize s.mknodDesc parse now path env = r at hfinal hfirst hdslots hdnewly hdspare hnew
  obtain ⟨t, ret | ⟨d₀, f₀⟩⟩ := r
  · exact h.stepOk hfinal hfresh hfirst _
  · obtain ⟨hcr, hnil⟩ := hnew t d₀ f₀ rfl
    have hspare := hdspare d₀ f₀ rfl
    have hreuse' : ReuseOk t.newly now := by
      rw [show t.newly = s.newly from hdnewly]
      exact hreuse
    obtain ⟨huslots, huspare, hempty, -⟩ := chooseSlot_slots parse env.puts hdslots hspare hreuse'
    have hsecond := fun d f p => t.chooseSlot_follows parse now d f p env.puts
    have hshrinks := t.chooseSlot_shrinks parse now env.puts
    have hframe := chooseSlot_frame parse now f₀ env.puts hspare.unslotted
    unfold addNewlyCreatedToCache at hfinal ⊢
    dsimp only at hfinal hfirst ⊢
    generalize t.chooseSlot parse now env.puts = v
      at hfinal huslots huspare hempty hsecond hshrinks hframe
    obtain ⟨u, i⟩ := v
    obtain ⟨hdesc, hleaves⟩ := hframe
    change StepOk s (u.created i now path d₀ f₀ env.mode) _
    have hboth : ∀ d f, Follows now d f (s.desc d).localPath s u := fun d f => (hfirst d f).trans (hsecond d f _)
    have hnext : f₀ < u.nextFile := by
      have := (hsecond 0 0 []).nextFile
      rw [hcr.next] at this
      exact this
    have hnotref : ¬ t.cache.Refs f₀ := by
      intro hr
      have := h.bounded f₀ (hcr.refs f₀ hr)
      rw [hcr.number] at this
      exact Nat.lt_irrefl _ this
    obtain ⟨hunref, hfile⟩ := hleaves hnotref
    have hupath : (u.desc d₀).localPath = path := by rw [hdesc]; exact hcr.path
    have huinuse : (u.desc d₀).inuseFlag = true := by rw [hdesc]; exact hcr.inuse
    have hback : ∀ d f, d ≠ d₀ → Held (u.created i now path d₀ f₀ env.mode) d f → Held u d f := by
      intro d f hd hheld
      unfold Held at hheld ⊢
      rwa [created_others hd] at hheld
    have hfile₀ : ∀ f, Held (u.created i now path d₀ f₀ env.mode) d₀ f → f = f₀ ∧ (t.cache.files f₀).linked = true := by
      rintro f ⟨-, pos, hpos⟩
      rw [created_self] at hpos
      exact hcr.file f pos (by rw [← hdesc]; exact hpos)
    refine ⟨⟨hfinal, ?_, ?_, fun d f hheld => ?_⟩, (hboth 0 0).nextFile, fun d f hold hheld => ?_⟩
    · exact ((hboth 0 0).table h.table).set huinuse (fun d' hne => created_others hne)
        (by rw [created_self]; exact huinuse) rfl
    · refine Follows.bounded_of_refs (Nat.le_refl u.nextFile) (fun g hg => ?_) ((hboth 0 0).bounded h.bounded)
      obtain hr | hr := refs_add hg
      · exact .inl hr
      · exact .inr (Option.some.inj hr ▸ hnext)
    · by_cases hd : d = d₀
      · subst hd
        obtain ⟨rfl, hlinked⟩ := hfile₀ f hheld
        refine track_created hempty hupath (fun j hj => ⟨?_, huspare.unslotted j hj⟩) (fun d' hne hp => ?_)
          (hshrinks.nil hnil) hunref (by rw [hfile]; exact hlinked) hnext
        · obtain ⟨hname, -⟩ := (hboth 0 0).slots j hj
          rw [hname]
          exact hslot j (hname ▸ hj)
        · obtain ⟨hp', hloc, -⟩ := (hboth 0 0).pend h.table d' hp
          rw [hloc]
          exact hpend d' hp'
      · have hu := hback d f hd hheld
        obtain ⟨hs, hloc⟩ := hu.follows (hboth d f) h.table
        have hstrack := h.track d f hs
        have hslotof : SlotOf s (s.desc d).localPath d := fun j hj hp => (hstrack.slot j hj).mp hp
        obtain ⟨-, hufresh, -⟩ := (hboth d f).carries h.table hu hstrack.old hslotof hstrack.kept (hfresh d f hs)
        refine track_created_other (hstrack.follows h.table (hboth d f) (hfresh d f hs) hu)
          (by rw [hloc]; exact hufresh) hempty hd ?_ hupath ?_
        · have := hstrack.old
          rw [hcr.number]
          exact Nat.ne_of_gt this
        · rw [hloc]
          exact Ne.symm (hpend d hs.1)
    · have hd : d ≠ d₀ := by
        rintro rfl
        rw [(hfile₀ f hheld).1, hcr.number] at hold
        exact Nat.lt_irrefl _ hold
      obtain ⟨hs, hname, hslots⟩ := (hback d f hd hheld).continues (hboth d f) h.table (.mknod now path env)
      refine ⟨hs, fun hop => by rw [created_others hd]; exact hname hop, fun hslot' j hj => ?_⟩
      by_cases hji : j = i
      · subst hji
        rw [created_slot]
        exact Ne.symm hd
      · rw [created_slots hji] at hj ⊢
        exact hslots hslot' j hj

/-! ## rename -/

/-- A scan that stops after as many entries as are in use misses none of them. -/
theorem scanDesc_eq_find? (desc : Nat → IFuseDesc) (p : IFuseDesc → Bool) (is : List Nat) (seen : Int) :
    scanDesc desc (seen + is.countP fun i => (desc i).inuseFlag) p seen is =
      is.find? fun i => (desc i).inuseFlag && p (desc i) := by
  induction is generalizing seen with
  | nil => rfl
  | cons i is ih =>
    unfold scanDesc
    by_cases hi : (desc i).inuseFlag = true
    · have hcount : (i :: is).countP (fun i => (desc i).inuseFlag) =
          is.countP (fun i => (desc i).inuseFlag) + 1 := by simp [hi]
      rw [hcount, if_neg (by omega), if_pos hi]
      by_cases hp : p (desc i) = true
      · rw [if_pos hp, List.find?_cons_of_pos (by simp [hi, hp])]
      · rw [if_neg hp, List.find?_cons_of_neg (by simp [hp]), ← ih (seen + 1)]
        congr 1
        push_cast
        omega
    · have hcount : (i :: is).countP (fun i => (desc i).inuseFlag) =
          is.countP (fun i => (desc i).inuseFlag) := by simp [hi]
      rw [hcount, List.find?_cons_of_neg (by simp [hi]), if_neg hi]
      split
      · have hzero : is.countP (fun i => (desc i).inuseFlag) = 0 := by omega
        symm
        rw [List.find?_eq_none]
        intro j hj
        have := List.countP_eq_zero.mp hzero j hj
        simp [this]
      · exact ih seen

theorem getNewlyCreatedDescByPath_some (h : TableOk s) (hd : s.getNewlyCreatedDescByPath path = some d) :
    (s.desc d).Pending ∧ (s.desc d).localPath = path := by
  unfold getNewlyCreatedDescByPath at hd
  rw [h.count, ← Int.zero_add (List.countP _ _ : Int), scanDesc_eq_find?] at hd
  have := List.find?_some hd
  simp only [Bool.and_eq_true, beq_iff_eq] at this
  exact ⟨⟨this.1, this.2.1⟩, this.2.2⟩

/-- The scan finds the descriptor of a tracked file by its name. -/
theorem getNewlyCreatedDescByPath_track (h : TableOk s) (hheld : Held s d f) (ht : Track s d f) :
    s.getNewlyCreatedDescByPath (s.desc d).localPath = some d := by
  cases hscan : s.getNewlyCreatedDescByPath (s.desc d).localPath with
  | none =>
    unfold getNewlyCreatedDescByPath at hscan
    rw [h.count, ← Int.zero_add (List.countP _ _ : Int), scanDesc_eq_find?, List.find?_eq_none] at hscan
    have := hscan d (h.range d hheld.1.1)
    simp [hheld.1.1, hheld.1.2] at this
  | some d' =>
    obtain ⟨hpend, hpath⟩ := getNewlyCreatedDescByPath_some h hscan
    by_cases hne : d' = d
    · rw [hne]
    · exact absurd hpath (ht.alone d' hne hpend)

/-- The state a rename in the local cache leaves: entry `e` and descriptor `d` are called `dest`. -/
def movedTo (s : State) (now : Nat) (e : PathCache) (d : Nat) (dest obj : Path) : State :=
  (s.onCache fun c => c.renameFile now e dest).setDesc d fun r => { r with objPath := obj, localPath := dest }

variable {dest : Path}

theorem movedTo_tracked (h : Tracked s) {e : PathCache} {d₀ : Nat}
    (hfresh : ∀ d f, Held s d f → s.cache.Fresh now (s.desc d).localPath)
    (he : (s.cache.entries .pathArray e.filePath).head? = some e) (hpend₀ : (s.desc d₀).Pending)
    (hname₀ : (s.desc d₀).localPath = e.filePath) (hfree : FreeName s dest)
    (hone : (s.cache.entries .pathArray dest).length ≤ 1)
    (hslot : ∀ f, Held s d₀ f → ∀ i, (s.newly i).filePath ≠ [] → (s.newly i).descInx ≠ d₀)
    (hslots : SlotsOk (s.movedTo now e d₀ dest obj)) : Tracked (s.movedTo now e d₀ dest obj) := by
  have hself : (s.movedTo now e d₀ dest obj).desc d₀ = { s.desc d₀ with objPath := obj, localPath := dest } :=
    setDesc_self ..
  have hothers : ∀ d', d' ≠ d₀ → (s.movedTo now e d₀ dest obj).desc d' = s.desc d' :=
    fun d' hne => update_of_ne hne _ _
  have hcache : (s.movedTo now e d₀ dest obj).cache = s.cache.renameFile now e dest := rfl
  have hpend : ∀ d', ((s.movedTo now e d₀ dest obj).desc d').Pending → (s.desc d').Pending := by
    intro d' hp
    by_cases hd : d' = d₀
    · subst hd; exact hpend₀
    · rwa [hothers d' hd] at hp
  obtain ⟨hmem, -⟩ := HashQueues.mem_entries.mp (List.mem_of_mem_head? he)
  refine ⟨hslots, h.table.set hpend₀.1 hothers ?_ rfl, ?_, fun d f hheld => ?_⟩
  · rw [hself]; exact hpend₀.1
  · refine Follows.bounded_of_refs (Nat.le_refl s.nextFile) (fun g hg => .inl ?_) h.bounded
    obtain hr | hr := refs_renameFile (by rwa [hcache] at hg)
    · exact hr
    · exact ⟨_, _, e, hmem, hr⟩
  · by_cases hd : d = d₀
    · -- the renamed file
      subst hd
      have hs : Held s d f := by
        refine ⟨hpend₀, ?_⟩
        have := hheld.2
        rwa [hself] at this
      have htrack := h.track d f hs
      have hkept := htrack.kept
      rw [hname₀] at hkept
      have hne : e.filePath ≠ dest := hname₀ ▸ hfree.1 d hpend₀
      refine ⟨?_, fun d' hd' hp => ?_, fun i hi => ?_, htrack.old⟩
      · rw [hself, hcache]
        exact (keeps_renameFile hkept (hname₀ ▸ hfresh d f hs) he hne hone).1
      · rw [hself, hothers d' hd']
        exact hfree.1 d' (hpend d' hp)
      · rw [hself]
        exact ⟨fun hp => absurd hp (hfree.2 i hi), fun hp => absurd hp (hslot f hs i hi)⟩
    · -- any other file
      have hs : Held s d f := by
        unfold Held at hheld ⊢
        rwa [hothers d hd] at hheld
      have htrack := h.track d f hs
      have hsrc : e.filePath ≠ (s.desc d).localPath := hname₀ ▸ htrack.alone d₀ (Ne.symm hd) hpend₀
      have hdest : dest ≠ (s.desc d).localPath := Ne.symm (hfree.1 d hs.1)
      have hloc := htrack.kept.locCachePath_ne hmem (.inr hsrc)
      refine ⟨?_, fun d' hd' hp => ?_, fun i hi => ?_, htrack.old⟩
      · rw [hothers d hd, hcache]
        have hcarry : Carries now (s.desc d).localPath f s.cache (s.cache.renameFile now e dest) :=
          s.cache.carries_renameFile hsrc hdest hloc
        exact (hcarry htrack.kept (hfresh d f hs)).1
      · rw [hothers d hd]
        by_cases hd₀ : d' = d₀
        · subst hd₀
          rw [hself]
          exact hdest
        · rw [hothers d' hd₀] at hp ⊢
          exact htrack.alone d' hd' hp
      · rw [hothers d hd]
        exact htrack.slot i hi

variable {src : Path}

theorem renamed_follows (s : State) (now d f : Nat) (hsrc : Held s d f → p ≠ src) (hdest : Held s d f → p ≠ dest) :
    Follows now d f p s (s.renamed now src dest) := by
  have hrefs : ∀ g, (s.renamed now src dest).cache.Refs g → s.cache.Refs g := by
    intro g hg
    unfold renamed at hg
    dsimp only at hg
    split at hg
    · exact refs_rm (refs_match (refs_rm hg))
    · obtain hr | hr := refs_add (refs_rm (refs_rm hg))
      · exact refs_rm (refs_match hr)
      · cases hr
  refine .of_same (s.sameTables_renamed now src dest) ?_ (fun g hg => .inl (hrefs g hg)) fun hheld _ => ?_
  · unfold renamed
    dsimp only
    split <;> exact le_rfl
  · have hne₁ : src ≠ p := Ne.symm (hsrc hheld)
    have hne₂ : dest ≠ p := Ne.symm (hdest hheld)
    have hrm : Carries now p f s.cache (s.cache.rmPathFromCache dest .pathArray) := carries_rm _ (.inr hne₂)
    have hmatch : Carries now p f (s.cache.rmPathFromCache dest .pathArray)
        ((s.cache.rmPathFromCache dest .pathArray).matchPathInPathCache now src .pathArray).1 := carries_match _ _ _
    unfold renamed
    dsimp only
    split
    · exact (hrm.trans hmatch).trans (carries_rm _ (.inl nofun))
    · refine ((hrm.trans hmatch).trans ?_).trans (carries_rm _ (.inl nofun))
      refine Carries.trans (carries_add _ (.inr hne₂) ?_) (carries_rm _ (.inr hne₁))
      exact nofun

/-- The state after `irodsRename` has looked the old name up. -/
def lookedUp (s : State) (now : Nat) (src : Path) : State :=
  { s with cache := (s.cache.matchPathInPathCache now src .pathArray).1 }

theorem lookedUp_follows (s : State) (now d f : Nat) (p src : Path) : Follows now d f p s (s.lookedUp now src) :=
  .of_same ⟨rfl, rfl, rfl, rfl⟩ le_rfl (fun _ hg => .inl (refs_match hg)) fun _ _ =>
    s.cache.carries_match src .pathArray

/-- A file of the local cache is renamed there just when its entry and its descriptor are found. -/
theorem renameLocal_cases (s : State) (now : Nat) (src : Path) (hparse : parse dest ≠ none) :
    (s.renameLocal parse now src dest = (s.lookedUp now src, false) ∧
      ∀ e, ((s.lookedUp now src).cache.entries .pathArray src).head? = some e →
        e.locCacheState = .haveNewlyCreatedCache → e.locCachePath.isSome →
        (s.lookedUp now src).getNewlyCreatedDescByPath src = none) ∨
    ∃ e d obj, ((s.lookedUp now src).cache.entries .pathArray src).head? = some e ∧ e.filePath = src ∧
      (s.lookedUp now src).getNewlyCreatedDescByPath src = some d ∧
      s.renameLocal parse now src dest = ((s.lookedUp now src).movedTo now e d dest obj, true) := by
  have hhead : (s.cache.matchPathInPathCache now src .pathArray).2 =
      ((s.cache.matchPathInPathCache now src .pathArray).1.entries .pathArray src).head? :=
    s.cache.matchPathInPathCache_snd now src .pathArray
  unfold renameLocal lookedUp
  generalize s.cache.matchPathInPathCache now src .pathArray = r at hhead
  obtain ⟨c, _ | e⟩ := r
  · refine .inl ⟨rfl, fun e he => ?_⟩
    rw [← hhead] at he
    cases he
  · dsimp only at hhead ⊢
    obtain ⟨-, hpath⟩ := HashQueues.mem_entries.mp (List.mem_of_mem_head? hhead.symm)
    split
    · unfold renmeOpenedIFuseDesc
      rw [hpath]
      cases hscan : ({ s with cache := c } : State).getNewlyCreatedDescByPath src with
      | none =>
        refine .inl ⟨rfl, fun e' he' _ _ => rfl⟩
      | some d =>
        obtain ⟨obj, hobj⟩ := Option.ne_none_iff_exists'.mp hparse
        refine .inr ⟨e, d, obj, hhead.symm, hpath, rfl, ?_⟩
        rw [hobj]
        subst hpath
        rfl
    · rename_i hnot
      refine .inl ⟨rfl, fun e' he' hstate hsome => ?_⟩
      rw [← hhead] at he'
      cases he'
      exact absurd ⟨hstate, hsome⟩ hnot

theorem irodsRename_stepOk (h : Tracked s) {reply : RenameReply} (hok : RenameOk parse s (.rename now src dest reply)) :
    StepOk s (s.irodsRename parse now src dest reply).1 (.rename now src dest reply) ∧
    ∀ d f, Held s d f → (s.desc d).localPath = src →
      (s.irodsRename parse now src dest reply).2 = .ok ∧
      ((s.irodsRename parse now src dest reply).1.desc d).localPath = dest ∧
      ∀ i, ((s.irodsRename parse now src dest reply).1.newly i).filePath ≠ [] →
        ((s.irodsRename parse now src dest reply).1.newly i).descInx ≠ d := by
  obtain ⟨-, hfresh, hfree, hparse, hone, hslot⟩ := hok
  have hfinal := irodsRename_slots parse h.slots now src dest reply
  have hlook := fun d f => s.lookedUp_follows now d f (s.desc d).localPath src
  have h₁ : Tracked (s.lookedUp now src) := h.follows (h.slots.of_same ⟨rfl, rfl, rfl, rfl⟩) hfresh hlook
  have hfresh₁ : ∀ d f, Held s d f → (s.lookedUp now src).cache.Fresh now (s.desc d).localPath := by
    intro d f hs
    have hcarry : Carries now (s.desc d).localPath f s.cache (s.lookedUp now src).cache :=
      s.cache.carries_match src .pathArray
    exact (hcarry (h.track d f hs).kept (hfresh d f hs)).2.1
  have hcases := s.renameLocal_cases parse now src hparse
  unfold irodsRename at hfinal ⊢
  obtain ⟨hlocal, hnone⟩ | ⟨e, d₀, obj, he, hpath, hscan, hlocal⟩ := hcases
  · -- the file is not one of the local cache
    have hnot : ∀ d f, Held s d f → (s.desc d).localPath ≠ src := by
      intro d f hs hp
      have htrack := h₁.track d f hs
      obtain ⟨e, hent, hloc, hstate⟩ := htrack.kept.entry
      rw [show ((s.lookedUp now src).desc d).localPath = src from hp] at hent
      have hscan := hnone e (by rw [hent]; rfl) hstate (by rw [hloc]; rfl)
      have := getNewlyCreatedDescByPath_track h₁.table hs htrack
      rw [show ((s.lookedUp now src).desc d).localPath = src from hp, hscan] at this
      cases this
    have hlook' : StepOk s (s.lookedUp now src) (.rename now src dest reply) :=
      h.stepOk h₁.slots hfresh hlook _
    have hrenamed : StepOk s ((s.lookedUp now src).renamed now src dest) (.rename now src dest reply) := by
      refine h.stepOk (h₁.slots.of_same (sameTables_renamed _ now src dest)) hfresh (fun d f => ?_) _
      exact (hlook d f).trans (renamed_follows _ now d f (hnot d f) fun hs => hfree.1 d hs.1)
    rw [hlocal]
    dsimp only
    refine ⟨?_, fun d f hs hp => absurd hp (hnot d f hs)⟩
    split
    · split
      · exact hrenamed
      · split <;> exact hlook'
    · exact hlook'
  · rw [hlocal] at hfinal ⊢
    obtain ⟨hpend, hname⟩ := getNewlyCreatedDescByPath_some h₁.table hscan
    subst hpath
    have hself : ((s.lookedUp now e.filePath).movedTo now e d₀ dest obj).desc d₀ =
        { s.desc d₀ with objPath := obj, localPath := dest } := setDesc_self ..
    have hothers : ∀ d', d' ≠ d₀ →
        ((s.lookedUp now e.filePath).movedTo now e d₀ dest obj).desc d' = s.desc d' :=
      fun d' hne => update_of_ne hne _ _
    refine ⟨⟨movedTo_tracked h₁ hfresh₁ he hpend hname hfree ?_ ?_ hfinal, le_rfl, fun d f _ ht => ?_⟩,
      fun d f hs hp => ⟨rfl, ?_, hslot d f hs hp⟩⟩
    · exact Nat.le_trans (shrinks_matchPathInPathCache s.cache now _ .pathArray .pathArray dest) hone
    · exact fun f hs => hslot d₀ f hs hname
    · by_cases hd : d = d₀
      · subst hd
        unfold Held at ht
        rw [hself] at ht
        exact ⟨ht, fun hop => absurd (by rw [show (s.desc d).localPath = _ from hname]) (hop now dest reply), id⟩
      · unfold Held at ht
        rw [hothers d hd] at ht
        exact ⟨ht, fun _ => by rw [hothers d hd], id⟩
    · have := getNewlyCreatedDescByPath_track h₁.table hs (h₁.track d f hs)
      rw [show ((s.lookedUp now e.filePath).desc d).localPath = e.filePath from hp, hscan] at this
      cases this
      rw [hself]

end State

theorem step_stepOk {parse : Path → Option Path} {op : Op} {r : State × Ret} (h : Tracked s)
    (hok : RenameOk parse s op) (hstep : step parse s op = some r) : StepOk s r.1 op := by
  have hslots := step_slots h.slots hok.1 hstep
  have hfresh := hok.2.1
  cases op with
  | getattr now path reply =>
    obtain rfl := Option.some.inj hstep
    exact h.stepOk hslots hfresh (fun d f => s.irodsGetattr_follows parse now d f (s.desc d).localPath path reply) _
  | mknod now path env =>
    obtain rfl := Option.some.inj hstep
    exact State.irodsMknod_stepOk parse h hok
  | mkdir now path first retry =>
    obtain rfl := Option.some.inj hstep
    exact h.stepOk hslots hfresh (fun d f => s.irodsMkdir_follows parse now d f first retry (hok.2.2 d f)) _
  | unlink now path first retry =>
    obtain rfl := Option.some.inj hstep
    exact h.stepOk hslots hfresh (fun d f => s.removePath_follows parse now d f first retry (hok.2.2 d f)) _
  | rmdir now path first retry =>
    obtain rfl := Option.some.inj hstep
    exact h.stepOk hslots hfresh (fun d f => s.removePath_follows parse now d f first retry (hok.2.2 d f)) _
  | rename now src dest reply =>
    obtain rfl := Option.some.inj hstep
    exact (State.irodsRename_stepOk parse h hok).1
  | open_ now path write env =>
    obtain rfl := Option.some.inj hstep
    exact h.stepOk hslots hfresh (fun d f => s.irodsOpen_follows parse now d f (s.desc d).localPath path write env) _
  | write now path d data offset env =>
    simp only [step] at hstep
    split at hstep
    · rename_i hd
      obtain rfl := Option.some.inj hstep
      exact State.irodsWrite_stepOk parse h hfresh hd hok.2.2.1 hok.2.2.2 data offset env
        (.write now path d data offset env)
    · cases hstep
  | release now path e put =>
    simp only [step] at hstep
    split at hstep
    · have hspec : ∀ d f, Follows now d f (s.desc d).localPath s (s.irodsRelease parse now path e put).1 :=
        fun d f => s.irodsRelease_follows parse now d f e put fun hne => hok.2.2 d f hne.symm
      obtain rfl := Option.some.inj hstep
      exact h.stepOk hslots hfresh (fun d f => (hspec d f).trans (.opened _ _)) _
    · cases hstep
  | outside now path left ret => exact hok.1.elim

theorem init_tracked : Tracked State.init where
  slots := init_slots
  table := by
    refine ⟨fun _ _ => rfl, nofun, ?_⟩
    rw [List.countP_eq_zero.mpr fun _ _ => by simp [State.init, IFuseDesc.zeroed]]
    rfl
  bounded := by
    rintro g ⟨w, i, e, he, -⟩
    cases he
  track := fun _ _ h => by cases h.1.1

/-- A tracked file that is closed under its name is stored under its iRODS path. -/
theorem State.irodsRelease_stores (parse : Path → Option Path) (h : Tracked s) (hheld : Held s d f)
    (hname : (s.desc d).localPath = path) (hfresh : s.cache.Fresh now path) (hobj : parse path = some obj) :
    (s.irodsRelease parse now path d .ok).2 = .ok ∧
    (s.irodsRelease parse now path d .ok).1.uploaded obj = some (s.cache.files f).content := by
  obtain ⟨⟨hinuse, hstate⟩, pos, hpos⟩ := hheld
  have hkept := (h.track d f ⟨⟨hinuse, hstate⟩, pos, hpos⟩).kept
  rw [hname] at hkept
  obtain ⟨hlo, hhi⟩ := mem_descRange.mp (h.table.range d hinuse)
  have hcheck : s.checkFuseDesc d = true := by
    simp [checkFuseDesc, hlo, hhi, hinuse, hpos]
  -- the entry the close works on is the one of the file
  have hentry : ∃ e c, s.closeEntry now path = ({ s with cache := c }, some (e, f)) ∧
      c.files f = s.cache.files f ∧ (c.files f).linked = true := by
    have hcarry : Carries now path f s.cache (s.cache.matchPathInPathCache now path .pathArray).1 :=
      s.cache.carries_match path .pathArray
    obtain ⟨hkept', -, hfile⟩ := hcarry hkept hfresh
    have hhead : (s.cache.matchPathInPathCache now path .pathArray).2 =
        ((s.cache.matchPathInPathCache now path .pathArray).1.entries .pathArray path).head? :=
      s.cache.matchPathInPathCache_snd now path .pathArray
    obtain ⟨e, hent, hloc, -⟩ := hkept'.entry
    rw [hent] at hhead
    unfold closeEntry
    generalize s.cache.matchPathInPathCache now path .pathArray = r at hhead hfile hkept'
    obtain ⟨c, found⟩ := r
    obtain rfl : found = some e := hhead
    refine ⟨e, c, ?_, hfile, hkept'.linked⟩
    dsimp only
    rw [hloc]
    rfl
  obtain ⟨e, c, hentry, hfile, hlinked⟩ := hentry
  have hclose : ∃ goodStat t, s.closeNewlyCreated parse now path .ok = (t, true, goodStat) ∧
      t.uploaded obj = some (s.cache.files f).content := by
    unfold closeNewlyCreated
    rw [hentry]
    dsimp only
    generalize (({ s with cache := c } : State).updatePathCacheStat e) = stat
    have hput : ((({ s with cache := c } : State).onCache fun c => c.setSize path (stat.getD e).stSize).ifusePut
        parse path f .ok) = ((({ s with cache := c } : State).onCache fun c =>
          c.setSize path (stat.getD e).stSize).upload obj (c.files f).content, true) := by
      unfold ifusePut
      rw [hobj]
      exact if_pos ⟨hlinked, rfl⟩
    rw [hput]
    refine ⟨stat.isSome, _, rfl, ?_⟩
    split <;> simp [onCache, upload, hfile]
  obtain ⟨goodStat, t, hclose, hup⟩ := hclose
  have hfileClose : s.closeFile parse now path d .ok = (t, .ok, goodStat) := by
    unfold closeFile
    rw [if_neg (by simp [hstate]), if_pos (.inr hstate), hclose]
    rfl
  have hifuse : ∃ u, s.ifuseClose parse now path d .ok = (u, .ok) ∧ u.uploaded = t.uploaded := by
    unfold ifuseClose
    rw [hfileClose]
    dsimp only
    split <;> exact ⟨_, rfl, rfl⟩
  obtain ⟨u, hifuse, huploaded⟩ := hifuse
  unfold irodsRelease
  rw [hcheck, hifuse]
  refine ⟨rfl, ?_⟩
  show u.uploaded obj = _
  rw [huploaded]
  exact hup

/-- **A renamed new file keeps its data.** In every run whose operations meet `RenameOk`, a rename
refused in the local cache changes nothing, and a new file that is renamed once is in no slot
that could close it under another name and is stored under its new name. -/
theorem renamed_file_stored (parse : Path → Option Path) (ops₁ ops₂ : List Op) {now : Nat} {src dest : Path}
    {reply : State.RenameReply} {s₁ : State} {rets₁ : List Ret}
    (hok : (fuse parse).Guarded (RenameOk parse) State.init (ops₁ ++ .rename now src dest reply :: ops₂))
    (hrun₁ : (fuse parse).run State.init ops₁ = some (s₁, rets₁)) :
    (∀ e : PathCache, (hashSlot e.filePath).isSome →
      (s₁.renmeOpenedIFuseDesc parse now e dest).2 ≠ .ok →
      (s₁.renmeOpenedIFuseDesc parse now e dest).1 = s₁) ∧
    ∀ d f s₂ s₃ rets₂ ret, Held s₁ d f → (s₁.desc d).localPath = src →
      (fuse parse).step s₁ (.rename now src dest reply) = some (s₂, ret) →
      (fuse parse).run s₂ ops₂ = some (s₃, rets₂) →
      (∀ now' dest' reply', .rename now' dest dest' reply' ∉ ops₂) → Held s₃ d f →
      ret = .ok ∧ ∃ obj, parse dest = some obj ∧ (s₃.desc d).localPath = dest ∧
        (∀ i, (s₃.newly i).filePath ≠ [] → (s₃.newly i).descInx ≠ d) ∧
        ∀ now', s₃.cache.Fresh now' dest →
          (s₃.irodsRelease parse now' dest d .ok).2 = .ok ∧
          (s₃.irodsRelease parse now' dest d .ok).1.uploaded obj = some (s₃.cache.files f).content := by
  have hstep : ∀ s op s' ret, Tracked s → RenameOk parse s op → (fuse parse).step s op = some (s', ret) →
      Tracked s' := fun s op s' ret hs hop h => (step_stepOk hs hop (step_of_fuse h)).tracked
  have h₁ : Tracked s₁ := Machine.run_invariant Tracked hstep init_tracked hok.append_left hrun₁
  have hrest := hok.append_right hrun₁
  have hrename : RenameOk parse s₁ (.rename now src dest reply) := hrest.1
  obtain ⟨obj, hobj⟩ := Option.ne_none_iff_exists'.mp hrename.2.2.2.1
  refine ⟨fun e _ hne => ?_, fun d f s₂ s₃ rets₂ ret hheld hname hstep₂ hrun₂ honce hstill => ?_⟩
  · generalize hr : s₁.renmeOpenedIFuseDesc parse now e dest = r at hne
    obtain ⟨t, _ | err⟩ := r
    · exact absurd rfl hne
    · exact State.renmeOpenedIFuseDesc_refused parse hobj hr
  · have heq : s₁.irodsRename parse now src dest reply = (s₂, ret) :=
      Option.some.inj (step_of_fuse hstep₂)
    obtain ⟨h₂, hrenamed⟩ := State.irodsRename_stepOk parse h₁ hrename
    obtain ⟨hret, hdest, hslots⟩ := hrenamed d f hheld hname
    rw [heq] at h₂ hret hdest hslots
    -- the file keeps its new name as long as it is held
    have hkeep : ∀ s op s' ret,
        (Tracked s ∧ f < s.nextFile ∧ (Held s d f → (s.desc d).localPath = dest ∧
          ∀ i, (s.newly i).filePath ≠ [] → (s.newly i).descInx ≠ d)) →
        (RenameOk parse s op ∧ ∀ now' dest' reply', op ≠ .rename now' dest dest' reply') →
        (fuse parse).step s op = some (s', ret) →
        (Tracked s' ∧ f < s'.nextFile ∧ (Held s' d f → (s'.desc d).localPath = dest ∧
          ∀ i, (s'.newly i).filePath ≠ [] → (s'.newly i).descInx ≠ d)) := by
      rintro s op s' ret ⟨hs, hold, hinv⟩ ⟨hop, hother⟩ hop'
      obtain ⟨htracked, hnext, hcont⟩ := step_stepOk hs hop (step_of_fuse hop')
      refine ⟨htracked, hold.trans_le hnext, fun ht => ?_⟩
      obtain ⟨hh, hn, hsl⟩ := hcont d f hold ht
      obtain ⟨hpath, hun⟩ := hinv hh
      refine ⟨?_, hsl hun⟩
      rw [hn (by rw [hpath]; exact hother)]
      exact hpath
    have hguard := (hrest.2 s₂ ret hstep₂).and_mem (p := fun op => ∀ now' dest' reply',
      op ≠ .rename now' dest dest' reply') fun op hop now' dest' reply' heq' => honce now' dest' reply' (heq' ▸ hop)
    have hold₂ : f < s₂.nextFile := Nat.lt_of_lt_of_le (h₁.track d f hheld).old h₂.nextFile
    obtain ⟨h₃, -, hfinal⟩ := Machine.run_invariant _ hkeep ⟨h₂.tracked, hold₂, fun _ => ⟨hdest, hslots⟩⟩
      hguard hrun₂
    obtain ⟨hpath, hun⟩ := hfinal hstill
    exact ⟨hret, obj, hobj, hpath, hun, fun now' hfresh =>
      State.irodsRelease_stores parse h₃ hstill hpath hfresh hobj⟩

/-- With one descriptor in use, that is the only one. -/
theorem TableOk.only (h : TableOk s) (hcnt : s.inuseCnt = 1) (he : (s.desc e).inuseFlag = true)
    (hd : (s.desc d).inuseFlag = true) : d = e := by
  have hlen : (State.descRange.filter fun d => (s.desc d).inuseFlag).length = 1 := by
    have := h.count
    rw [hcnt, List.countP_eq_length_filter] at this
    exact_mod_cast this.symm
  obtain ⟨x, hx⟩ := List.length_eq_one_iff.mp hlen
  have hmem : ∀ d', (s.desc d').inuseFlag = true → d' = x := by
    intro d' hd'
    have : d' ∈ State.descRange.filter fun d => (s.desc d).inuseFlag :=
      List.mem_filter.mpr ⟨h.range d' hd', hd'⟩
    rw [hx] at this
    exact List.mem_singleton.mp this
  rw [hmem d hd, hmem e he]

/-- An open that finds the new file in its slot. -/
def plainOpen : State.OpenEnv :=
  { put := .ok, stat := ⟨.error, .error, .unknown⟩, get := none, first := .error, retry := .error }

/-- A write to the local cache file that goes well. -/
def plainWrite (n : Nat) : State.WriteEnv :=
  { seek := .ok, written := some n, create := .error, read := false, put := .error, reseek := .error }

/-- Descriptor 3 is the only one in use, its file is called `p`, and what is cached for it is fresh. -/
structure OneFile (s : State) (now : Nat) (p : Path) : Prop where
  count : s.inuseCnt = 1
  inuse : (s.desc 3).inuseFlag = true
  name : (s.desc 3).localPath = p
  fresh : ∀ e ∈ s.cache.entries .pathArray p, e.expired now = false

theorem OneFile.eq_three (h : OneFile s now p) (ht : Tracked s) (hd : (s.desc d).Pending) : d = 3 :=
  ht.table.only h.count h.inuse hd.1

theorem OneFile.allFresh (h : OneFile s now p) (ht : Tracked s) (d f : Nat) (hd : Held s d f) :
    s.cache.Fresh now (s.desc d).localPath := by
  rw [h.eq_three ht hd.1, h.name]
  exact h.fresh

/-- A file created, opened, renamed and written is stored under the new name. -/
theorem renamed_file_stored_written :
    ∃ s, (fuse parseInZone).run State.init
        [.mknod 0 [47, 97] plainMknod, .open_ 1 [47, 97] true plainOpen,
          .rename 2 [47, 97] [47, 98] ⟨.error, .error, .error⟩,
          .write 3 [47, 98] 3 [1, 2] 0 (plainWrite 2)] = some (s, [.ok, .ok, .ok, .ok]) ∧
      (s.irodsRelease parseInZone 4 [47, 98] 3 .ok).2 = .ok ∧
      (s.irodsRelease parseInZone 4 [47, 98] 3 .ok).1.uploaded [47, 122, 47, 98] = some [1, 2] := by
  obtain ⟨a, hstep₁, ha⟩ : ∃ a, (fuse parseInZone).step State.init (.mknod 0 [47, 97] plainMknod) =
      some (a, .ok) ∧ OneFile a 1 [47, 97] := ⟨_, rfl, rfl, rfl, rfl, by decide⟩
  obtain ⟨b, hstep₂, hb, hslots, hone, hheld⟩ : ∃ b, (fuse parseInZone).step a
      (.open_ 1 [47, 97] true plainOpen) = some (b, .ok) ∧ OneFile b 2 [47, 97] ∧
      (∀ i, (b.newly i).filePath = []) ∧ (b.cache.entries .pathArray [47, 98]).length ≤ 1 ∧ Held b 3 0 := by
    cases hstep₁
    exact ⟨_, rfl, ⟨rfl, rfl, rfl, by decide⟩, by decide, by decide, ⟨rfl, rfl⟩, 0, rfl⟩
  obtain ⟨c, hstep₃, hc, hstate⟩ : ∃ c, (fuse parseInZone).step b
      (.rename 2 [47, 97] [47, 98] ⟨.error, .error, .error⟩) = some (c, .ok) ∧ OneFile c 3 [47, 98] ∧
      (c.desc 3).locCacheState = .haveNewlyCreatedCache := by
    cases hstep₁
    cases hstep₂
    exact ⟨_, rfl, ⟨rfl, rfl, rfl, by decide⟩, rfl⟩
  obtain ⟨s, hstep₄, hs, hstill, hcontent⟩ : ∃ s, (fuse parseInZone).step c
      (.write 3 [47, 98] 3 [1, 2] 0 (plainWrite 2)) = some (s, .ok) ∧ OneFile s 4 [47, 98] ∧ Held s 3 0 ∧
      (s.cache.files 0).content = [1, 2] := by
    cases hstep₁
    cases hstep₂
    cases hstep₃
    exact ⟨_, rfl, ⟨rfl, rfl, rfl, by decide⟩, ⟨⟨rfl, rfl⟩, 2, rfl⟩, rfl⟩
  have hok₁ : RenameOk parseInZone State.init (.mknod 0 [47, 97] plainMknod) :=
    ⟨by decide, fun _ _ h => absurd h.1.1 nofun, ⟨fun _ h => absurd h.1 nofun, fun _ h => absurd rfl h⟩,
      by decide, .inl rfl⟩
  have hta : Tracked a := (step_stepOk init_tracked hok₁ (step_of_fuse hstep₁)).tracked
  have hok₂ : RenameOk parseInZone a (.open_ 1 [47, 97] true plainOpen) :=
    ⟨List.cons_ne_nil _ _, ha.allFresh hta, trivial⟩
  have htb : Tracked b := (step_stepOk hta hok₂ (step_of_fuse hstep₂)).tracked
  have hok₃ : RenameOk parseInZone b (.rename 2 [47, 97] [47, 98] ⟨.error, .error, .error⟩) := by
    refine ⟨trivial, hb.allFresh htb, ⟨fun d hd => ?_, fun i hi => absurd (hslots i) hi⟩, nofun, hone,
      fun _ _ _ _ i hi => absurd (hslots i) hi⟩
    rw [hb.eq_three htb hd, hb.name]
    decide
  have htc : Tracked c := (step_stepOk htb hok₃ (step_of_fuse hstep₃)).tracked
  have hok₄ : RenameOk parseInZone c (.write 3 [47, 98] 3 [1, 2] 0 (plainWrite 2)) :=
    ⟨trivial, hc.allFresh htc, by rw [hstate]; exact nofun, fun _ _ => hc.name.symm⟩
  have hrun : (fuse parseInZone).run State.init [.mknod 0 [47, 97] plainMknod, .open_ 1 [47, 97] true plainOpen] =
      some (b, [.ok, .ok]) := by
    simp only [Machine.run, hstep₁, hstep₂]
  have hstored := (renamed_file_stored parseInZone
    [.mknod 0 [47, 97] plainMknod, .open_ 1 [47, 97] true plainOpen]
    [.write 3 [47, 98] 3 [1, 2] 0 (plainWrite 2)]
    (.cons hok₁ hstep₁ (.cons hok₂ hstep₂ (.cons hok₃ hstep₃ (.cons hok₄ hstep₄ trivial)))) hrun).2
    3 0 c s [.ok] .ok hheld hb.name hstep₃ (by simp only [Machine.run, hstep₄]) (by simp) hstill
  obtain ⟨-, obj, hobj, -, -, hclose⟩ := hstored
  cases hobj
  obtain ⟨hret, hup⟩ := hclose 4 hs.fresh
  rw [hcontent] at hup
  exact ⟨s, by simp only [Machine.run, hstep₁, hstep₂, hstep₃, hstep₄], hret, hup⟩

/-- A file renamed while it is in its slot is closed under its old name, which finds nothing to store. -/
theorem rename_leaves_slot :
    ¬ ∀ (parse : Path → Option Path) (ops : List Op) (s t : State) (rets : List Ret) (d f now : Nat)
      (src dest : Path) (reply : State.RenameReply) (i : Slot),
      (fuse parse).run State.init ops = some (s, rets) → Held s d f → (s.desc d).localPath = src →
      (fuse parse).step s (.rename now src dest reply) = some (t, .ok) →
      (t.newly i).filePath ≠ [] → (t.newly i).descInx = d →
      (t.closeNewlyCreatedCache parse now i .ok).2 = .ok ∧
      ∃ obj, parse dest = some obj ∧
        (t.closeNewlyCreatedCache parse now i .ok).1.uploaded obj = some (t.cache.files f).content := by
  intro h
  obtain ⟨s, hrun, hheld, hname, t, hstep, hpath, hinx, hret⟩ : ∃ s,
      (fuse parseInZone).run State.init [.mknod 0 [47, 97] plainMknod] = some (s, [.ok]) ∧ Held s 3 0 ∧
      (s.desc 3).localPath = [47, 97] ∧ ∃ t,
      (fuse parseInZone).step s (.rename 1 [47, 97] [47, 98] ⟨.error, .error, .error⟩) = some (t, .ok) ∧
      (t.newly ⟨0, by decide⟩).filePath ≠ [] ∧ (t.newly ⟨0, by decide⟩).descInx = 3 ∧
      (t.closeNewlyCreatedCache parseInZone 1 ⟨0, by decide⟩ .ok).2 = .fail .EBADF :=
    ⟨_, rfl, ⟨⟨rfl, rfl⟩, 0, rfl⟩, rfl, _, rfl, by decide, rfl, rfl⟩
  have hok := (h _ _ _ _ _ _ _ _ _ _ _ _ hrun hheld hname hstep hpath hinx).1
  rw [hret] at hok
  cases hok

end Fuse
