-- SUMMARY: The newly-created table loses no file when no expired slot is taken over.
import Irods.Fuse.Namespace

/-!
# The table of newly created files

An entry of `NewlyCreatedFile` owns a descriptor that nobody else holds. The table is
sound when every entry is marked as in use, its descriptor is open, not handed out,
and no other entry's. `addNewlyCreatedToCache` keeps it so as long as no expired slot
comes before the first free one; then the slot it fills is empty.
-/

namespace Fuse

open Function (update update_of_ne)
open List (mem_cons mem_cons_of_mem mem_cons_self)

/-- The tables that closing a file does not touch. -/
structure SameTables (s t : State) : Prop where
  desc : t.desc = s.desc
  newly : t.newly = s.newly
  opened : t.opened = s.opened
  inuseCnt : t.inuseCnt = s.inuseCnt

variable {u : State}

namespace SameTables

theorem refl (s : State) : SameTables s s := ⟨rfl, rfl, rfl, rfl⟩

variable {s t : State}

theorem trans (h₁ : SameTables s t) (h₂ : SameTables t u) : SameTables s u :=
  ⟨h₂.desc.trans h₁.desc, h₂.newly.trans h₁.newly, h₂.opened.trans h₁.opened,
    h₂.inuseCnt.trans h₁.inuseCnt⟩

theorem checkFuseDesc (h : SameTables s t) (d : Nat) : t.checkFuseDesc d = s.checkFuseDesc d := by
  simp only [State.checkFuseDesc, h.desc]

end SameTables

namespace State

variable (parse : Path → Option Path)

/-! ## What leaves the tables alone -/

variable (s : State) (now : Nat) (path : Path) (first retry : Reply)

theorem sameTables_onCache (f : Cache → Cache) : SameTables s (s.onCache f) :=
  ⟨rfl, rfl, rfl, rfl⟩

theorem sameTables_ifusePut (f : Nat) (put : Reply) : SameTables s (s.ifusePut parse path f put).1 := by
  unfold ifusePut
  split
  · exact .refl s
  · dsimp only
    split <;> exact ⟨rfl, rfl, rfl, rfl⟩

theorem sameTables_closeEntry : SameTables s (s.closeEntry now path).1 := by
  unfold closeEntry
  dsimp only
  split <;> exact ⟨rfl, rfl, rfl, rfl⟩

theorem sameTables_closeNewlyCreated (put : Reply) : SameTables s (s.closeNewlyCreated parse now path put).1 := by
  have hentry := s.sameTables_closeEntry now path
  unfold closeNewlyCreated
  generalize s.closeEntry now path = r at hentry
  obtain ⟨t, _ | ⟨e, f⟩⟩ := r
  · exact hentry
  · dsimp only
    generalize ((t.updatePathCacheStat e).getD e).stSize = size
    have hput := (t.sameTables_onCache fun c => c.setSize path size).trans
      (sameTables_ifusePut parse _ path f put)
    split
    · exact (hentry.trans hput).trans (sameTables_onCache _ _)
    · exact hentry.trans hput

theorem sameTables_ifuseClose (d : Nat) (put : Reply) : SameTables s (s.ifuseClose parse now path d put).1 := by
  have hfile : SameTables s (s.closeFile parse now path d put).1 := by
    unfold closeFile
    split
    · exact .refl s
    · split
      · exact s.sameTables_closeNewlyCreated parse now path put
      · exact .refl s
  unfold ifuseClose
  dsimp only
  split
  · exact hfile.trans (sameTables_onCache _ _)
  · exact hfile

theorem sameTables_lookupPath (reply : StatReply) : SameTables s (s.lookupPath parse now path reply).1 := by
  have hcached : ∀ t : State, SameTables t (t.lookupCached now path).1 := by
    intro t
    unfold lookupCached
    dsimp only
    split
    · exact ⟨rfl, rfl, rfl, rfl⟩
    · split <;> exact ⟨rfl, rfl, rfl, rfl⟩
  have hserver : ∀ t : State, SameTables t (t.lookupServer parse now path reply).1 := by
    intro t
    unfold lookupServer
    split
    · exact .refl t
    · split
      · split <;> exact ⟨rfl, rfl, rfl, rfl⟩
      · exact ⟨rfl, rfl, rfl, rfl⟩
  unfold lookupPath
  generalize s.cache.matchPathInPathCache now path .nonExistPathArray = r
  obtain ⟨c, _ | e⟩ := r
  · have hc := hcached { s with cache := c }
    dsimp only
    generalize ({ s with cache := c } : State).lookupCached now path = u at hc
    obtain ⟨u, _ | e⟩ := u
    · exact SameTables.trans ⟨hc.desc, hc.newly, hc.opened, hc.inuseCnt⟩ (hserver u)
    · exact ⟨hc.desc, hc.newly, hc.opened, hc.inuseCnt⟩
  · exact ⟨rfl, rfl, rfl, rfl⟩

theorem sameTables_irodsGetattr (reply : StatReply) : SameTables s (s.irodsGetattr parse now path reply).1 := by
  have h := s.sameTables_lookupPath parse now path reply
  unfold irodsGetattr
  generalize s.lookupPath parse now path reply = r at h
  obtain ⟨t, _ | _ | e | size⟩ := r
  · exact h
  · exact h
  · exact h
  · exact h.trans ⟨rfl, rfl, rfl, rfl⟩

theorem sameTables_createFile (content : Option (List Byte)) : SameTables s (s.createFile content).1 := by
  cases content <;> exact ⟨rfl, rfl, rfl, rfl⟩

theorem sameTables_mknodHandle (env : MknodEnv) : SameTables s (s.mknodHandle parse path env).1 := by
  unfold mknodHandle
  split
  · exact s.sameTables_createFile _
  · dsimp only
    split
    · exact s.sameTables_createFile _
    · split
      · exact (s.sameTables_createFile none).trans ⟨rfl, rfl, rfl, rfl⟩
      · exact s.sameTables_createFile _

theorem sameTables_irodsMkdir : SameTables s (s.irodsMkdir parse now path first retry).1 := by
  unfold irodsMkdir
  split
  · exact .refl s
  · split
    · exact ⟨rfl, rfl, rfl, rfl⟩
    · split <;> exact .refl s

theorem sameTables_removePath : SameTables s (s.removePath parse path first retry).1 := by
  unfold removePath
  split
  · exact .refl s
  · split
    · exact ⟨rfl, rfl, rfl, rfl⟩
    · split <;> exact .refl s

theorem sameTables_renamed (src dest : Path) : SameTables s (s.renamed now src dest) := by
  unfold renamed
  dsimp only
  split <;> exact ⟨rfl, rfl, rfl, rfl⟩

theorem sameTables_readCacheFile (env : OpenEnv) : SameTables s (s.readCacheFile parse now path env).1 := by
  have h := s.sameTables_lookupPath parse now path env.stat
  unfold readCacheFile
  generalize s.lookupPath parse now path env.stat = r at h
  obtain ⟨t, _ | _ | e | size⟩ := r
  · exact h
  · exact h
  · dsimp only
    split
    · exact h
    · split
      · exact h
      · rename_i copy _ _ _
        exact (h.trans (t.sameTables_createFile (some copy))).trans ⟨rfl, rfl, rfl, rfl⟩
      · exact h
  · dsimp only
    split
    · exact h.trans ⟨rfl, rfl, rfl, rfl⟩
    · split
      · rename_i copy _ _
        exact (h.trans (t.sameTables_createFile (some copy))).trans ⟨rfl, rfl, rfl, rfl⟩
      · exact h.trans ⟨rfl, rfl, rfl, rfl⟩

end State

/-! ## A sound table -/

/-- Every entry is marked, owns an open descriptor that is not handed out, and shares
it with no other entry; descriptors that are handed out are in use. -/
structure SlotsOk (s : State) : Prop where
  marked : ∀ i, (s.newly i).filePath ≠ [] → (s.newly i).inuseFlag = true
  checked : ∀ i, (s.newly i).filePath ≠ [] → s.checkFuseDesc (s.newly i).descInx = true
  unshared : ∀ i, (s.newly i).filePath ≠ [] → s.opened (s.newly i).descInx = false
  distinct : ∀ i j, i ≠ j → (s.newly i).filePath ≠ [] → (s.newly j).filePath ≠ [] →
    (s.newly i).descInx ≠ (s.newly j).descInx
  inuse : ∀ d, s.opened d = true → (s.desc d).inuseFlag = true

/-- An open descriptor that is in no slot and not handed out. -/
structure Spare (s : State) (d : Nat) : Prop where
  checked : s.checkFuseDesc d = true
  opened : s.opened d = false
  unslotted : ∀ i, (s.newly i).filePath ≠ [] → (s.newly i).descInx ≠ d

/-- Only descriptor `d` changes, and it stays in use if it was. -/
structure OnlyDesc (d : Nat) (s t : State) : Prop where
  others : ∀ d', d' ≠ d → t.desc d' = s.desc d'
  inuse : (t.desc d).inuseFlag = (s.desc d).inuseFlag
  newly : t.newly = s.newly
  opened : t.opened = s.opened
  inuseCnt : t.inuseCnt = s.inuseCnt

variable {s : State}

variable {t : State} {d : Nat}

theorem SlotsOk.of_same (h : SlotsOk s) (hs : SameTables s t) : SlotsOk t := by
  refine ⟨?_, ?_, ?_, ?_, ?_⟩
  · rw [hs.newly]; exact h.marked
  · intro i; rw [hs.newly, hs.checkFuseDesc]; exact h.checked i
  · rw [hs.newly, hs.opened]; exact h.unshared
  · rw [hs.newly]; exact h.distinct
  · rw [hs.opened, hs.desc]; exact h.inuse

theorem State.checkFuseDesc_inuse (h : s.checkFuseDesc d = true) : (s.desc d).inuseFlag = true := by
  simp only [checkFuseDesc, Bool.and_eq_true] at h
  exact h.1.2

theorem checkFuseDesc_congr (h : t.desc d = s.desc d) : t.checkFuseDesc d = s.checkFuseDesc d := by
  simp only [State.checkFuseDesc, h]

variable {f : IFuseDesc → IFuseDesc}

namespace OnlyDesc

theorem of_same (h : SameTables s t) : OnlyDesc d s t :=
  ⟨fun d' _ => congrFun h.desc d', congrArg _ (congrFun h.desc d), h.newly, h.opened, h.inuseCnt⟩

theorem trans (h₁ : OnlyDesc d s t) (h₂ : OnlyDesc d t u) : OnlyDesc d s u :=
  ⟨fun d' hne => (h₂.others d' hne).trans (h₁.others d' hne), h₂.inuse.trans h₁.inuse,
    h₂.newly.trans h₁.newly, h₂.opened.trans h₁.opened, h₂.inuseCnt.trans h₁.inuseCnt⟩

theorem setDesc (s : State) (d : Nat) (hf : ∀ r, (f r).inuseFlag = r.inuseFlag) : OnlyDesc d s (s.setDesc d f) :=
  ⟨fun d' hne => by simp [State.setDesc, hne], by simp [State.setDesc, hf], rfl, rfl, rfl⟩

end OnlyDesc

/-- A descriptor that is handed out can change without the table noticing. -/
theorem SlotsOk.of_onlyDesc (h : SlotsOk s) (hd : s.opened d = true) (ht : OnlyDesc d s t) : SlotsOk t := by
  have hne : ∀ i, (s.newly i).filePath ≠ [] → (s.newly i).descInx ≠ d := by
    intro i hi heq
    have := h.unshared i hi
    rw [heq, hd] at this
    cases this
  refine ⟨?_, ?_, ?_, ?_, ?_⟩
  · rw [ht.newly]; exact h.marked
  · intro i hi
    rw [ht.newly] at hi ⊢
    rw [checkFuseDesc_congr (ht.others _ (hne i hi))]
    exact h.checked i hi
  · rw [ht.newly, ht.opened]; exact h.unshared
  · rw [ht.newly]; exact h.distinct
  · intro d' hopen
    rw [ht.opened] at hopen
    by_cases hdd : d' = d
    · subst hdd; rw [ht.inuse]; exact h.inuse d' hopen
    · rw [ht.others d' hdd]; exact h.inuse d' hopen

variable {i : Slot}

namespace State

variable (parse : Path → Option Path)

/-! ## Closing a slot -/

/-- Closing a slot of a sound table empties it and nothing else. -/
theorem closeNewlyCreatedCache_slots (h : SlotsOk s) (now : Nat) (i : Slot) (put : Reply) :
    SlotsOk (s.closeNewlyCreatedCache parse now i put).1 ∧
    ((s.closeNewlyCreatedCache parse now i put).1.newly i).filePath = [] ∧
    (∀ j, j ≠ i → (s.closeNewlyCreatedCache parse now i put).1.newly j = s.newly j) ∧
    (∀ d, Spare s d → Spare (s.closeNewlyCreatedCache parse now i put).1 d) := by
  unfold closeNewlyCreatedCache
  split
  · rename_i hempty
    exact ⟨h, List.isEmpty_iff.mp hempty, fun _ _ => rfl, fun _ hd => hd⟩
  · rename_i hne
    have hi : (s.newly i).filePath ≠ [] := fun heq => hne (List.isEmpty_iff.mpr heq)
    rw [if_pos (h.checked i hi)]
    have hclose := s.sameTables_ifuseClose parse now (s.newly i).filePath
      (s.newly i).descInx put
    dsimp only
    generalize (ifuseClose parse s now (s.newly i).filePath (s.newly i).descInx put).1 = t at hclose
    -- the descriptor of slot `i` is freed and the slot zeroed; the rest is as before
    have hslot : ∀ j, j ≠ i →
        ((t.freeIFuseDesc (s.newly i).descInx).setSlot i fun _ => .zeroed).newly j = s.newly j := by
      intro j hj
      show update t.newly i _ j = _
      rw [update_of_ne hj, hclose.newly]
    have hself : (((t.freeIFuseDesc (s.newly i).descInx).setSlot i fun _ => .zeroed).newly i).filePath = [] := by
      show (update t.newly i _ i).filePath = _
      rw [Function.update_self]
      rfl
    have hdesc : ∀ d, d ≠ (s.newly i).descInx →
        ((t.freeIFuseDesc (s.newly i).descInx).setSlot i fun _ => .zeroed).desc d = s.desc d := by
      intro d hd
      show update t.desc _ _ d = _
      rw [update_of_ne hd, hclose.desc]
    have hopened : ((t.freeIFuseDesc (s.newly i).descInx).setSlot i fun _ => .zeroed).opened = s.opened :=
      hclose.opened
    generalize ((t.freeIFuseDesc (s.newly i).descInx).setSlot i fun _ => .zeroed) = u at *
    have hother : ∀ j, (u.newly j).filePath ≠ [] → j ≠ i := fun j hj heq => hj (heq ▸ hself)
    refine ⟨⟨?_, ?_, ?_, ?_, ?_⟩, hself, hslot, fun d hd => ⟨?_, ?_, ?_⟩⟩
    · intro j hj
      have hji := hother j hj
      rw [hslot j hji] at hj ⊢
      exact h.marked j hj
    · intro j hj
      have hji := hother j hj
      rw [hslot j hji] at hj ⊢
      rw [checkFuseDesc_congr (hdesc _ (h.distinct j i hji hj hi))]
      exact h.checked j hj
    · intro j hj
      have hji := hother j hj
      rw [hslot j hji] at hj ⊢
      rw [hopened]
      exact h.unshared j hj
    · intro j k hjk hj hk
      have hji := hother j hj
      have hki := hother k hk
      rw [hslot j hji] at hj ⊢
      rw [hslot k hki] at hk ⊢
      exact h.distinct j k hjk hj hk
    · intro d hd
      rw [hopened] at hd
      have hne : d ≠ (s.newly i).descInx := by
        intro heq
        have := h.unshared i hi
        rw [← heq, hd] at this
        cases this
      rw [hdesc d hne]
      exact h.inuse d hd
    · rw [checkFuseDesc_congr (hdesc d fun heq => hd.unslotted i hi heq.symm)]
      exact hd.checked
    · rw [hopened]; exact hd.opened
    · intro j hj
      have hji := hother j hj
      rw [hslot j hji] at hj ⊢
      exact hd.unslotted j hj

/-- Changing the mark of an empty slot, or marking one, keeps the table sound. -/
theorem setMark_slots (h : SlotsOk s) {b : Bool} (hi : (s.newly i).filePath = []) :
    SlotsOk (s.setSlot i fun r => { r with inuseFlag := b }) ∧
    (∀ d, Spare s d → Spare (s.setSlot i fun r => { r with inuseFlag := b }) d) := by
  have hpath : ∀ j, ((s.setSlot i fun r => { r with inuseFlag := b }).newly j).filePath =
      (s.newly j).filePath := by
    intro j
    by_cases hj : j = i
    · subst hj; simp [setSlot]
    · simp [setSlot, hj]
  have hslot : ∀ j, (s.newly j).filePath ≠ [] →
      (s.setSlot i fun r => { r with inuseFlag := b }).newly j = s.newly j := by
    intro j hj
    have hji : j ≠ i := fun heq => hj (heq ▸ hi)
    simp [setSlot, hji]
  refine ⟨⟨?_, ?_, ?_, ?_, h.inuse⟩, fun d hd => ⟨hd.checked, hd.opened, ?_⟩⟩
  · intro j hj
    rw [hpath] at hj
    rw [hslot j hj]
    exact h.marked j hj
  · intro j hj
    rw [hpath] at hj
    rw [hslot j hj]
    exact h.checked j hj
  · intro j hj
    rw [hpath] at hj
    rw [hslot j hj]
    exact h.unshared j hj
  · intro j k hjk hj hk
    rw [hpath] at hj hk
    rw [hslot j hj, hslot k hk]
    exact h.distinct j k hjk hj hk
  · intro j hj
    rw [hpath] at hj
    rw [hslot j hj]
    exact hd.unslotted j hj

/-! ## Choosing a slot -/

/-- No expired slot is met before a free one. -/
def ReuseOk (newly : Slot → NewlyCreatedFile) (now : Nat) : Prop :=
  ∀ i, (newly i).inuseFlag = true → slotExpired now (newly i) = true →
    ∃ j, j < i ∧ (newly j).inuseFlag = false

instance (newly : Slot → NewlyCreatedFile) (now : Nat) : Decidable (ReuseOk newly now) :=
  inferInstanceAs (Decidable (∀ _, _))

/-- The loop of `addNewlyCreatedToCache` after the slots in `done`: the table is sound,
later slots are untouched, and a slot that was taken is empty and marked. -/
structure ChooseInv (s : State) (d : Nat) (done : List Slot) (acc : State × Option Slot) : Prop where
  slots : SlotsOk acc.1
  spare : Spare acc.1 d
  todo : ∀ j, j ∉ done → acc.1.newly j = s.newly j
  none : acc.2 = none → ∀ j ∈ done, (s.newly j).inuseFlag = true
  some : ∀ k, acc.2 = some k →
    k ∈ done ∧ (acc.1.newly k).filePath = [] ∧ (acc.1.newly k).inuseFlag = true

variable {now : Nat}

variable {done : List Slot} {acc : State × Option Slot}

/-- A turn of the scan for a slot keeps the table sound. -/
theorem chooseSlotStep_inv {puts : Slot → Reply} (h : ChooseInv s d done acc) (hreuse : ReuseOk s.newly now)
    (hi : i ∉ done) (hlt : ∀ j, j < i → j ∈ done) :
    ChooseInv s d (i :: done) (chooseSlotStep parse now puts acc i) := by
  obtain ⟨t, newlyInx⟩ := acc
  have hti : t.newly i = s.newly i := h.todo i hi
  have hslots : SlotsOk t := h.slots
  unfold chooseSlotStep
  dsimp only
  split
  · -- a free slot: it is empty, since entries are marked
    rename_i hfree
    have hempty : (t.newly i).filePath = [] := by
      by_contra hne
      have := hslots.marked i hne
      rw [hfree.2] at this
      cases this
    obtain ⟨hmark, hspare⟩ := setMark_slots hslots (b := true) hempty
    refine ⟨hmark, hspare d h.spare, ?_, nofun, ?_⟩
    · intro j hj
      have hji : j ≠ i := fun heq => hj (heq ▸ mem_cons_self)
      simp only [setSlot, update_of_ne hji]
      exact h.todo j fun hmem => hj (mem_cons_of_mem i hmem)
    · rintro k hk
      cases hk
      exact ⟨mem_cons_self, by simp [setSlot, hempty], by simp [setSlot]⟩
  · rename_i hnotfree
    split
    · rename_i hexpired
      cases newlyInx with
      | none =>
        -- excluded: a free slot comes before, and would have been taken
        rw [hti] at hexpired
        obtain ⟨j, hji, hj⟩ := hreuse i hexpired.1 hexpired.2
        have := h.none rfl j (hlt j hji)
        rw [hj] at this
        cases this
      | some k =>
        obtain ⟨hk, hkempty, hkmark⟩ := h.some k rfl
        have hki : k ≠ i := fun heq => hi (heq ▸ hk)
        obtain ⟨hclosed, hself, hother, hspare⟩ :=
          closeNewlyCreatedCache_slots parse hslots now i (puts i)
        generalize (t.closeNewlyCreatedCache parse now i (puts i)).1 = u at *
        obtain ⟨hmark, hspare'⟩ := setMark_slots hclosed (b := false) hself
        simp only [reduceCtorEq, if_false]
        refine ⟨hmark, hspare' d (hspare d h.spare), ?_, nofun, ?_⟩
        · intro j hj
          have hji : j ≠ i := fun heq => hj (heq ▸ mem_cons_self)
          simp only [setSlot, update_of_ne hji]
          rw [hother j hji]
          exact h.todo j fun hmem => hj (mem_cons_of_mem i hmem)
        · rintro k' hk'
          cases hk'
          simp only [setSlot, update_of_ne hki, hother k hki]
          exact ⟨mem_cons_of_mem i hk, hkempty, hkmark⟩
    · refine ⟨hslots, h.spare, fun j hj => h.todo j fun hmem => hj (mem_cons_of_mem i hmem), ?_, ?_⟩
      · intro hnone j hj
        rcases mem_cons.mp hj with rfl | hj
        · rw [← hti]
          by_contra hne
          exact hnotfree ⟨hnone, by simpa using hne⟩
        · exact h.none hnone j hj
      · intro k hk
        obtain ⟨hmem, hrest⟩ := h.some k hk
        exact ⟨mem_cons_of_mem i hmem, hrest⟩

theorem chooseSlot_fold (puts : Slot → Reply) {is : List Slot} (hreuse : ReuseOk s.newly now)
    (h : ChooseInv s d done acc) (hsorted : is.Pairwise (· < ·)) (hfresh : ∀ i ∈ is, i ∉ done)
    (hbelow : ∀ i ∈ is, ∀ j, j < i → j ∈ done ∨ j ∈ is) :
    ∃ done', ChooseInv s d done' (is.foldl (chooseSlotStep parse now puts) acc) := by
  induction is generalizing done acc with
  | nil => exact ⟨done, h⟩
  | cons i is ih =>
    obtain ⟨hi, hsorted'⟩ := List.pairwise_cons.mp hsorted
    have hlt : ∀ j, j < i → j ∈ done := by
      intro j hj
      rcases hbelow i mem_cons_self j hj with hmem | hmem
      · exact hmem
      · rcases mem_cons.mp hmem with rfl | hmem
        · exact absurd hj (Fin.lt_irrefl j)
        · exact absurd hj (Fin.lt_asymm (hi j hmem))
    refine ih (chooseSlotStep_inv parse h hreuse (hfresh i mem_cons_self) hlt) hsorted' ?_ ?_
    · intro k hk hmem
      rcases mem_cons.mp hmem with rfl | hmem
      · exact Fin.lt_irrefl k (hi k hk)
      · exact hfresh k (mem_cons_of_mem i hk) hmem
    · intro k hk j hj
      rcases hbelow k (mem_cons_of_mem i hk) j hj with hmem | hmem
      · exact .inl (mem_cons_of_mem i hmem)
      · rcases mem_cons.mp hmem with rfl | hmem
        · exact .inl mem_cons_self
        · exact .inr hmem

/-- The slot that is chosen is empty and marked. -/
theorem chooseSlot_slots (puts : Slot → Reply) (h : SlotsOk s) (hspare : Spare s d) (hreuse : ReuseOk s.newly now) :
    SlotsOk (s.chooseSlot parse now puts).1 ∧ Spare (s.chooseSlot parse now puts).1 d ∧
    ((s.chooseSlot parse now puts).1.newly (s.chooseSlot parse now puts).2).filePath = [] ∧
    ((s.chooseSlot parse now puts).1.newly (s.chooseSlot parse now puts).2).inuseFlag = true := by
  have hinit : ChooseInv s d [] (s, none) :=
    ⟨h, hspare, fun _ _ => rfl, nofun, nofun⟩
  have hfold := chooseSlot_fold parse puts hreuse hinit
    (List.pairwise_lt_finRange numNewlyCreatedSlot) nofun
    (fun _ _ j _ => .inr (List.mem_finRange j))
  unfold chooseSlot
  generalize (List.finRange numNewlyCreatedSlot).foldl (chooseSlotStep parse now puts) (s, none) = r at hfold
  obtain ⟨done, hinv⟩ := hfold
  obtain ⟨t, _ | i⟩ := r
  · -- no slot is free or expired: one is closed
    obtain ⟨hclosed, hself, -, hsp⟩ := closeNewlyCreatedCache_slots parse hinv.slots now
      ⟨numNewlyCreatedSlot - 2, by decide⟩ (puts ⟨numNewlyCreatedSlot - 2, by decide⟩)
    dsimp only
    generalize (closeNewlyCreatedCache parse t now _ _).1 = u at hclosed hself hsp
    obtain ⟨hmark, hspare'⟩ := setMark_slots hclosed (b := true) hself
    exact ⟨hmark, hspare' d (hsp d hinv.spare), by simp [setSlot, hself], by simp [setSlot]⟩
  · obtain ⟨-, hempty, hmark⟩ := hinv.some i rfl
    exact ⟨hinv.slots, hinv.spare, hempty, hmark⟩

/-- A new entry goes into an empty, marked slot. -/
theorem fillSlot_slots (now : Nat) (path : Path) (f : Nat) (h : SlotsOk s) (hspare : Spare s d)
    (hempty : (s.newly i).filePath = []) (hmark : (s.newly i).inuseFlag = true) :
    SlotsOk (s.fillSlot i now path d f) := by
  have hslot : ∀ j, j ≠ i → (s.fillSlot i now path d f).newly j = s.newly j := by
    intro j hj
    show update s.newly i _ j = _
    rw [update_of_ne hj]
  have hself : ((s.fillSlot i now path d f).newly i).descInx = d ∧
      ((s.fillSlot i now path d f).newly i).inuseFlag = true := by
    have : (s.fillSlot i now path d f).newly i =
        { s.newly i with filePath := rstrcpy (s.newly i).filePath path MAX_NAME_LEN
                         descInx := d, cachedTime := now } := Function.update_self ..
    rw [this]
    exact ⟨rfl, hmark⟩
  have hcheck : ∀ d', (s.fillSlot i now path d f).checkFuseDesc d' = s.checkFuseDesc d' := by
    intro d'
    have : (s.fillSlot i now path d f).desc = update s.desc d
        { s.desc d with newFlag := true } := rfl
    unfold checkFuseDesc
    rw [this]
    by_cases hd : d' = d
    · subst hd; simp
    · simp [hd]
  have hinuse : ∀ d', ((s.fillSlot i now path d f).desc d').inuseFlag = (s.desc d').inuseFlag := by
    intro d'
    have : (s.fillSlot i now path d f).desc = update s.desc d
        { s.desc d with newFlag := true } := rfl
    rw [this]
    by_cases hd : d' = d
    · subst hd; simp
    · simp [hd]
  have hopened : (s.fillSlot i now path d f).opened = s.opened := rfl
  generalize s.fillSlot i now path d f = t at *
  refine ⟨?_, ?_, ?_, ?_, ?_⟩
  · intro j hj
    by_cases hji : j = i
    · subst hji; exact hself.2
    · rw [hslot j hji] at hj ⊢; exact h.marked j hj
  · intro j hj
    rw [hcheck]
    by_cases hji : j = i
    · subst hji; rw [hself.1]; exact hspare.checked
    · rw [hslot j hji] at hj ⊢; exact h.checked j hj
  · intro j hj
    rw [hopened]
    by_cases hji : j = i
    · subst hji; rw [hself.1]; exact hspare.opened
    · rw [hslot j hji] at hj ⊢; exact h.unshared j hj
  · intro j k hjk hj hk
    by_cases hji : j = i
    · subst hji
      rw [hslot k hjk.symm] at hk ⊢
      rw [hself.1]
      exact (hspare.unslotted k hk).symm
    · by_cases hki : k = i
      · subst hki
        rw [hslot j hji] at hj ⊢
        rw [hself.1]
        exact hspare.unslotted j hj
      · rw [hslot j hji] at hj ⊢
        rw [hslot k hki] at hk ⊢
        exact h.distinct j k hjk hj hk
  · intro d' hd'
    rw [hopened] at hd'
    rw [hinuse]
    exact h.inuse d' hd'

/-! ## Creating, opening, writing, releasing -/

/-- Changes of a descriptor that leave its file open. -/
theorem setDesc_slots (h : SlotsOk s) (hinuse : ∀ r, (f r).inuseFlag = r.inuseFlag) (hiFd : ∀ r, (f r).iFd = r.iFd) :
    SlotsOk (s.setDesc d f) ∧ ∀ d', Spare s d' → Spare (s.setDesc d f) d' := by
  have hdesc : ∀ d', ((s.setDesc d f).desc d').inuseFlag = (s.desc d').inuseFlag ∧
      ((s.setDesc d f).desc d').iFd = (s.desc d').iFd := by
    intro d'
    by_cases hd : d' = d
    · subst hd; simp [setDesc, hinuse, hiFd]
    · simp [setDesc, hd]
  have hcheck : ∀ d', (s.setDesc d f).checkFuseDesc d' = s.checkFuseDesc d' := by
    intro d'
    simp only [checkFuseDesc, hdesc]
  refine ⟨⟨h.marked, fun i hi => ?_, h.unshared, h.distinct, fun d' hd' => ?_⟩,
    fun d' hd' => ⟨?_, hd'.opened, hd'.unslotted⟩⟩
  · rw [hcheck]; exact h.checked i hi
  · rw [(hdesc d').1]; exact h.inuse d' hd'
  · rw [hcheck]; exact hd'.checked

variable {path : Path}

theorem allocIFuseDesc_spec (h : s.allocIFuseDesc = some (t, d)) :
    (s.desc d).inuseFlag = false ∧ 3 ≤ d ∧ d < maxIFuseDesc ∧
    t = { s.setDesc d fun r => { r with inuseFlag := true } with inuseCnt := s.inuseCnt + 1 } := by
  unfold allocIFuseDesc at h
  split at h
  · cases h
  · rename_i i hfind
    cases h
    have hfree := List.find?_some hfind
    have hmem := List.mem_of_find?_eq_some hfind
    simp only [descRange, List.mem_range'_1] at hmem
    refine ⟨by simpa using hfree, hmem.1, ?_, rfl⟩
    omega

variable {iFd : Handle}

/-- A descriptor that was just allocated and filled is a spare one. -/
theorem fillIFuseDesc_slots (objPath path : Path) (h : SlotsOk s) (halloc : s.allocIFuseDesc = some (t, d))
    (hiFd : iFd ≠ .zero) :
    SlotsOk (t.fillIFuseDesc d iFd objPath path) ∧ Spare (t.fillIFuseDesc d iFd objPath path) d := by
  obtain ⟨hfree, hlo, hhi, rfl⟩ := allocIFuseDesc_spec halloc
  have hne : ∀ i, (s.newly i).filePath ≠ [] → (s.newly i).descInx ≠ d := by
    intro i hi heq
    have := checkFuseDesc_inuse (h.checked i hi)
    rw [heq, hfree] at this
    cases this
  have hclosed : s.opened d = false := by
    by_contra hopen
    have := h.inuse d (by simpa using hopen)
    rw [hfree] at this
    cases this
  have hdesc : ∀ d', d' ≠ d → (fillIFuseDesc { s.setDesc d fun r => { r with inuseFlag := true } with
      inuseCnt := s.inuseCnt + 1 } d iFd objPath path).desc d' = s.desc d' := by
    intro d' hd
    simp [fillIFuseDesc, setDesc, hd]
  refine ⟨⟨h.marked, fun i hi => ?_, h.unshared, h.distinct, fun d' hd' => ?_⟩, ?_, hclosed, hne⟩
  · exact (checkFuseDesc_congr (hdesc _ (hne i hi))).trans (h.checked i hi)
  · have hdd : d' ≠ d := by
      intro heq
      have hd'' : s.opened d' = true := hd'
      rw [heq, hclosed] at hd''
      cases hd''
    rw [hdesc d' hdd]
    exact h.inuse d' hd'
  · simp [checkFuseDesc, fillIFuseDesc, setDesc, hlo, hhi, hiFd]

theorem handOut_slots (h : SlotsOk s) (hd : Spare s d) : SlotsOk (s.handOut d) := by
  refine ⟨h.marked, h.checked, fun i hi => ?_, h.distinct, fun d' hd' => ?_⟩
  · show update s.opened d true (s.newly i).descInx = _
    rw [update_of_ne (hd.unslotted i hi)]
    exact h.unshared i hi
  · by_cases hdd : d' = d
    · subst hdd; exact checkFuseDesc_inuse hd.checked
    · refine h.inuse d' ?_
      have : update s.opened d true d' = true := hd'
      rwa [update_of_ne hdd] at this

/-- An entry taken out of the table leaves its descriptor spare. -/
theorem zeroSlot_slots (h : SlotsOk s) :
    SlotsOk (s.setSlot i fun _ => .zeroed) ∧
    ((s.newly i).filePath ≠ [] → Spare (s.setSlot i fun _ => .zeroed) (s.newly i).descInx) := by
  have hself : ((s.setSlot i fun _ => .zeroed).newly i).filePath = [] := by
    simp [setSlot, NewlyCreatedFile.zeroed]
  have hslot : ∀ j, ((s.setSlot i fun _ => .zeroed).newly j).filePath ≠ [] →
      j ≠ i ∧ (s.setSlot i fun _ => .zeroed).newly j = s.newly j := by
    intro j hj
    have hji : j ≠ i := fun heq => hj (heq ▸ hself)
    exact ⟨hji, by simp [setSlot, hji]⟩
  refine ⟨⟨?_, ?_, ?_, ?_, h.inuse⟩, fun hi => ⟨h.checked i hi, h.unshared i hi, ?_⟩⟩
  · intro j hj
    obtain ⟨-, heq⟩ := hslot j hj
    rw [heq] at hj ⊢
    exact h.marked j hj
  · intro j hj
    obtain ⟨-, heq⟩ := hslot j hj
    rw [heq] at hj ⊢
    exact h.checked j hj
  · intro j hj
    obtain ⟨-, heq⟩ := hslot j hj
    rw [heq] at hj ⊢
    exact h.unshared j hj
  · intro j k hjk hj hk
    obtain ⟨-, heqj⟩ := hslot j hj
    obtain ⟨-, heqk⟩ := hslot k hk
    rw [heqj] at hj ⊢
    rw [heqk] at hk ⊢
    exact h.distinct j k hjk hj hk
  · intro j hj
    obtain ⟨hji, heq⟩ := hslot j hj
    rw [heq] at hj ⊢
    exact h.distinct j i hji hj hi

theorem mknodHandle_ne_zero {objPath : Path} {env : MknodEnv} {f : Nat}
    (h : s.mknodHandle parse path env = (t, f, some (iFd, objPath))) : iFd ≠ .zero := by
  unfold mknodHandle at h
  split at h
  · cases h; exact Handle.noConfusion
  · dsimp only at h
    split at h
    · cases h
    · split at h
      · cases h; exact Handle.noConfusion
      · cases h

theorem mknodDesc_slots (h : SlotsOk s) (now : Nat) (path : Path) (env : MknodEnv) :
    SlotsOk (s.mknodDesc parse now path env).1 ∧
    (s.mknodDesc parse now path env).1.newly = s.newly ∧
    ∀ d f, (s.mknodDesc parse now path env).2 = .ok (d, f) → Spare (s.mknodDesc parse now path env).1 d := by
  have hattr := s.sameTables_irodsGetattr parse now path env.stat
  unfold mknodDesc
  generalize s.irodsGetattr parse now path env.stat = r at hattr
  obtain ⟨t, _ | err⟩ := r
  · exact ⟨h.of_same hattr, hattr.newly, nofun⟩
  · dsimp only
    have hhandle := hattr.trans (t.sameTables_mknodHandle parse path env)
    have hzero : ∀ u f iFd objPath, t.mknodHandle parse path env = (u, f, some (iFd, objPath)) →
        iFd ≠ .zero := fun _ _ _ _ => mknodHandle_ne_zero parse
    generalize t.mknodHandle parse path env = u at hhandle hzero
    obtain ⟨u, f, _ | ⟨iFd, objPath⟩⟩ := u
    · exact ⟨h.of_same hhandle, hhandle.newly, nofun⟩
    · have hsame : SameTables s (u.onCache fun c => c.rmPathFromCache path .nonExistPathArray) :=
        hhandle.trans ⟨rfl, rfl, rfl, rfl⟩
      dsimp only
      split
      · exact ⟨h.of_same hsame, hsame.newly, nofun⟩
      · rename_i v d halloc
        obtain ⟨hslots, hspare⟩ := fillIFuseDesc_slots objPath path
          (h.of_same hsame) halloc (hzero u f iFd objPath rfl)
        refine ⟨hslots, ?_, fun d' f' heq => ?_⟩
        · have hv := (allocIFuseDesc_spec halloc).2.2.2
          rw [hv]
          exact hsame.newly
        · cases heq; exact hspare

theorem irodsMknod_slots (h : SlotsOk s) (hreuse : ReuseOk s.newly now) (path : Path) (env : MknodEnv) :
    SlotsOk (s.irodsMknod parse now path env).1 := by
  obtain ⟨hslots, hnewly, hspare⟩ := mknodDesc_slots parse h now path env
  unfold irodsMknod
  generalize s.mknodDesc parse now path env = r at hslots hnewly hspare
  obtain ⟨t, ret | ⟨d, f⟩⟩ := r
  · exact hslots
  · obtain ⟨hok, hsp, hempty, hmark⟩ := chooseSlot_slots parse env.puts hslots
      (hspare d f rfl) (hnewly ▸ hreuse)
    have hfill := fillSlot_slots now path f hok hsp hempty hmark
    have hdesc := setDesc_slots (d := d) (f := fun r : IFuseDesc =>
      { r with locCacheState := .haveNewlyCreatedCache, createMode := env.mode }) hfill
      (fun _ => rfl) (fun _ => rfl)
    exact hdesc.1

theorem getDescInxInNewlyCreatedCache_slots (h : SlotsOk s) (now : Nat) (hpath : path ≠ []) (write : Bool)
    (put : Reply) :
    SlotsOk (s.getDescInxInNewlyCreatedCache parse now path write put).1 ∧
    ∀ d, (s.getDescInxInNewlyCreatedCache parse now path write put).2 = some d →
      Spare (s.getDescInxInNewlyCreatedCache parse now path write put).1 d := by
  unfold getDescInxInNewlyCreatedCache
  split
  · exact ⟨h, nofun⟩
  · rename_i i hfind
    have hi : (s.newly i).filePath = path := by simpa using List.find?_some hfind
    split
    · exact ⟨(closeNewlyCreatedCache_slots parse h now i put).1, nofun⟩
    · obtain ⟨hzero, hspare⟩ := zeroSlot_slots (i := i) h
      split
      · exact ⟨hzero, fun d heq => by cases heq; exact hspare (hi ▸ hpath)⟩
      · exact ⟨hzero, nofun⟩

theorem irodsOpenWithReadCache_slots (h : SlotsOk s) (now : Nat) (path : Path) (env : OpenEnv) :
    SlotsOk (s.irodsOpenWithReadCache parse now path env).1 ∧
    ∀ d, (s.irodsOpenWithReadCache parse now path env).2 = some d →
      Spare (s.irodsOpenWithReadCache parse now path env).1 d := by
  have hread := h.of_same (s.sameTables_readCacheFile parse now path env)
  unfold irodsOpenWithReadCache
  generalize s.readCacheFile parse now path env = r at hread
  obtain ⟨t, _ | f⟩ := r
  · exact ⟨hread, nofun⟩
  · dsimp only
    split
    · exact ⟨hread, nofun⟩
    · split
      · exact ⟨hread, nofun⟩
      · rename_i u d halloc
        obtain ⟨hslots, hspare⟩ := fillIFuseDesc_slots ((parse path).getD []) path hread halloc
          (show Handle.localFd f 0 ≠ .zero from Handle.noConfusion)
        have hdesc := setDesc_slots (d := d) (f := fun r : IFuseDesc =>
          { r with locCacheState := .haveReadCache }) hslots (fun _ => rfl) (fun _ => rfl)
        exact ⟨hdesc.1, fun d' heq => by cases heq; exact hdesc.2 d hspare⟩

theorem irodsOpenRemote_slots (h : SlotsOk s) (path : Path) (env : OpenEnv) :
    SlotsOk (s.irodsOpenRemote parse path env).1 ∧
    ∀ d, (s.irodsOpenRemote parse path env).2 = .ok d → Spare (s.irodsOpenRemote parse path env).1 d := by
  unfold irodsOpenRemote
  split
  · exact ⟨h, nofun⟩
  · rename_i obj _
    split
    · have hrm : SlotsOk (s.onCache fun c => c.rmPathFromCache path .nonExistPathArray) :=
        h.of_same ⟨rfl, rfl, rfl, rfl⟩
      dsimp only
      split
      · exact ⟨hrm, nofun⟩
      · rename_i u d halloc
        obtain ⟨hslots, hspare⟩ := fillIFuseDesc_slots obj path hrm halloc
          (show Handle.l1desc obj 0 ≠ .zero from Handle.noConfusion)
        exact ⟨hslots, fun d' heq => by cases heq; exact hspare⟩
    · exact ⟨h, nofun⟩

theorem irodsOpen_slots (h : SlotsOk s) (now : Nat) (hpath : path ≠ []) (write : Bool) (env : OpenEnv) :
    SlotsOk (s.irodsOpen parse now path write env).1 := by
  obtain ⟨hslots, hspare⟩ := getDescInxInNewlyCreatedCache_slots parse h now hpath write env.put
  unfold irodsOpen
  generalize s.getDescInxInNewlyCreatedCache parse now path write env.put = r at hslots hspare
  obtain ⟨t, _ | d⟩ := r
  · have hread : SlotsOk (if write then (t, none) else t.irodsOpenWithReadCache parse now path env).1 ∧
        ∀ d, (if write then (t, none) else t.irodsOpenWithReadCache parse now path env).2 = some d →
          Spare (if write then (t, none) else t.irodsOpenWithReadCache parse now path env).1 d := by
      split
      · exact ⟨hslots, nofun⟩
      · exact irodsOpenWithReadCache_slots parse hslots now path env
    dsimp only
    generalize (if write then (t, none) else t.irodsOpenWithReadCache parse now path env) = u at hread
    obtain ⟨u, _ | d⟩ := u
    · obtain ⟨hremote, hsp⟩ := irodsOpenRemote_slots parse hread.1 path env
      dsimp only
      generalize u.irodsOpenRemote parse path env = v at hremote hsp
      obtain ⟨v, e | d⟩ := v
      · exact hremote
      · exact handOut_slots hremote (hsp d rfl)
    · exact handOut_slots hread.1 (hread.2 d rfl)
  · exact handOut_slots hslots (hspare d rfl)

theorem ifuseLseek_onlyDesc {offset : Nat} {reply : Reply} (h : s.ifuseLseek d offset reply = some t) :
    OnlyDesc d s t := by
  unfold ifuseLseek at h
  split at h
  · cases h; exact .of_same (.refl s)
  · split at h
    · cases h; exact .setDesc s d fun _ => rfl
    · cases h

theorem switchToIrods_onlyDesc (s : State) (path : Path) (d file : Nat) (env : WriteEnv) :
    OnlyDesc d s (s.switchToIrods parse path d file env).1 := by
  have hset : ∀ f : IFuseDesc → IFuseDesc, (∀ r, (f r).inuseFlag = r.inuseFlag) →
      OnlyDesc d s ((s.setDesc d f).onCache fun c => c.rmPathFromCache path .pathArray) :=
    fun f hf => (OnlyDesc.setDesc s d hf).trans (.of_same ⟨rfl, rfl, rfl, rfl⟩)
  unfold switchToIrods
  dsimp only
  split
  · exact hset _ fun _ => rfl
  · rename_i obj _
    split
    · exact hset _ fun _ => rfl
    · split
      · exact hset _ fun _ => rfl
      · have hup : OnlyDesc d s ((s.upload obj (s.cache.files file).content).onCache fun c =>
            c.rmPathFromCache path .pathArray) := .of_same ⟨rfl, rfl, rfl, rfl⟩
        have hnew := hup.trans (OnlyDesc.setDesc _ d (f := fun r : IFuseDesc =>
          { r with iFd := .l1desc obj (s.cache.files file).content.length, offset := 0
                   locCacheState := .noFileCache, newFlag := false }) fun _ => rfl)
        split
        · exact hnew
        · rename_i t hseek
          exact hnew.trans (ifuseLseek_onlyDesc hseek)

theorem addBytesWritten_onlyDesc (s : State) (d n : Nat) : OnlyDesc d s (s.addBytesWritten d n) := by
  exact .setDesc s d fun _ => rfl

theorem localWritten_onlyDesc (s : State) (d f pos n : Nat) (data : List Byte) :
    OnlyDesc d s (s.localWritten d f pos n data) := by
  unfold localWritten
  generalize ByteFile.writeAt (s.cache.files f).content pos (data.take n) = bs
  have hcontent : OnlyDesc d s (s.setContent f bs) := .of_same ⟨rfl, rfl, rfl, rfl⟩
  refine hcontent.trans ?_
  exact .setDesc _ d fun _ => rfl

theorem writeRemote_onlyDesc (s : State) (d : Nat) (obj : Path) (pos n : Nat) (data : List Byte) :
    OnlyDesc d s (s.writeRemote d obj pos n data).1 := by
  unfold writeRemote
  generalize ByteFile.writeAt ((s.uploaded obj).getD []) pos (data.take n) = bs
  have hup : OnlyDesc d s (s.upload obj bs) := .of_same ⟨rfl, rfl, rfl, rfl⟩
  have hpos : OnlyDesc d s ((s.upload obj bs).setDesc d fun r => { r with iFd := .l1desc obj (pos + n) }) :=
    hup.trans (.setDesc _ d fun _ => rfl)
  split
  · refine (hpos.trans ?_).trans (addBytesWritten_onlyDesc _ d n)
    exact .setDesc _ d fun _ => rfl
  · exact hpos

theorem writeLocal_onlyDesc (s : State) (path : Path) (d f pos n : Nat) (data : List Byte)
    (env : WriteEnv) : OnlyDesc d s (s.writeLocal parse path d f pos n data env).1 := by
  have hlocal := s.localWritten_onlyDesc d f pos n data
  unfold writeLocal
  dsimp only
  split
  · have hswitch := hlocal.trans ((s.localWritten d f pos n data).switchToIrods_onlyDesc
      parse path d f env)
    generalize (s.localWritten d f pos n data).switchToIrods parse path d f env = u at hswitch
    obtain ⟨u, _ | e⟩ := u
    · exact hswitch.trans (u.addBytesWritten_onlyDesc d n)
    · exact hswitch
  · exact hlocal.trans (addBytesWritten_onlyDesc _ d n)

theorem irodsWrite_onlyDesc (s : State) (path : Path) (d : Nat) (data : List Byte) (offset : Nat)
    (env : WriteEnv) : OnlyDesc d s (s.irodsWrite parse path d data offset env).1 := by
  unfold irodsWrite
  split
  · exact .of_same (.refl s)
  · split
    · exact .of_same (.refl s)
    · rename_i t hseek
      refine (ifuseLseek_onlyDesc hseek).trans ?_
      split
      · exact .of_same (.refl t)
      · unfold ifuseWrite
        split
        · exact t.writeRemote_onlyDesc d _ _ _ data
        · exact .of_same (.refl t)
        · exact t.writeLocal_onlyDesc parse path d _ _ _ data env
        · exact .of_same (.refl t)

/-- A handle that FUSE gives back takes its descriptor with it, or leaves it in use. -/
theorem release_slots (h : SlotsOk s) (hd : s.opened d = true) (now : Nat) (path : Path) (put : Reply) :
    SlotsOk { (s.irodsRelease parse now path d put).1 with
      opened := update (s.irodsRelease parse now path d put).1.opened d false } := by
  have hne : ∀ i, (s.newly i).filePath ≠ [] → (s.newly i).descInx ≠ d := by
    intro i hi heq
    have := h.unshared i hi
    rw [heq, hd] at this
    cases this
  -- both outcomes leave every other descriptor and the table alone
  have hframe : (s.irodsRelease parse now path d put).1.newly = s.newly ∧
      (s.irodsRelease parse now path d put).1.opened = s.opened ∧
      ∀ d', d' ≠ d → (s.irodsRelease parse now path d put).1.desc d' = s.desc d' := by
    unfold irodsRelease
    split
    · exact ⟨rfl, rfl, fun _ _ => rfl⟩
    · have hclose := s.sameTables_ifuseClose parse now path d put
      dsimp only
      generalize (ifuseClose parse s now path d put).1 = t at hclose
      refine ⟨hclose.newly, hclose.opened, fun d' hdd => ?_⟩
      show update t.desc d _ d' = _
      rw [update_of_ne hdd, hclose.desc]
  generalize (s.irodsRelease parse now path d put).1 = t at hframe
  obtain ⟨hnewly, hopened, hdesc⟩ := hframe
  refine ⟨?_, fun i hi => ?_, fun i hi => ?_, ?_, fun d' hd' => ?_⟩
  · simp only [hnewly]; exact h.marked
  · simp only [hnewly] at hi ⊢
    exact (checkFuseDesc_congr (hdesc _ (hne i hi))).trans (h.checked i hi)
  · simp only [hnewly, hopened] at hi ⊢
    rw [update_of_ne (hne i hi)]
    exact h.unshared i hi
  · simp only [hnewly]; exact h.distinct
  · simp only [hopened] at hd'
    by_cases hdd : d' = d
    · subst hdd; simp at hd'
    · rw [update_of_ne hdd] at hd'
      rw [hdesc d' hdd]
      exact h.inuse d' hd'

theorem irodsRename_slots (h : SlotsOk s) (now : Nat) (src dest : Path) (reply : RenameReply) :
    SlotsOk (s.irodsRename parse now src dest reply).1 := by
  have hlocal : SlotsOk (s.renameLocal parse now src dest).1 := by
    unfold renameLocal
    generalize s.cache.matchPathInPathCache now src .pathArray = r
    obtain ⟨c, _ | e⟩ := r
    · exact h.of_same ⟨rfl, rfl, rfl, rfl⟩
    · have hc : SlotsOk { s with cache := c } := h.of_same ⟨rfl, rfl, rfl, rfl⟩
      dsimp only
      split
      · have hrenme : SlotsOk (({ s with cache := c } : State).renmeOpenedIFuseDesc parse now e dest).1 := by
          unfold renmeOpenedIFuseDesc
          split
          · exact hc
          · have hmove : SlotsOk (({ s with cache := c } : State).onCache fun c => c.moveFile now e dest) :=
              hc.of_same ⟨rfl, rfl, rfl, rfl⟩
            split
            · exact (setDesc_slots (f := fun r => { r with objPath := [] }) hmove
                (fun _ => rfl) (fun _ => rfl)).1
            · rename_i obj _
              exact (setDesc_slots (f := fun r => { r with objPath := obj, localPath := dest }) hmove
                (fun _ => rfl) (fun _ => rfl)).1
        generalize ({ s with cache := c } : State).renmeOpenedIFuseDesc parse now e dest = t at hrenme
        obtain ⟨t, _ | err⟩ := t
        · exact SlotsOk.of_same hrenme ⟨rfl, rfl, rfl, rfl⟩
        · exact hrenme
      · exact hc
  unfold irodsRename
  generalize s.renameLocal parse now src dest = r at hlocal
  obtain ⟨t, _ | _⟩ := r
  · dsimp only
    split
    · split
      · exact SlotsOk.of_same hlocal (t.sameTables_renamed now src dest)
      · split <;> exact hlocal
    · exact hlocal
  · exact hlocal

end State

/-! ## Every run -/

/-- When an operation keeps the table sound: a creation takes over no expired slot.
FUSE opens no empty path. Every path has a slot in the path cache. -/
def SlotReuseOk (s : State) : Op → Prop
  | .mknod now _ _ => State.ReuseOk s.newly now
  | .open_ _ path _ _ => path ≠ []
  | .outside .. => False
  | _ => True

instance (s : State) : (op : Op) → Decidable (SlotReuseOk s op)
  | .mknod now _ _ => inferInstanceAs (Decidable (State.ReuseOk s.newly now))
  | .open_ _ path _ _ => inferInstanceAs (Decidable (path ≠ []))
  | .getattr .. => inferInstanceAs (Decidable True)
  | .mkdir .. => inferInstanceAs (Decidable True)
  | .unlink .. => inferInstanceAs (Decidable True)
  | .rmdir .. => inferInstanceAs (Decidable True)
  | .rename .. => inferInstanceAs (Decidable True)
  | .write .. => inferInstanceAs (Decidable True)
  | .release .. => inferInstanceAs (Decidable True)
  | .outside .. => inferInstanceAs (Decidable False)

theorem step_slots {parse : Path → Option Path} {op : Op} {r : State × Ret} (h : SlotsOk s)
    (hok : SlotReuseOk s op) (hstep : step parse s op = some r) : SlotsOk r.1 := by
  cases op with
  | getattr now path reply =>
    obtain rfl := Option.some.inj hstep
    exact h.of_same (s.sameTables_irodsGetattr parse now path reply)
  | mknod now path env =>
    obtain rfl := Option.some.inj hstep
    exact State.irodsMknod_slots parse h hok path env
  | mkdir now path first retry =>
    obtain rfl := Option.some.inj hstep
    exact h.of_same (s.sameTables_irodsMkdir parse now path first retry)
  | unlink now path first retry =>
    obtain rfl := Option.some.inj hstep
    exact h.of_same (s.sameTables_removePath parse path first retry)
  | rmdir now path first retry =>
    obtain rfl := Option.some.inj hstep
    exact h.of_same (s.sameTables_removePath parse path first retry)
  | rename now src dest reply =>
    obtain rfl := Option.some.inj hstep
    exact State.irodsRename_slots parse h now src dest reply
  | open_ now path write env =>
    obtain rfl := Option.some.inj hstep
    exact State.irodsOpen_slots parse h now hok write env
  | write now path d data offset env =>
    simp only [step] at hstep
    split at hstep
    · rename_i hd
      obtain rfl := Option.some.inj hstep
      exact h.of_onlyDesc hd (s.irodsWrite_onlyDesc parse path d data offset env)
    · cases hstep
  | release now path d put =>
    simp only [step] at hstep
    split at hstep
    · rename_i hd
      obtain rfl := Option.some.inj hstep
      exact State.release_slots parse h hd now path put
    · cases hstep
  | outside now path left ret => exact hok.elim

theorem init_slots : SlotsOk State.init :=
  ⟨fun _ h => absurd rfl h, fun _ h => absurd rfl h, fun _ h => absurd rfl h,
    fun _ _ _ h => absurd rfl h, nofun⟩

/-- `addNewlyCreatedToCache`, called with these arguments, would store its entry over
one whose descriptor is still in use. -/
def OverwritesOpen (parse : Path → Option Path) (s : State) (now : Nat) (puts : Slot → Reply) : Prop :=
  let (t, i) := s.chooseSlot parse now puts
  (t.newly i).filePath ≠ [] ∧ (t.desc (t.newly i).descInx).inuseFlag = true

/-- **No newly created file is dropped.** In every run in which no creation takes over
an expired slot, every entry of the table is marked as in use, and where the next
creation stores its entry nothing is overwritten. -/
theorem newlyCreated_kept (parse : Path → Option Path) (ops : List Op) {s : State} {rets : List Ret}
    (hok : (fuse parse).Guarded SlotReuseOk State.init ops)
    (hrun : (fuse parse).run State.init ops = some (s, rets)) :
    (∀ i, (s.newly i).filePath ≠ [] → (s.newly i).inuseFlag = true) ∧
    (∀ now path env t d f, (Op.mknod now path env).inArrays s = true → SlotReuseOk s (.mknod now path env) →
      s.mknodDesc parse now path env = (t, .ok (d, f)) → ¬ OverwritesOpen parse t now env.puts) := by
  have hslots : SlotsOk s := by
    refine Machine.run_invariant SlotsOk ?_ init_slots hok hrun
    intro s op s' ret hs hop hstep
    exact step_slots hs hop (step_of_fuse hstep)
  refine ⟨hslots.marked, ?_⟩
  intro now path env t d f _ hreuse hdesc hover
  obtain ⟨ht, hnewly, hspare⟩ := State.mknodDesc_slots parse hslots now path env
  rw [hdesc] at ht hnewly hspare
  have hreuse' : State.ReuseOk t.newly now := by
    rw [show t.newly = s.newly from hnewly]
    exact hreuse
  obtain ⟨-, -, hempty, -⟩ := State.chooseSlot_slots parse env.puts ht
    (hspare d f rfl) hreuse'
  exact hover.1 hempty

/-- A file created with local cache file and no trouble. -/
def plainMknod : State.MknodEnv :=
  { stat := ⟨.error, .error, .unknown⟩, localOk := true, create := .error, retry := .error, mode := 420
    puts := fun _ => .ok }

/-- Two files created one after the other keep one slot each. -/
theorem newlyCreated_kept_two :
    ∃ s, (fuse parseInZone).run State.init
        [.mknod 0 [47, 97] plainMknod, .mknod 1 [47, 98] plainMknod] = some (s, [.ok, .ok]) ∧
      (s.newly ⟨0, by decide⟩).filePath = [47, 97] ∧ (s.newly ⟨1, by decide⟩).filePath = [47, 98] ∧
      ∀ i, (s.newly i).filePath ≠ [] → (s.newly i).inuseFlag = true := by
  refine ⟨_, rfl, by decide, by decide, ?_⟩
  refine (newlyCreated_kept parseInZone
    [.mknod 0 [47, 97] plainMknod, .mknod 1 [47, 98] plainMknod] ?_ rfl).1
  exact .cons (by decide) rfl (.cons (by decide) rfl trivial)

/-- A file created when the slot of another has expired is not marked, so that the next
creation takes its slot. -/
theorem expired_slot_unmarked :
    ¬ ∀ (parse : Path → Option Path) (ops : List Op) (s : State) (rets : List Ret),
      (fuse parse).run State.init ops = some (s, rets) →
        (∀ i, (s.newly i).filePath ≠ [] → (s.newly i).inuseFlag = true) ∧
        (∀ now path env t d f, (Op.mknod now path env).inArrays s = true →
          s.mknodDesc parse now path env = (t, .ok (d, f)) → ¬ OverwritesOpen parse t now env.puts) := by
  intro h
  obtain ⟨s, hrun, hpath, hflag⟩ : ∃ s, (fuse parseInZone).run State.init
      [.mknod 0 [47, 97] plainMknod, .mknod 6 [47, 98] plainMknod] = some (s, [.ok, .ok]) ∧
      (s.newly ⟨0, by decide⟩).filePath = [47, 98] ∧ (s.newly ⟨0, by decide⟩).inuseFlag = false :=
    ⟨_, rfl, by decide, by decide⟩
  have hmarked := (h _ _ _ _ hrun).1 ⟨0, by decide⟩ (by rw [hpath]; exact List.cons_ne_nil _ _)
  rw [hflag] at hmarked
  cases hmarked

end Fuse
