-- SUMMARY: The shared rule cache never gets older.
import Irods.Base.CInt
import Irods.Base.Machine
import Mathlib.Order.Lattice

/-!
# The shared rule cache

Processes that find the rule files newer than the shared rule set store their own. An
updater first announces the timestamp of its rule set in `updateTS`, copies the rule
set outside the lock, and stores it unless a newer one has been announced meanwhile.
Each section between `lockMutex` and `unlockMutex` is one step.

`updateTS` is a field of the structure that is stored, so storing a rule set replaces
the announcement by whatever the updater's own structure has there. An updater that
fails after its announcement leaves it behind.
-/

namespace SharedCache

/-! ## Updating -/

/-- `ruleEngineConfig`, as far as updating the shared memory reads it. -/
structure Cache (τ ρ : Type) where
  coreRuleSet : ρ
  timestamp : τ
  updateTS : τ
  version : Nat
  deriving DecidableEq

inductive ProcessType where
  | initCache
  | tryCache
  | noCache
  | refreshCache
  deriving DecidableEq

/-- `RULE_ENGINE_INIT_CACHE` and `RULE_ENGINE_REFRESH_CACHE` store whatever is there. -/
def ProcessType.forced : ProcessType → Bool
  | .initCache | .refreshCache => true
  | .tryCache | .noCache => false

/-- A call of `updateCache`. -/
structure Updater (τ ρ : Type) where
  cache : Cache τ ρ
  processType : ProcessType

inductive Phase where
  | start
  | announced
  | returned (ret : Int)
  deriving DecidableEq

structure State (ι τ ρ : Type) where
  shared : Cache τ ρ
  phase : ι → Phase

/-- What can fail between the two sections. -/
inductive Failure where
  | malloc
  | copyCache
  | lockMutex
  deriving DecidableEq

inductive Event (ι : Type) where
  | lockFails (i : ι)
  | announce (i : ι)
  | fails (i : ι) (f : Failure)
  | store (i : ι)
  deriving DecidableEq

def uintMax : Nat := 2 ^ 32 - 1

/-- `INC_MOD`. -/
def incMod (x m : Nat) : Nat := if x = m - 1 then 0 else x + 1

/-- The structure is copied as it is, with a copy of its rule set. -/
def copyCache {τ ρ : Type} (cache : Cache τ ρ) : Cache τ ρ := cache

section Update

variable {ι τ ρ : Type} [DecidableEq ι]

def State.enter (s : State ι τ ρ) (i : ι) (p : Phase) : State ι τ ρ :=
  { s with phase := fun j => if j = i then p else s.phase j }

theorem State.enter_phase_eq (s : State ι τ ρ) (i : ι) (p : Phase) : (s.enter i p).phase i = p :=
  if_pos rfl

variable {i j : ι}

theorem State.enter_phase_ne (s : State ι τ ρ) (p : Phase) (h : j ≠ i) : (s.enter i p).phase j = s.phase j :=
  if_neg h

/-- An updater that has returned is not between its sections. -/
theorem State.announced_of_enter_returned {s : State ι τ ρ} {ret : Int}
    (h : (s.enter i (.returned ret)).phase j = .announced) : j ≠ i ∧ s.phase j = .announced := by
  have hne : j ≠ i := by
    rintro rfl
    rw [State.enter_phase_eq] at h
    cases h
  rw [State.enter_phase_ne s _ hne] at h
  exact ⟨hne, h⟩

variable [LinearOrder τ]

def passesAnnounce (u : Updater τ ρ) (shared : Cache τ ρ) : Bool :=
  u.processType.forced || decide (shared.updateTS < u.cache.timestamp)

def passesStore (u : Updater τ ρ) (shared : Cache τ ρ) : Bool :=
  u.processType.forced || !decide (u.cache.timestamp < shared.updateTS)

/-- The copy of the updater's cache over the shared one. -/
def stored (u : Updater τ ρ) (shared : Cache τ ρ) : Cache τ ρ :=
  { copyCache u.cache with
    version := if u.processType = .initCache then 0 else incMod shared.version uintMax }

/-- The steps of `updateCache`, with what it returns if it returns. -/
def step (updater : ι → Updater τ ρ) (s : State ι τ ρ) : Event ι → Option (State ι τ ρ × Option Int)
  | .lockFails i =>
    if s.phase i = .start then some (s.enter i (.returned (-1)), some (-1)) else none
  | .announce i =>
    if s.phase i = .start then
      if passesAnnounce (updater i) s.shared then
        some ({ s.enter i .announced with
          shared := { s.shared with updateTS := (updater i).cache.timestamp } }, none)
      -- the cache has been updated by some other process
      else some (s.enter i (.returned 0), some 0)
    else none
  | .fails i _ =>
    if s.phase i = .announced then some (s.enter i (.returned (-1)), some (-1)) else none
  | .store i =>
    if s.phase i = .announced then
      if passesStore (updater i) s.shared then
        some ({ s.enter i (.returned 0) with shared := stored (updater i) s.shared }, some 0)
      else some (s.enter i (.returned 0), some 0)
    else none

def machine (updater : ι → Updater τ ρ) : Machine (State ι τ ρ) (Event ι) (Option Int) :=
  ⟨step updater⟩

end Update

/-! ## Runs that keep the announcements -/

section Keeps

variable {ι τ ρ : Type} [DecidableEq ι] [LinearOrder τ] (updater : ι → Updater τ ρ)

/-- No updater has started, and what is announced is not newer than what is stored. -/
structure State.Start (s : State ι τ ρ) : Prop where
  phase : ∀ i, s.phase i = .start
  updateTS : s.shared.updateTS ≤ s.shared.timestamp

/-- No updater is between its sections. -/
def State.Quiet (s : State ι τ ρ) : Prop := ∀ i, s.phase i ≠ .announced

/-- The announcements stand: none is older than what is stored, none is left behind by a
failure, and the one that is stored along with a rule set is not newer than it and lets
no older updater pass. -/
def KeepsAnnounced (s : State ι τ ρ) : Event ι → Prop
  | .lockFails _ => True
  | .announce i => s.shared.updateTS < (updater i).cache.timestamp →
      s.shared.timestamp ≤ (updater i).cache.timestamp
  | .fails i _ => s.shared.updateTS = (updater i).cache.timestamp →
      s.shared.updateTS ≤ s.shared.timestamp
  | .store i => s.shared.updateTS ≤ (updater i).cache.timestamp →
      (updater i).cache.updateTS ≤ (updater i).cache.timestamp ∧
      ∀ j, j ≠ i → s.phase j = .announced → (updater i).cache.updateTS ≤ (updater j).cache.timestamp →
        (updater i).cache.timestamp ≤ (updater j).cache.timestamp

/-- Whoever may still store is not older than what is stored; what is announced is stored
or will be. -/
structure Inv (s : State ι τ ρ) : Prop where
  announced : ∀ j, s.phase j = .announced → s.shared.updateTS ≤ (updater j).cache.timestamp →
    s.shared.timestamp ≤ (updater j).cache.timestamp
  updateTS : s.shared.updateTS ≤ s.shared.timestamp ∨
    ∃ j, s.phase j = .announced ∧ (updater j).cache.timestamp = s.shared.updateTS

variable {updater} {s s' : State ι τ ρ} {e : Event ι} {o : Option Int}

/-- What a step of an updater that forces nothing does: it announces, it returns and
leaves the shared memory alone, or it stores. -/
theorem step_cases (hplain : ∀ i, (updater i).processType.forced = false)
    (h : step updater s e = some (s', o)) :
    (∃ i, e = .announce i ∧ s.phase i = .start ∧ s.shared.updateTS < (updater i).cache.timestamp ∧
      s' = { s.enter i .announced with
        shared := { s.shared with updateTS := (updater i).cache.timestamp } }) ∨
    (∃ i ret, s' = s.enter i (.returned ret) ∧
      (s.phase i = .start ∨ (∃ f, e = .fails i f) ∨ (updater i).cache.timestamp < s.shared.updateTS)) ∨
    (∃ i, e = .store i ∧ s.phase i = .announced ∧ s.shared.updateTS ≤ (updater i).cache.timestamp ∧
      s' = { s.enter i (.returned 0) with shared := stored (updater i) s.shared }) := by
  cases e with
  | lockFails i =>
    simp only [step] at h
    split at h
    case isTrue hi =>
      cases h
      exact .inr (.inl ⟨i, -1, rfl, .inl hi⟩)
    case isFalse => cases h
  | announce i =>
    simp only [step, passesAnnounce, hplain i, Bool.false_or, decide_eq_true_eq] at h
    split at h
    case isTrue hi =>
      split at h
      case isTrue hlt =>
        cases h
        exact .inl ⟨i, rfl, hi, hlt, rfl⟩
      case isFalse =>
        cases h
        exact .inr (.inl ⟨i, 0, rfl, .inl hi⟩)
    case isFalse => cases h
  | fails i f =>
    simp only [step] at h
    split at h
    case isTrue =>
      cases h
      exact .inr (.inl ⟨i, -1, rfl, .inr (.inl ⟨f, rfl⟩)⟩)
    case isFalse => cases h
  | store i =>
    simp only [step, passesStore, hplain i, Bool.false_or, Bool.not_eq_true', decide_eq_false_iff_not,
      not_lt] at h
    split at h
    case isTrue hi =>
      split at h
      case isTrue hle =>
        cases h
        exact .inr (.inr ⟨i, rfl, hi, hle, rfl⟩)
      case isFalse hlt =>
        cases h
        exact .inr (.inl ⟨i, 0, rfl, .inr (.inr (not_le.mp hlt))⟩)
    case isFalse => cases h

omit [DecidableEq ι] in
theorem State.Start.inv (h : s.Start) : Inv updater s where
  announced j hj := by
    rw [h.phase j] at hj
    cases hj
  updateTS := .inl h.updateTS

theorem inv_step (hplain : ∀ i, (updater i).processType.forced = false) (hinv : Inv updater s)
    (hkeeps : KeepsAnnounced updater s e) (h : step updater s e = some (s', o)) : Inv updater s' := by
  rcases step_cases hplain h with ⟨i, rfl, -, hlt, rfl⟩ | ⟨i, ret, rfl, hwhy⟩ | ⟨i, rfl, hi, hle, rfl⟩
  · refine ⟨fun j hj hle => ?_, .inr ⟨i, State.enter_phase_eq s i _, rfl⟩⟩
    exact le_trans (hkeeps hlt) hle
  · refine ⟨fun j hj hle => hinv.announced j (State.announced_of_enter_returned hj).2 hle, ?_⟩
    rcases hinv.updateTS with hle | ⟨j, hj, hjts⟩
    · exact .inl hle
    · by_cases hji : j = i
      · -- the announcement that stands is the one of the updater that returns
        subst hji
        rcases hwhy with hstart | ⟨f, rfl⟩ | hlt
        · rw [hj] at hstart
          cases hstart
        · exact .inl (hkeeps hjts.symm)
        · exact absurd hjts (ne_of_lt hlt)
      · exact .inr ⟨j, (State.enter_phase_ne s _ hji).trans hj, hjts⟩
  · obtain ⟨hown, hothers⟩ := hkeeps hle
    refine ⟨fun j hj hjle => ?_, .inl hown⟩
    obtain ⟨hji, hj⟩ := State.announced_of_enter_returned hj
    exact hothers j hji hj hjle

theorem timestamp_le_step (hplain : ∀ i, (updater i).processType.forced = false) (hinv : Inv updater s)
    (h : step updater s e = some (s', o)) : s.shared.timestamp ≤ s'.shared.timestamp := by
  rcases step_cases hplain h with ⟨i, rfl, -, -, rfl⟩ | ⟨i, ret, rfl, -⟩ | ⟨i, rfl, hi, hle, rfl⟩
  · exact le_refl _
  · exact le_refl _
  · exact hinv.announced i hi hle

theorem timestamp_le_run (hplain : ∀ i, (updater i).processType.forced = false) (hinv : Inv updater s)
    {es : List (Event ι)} {os : List (Option Int)}
    (hkeeps : (machine updater).Guarded (KeepsAnnounced updater) s es)
    (h : (machine updater).run s es = some (s', os)) : s.shared.timestamp ≤ s'.shared.timestamp := by
  refine (Machine.run_invariant (fun t => Inv updater t ∧ s.shared.timestamp ≤ t.shared.timestamp) ?_
    ⟨hinv, le_refl _⟩ hkeeps h).2
  intro t e t' o ⟨htinv, hle⟩ hg hstep
  exact ⟨inv_step hplain htinv hg hstep, le_trans hle (timestamp_le_step hplain htinv hstep)⟩

/-- Along a run that keeps the announcements the stored rule set never gets older, and
when no updater is between its sections nothing newer than it is announced. -/
theorem stored_never_older {t : State ι τ ρ} {es fs : List (Event ι)} {os ps : List (Option Int)}
    (hplain : ∀ i, (updater i).processType.forced = false) (hstart : s.Start)
    (hkeeps : (machine updater).Guarded (KeepsAnnounced updater) s (es ++ fs))
    (hrun : (machine updater).run s es = some (t, os)) (hrest : (machine updater).run t fs = some (s', ps)) :
    t.shared.timestamp ≤ s'.shared.timestamp ∧
      (s'.Quiet → s'.shared.updateTS ≤ s'.shared.timestamp) := by
  have hstep : ∀ s e s' o, Inv updater s → KeepsAnnounced updater s e →
      (machine updater).step s e = some (s', o) → Inv updater s' :=
    fun _ _ _ _ hinv hg h => inv_step hplain hinv hg h
  have ht : Inv updater t := Machine.run_invariant _ hstep hstart.inv hkeeps.append_left hrun
  have hs' : Inv updater s' := Machine.run_invariant _ hstep ht (hkeeps.append_right hrun) hrest
  refine ⟨timestamp_le_run hplain ht (hkeeps.append_right hrun) hrest, fun hquiet => ?_⟩
  rcases hs'.updateTS with hle | ⟨j, hj, -⟩
  · exact hle
  · exact absurd hj (hquiet j)

end Keeps

/-- Updaters with the given timestamps that leave `updateTS` as it is initialised. -/
def freshUpdaters (timestamp : Bool → Int) (i : Bool) : Updater Int Unit :=
  ⟨⟨(), timestamp i, 0, 0⟩, .tryCache⟩

/-- The shared memory with a rule set of time 3. -/
def oldRules : State Bool Int Unit := ⟨⟨(), 3, 0, 0⟩, fun _ => .start⟩

theorem oldRules_start : oldRules.Start := ⟨fun _ => rfl, by decide⟩

def inTurn : Machine (State Bool Int Unit) (Event Bool) (Option Int) :=
  machine (freshUpdaters fun i => if i then 12 else 10)

/-- Updaters one after another, each newer than the last. -/
theorem stored_never_older_in_turn :
    ∃ t s', inTurn.run oldRules [.announce false, .store false] = some (t, [none, some 0]) ∧
      inTurn.run t [.announce true, .store true] = some (s', [none, some 0]) ∧
      t.shared.timestamp = 10 ∧ s'.shared.timestamp = 12 ∧ t.shared.timestamp ≤ s'.shared.timestamp ∧
      (s'.Quiet → s'.shared.updateTS ≤ s'.shared.timestamp) := by
  refine ⟨_, _, rfl, rfl, rfl, rfl, ?_⟩
  have hkeeps : inTurn.Guarded (KeepsAnnounced (freshUpdaters fun i => if i then 12 else 10)) oldRules
      ([.announce false, .store false] ++ [.announce true, .store true]) := by
    refine Machine.Guarded.cons (fun _ => ?_) rfl (Machine.Guarded.cons (fun _ => ⟨?_, ?_⟩) rfl
      (Machine.Guarded.cons (fun _ => ?_) rfl (Machine.Guarded.cons (fun _ => ⟨?_, ?_⟩) rfl trivial)))
    all_goals decide
  exact stored_never_older (fun _ => rfl) oldRules_start hkeeps rfl rfl

/-- Storing a rule set takes the announcement back, and an older one is stored after it;
an updater that fails leaves an announcement that is newer than what is stored. -/
theorem older_rules_stored :
    oldRules.Start ∧
    (∃ t s' os ps,
      (machine (freshUpdaters fun i => if i then 5 else 10)).run oldRules [.announce false, .store false] =
        some (t, os) ∧
      (machine (freshUpdaters fun i => if i then 5 else 10)).run t [.announce true, .store true] =
        some (s', ps) ∧
      s'.shared.timestamp < t.shared.timestamp) ∧
    ∃ s' os,
      (machine (freshUpdaters fun _ => 10)).run oldRules [.announce false, .fails false .malloc] =
        some (s', os) ∧
      s'.Quiet ∧ s'.shared.timestamp < s'.shared.updateTS := by
  refine ⟨oldRules_start, ⟨_, _, _, _, rfl, rfl, by decide⟩, ⟨_, _, rfl, ?_, by decide⟩⟩
  intro i
  cases i <;> decide

end SharedCache
