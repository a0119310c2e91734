-- SUMMARY: ConnLock is unlocked by its holder and the pool keeps its bound.
import Irods.Fuse.ConnLock

open Threads

/-!
# The discipline of ConnLock

A thread holds the lock exactly between the lock and the unlock of a section. The list
at `ConnHead` and the connections that threads are about to put on it are together at
most `MAX_NUM_CONN`.

The exceptions are the turns of the wait loop after a timeout, a connection that goes
down between the test of `useIFuseConn` and that of `_useIFuseConn`, `disconnectAll`, and
the decision to make a connection, which does not count those being made.
-/

namespace ConnLock

open ConnPool (IFuseConn Pool maxNumConn)

/-! ## Program points -/

/-- On the way to putting a new connection on the list. -/
def Section.makes : Section → Bool
  | .pend _ new | .take _ new => new
  | .enqueue _ => true
  | _ => false

def Between.makes : Between → Bool
  | .making => true
  | .relock p => p.makes
  | .useTest _ new | .lockConn _ new => new
  | _ => false

namespace Pc

def makes : Pc → Bool
  | .lock p | .inside p => p.makes
  | .unlock q | .outside q => q.makes

/-- Between a lock and an unlock. -/
def locked : Pc → Bool
  | .inside _ | .unlock _ => true
  | .lock _ | .outside _ => false

end Pc

variable {ι : Type} [Fintype ι]

/-- No wait times out, no connection is down when `_useIFuseConn` looks at it,
`disconnectAll` is not run, and a thread goes on to make a connection only if those on the
list and those being made leave room for it. -/
def orderlyAt (s : State ι) (t : ι) : Pc → Bool
  | .outside .sleep => s.woken t
  | .inside (.pend c _) => isUp s.toPool c
  | .inside .disconnectAll => false
  | .inside .scan =>
    decide (s.findFree = none → s.connHead.length < maxNumConn →
      s.connHead.length + countAt Pc.makes s.pc < maxNumConn)
  | _ => true

def Orderly (s : State ι) : Event ι → Prop
  | .go t _ _ => orderlyAt s t (s.pc t) = true
  | _ => True

instance decidableOrderly (s : State ι) (e : Event ι) : Decidable (Orderly s e) :=
  match e with
  | .go t _ _ => inferInstanceAs (Decidable (orderlyAt s t (s.pc t) = true))
  | .call _ _ => isTrue trivial
  | .setUp _ _ => isTrue trivial
  | .fillIFuseDesc _ _ _ => isTrue trivial
  | .freeIFuseDesc _ _ => isTrue trivial

structure Inv (s : State ι) : Prop where
  holder : ∀ t, s.holder = some t ↔ (s.pc t).locked = true
  bound : s.connHead.length + countAt Pc.makes s.pc ≤ maxNumConn

theorem inv_init : Inv (init ι) where
  holder t := by simp [init, Pc.locked]
  bound := by
    have hzero : countAt Pc.makes (init ι).pc = 0 := countAt_eq_zero fun _ => rfl
    rw [hzero]
    exact Nat.zero_le _

/-! ## Steps -/

section Steps

variable [DecidableEq ι] {s s₁ s' : State ι} {t u : ι} {p : Pc}

omit [Fintype ι] in
theorem State.goto_pc_self (s : State ι) (t : ι) (p : Pc) : (s.goto t p).pc t = p := by
  simp only [State.goto, Function.update_self]

omit [Fintype ι] in
theorem State.goto_pc_ne (s : State ι) (p : Pc) (h : u ≠ t) : (s.goto t p).pc u = s.pc u := by
  simp only [State.goto, Function.update_of_ne h]

omit [Fintype ι] in
/-- A thread that stays on its side of the lock. -/
theorem holder_goto (h : ∀ u, s.holder = some u ↔ (s.pc u).locked = true)
    (hlocked : p.locked = (s.pc t).locked) (u : ι) :
    (s.goto t p).holder = some u ↔ ((s.goto t p).pc u).locked = true := by
  by_cases hut : u = t
  · subst hut
    rw [State.goto_pc_self, hlocked]
    exact h u
  · rw [State.goto_pc_ne s p hut]
    exact h u

theorem bound_goto (s₁ : State ι) (hbound : s.connHead.length + countAt Pc.makes s.pc ≤ maxNumConn)
    (hlen : s₁.connHead.length + p.makes.toNat ≤ s.connHead.length + (s.pc t).makes.toNat) (hpc : s₁.pc = s.pc) :
    (s₁.goto t p).connHead.length + countAt Pc.makes (s₁.goto t p).pc ≤ maxNumConn := by
  have hcount := countAt_update Pc.makes s.pc t p
  simp only [State.goto, hpc]
  omega

/-- A thread goes on without locking or unlocking, and with its connection on the list
it is no longer making one. -/
theorem Inv.move (h : Inv s) (hholder : s₁.holder = s.holder) (hpc : s₁.pc = s.pc)
    (hlocked : p.locked = (s.pc t).locked)
    (hlen : s₁.connHead.length + p.makes.toNat ≤ s.connHead.length + (s.pc t).makes.toNat) : Inv (s₁.goto t p) := by
  have hs₁ : ∀ u, s₁.holder = some u ↔ (s₁.pc u).locked = true := by
    rw [hholder, hpc]
    exact h.holder
  exact ⟨holder_goto hs₁ (by rw [hlocked, hpc]), bound_goto s₁ h.bound hlen hpc⟩

theorem Inv.lock {q : Section} (h : Inv s) (hpc : s.pc t = .lock q) (hfree : s.holder = none) :
    Inv ({ s with holder := some t }.goto t (.inside q)) where
  holder u := by
    by_cases hut : u = t
    · subst hut
      rw [State.goto_pc_self]
      exact ⟨fun _ => rfl, fun _ => rfl⟩
    · rw [State.goto_pc_ne _ _ hut, ← h.holder u, hfree]
      simp [State.goto, Ne.symm hut]
  bound := bound_goto { s with holder := some t } h.bound (by rw [hpc]; exact le_rfl) rfl

theorem Inv.unlock {q : Between} (h : Inv s) (hpc : s.pc t = .unlock q) :
    Inv ({ s with holder := none }.goto t (.outside q)) where
  holder u := by
    have ht : s.holder = some t := (h.holder t).mpr (by rw [hpc]; rfl)
    by_cases hut : u = t
    · subst hut
      simp [State.goto, Pc.locked]
    · -- nobody else held it
      rw [State.goto_pc_ne _ _ hut, ← h.holder u, ht]
      simp [State.goto, Ne.symm hut]
  bound := bound_goto { s with holder := none } h.bound (by rw [hpc]; exact le_rfl) rfl

omit [Fintype ι] [DecidableEq ι] in
theorem length_sweep_le (s : Pool ι) (now : Nat) : (s.sweep now).connHead.length ≤ s.connHead.length :=
  (List.length_filter_le _ _).trans (List.length_filter_le _ _)

/-- Making a connection is decided with room for it. -/
theorem Inv.decide_making (h : Inv s) (hpc : s.pc t = .inside .scan)
    (hroom : s.connHead.length + countAt Pc.makes s.pc < maxNumConn) : Inv (s.goto t (.unlock .making)) where
  holder := holder_goto h.holder (by rw [hpc]; rfl)
  bound := by
    have hcount := countAt_update Pc.makes s.pc t (.unlock .making)
    have hmakes : (Pc.unlock .making).makes = true := rfl
    rw [hpc, hmakes] at hcount
    simp only [Pc.makes, Section.makes, Bool.toNat_true, Bool.toNat_false] at hcount
    simp only [State.goto]
    omega

variable {now : Nat} {ok : Bool}

theorem Inv.scan (h : Inv s) (hpc : s.pc t = .inside .scan) (horderly : Orderly s (.go t now ok)) :
    Inv (runSection s t now .scan) := by
  simp only [Orderly, hpc, orderlyAt, decide_eq_true_eq] at horderly
  simp only [runSection]
  split
  case h_1 c hfind =>
    exact h.move rfl rfl (by rw [hpc]; rfl) (by rw [hpc]; exact le_rfl)
  case h_2 hnone =>
    split
    case isTrue =>
      split
      case h_1 c hfind => exact h.move rfl rfl (by rw [hpc]; rfl) (by rw [hpc]; exact le_rfl)
      case h_2 => exact h.move rfl rfl (by rw [hpc]; rfl) (by rw [hpc]; exact le_rfl)
    case isFalse hlen => exact h.decide_making hpc (horderly hnone (Nat.not_le.mp hlen))

theorem inv_section {q : Section} (h : Inv s) (hpc : s.pc t = .inside q) (horderly : Orderly s (.go t now ok)) :
    Inv (runSection s t now q) := by
  cases q with
  | scan => exact h.scan hpc horderly
  | pend c new =>
    simp only [Orderly, hpc, orderlyAt] at horderly
    simp only [runSection, if_pos horderly]
    exact h.move rfl rfl (by rw [hpc]; rfl) (by rw [hpc]; exact le_rfl)
  | take c new =>
    refine h.move rfl rfl (by rw [hpc]; rfl) ?_
    rw [hpc]
    cases new <;> exact le_rfl
  | enqueue c => exact h.move rfl rfl (by rw [hpc]; rfl) (by rw [hpc]; exact le_rfl)
  | unuse c rel => exact h.move rfl rfl (by rw [hpc]; rfl) (by rw [hpc]; exact le_rfl)
  | relCount c =>
    simp only [runSection]
    split
    all_goals exact h.move rfl rfl (by rw [hpc]; rfl) (by rw [hpc]; exact le_rfl)
  | relFree c => exact h.move rfl rfl (by rw [hpc]; rfl) (by rw [hpc]; exact le_rfl)
  | count => exact h.move rfl rfl (by rw [hpc]; rfl) (by rw [hpc]; exact le_rfl)
  | disconnectAll =>
    simp only [Orderly, hpc, orderlyAt] at horderly
    cases horderly
  | sweep =>
    refine h.move rfl rfl (by rw [hpc]; rfl) ?_
    rw [hpc]
    exact length_sweep_le s.toPool now
  | signal =>
    simp only [runSection]
    split
    case h_1 =>
      split
      all_goals exact h.move rfl rfl (by rw [hpc]; rfl) (by rw [hpc]; exact le_rfl)
    case h_2 => exact h.move rfl rfl (by rw [hpc]; rfl) (by rw [hpc]; exact le_rfl)

theorem inv_between {q : Between} (h : Inv s) (hpc : s.pc t = .outside q) (horderly : Orderly s (.go t now ok))
    (hstep : runBetween s t ok q = some s') : Inv s' := by
  cases q with
  | idle => cases hstep
  | relock p =>
    cases hstep
    exact h.move rfl rfl (by rw [hpc]; rfl) (by rw [hpc]; exact le_rfl)
  | lockFree c =>
    simp only [runBetween] at hstep
    split at hstep
    · cases hstep
      exact h.move rfl rfl (by rw [hpc]; rfl) (by rw [hpc]; exact le_rfl)
    · cases hstep
  | sleep =>
    simp only [Orderly, hpc, orderlyAt] at horderly
    simp only [runBetween, if_pos horderly] at hstep
    cases hstep
    exact h.move rfl rfl (by rw [hpc]; rfl) (by rw [hpc]; exact le_rfl)
  | making =>
    simp only [runBetween] at hstep
    split at hstep
    · cases hstep
      exact h.move rfl rfl (by rw [hpc]; rfl) (by rw [hpc]; exact le_rfl)
    · cases hstep
      exact h.move rfl rfl (by rw [hpc]; rfl) (by rw [hpc]; exact Nat.le_succ _)
  | useTest c new =>
    cases hstep
    refine h.move rfl rfl ?_ ?_
    all_goals
      rw [hpc]
      cases isUp s.toPool c <;> cases new <;> rfl
  | lockConn c new =>
    simp only [runBetween] at hstep
    split at hstep
    · cases hstep
      exact h.move rfl rfl (by rw [hpc]; rfl) (by rw [hpc]; exact le_rfl)
    · cases hstep
  | unuseTest c rel =>
    cases hstep
    refine h.move rfl rfl ?_ ?_
    all_goals
      rw [hpc]
      cases isUp s.toPool c <;> cases rel <;> rfl
  | unlockConn c rel =>
    cases hstep
    refine h.move rfl rfl ?_ ?_
    all_goals
      rw [hpc]
      cases rel <;> rfl
  | relDesc c =>
    cases hstep
    refine h.move rfl rfl (by rw [hpc]; rfl) ?_
    rw [hpc]
    cases s.iFuseConnInuse c <;> exact le_rfl

/-- An orderly step keeps the discipline. -/
theorem inv_step {e : Event ι} (h : Inv s) (horderly : Orderly s e) (hstep : step s e = some s') : Inv s' := by
  cases e with
  | call t f =>
    simp only [step] at hstep
    split at hstep
    case isFalse => cases hstep
    case isTrue hpc =>
      cases hstep
      refine h.move rfl rfl ?_ ?_
      all_goals
        rw [hpc]
        cases f with
        | getIFuseConnByPath d =>
          simp only [start]
          split
          · split <;> rfl
          · rfl
        | _ => rfl
  | go t now ok =>
    simp only [step] at hstep
    split at hstep
    case h_1 q hpc =>
      split at hstep
      case isTrue hfree =>
        cases hstep
        exact h.lock hpc hfree
      case isFalse => cases hstep
    case h_2 q hpc =>
      cases hstep
      exact inv_section h hpc horderly
    case h_3 q hpc =>
      cases hstep
      exact h.unlock hpc
    case h_4 q hpc => exact inv_between h hpc horderly hstep
  | setUp c up =>
    cases hstep
    exact ⟨h.holder, h.bound⟩
  | fillIFuseDesc t c d =>
    simp only [step] at hstep
    split at hstep
    case isFalse => cases hstep
    case isTrue =>
      cases hstep
      exact ⟨h.holder, h.bound⟩
  | freeIFuseDesc t d =>
    simp only [step] at hstep
    split at hstep
    case isFalse => cases hstep
    case isTrue hpc =>
      split at hstep
      case h_1 c hdesc =>
        cases hstep
        exact h.move rfl rfl (by rw [hpc]; rfl) (by rw [hpc]; exact le_rfl)
      case h_2 => cases hstep

end Steps

/-! ## Runs -/

/-- In every orderly run a thread that is about to unlock `ConnLock` holds it, one that has
returned does not, and the list is within its bound. -/
theorem connLock_kept [DecidableEq ι] {s : State ι} {es : List (Event ι)} {os : List Unit}
    (horderly : (machine ι).Guarded Orderly (init ι) es) (hrun : (machine ι).run (init ι) es = some (s, os)) :
    (∀ t q, s.pc t = .unlock q → s.holder = some t) ∧
    (∀ t, s.pc t = .outside .idle → s.holder ≠ some t) ∧
    s.connHead.length ≤ maxNumConn := by
  have hinv : Inv s := by
    refine Machine.run_invariant Inv (fun t e t' o ht hg hstep => ?_) inv_init horderly hrun
    obtain ⟨t'', ht'', heq⟩ := Option.map_eq_some_iff.mp hstep
    cases heq
    exact inv_step ht hg ht''
  refine ⟨fun t q hpc => ?_, fun t hpc hholder => ?_, (Nat.le_add_right _ _).trans hinv.bound⟩
  · rw [hinv.holder, hpc]
    rfl
  · rw [hinv.holder, hpc] at hholder
    cases hholder

/-- The steps of a thread that makes a connection and puts it on the list: first until it
has decided to, then the rest. -/
def decideToMake {ι : Type} (t : ι) : List (Event ι) :=
  .call t .getIFuseConn :: List.replicate 3 (.go t 1 true)

def makeIt {ι : Type} (t : ι) : List (Event ι) := List.replicate 13 (.go t 1 true)

/-- Ten threads have a connection each, and another waits until its wait times out. -/
def timedOut : List (Event (Fin 11)) :=
  ((List.finRange 11).take 10).flatMap (fun t => decideToMake t ++ makeIt t) ++
    .call 10 .getIFuseConn :: List.replicate 4 (.go 10 1 true)

/-- A connection goes down between the two tests for it. -/
def goesDown : List (Event (Fin 11)) :=
  decideToMake 0 ++ makeIt 0 ++
    [.call 1 (.useIFuseConn 0), .go 1 2 true, .setUp 0 false, .go 1 2 true, .go 1 2 true]

/-- Eleven threads find nothing free at once. -/
def allMake : List (Event (Fin 11)) :=
  (List.finRange 11).flatMap decideToMake ++ (List.finRange 11).flatMap makeIt

/-- What the last state of a run says. -/
def lastly (es : List (Event (Fin 11))) (p : State (Fin 11) → Bool) : Bool :=
  (((machine (Fin 11)).run (init (Fin 11)) es).map fun r => p r.1).getD false

/-- A wait that times out unlocks without the lock; `useIFuseConn` and `disconnectAll` return
with it; the list gets too long. -/
theorem connLock_not_kept :
    lastly timedOut (fun s => decide (s.pc 10 = .unlock .sleep ∧ s.holder ≠ some 10)) = true ∧
    lastly goesDown (fun s => decide (s.pc 1 = .outside .idle ∧ s.holder = some 1)) = true ∧
    lastly [.call 0 .disconnectAll, .go 0 1 true, .go 0 1 true]
      (fun s => decide (s.pc 0 = .outside .idle ∧ s.holder = some 0)) = true ∧
    lastly allMake (fun s => decide (maxNumConn < s.connHead.length)) = true := by
  decide +kernel

/-- Two threads make a connection each at the same time. The first leaves its own in a
descriptor, and a third thread that opens the same path is about to return with it. -/
def byPath : List (Event (Fin 11)) :=
  decideToMake 0 ++ decideToMake 1 ++ makeIt 0 ++ makeIt 1 ++
    .fillIFuseDesc 0 0 3 :: .call 0 (.unuseIFuseConn 0) :: List.replicate 5 (.go 0 2 true) ++
    .call 2 (.getIFuseConnByPath 3) :: List.replicate 6 (.go 2 3 true)

theorem connLock_kept_byPath :
    ∃ s os, (machine (Fin 11)).run (init (Fin 11)) byPath = some (s, os) ∧
      s.pc 2 = .unlock .idle ∧ s.holder = some 2 ∧ s.pc 0 = .outside .idle ∧ s.holder ≠ some 0 ∧
      s.connHead.length ≤ maxNumConn := by
  have horderly : (machine (Fin 11)).Guarded Orderly (init (Fin 11)) byPath := by decide +kernel
  have hsome : ((machine (Fin 11)).run (init (Fin 11)) byPath).isSome := by decide +kernel
  obtain ⟨⟨s, os⟩, hrun⟩ := Option.isSome_iff_exists.mp hsome
  have hpc : lastly byPath (fun s => decide (s.pc 2 = .unlock .idle ∧ s.pc 0 = .outside .idle)) = true := by
    decide +kernel
  rw [lastly, hrun, Option.map_some, Option.getD_some, decide_eq_true_eq] at hpc
  obtain ⟨hunlock, hidle, hbound⟩ := connLock_kept horderly hrun
  exact ⟨s, os, hrun, hpc.1, hunlock 2 _ hpc.1, hpc.2, hidle 0 hpc.2, hbound⟩

end ConnLock
