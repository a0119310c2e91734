-- SUMMARY: The request queue of the xmsg server, its condition and the threads that wait for it.
import Irods.Base.Chain
import Irods.Base.Machine
import Irods.Base.Threads
import Mathlib.Data.List.Basic

/-!
# Requests

`addReqToQue` queues a request for every connection and `getReqFromQue` hands the requests to the
threads of `procReqRoutine`; the model is the one with pthreads. What is done under
`ReqQueCondMutex` is one step, and `pthread_cond_wait` stands between two of them. A thread may
wake up without a signal, and `calloc` may give an address that was freed.
-/

namespace Xmsg.Requests

open Chain Threads
open Function (update update_apply update_of_ne update_self)
open List (mem_append mem_cons_of_mem mem_cons_self mem_singleton)

/-- Where a thread is: before its first lock, in `pthread_cond_wait`, behind it, or out with a request. -/
inductive Pc where
  | calls
  | waits
  | woken
  | serves (req : Nat)
  deriving DecidableEq

def Pc.comes : Pc → Bool
  | .calls => true
  | .woken => true
  | _      => false

structure State (ι : Type) where
  live : Nat → Bool
  sock : Nat → Int
  next : Nat → Option Nat
  head : Option Nat
  tail : Option Nat
  pc   : ι → Pc

inductive Event (ι : Type) where
  | add (req : Nat) (sock : Int) (signalled : Option ι)
  | get (t : ι)
  | wake (t : ι)
  | free (t : ι)

variable {ι : Type} [DecidableEq ι]

namespace State

def setPc (s : State ι) (t : ι) (pc : Pc) : State ι := { s with pc := update s.pc t pc }

/-- `none` where the link of a NULL is written. -/
def addReqToQue (s : State ι) (req : Nat) (sock : Int) : Option (State ι) :=
  let s := { s with live := update s.live req true, sock := update s.sock req sock, next := update s.next req none }
  if s.head = none then some { s with head := some req, tail := some req }
  else s.tail.map fun last => { s with next := update s.next last (some req), tail := some req }

/-- `pthread_cond_signal` wakes a thread up if one waits. -/
def signal [Fintype ι] (s : State ι) : Option ι → Option (State ι)
  | none   => if ∀ t, s.pc t ≠ .waits then some s else none
  | some t => if s.pc t = .waits then some (s.setPc t .woken) else none

/-- The section of `getReqFromQue` before the wait, or the one after it. -/
def getReqFromQue (s : State ι) (t : ι) : Option (State ι × Option (Nat × Int)) :=
  if (s.pc t).comes then
    match s.head with
    | some req => some ({ s.setPc t (.serves req) with head := s.next req }, some (req, s.sock req))
    | none     => some (s.setPc t (if s.pc t = .calls then .waits else .calls), none)
  else none

def step [Fintype ι] (s : State ι) : Event ι → Option (State ι × Option (Nat × Int))
  | .add req sock signalled =>
    if s.live req then none
    else ((s.addReqToQue req sock).bind (·.signal signalled)).map (·, none)
  | .get t  => s.getReqFromQue t
  | .wake t => if s.pc t = .waits then some (s.setPc t .woken, none) else none
  | .free t =>
    match s.pc t with
    | .serves req => some ({ s.setPc t .calls with live := update s.live req false }, none)
    | _           => none

end State

def machine [Fintype ι] : Machine (State ι) (Event ι) (Option (Nat × Int)) := ⟨State.step⟩

def Event.added : Event ι → Option (Nat × Int)
  | .add req sock _ => some (req, sock)
  | _               => none

def start : State ι := ⟨fun _ => false, fun _ => 0, fun _ => none, none, none, fun _ => .calls⟩

/-- The requests in the list are linked and allocated, and each one that was taken is with one thread. -/
structure Queued (s : State ι) (reqs : List Nat) : Prop where
  path   : Path s.next s.head reqs none
  tail   : ∀ xs x, reqs = xs ++ [x] → s.tail = some x
  nodup  : reqs.Nodup
  live   : ∀ r ∈ reqs, s.live r = true
  served : ∀ t r, s.pc t = .serves r → s.live r = true ∧ r ∉ reqs
  once   : ∀ t u r, s.pc t = .serves r → s.pc u = .serves r → t = u

/-- While a thread waits, another is on its way for each request. -/
def Awaited [Fintype ι] (s : State ι) (reqs : List Nat) : Prop :=
  ∀ t, s.pc t = .waits → reqs.length ≤ countAt Pc.comes s.pc

def State.shown (s : State ι) (reqs : List Nat) : List (Nat × Int) := reqs.map fun r => (r, s.sock r)

variable {s s' : State ι} {reqs : List Nat} {t : ι} {p : Pc}

theorem Queued.setPc (h : Queued s reqs) (hp : ∀ r, p ≠ .serves r) : Queued (s.setPc t p) reqs := by
  obtain ⟨hpath, htail, hnodup, hlive, hserved, honce⟩ := h
  refine ⟨hpath, htail, hnodup, hlive, ?_, ?_⟩ <;> simp only [State.setPc, update_apply] <;> grind

theorem Queued.take {req : Nat} (h : Queued s (req :: reqs)) :
    Queued { s.setPc t (.serves req) with head := s.next req } reqs := by
  obtain ⟨hpath, htail, hnodup, hlive, hserved, honce⟩ := h
  refine ⟨hpath.2, fun xs x heq => htail (req :: xs) x (by rw [heq]; rfl), hnodup.of_cons, ?_, ?_, ?_⟩ <;>
    simp only [State.setPc, update_apply] <;> grind

/-- A request that was served goes back to the allocator. -/
theorem Queued.free {req : Nat} (h : Queued s reqs) (ht : s.pc t = .serves req) :
    Queued { s.setPc t .calls with live := update s.live req false } reqs := by
  obtain ⟨hpath, htail, hnodup, hlive, hserved, honce⟩ := h
  refine ⟨hpath, htail, hnodup, ?_, ?_, ?_⟩ <;> simp only [State.setPc, update_apply] <;> grind

omit [DecidableEq ι] in
theorem Queued.add (h : Queued s reqs) {req : Nat} (hnew : s.live req = false) (sock : Int) :
    ∃ s', s.addReqToQue req sock = some s' ∧ s'.pc = s.pc ∧ Queued s' (reqs ++ [req]) ∧
      s'.shown (reqs ++ [req]) = s.shown reqs ++ [(req, sock)] := by
  obtain ⟨hpath, htail, hnodup, hlive, hserved, honce⟩ := h
  have hother : ∀ r ∈ reqs, r ≠ req := by grind
  have hnodup' : (reqs ++ [req]).Nodup := by grind
  have hlive' : ∀ r ∈ reqs ++ [req], update s.live req true r = true := by grind [update_apply]
  have hserved' : ∀ t r, s.pc t = .serves r → update s.live req true r = true ∧ r ∉ reqs ++ [req] := by
    grind [update_apply]
  have htail' : ∀ xs x, reqs ++ [req] = xs ++ [x] → some req = some x :=
    fun xs x heq => congrArg some (List.singleton_inj.mp (List.append_inj' heq rfl).2)
  have hshown : (reqs ++ [req]).map (fun r => (r, update s.sock req sock r)) = s.shown reqs ++ [(req, sock)] := by
    rw [List.map_append, List.map_singleton, update_self]
    refine congrArg (· ++ _) (List.map_congr_left fun r hr => ?_)
    rw [update_of_ne (hother r hr)]
  have hkept : Path (update s.next req none) s.head reqs none :=
    (path_congr fun r hr => (update_of_ne (hother r hr) ..).symm).1 hpath
  unfold State.addReqToQue
  dsimp only
  rcases List.eq_nil_or_concat' reqs with rfl | ⟨xs, last, rfl⟩
  · rw [if_pos (show s.head = none from hpath)]
    exact ⟨_, rfl, rfl, ⟨⟨rfl, update_self ..⟩, htail', hnodup', hlive', hserved', honce⟩, hshown⟩
  · have hhead : s.head ≠ none := by
      intro hnone
      cases xs <;> simp [hnone] at hpath
    rw [if_neg hhead, htail xs last rfl]
    refine ⟨_, rfl, rfl, ⟨path_append.mpr ⟨some req, ?_, rfl, ?_⟩, htail', hnodup', hlive', hserved', honce⟩, hshown⟩
    · exact path_relink hkept (by grind) (update_self ..) fun y hy => update_of_ne hy ..
    · exact (update_of_ne (hother last (by simp)).symm ..).trans (update_self ..)

variable [Fintype ι]

/-- One more thread that comes makes up for one more request, one less for one less. -/
theorem Awaited.setPc (h : Awaited s reqs) {reqs' : List Nat} (hp : p ≠ .waits)
    (hlen : reqs'.length + (s.pc t).comes.toNat ≤ reqs.length + p.comes.toNat) : Awaited (s.setPc t p) reqs' := by
  intro u hu
  have hut : u ≠ t := by
    rintro rfl
    exact hp ((update_self ..).symm.trans hu)
  have hmoved := countAt_update Pc.comes s.pc t p
  have hold := h u ((update_of_ne hut ..).symm.trans hu)
  show reqs'.length ≤ countAt Pc.comes (update s.pc t p)
  omega

/-- What is queued after a step is what was queued and what the step adds, less what it hands out. -/
theorem step_queued {e : Event ι} {o : Option (Nat × Int)} (h : Queued s reqs) (hawaited : Awaited s reqs)
    (hstep : s.step e = some (s', o)) :
    ∃ reqs', Queued s' reqs' ∧ Awaited s' reqs' ∧ s.shown reqs ++ e.added.toList = o.toList ++ s'.shown reqs' := by
  cases e with
  | add req sock signalled =>
    simp only [State.step, Option.ite_none_left_eq_some, Bool.not_eq_true] at hstep
    obtain ⟨hnew, hstep⟩ := hstep
    obtain ⟨s₁, hadd, hpc, hqueued, hshown⟩ := h.add hnew sock
    rw [hadd, Option.bind_some] at hstep
    obtain ⟨s₂, hsignal, heq⟩ := Option.map_eq_some_iff.mp hstep
    cases heq
    refine ⟨reqs ++ [req], ?_⟩
    cases signalled with
    | none =>
      simp only [State.signal, Option.ite_none_right_eq_some, Option.some.injEq] at hsignal
      obtain ⟨hnone, rfl⟩ := hsignal
      exact ⟨hqueued, fun t ht => absurd ht (hnone t), hshown.symm⟩
    | some t =>
      simp only [State.signal, Option.ite_none_right_eq_some, Option.some.injEq] at hsignal
      obtain ⟨hwaits, rfl⟩ := hsignal
      have hbefore : Awaited s₁ reqs := by
        unfold Awaited
        rw [hpc]
        exact hawaited
      exact ⟨hqueued.setPc (by simp), hbefore.setPc (by simp) (by simp [hwaits, Pc.comes]), hshown.symm⟩
  | get t =>
    simp only [State.step, State.getReqFromQue, Option.ite_none_right_eq_some] at hstep
    obtain ⟨hcomes, hstep⟩ := hstep
    cases reqs with
    | nil =>
      rw [show s.head = none from h.path] at hstep
      cases hstep
      exact ⟨[], h.setPc (by intro r; split <;> simp), fun _ _ => Nat.zero_le _, rfl⟩
    | cons req reqs =>
      rw [show s.head = some req from h.path.1] at hstep
      cases hstep
      exact ⟨reqs, h.take, Awaited.setPc hawaited (by simp) (by rw [hcomes]; exact le_rfl), List.append_nil _⟩
  | wake t =>
    simp only [State.step, Option.ite_none_right_eq_some] at hstep
    obtain ⟨hwaits, hstep⟩ := hstep
    cases hstep
    exact ⟨reqs, h.setPc (by simp), hawaited.setPc (by simp) (by simp [hwaits, Pc.comes]), List.append_nil _⟩
  | free t =>
    simp only [State.step] at hstep
    split at hstep
    · rename_i req hserves
      cases hstep
      exact ⟨reqs, h.free hserves, Awaited.setPc hawaited (by simp) (by simp [hserves, Pc.comes]), List.append_nil _⟩
    · cases hstep

/-- In every run of any number of threads the requests are handed out once, in the order in which they were
queued, and no link of a NULL is written; and while a thread waits, another is on its way for each request. -/
theorem requests_in_order {es : List (Event ι)} {os : List (Option (Nat × Int))}
    (hrun : machine.run start es = some (s', os)) :
    ∃ reqs, Queued s' reqs ∧ Awaited s' reqs ∧
      es.filterMap Event.added = os.filterMap id ++ s'.shown reqs ∧
      ∀ req sock, s'.live req = false → (s'.addReqToQue req sock).isSome := by
  have key : ∀ (es : List (Event ι)) (s : State ι) (reqs : List Nat) (os : List (Option (Nat × Int))),
      Queued s reqs → Awaited s reqs → machine.run s es = some (s', os) →
      ∃ reqs', Queued s' reqs' ∧ Awaited s' reqs' ∧
        s.shown reqs ++ es.filterMap Event.added = os.filterMap id ++ s'.shown reqs' := by
    intro es
    induction es with
    | nil =>
      intro s reqs os h hawaited hrun
      cases hrun
      exact ⟨reqs, h, hawaited, List.append_nil _⟩
    | cons e es ih =>
      intro s reqs os h hawaited hrun
      obtain ⟨s₁, o, os', hstep, hrest, rfl⟩ := Machine.run_cons_eq_some.mp hrun
      obtain ⟨reqs₁, h₁, hawaited₁, hshown⟩ := step_queued h hawaited hstep
      obtain ⟨reqs', h', hawaited', hall⟩ := ih s₁ reqs₁ os' h₁ hawaited₁ hrest
      refine ⟨reqs', h', hawaited', ?_⟩
      have hcons {α β : Type} (f : α → Option β) (x : α) (xs : List α) :
          (x :: xs).filterMap f = (f x).toList ++ xs.filterMap f := by
        rw [List.filterMap_cons]
        cases f x <;> rfl
      rw [hcons, hcons, ← List.append_assoc, hshown, List.append_assoc, hall, List.append_assoc]
      rfl
  have hqueued : Queued (start : State ι) [] :=
    ⟨rfl, by simp, List.nodup_nil, by simp, by simp [start], by simp [start]⟩
  obtain ⟨reqs, h, hawaited, hall⟩ := key es start [] os hqueued (fun _ _ => Nat.zero_le _) hrun
  refine ⟨reqs, h, hawaited, hall, fun req sock hnew => ?_⟩
  obtain ⟨_, hadd, -⟩ := h.add hnew sock
  rw [hadd]
  rfl

/-- Two threads wait, are woken up and take a request each; the address of the first is used again. -/
def twoTake : List (Event (Fin 2)) :=
  [.get 0, .get 1, .add 3 7 (some 1), .add 4 8 (some 0), .get 1, .add 5 9 none, .get 0, .free 1, .add 3 6 none]

theorem requests_in_order_two :
    ∃ s' os reqs, machine.run start twoTake = some (s', os) ∧ os.filterMap id = [(3, 7), (4, 8)] ∧
      Queued s' reqs ∧ s'.shown reqs = [(5, 9), (3, 6)] := by
  obtain ⟨s', os, hrun, hos⟩ : ∃ s' os, machine.run start twoTake = some (s', os) ∧
    os.filterMap id = [(3, 7), (4, 8)] := ⟨_, _, rfl, rfl⟩
  obtain ⟨reqs, hqueued, -, hall, -⟩ := requests_in_order hrun
  rw [hos] at hall
  have hshown : [(3, 7), (4, 8)] ++ [(5, 9), (3, 6)] = [(3, 7), (4, 8)] ++ s'.shown reqs := hall
  exact ⟨s', os, reqs, hrun, hos, hqueued, (List.append_cancel_left hshown).symm⟩

end Xmsg.Requests
