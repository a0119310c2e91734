-- SUMMARY: Connections that are held or referred to are not disposed of.
import Irods.Fuse.ConnPool

open Threads

/-!
# Connections in use

A thread holds a connection from the section that counts it until it gives it back. The
counters of a connection are at least the number of threads that hold it, and a
connection that is held or that a descriptor refers to is marked in use, so that
`connManager` leaves it alone.

`_relIFuseConn` counts, looks for a descriptor and marks the connection free in three
sections. What is shown here is about the runs in which nobody has taken the
connection when the last of them marks it.
-/

namespace ConnPool

open Function (update_eq_self update_of_ne)
open Option (ite_none_right_eq_some)

/-! ## Holding -/

namespace Pc

/-- Counted in `pendingCnt`. -/
def pends (c : Nat) : Pc → Bool
  | .pending c' _ => decide (c' = c)
  | _ => false

/-- Counted in `inuseCnt`. -/
def uses (c : Nat) : Pc → Bool
  | .enqueuing c' | .locking c' | .holding c' => decide (c' = c)
  | _ => false

def holds (c : Nat) (p : Pc) : Bool := p.pends c || p.uses c

end Pc

variable {ι : Type}

def Held (s : State ι) (c : Nat) : Prop := ∃ t, (s.pc t).holds c = true

def Referred (s : State ι) (c : Nat) : Prop := ∃ d, s.desc d = some c

/-- Held by a thread, or referred to by an allocated descriptor. -/
def InUse (s : State ι) (c : Nat) : Prop := Held s c ∨ Referred s c

/-- A connection that is about to be marked free is not in use in the state before the step, and
one that a thread failed to take is down when the thread gives it back. -/
def Undisturbed (s : State ι) : Event ι → Prop
  | .relFree t => ∀ c, s.pc t = .freeing c → ¬ InUse s c
  | .unuseIFuseConn t _ _ => ∀ c x, s.pc t = .failed c → s.conns c = some x → x.conn = false
  | _ => True

structure Inv [Fintype ι] (s : State ι) : Prop where
  inuse : ∀ c, InUse s c → ∃ x, s.conns c = some x ∧ x.status = .inuse
  pendingCnt : ∀ c x, s.conns c = some x → x.pendingCnt = countAt (Pc.pends c) s.pc
  inuseCnt : ∀ c x, s.conns c = some x → (countAt (Pc.uses c) s.pc : Int) ≤ x.inuseCnt
  fresh : ∀ c, s.nextConn ≤ c → s.conns c = none
  waitQue : ∀ t ∈ s.waitQue, s.pc t = .waiting false
  nodup : s.waitQue.Nodup

theorem inv_init [Fintype ι] : Inv (init ι) where
  inuse c h := by
    rcases h with ⟨t, h⟩ | ⟨d, h⟩
    · cases h
    · cases h
  pendingCnt _ _ h := by cases h
  inuseCnt _ _ h := by cases h
  fresh _ _ := rfl
  waitQue _ h := by cases h
  nodup := List.nodup_nil

variable {s : State ι} {t : ι}

variable {c : Nat} {f : IFuseConn → IFuseConn} {p q : Pc} {x : IFuseConn}

theorem Inv.not_waiting [Fintype ι] (h : Inv s) (hpc : s.pc t = q) (hq : q ≠ .waiting false) : t ∉ s.waitQue :=
  fun hmem => hq (hpc.symm.trans (h.waitQue t hmem))

section Moves

variable [DecidableEq ι] {u : ι}

@[simp] theorem State.goto_pc_self (s : State ι) (t : ι) (p : Pc) : (s.goto t p).pc t = p := by
  simp only [State.goto, Function.update_self]

theorem State.goto_pc_ne (s : State ι) (p : Pc) (h : u ≠ t) : (s.goto t p).pc u = s.pc u := by
  simp only [State.goto, update_of_ne h]

theorem Held.of_goto (h : Held (s.goto t p) c) : Held s c ∨ p.holds c = true := by
  obtain ⟨u, hu⟩ := h
  by_cases hut : u = t
  · subst hut
    rw [State.goto_pc_self] at hu
    exact .inr hu
  · rw [State.goto_pc_ne s p hut] at hu
    exact .inl ⟨u, hu⟩

variable [Fintype ι]

/-- A thread moves on and changes one connection: its counters keep up with what the
thread is counted for. -/
theorem Inv.change (h : Inv s) (ht : t ∉ s.waitQue) (hx : s.conns c = some x)
    (hpending : (f x).pendingCnt + ((s.pc t).pends c).toNat = x.pendingCnt + (p.pends c).toNat)
    (hinuse : x.inuseCnt + (p.uses c).toNat ≤ (f x).inuseCnt + ((s.pc t).uses c).toNat)
    (hothers : ∀ c', c' ≠ c → p.pends c' = (s.pc t).pends c' ∧ p.uses c' = (s.pc t).uses c')
    (hstatus : InUse ((s.setConn c f).goto t p) c → (f x).status = .inuse) :
    Inv ((s.setConn c f).goto t p) where
  inuse c' hc' := by
    by_cases hcc : c' = c
    · subst hcc
      refine ⟨f x, ?_, hstatus hc'⟩
      simp [State.goto, State.setConn, Pool.setConn, hx]
    · have hold : InUse s c' := by
        rcases hc' with hheld | href
        · rcases hheld.of_goto with hheld | hp
          · exact .inl hheld
          · refine .inl ⟨t, ?_⟩
            rw [Pc.holds, (hothers c' hcc).1, (hothers c' hcc).2] at hp
            exact hp
        · exact .inr href
      obtain ⟨y, hy, hyst⟩ := h.inuse c' hold
      exact ⟨y, by simpa [State.goto, State.setConn, Pool.setConn, update_of_ne hcc] using hy, hyst⟩
  pendingCnt c' y hy := by
    by_cases hcc : c' = c
    · subst hcc
      obtain rfl : f x = y := by simpa [State.goto, State.setConn, Pool.setConn, hx] using hy
      have hcount := countAt_update (Pc.pends c') s.pc t p
      have hold := h.pendingCnt c' x hx
      simp only [State.goto, State.setConn, Pool.setConn]
      omega
    · have hold := h.pendingCnt c' y (by simpa [State.goto, State.setConn, Pool.setConn, update_of_ne hcc] using hy)
      rw [hold, State.goto, State.setConn, Pool.setConn, countAt_update_of_eq (hothers c' hcc).1]
  inuseCnt c' y hy := by
    by_cases hcc : c' = c
    · subst hcc
      obtain rfl : f x = y := by simpa [State.goto, State.setConn, Pool.setConn, hx] using hy
      have hcount := countAt_update (Pc.uses c') s.pc t p
      have hold := h.inuseCnt c' x hx
      simp only [State.goto, State.setConn, Pool.setConn]
      omega
    · have hold := h.inuseCnt c' y (by simpa [State.goto, State.setConn, Pool.setConn, update_of_ne hcc] using hy)
      rw [State.goto, State.setConn, Pool.setConn, countAt_update_of_eq (hothers c' hcc).2]
      exact hold
  fresh c' hc' := by
    have hcc : c' ≠ c := by
      rintro rfl
      rw [h.fresh c' hc'] at hx
      cases hx
    simpa [State.goto, State.setConn, Pool.setConn, update_of_ne hcc] using h.fresh c' hc'
  waitQue v hv := by
    have hvt : v ≠ t := fun heq => ht (heq ▸ hv)
    rw [State.goto_pc_ne _ _ hvt]
    exact h.waitQue v hv
  nodup := h.nodup

/-- A thread moves on without a change to a connection. -/
theorem Inv.goto (h : Inv s) (ht : t ∉ s.waitQue) (hpc : s.pc t = q) (hpends : ∀ c, p.pends c = q.pends c)
    (huses : ∀ c, p.uses c = q.uses c) : Inv (s.goto t p) where
  inuse c hc := by
    refine h.inuse c ?_
    rcases hc with hheld | href
    · rcases hheld.of_goto with hheld | hp
      · exact .inl hheld
      · rw [Pc.holds, hpends, huses, ← hpc] at hp
        exact .inl ⟨t, hp⟩
    · exact .inr href
  pendingCnt c x hx := by
    rw [State.goto, countAt_update_of_eq (hpc ▸ hpends c)]
    exact h.pendingCnt c x hx
  inuseCnt c x hx := by
    rw [State.goto, countAt_update_of_eq (hpc ▸ huses c)]
    exact h.inuseCnt c x hx
  fresh := h.fresh
  waitQue v hv := by
    have hvt : v ≠ t := fun heq => ht (heq ▸ hv)
    rw [State.goto_pc_ne _ _ hvt]
    exact h.waitQue v hv
  nodup := h.nodup

/-- As `Inv.change`, where neither the counters nor the status change. -/
theorem Inv.touch (h : Inv s) (ht : t ∉ s.waitQue) (hf : ∀ x, s.conns c = some x →
      (f x).pendingCnt = x.pendingCnt ∧ (f x).inuseCnt = x.inuseCnt ∧ (f x).status = x.status)
    (hpc : s.pc t = q) (hpends : ∀ c, p.pends c = q.pends c) (huses : ∀ c, p.uses c = q.uses c) :
    Inv ((s.setConn c f).goto t p) := by
  subst hpc
  cases hx : s.conns c with
  | none =>
    have hsame : s.setConn c f = s := by
      have hnone : Function.update s.conns c none = s.conns := by rw [← hx, update_eq_self]
      simp [State.setConn, Pool.setConn, hx, hnone]
    rw [hsame]
    exact h.goto ht rfl hpends huses
  | some x =>
    obtain ⟨hpending, hinuse, hstatus⟩ := hf x hx
    refine h.change ht hx ?_ ?_ (fun c' _ => ⟨hpends c', huses c'⟩) fun hc => ?_
    · rw [hpending, hpends]
    · rw [hinuse, huses]
    · have hold : InUse s c := by
        rcases hc with hheld | href
        · rcases hheld.of_goto with hheld | hp
          · exact .inl hheld
          · rw [Pc.holds, hpends, huses] at hp
            exact .inl ⟨t, hp⟩
        · exact .inr href
      obtain ⟨y, hy, hyst⟩ := h.inuse c hold
      cases hx.symm.trans hy
      rw [hstatus, hyst]

end Moves

variable {cs : List Nat} {e : Event ι}

section Steps

variable [Fintype ι] {s' : State ι} {now : Nat}

/-- Nobody is counted for a connection that is not there. -/
theorem Inv.countAt_eq_zero (h : Inv s) (hc : s.conns c = none) :
    countAt (Pc.pends c) s.pc = 0 ∧ countAt (Pc.uses c) s.pc = 0 := by
  have hnot : ∀ t, (s.pc t).holds c = false := by
    intro t
    by_contra hne
    obtain ⟨x, hx, -⟩ := h.inuse c (.inl ⟨t, by simpa using hne⟩)
    cases hc.symm.trans hx
  simp only [Pc.holds, Bool.or_eq_false_iff] at hnot
  exact ⟨Threads.countAt_eq_zero fun t => (hnot t).1, Threads.countAt_eq_zero fun t => (hnot t).2⟩

/-- What is disposed of is marked free, so it is not in use. -/
theorem Inv.dispose (h : Inv s) (hfree : ∀ c ∈ cs, ∀ x, s.conns c = some x → x.status = .free) :
    Inv { s with toPool := s.dispose cs } where
  inuse c hc := by
    obtain ⟨x, hx, hst⟩ := h.inuse c hc
    have hcs : c ∉ cs := by
      intro hmem
      rw [hfree c hmem x hx] at hst
      cases hst
    exact ⟨x, by simpa [Pool.dispose, hcs] using hx, hst⟩
  pendingCnt c x hx := by
    simp only [Pool.dispose] at hx
    split at hx
    · cases hx
    · exact h.pendingCnt c x hx
  inuseCnt c x hx := by
    simp only [Pool.dispose] at hx
    split at hx
    · cases hx
    · exact h.inuseCnt c x hx
  fresh c hc := by simp [Pool.dispose, h.fresh c hc]
  waitQue := h.waitQue
  nodup := h.nodup

theorem mem_dropFree {free : Nat → Bool} {n : Nat} {l : List Nat} (h : c ∈ Pool.dropFree free n l) :
    free c = true := by
  induction l generalizing n with
  | nil => cases n <;> cases h
  | cons a l ih =>
    cases n with
    | zero => cases h
    | succ n =>
      simp only [Pool.dropFree] at h
      split at h
      case isTrue ha =>
        rcases List.mem_cons.mp h with rfl | h
        · exact ha
        · exact ih h
      case isFalse => exact ih h

omit [Fintype ι] in
theorem Pool.expired_free (s : Pool ι) (now : Nat) :
    ∀ c ∈ s.expired now, ∀ x, s.conns c = some x → x.status = .free := by
  intro c hc x hx
  have hany := (List.mem_filter.mp hc).2
  simp only [hx, Option.any_some, IFuseConn.expired, IFuseConn.isFree, Bool.and_eq_true, decide_eq_true_eq] at hany
  exact hany.2

omit [Fintype ι] in
theorem Pool.excess_free (s : Pool ι) : ∀ c ∈ s.excess, ∀ x, s.conns c = some x → x.status = .free := by
  intro c hc x hx
  simpa [hx, IFuseConn.isFree] using mem_dropFree hc

theorem Inv.signalling (h : Inv s) (freeCnt : Int) (signalling : Bool) :
    Inv { s with freeCnt := freeCnt, signalling := signalling } :=
  ⟨h.inuse, h.pendingCnt, h.inuseCnt, h.fresh, h.waitQue, h.nodup⟩

theorem Inv.sweep (h : Inv s) (now : Nat) : Inv { s with toPool := s.sweep now, signalling := true } := by
  have hexpired := h.dispose (Pool.expired_free s.toPool now)
  exact (hexpired.dispose (Pool.excess_free _)).signalling _ _

omit [Fintype ι] in
theorem Pool.exists_of_findConn {s : Pool ι} {p : IFuseConn → Bool} (h : s.findConn p = some c) :
    ∃ x, s.conns c = some x ∧ p x = true := by
  have hany := List.find?_some h
  cases hx : s.conns c with
  | none => simp [hx] at hany
  | some x => exact ⟨x, rfl, by simpa [hx] using hany⟩

variable [DecidableEq ι]

theorem Inv.use (h : Inv s) (ht : t ∉ s.waitQue) (hx : s.conns c = some x)
    (hpc : ∀ c, (s.pc t).holds c = false) : Inv (use s t c now) := by
  simp only [Pc.holds, Bool.or_eq_false_iff] at hpc
  refine h.change ht hx ?_ ?_ (fun c' hc' => ?_) fun _ => rfl
  · rw [(hpc c).1]
    simp [Pc.pends, IFuseConn.pend]
  · simp [Pc.uses, IFuseConn.pend]
  · rw [(hpc c').1, (hpc c').2]
    simp [Pc.pends, Pc.uses, Ne.symm hc']

theorem Inv.scan (h : Inv s) (hstep : step s (.scan t now) = some s') : Inv s' := by
  obtain ⟨hpc, hstep⟩ := ite_none_right_eq_some.mp hstep
  have ht : t ∉ s.waitQue := h.not_waiting hpc nofun
  split at hstep
  case h_1 c hfind =>
    cases hstep
    obtain ⟨x, hx, -⟩ := Pool.exists_of_findConn hfind
    refine h.change ht hx ?_ ?_ (fun c' hc' => ?_) fun _ => rfl
    · simp [hpc, Pc.pends, IFuseConn.useFree]
    · simp [hpc, Pc.uses, IFuseConn.useFree]
    · simp [hpc, Pc.pends, Pc.uses, Ne.symm hc']
  case h_2 =>
    split at hstep
    case isTrue =>
      split at hstep
      case h_1 c hfind =>
        cases hstep
        obtain ⟨x, hx, -⟩ := Pool.exists_of_findConn hfind
        exact h.use ht hx fun c => by rw [hpc]; rfl
      case h_2 =>
        cases hstep
        have hgoto : Inv (s.goto t (.waiting false)) :=
          h.goto ht hpc (fun _ => rfl) fun _ => rfl
        refine ⟨hgoto.inuse, hgoto.pendingCnt, hgoto.inuseCnt, hgoto.fresh, fun u hu => ?_, ?_⟩
        · rcases List.mem_append.mp hu with hu | hu
          · exact hgoto.waitQue u hu
          · rw [List.mem_singleton.mp hu]
            exact State.goto_pc_self s t _
        · exact List.Nodup.append h.nodup (List.nodup_singleton t) (by simpa using ht)
    case isFalse =>
      cases hstep
      exact h.goto ht hpc (fun _ => rfl) fun _ => rfl

omit [DecidableEq ι] in
/-- A connection that has just been made: nobody is counted for it. -/
theorem Inv.connect (h : Inv s) : Inv { s with toPool := s.connect } := by
  have hnone := h.fresh s.nextConn le_rfl
  obtain ⟨hpends, huses⟩ := h.countAt_eq_zero hnone
  refine ⟨fun c hc => ?_, fun c x hx => ?_, fun c x hx => ?_, fun c hc => ?_, h.waitQue, h.nodup⟩
  · obtain ⟨x, hx, hst⟩ := h.inuse c hc
    have hne : c ≠ s.nextConn := by
      rintro rfl
      cases hnone.symm.trans hx
    exact ⟨x, by simpa [Pool.connect, update_of_ne hne] using hx, hst⟩
  · by_cases hne : c = s.nextConn
    · subst hne
      obtain rfl : IFuseConn.fresh = x := by simpa [Pool.connect] using hx
      simp [hpends, IFuseConn.fresh]
    · exact h.pendingCnt c x (by simpa [Pool.connect, update_of_ne hne] using hx)
  · by_cases hne : c = s.nextConn
    · subst hne
      obtain rfl : IFuseConn.fresh = x := by simpa [Pool.connect] using hx
      simp [huses, IFuseConn.fresh]
    · exact h.inuseCnt c x (by simpa [Pool.connect, update_of_ne hne] using hx)
  · have hc' : s.nextConn < c := hc
    have hne : c ≠ s.nextConn := Nat.ne_of_gt hc'
    simpa [Pool.connect, update_of_ne hne] using h.fresh c hc'.le

theorem Inv.make {ok : Bool} (h : Inv s) (hstep : step s (.make t ok now) = some s') : Inv s' := by
  obtain ⟨hpc, hstep⟩ := ite_none_right_eq_some.mp hstep
  have ht : t ∉ s.waitQue := h.not_waiting hpc nofun
  split at hstep
  case isFalse =>
    cases hstep
    exact h.goto ht hpc (fun _ => rfl) fun _ => rfl
  case isTrue =>
    cases hstep
    have hx : s.connect.conns s.nextConn = some IFuseConn.fresh := Function.update_self ..
    refine h.connect.change ht hx ?_ ?_ (fun c' hc' => ?_) fun _ => rfl
    · simp [hpc, Pc.pends, IFuseConn.pend]
    · simp [hpc, Pc.uses, IFuseConn.pend]
    · simp [hpc, Pc.pends, Pc.uses, Ne.symm hc']

theorem Inv.take (h : Inv s) (hstep : step s (.take t) = some s') : Inv s' := by
  simp only [step] at hstep
  split at hstep
  case h_2 => cases hstep
  case h_1 c new hpc =>
    obtain ⟨hlock, ⟨⟩⟩ := ite_none_right_eq_some.mp hstep
    have ht : t ∉ s.waitQue := h.not_waiting hpc nofun
    cases hx : s.conns c with
    | none => simp [hx] at hlock
    | some x =>
      obtain ⟨y, hy, hyst⟩ := h.inuse c (.inl ⟨t, by simp [hpc, Pc.holds, Pc.pends]⟩)
      cases hx.symm.trans hy
      refine h.change ht hx ?_ ?_ (fun c' hc' => ?_) fun _ => hyst
      · cases new <;> simp [hpc, Pc.pends, IFuseConn.take]
      · cases new <;> simp [hpc, Pc.uses, IFuseConn.take]
      · cases new <;> simp [hpc, Pc.pends, Pc.uses, Ne.symm hc']

/-- Giving back what is held: a connection that is down stays counted. -/
theorem Inv.unuse {release : Bool} (h : Inv s) (hclean : Undisturbed s (.unuseIFuseConn t now release))
    (hstep : step s (.unuseIFuseConn t now release) = some s') : Inv s' := by
  simp only [step] at hstep
  split at hstep
  case h_3 => cases hstep
  case h_1 c hpc =>
    cases hstep
    have ht : t ∉ s.waitQue := h.not_waiting hpc nofun
    obtain ⟨x, hx, hst⟩ := h.inuse c (.inl ⟨t, by simp [hpc, Pc.holds, Pc.uses]⟩)
    refine h.change ht hx ?_ ?_ (fun c' hc' => ?_) fun _ => ?_
    · cases release <;> cases hconn : x.conn <;> simp [hpc, Pc.pends, IFuseConn.unuse, hconn]
    · cases release <;> cases hconn : x.conn <;> simp [hpc, Pc.uses, IFuseConn.unuse, hconn]
    · cases release <;> simp [hpc, Pc.pends, Pc.uses, Ne.symm hc']
    · cases hconn : x.conn <;> simp [IFuseConn.unuse, hconn, hst]
  case h_2 c hpc =>
    cases hstep
    have ht : t ∉ s.waitQue := h.not_waiting hpc nofun
    refine h.touch ht (fun x hx => ?_) hpc (fun _ => rfl) fun _ => rfl
    simp [IFuseConn.unuse, hclean c x hpc hx]

variable {d : Nat}

theorem Inv.fillIFuseDesc (h : Inv s) (hstep : step s (.fillIFuseDesc t d) = some s') : Inv s' := by
  simp only [step] at hstep
  split at hstep
  case h_2 => cases hstep
  case h_1 c hpc =>
    obtain ⟨-, ⟨⟩⟩ := ite_none_right_eq_some.mp hstep
    refine ⟨fun c' hc' => ?_, h.pendingCnt, h.inuseCnt, h.fresh, h.waitQue, h.nodup⟩
    rcases hc' with hheld | ⟨d', hd'⟩
    · exact h.inuse c' (.inl hheld)
    · by_cases hdd : d' = d
      · -- the thread holds what it makes the descriptor refer to
        subst hdd
        obtain rfl : c = c' := by simpa using hd'
        exact h.inuse c (.inl ⟨t, by simp [hpc, Pc.holds, Pc.uses]⟩)
      · exact h.inuse c' (.inr ⟨d', by simpa [update_of_ne hdd] using hd'⟩)

theorem Inv.freeIFuseDesc (h : Inv s) (hstep : step s (.freeIFuseDesc t d) = some s') : Inv s' := by
  obtain ⟨hpc, hstep⟩ := ite_none_right_eq_some.mp hstep
  split at hstep
  case h_2 => cases hstep
  case h_1 c hd =>
    cases hstep
    have ht : t ∉ s.waitQue := h.not_waiting hpc nofun
    have hdesc : Inv { s with desc := Function.update s.desc d none } := by
      refine ⟨fun c' hc' => h.inuse c' ?_, h.pendingCnt, h.inuseCnt, h.fresh, h.waitQue, h.nodup⟩
      rcases hc' with hheld | ⟨d', hd'⟩
      · exact .inl hheld
      · have hdd : d' ≠ d := by
          rintro rfl
          simp at hd'
        exact .inr ⟨d', by simpa [update_of_ne hdd] using hd'⟩
    exact hdesc.goto ht hpc (fun _ => rfl) fun _ => rfl

theorem Inv.relFree (h : Inv s) (hclean : Undisturbed s (.relFree t)) (hstep : step s (.relFree t) = some s') :
    Inv s' := by
  simp only [step] at hstep
  split at hstep
  case h_2 => cases hstep
  case h_1 c hpc =>
    cases hstep
    have ht : t ∉ s.waitQue := h.not_waiting hpc nofun
    cases hx : s.conns c with
    | none =>
      refine h.touch ht (fun x hx' => ?_) hpc (fun _ => rfl) fun _ => rfl
      cases hx.symm.trans hx'
    | some x =>
      refine h.change ht hx ?_ ?_ (fun c' _ => ?_) fun hc => ?_
      · simp [hpc, Pc.pends]
      · simp [hpc, Pc.uses]
      · simp [hpc, Pc.pends, Pc.uses]
      · -- nobody had taken it when it was marked
        refine absurd ?_ (hclean c hpc)
        rcases hc with hheld | href
        · exact .inl (hheld.of_goto.resolve_right (by simp [Pc.holds, Pc.pends, Pc.uses]))
        · exact .inr href

theorem Inv.signal (h : Inv s) (hstep : step s .signal = some s') : Inv s' := by
  obtain ⟨-, hstep⟩ := ite_none_right_eq_some.mp hstep
  split at hstep
  case h_2 =>
    cases hstep
    exact h.signalling _ _
  case h_1 t q hq =>
    split at hstep
    case isFalse =>
      cases hstep
      exact h.signalling _ _
    case isTrue =>
      cases hstep
      have hpc : s.pc t = .waiting false := h.waitQue t (by rw [hq]; exact List.mem_cons_self)
      have hnodup : t ∉ q ∧ q.Nodup := by
        rw [← List.nodup_cons, ← hq]
        exact h.nodup
      have hpop : Inv { s with waitQue := q, freeCnt := s.freeCnt - 1 } :=
        ⟨h.inuse, h.pendingCnt, h.inuseCnt, h.fresh,
          fun u hu => h.waitQue u (by rw [hq]; exact List.mem_cons_of_mem _ hu), hnodup.2⟩
      exact hpop.goto hnodup.1 hpc (fun _ => rfl) fun _ => rfl

theorem Inv.useIFuseConn (h : Inv s) (hpc : s.pc t = .idle) (hx : s.conns c = some x)
    (hp : ∀ c, p.pends c = false ∧ p.uses c = false) :
    Inv (if x.conn then ConnPool.use s t c now else s.goto t p) := by
  have ht : t ∉ s.waitQue := h.not_waiting hpc nofun
  split
  · exact h.use ht hx fun c => by rw [hpc]; rfl
  · exact h.goto ht hpc (fun c => (hp c).1) fun c => (hp c).2

/-- An undisturbed step keeps the counters and the marks. -/
theorem inv_step (h : Inv s) (hclean : Undisturbed s e) (hstep : step s e = some s') : Inv s' := by
  cases e with
  | getIFuseConn t =>
    obtain ⟨hpc, ⟨⟩⟩ := ite_none_right_eq_some.mp hstep
    exact h.goto (h.not_waiting hpc nofun) hpc (fun _ => rfl) fun _ => rfl
  | scan t now => exact h.scan hstep
  | wake t =>
    obtain ⟨hpc, ⟨⟩⟩ := ite_none_right_eq_some.mp hstep
    exact h.goto (h.not_waiting hpc nofun) hpc (fun _ => rfl) fun _ => rfl
  | make t ok now => exact h.make hstep
  | take t => exact h.take hstep
  | lock t =>
    simp only [step] at hstep
    split at hstep
    case h_2 => cases hstep
    case h_1 c hpc =>
      obtain ⟨-, ⟨⟩⟩ := ite_none_right_eq_some.mp hstep
      exact h.touch (h.not_waiting hpc nofun) (fun _ _ => ⟨rfl, rfl, rfl⟩)
        hpc (fun _ => rfl) fun _ => rfl
  | enqueue t =>
    simp only [step] at hstep
    split at hstep
    case h_2 => cases hstep
    case h_1 c hpc =>
      cases hstep
      have hlist : Inv { s with connHead := c :: s.connHead } :=
        ⟨h.inuse, h.pendingCnt, h.inuseCnt, h.fresh, h.waitQue, h.nodup⟩
      exact hlist.goto (h.not_waiting hpc nofun) hpc (fun _ => rfl) fun _ => rfl
  | useIFuseConn t d now =>
    obtain ⟨hpc, hstep⟩ := ite_none_right_eq_some.mp hstep
    split at hstep
    case h_2 => cases hstep
    case h_1 c hd =>
      split at hstep
      case h_2 => cases hstep
      case h_1 x hx =>
        cases hstep
        exact h.useIFuseConn hpc hx fun _ => ⟨rfl, rfl⟩
  | getIFuseConnByPath t d now =>
    obtain ⟨hpc, hstep⟩ := ite_none_right_eq_some.mp hstep
    split at hstep
    case h_2 =>
      cases hstep
      exact h.goto (h.not_waiting hpc nofun) hpc (fun _ => rfl) fun _ => rfl
    case h_1 c hd =>
      split at hstep
      case h_2 => cases hstep
      case h_1 x hx =>
        cases hstep
        exact h.useIFuseConn hpc hx fun _ => ⟨rfl, rfl⟩
  | disconnect t =>
    simp only [step] at hstep
    split at hstep
    case h_2 => cases hstep
    case h_1 c hpc =>
      cases hstep
      have htouch := h.touch (t := t) (p := s.pc t) (c := c) (f := fun x => { x with conn := false })
        (h.not_waiting hpc nofun) (fun _ _ => ⟨rfl, rfl, rfl⟩) rfl (fun _ => rfl) fun _ => rfl
      simpa only [State.goto, State.setConn, Pool.setConn, update_eq_self] using htouch
  | reconnect t =>
    simp only [step] at hstep
    split at hstep
    case h_2 => cases hstep
    case h_1 c hpc =>
      cases hstep
      have htouch := h.touch (t := t) (p := s.pc t) (c := c) (f := fun x => { x with conn := true })
        (h.not_waiting hpc nofun) (fun _ _ => ⟨rfl, rfl, rfl⟩) rfl (fun _ => rfl) fun _ => rfl
      simpa only [State.goto, State.setConn, Pool.setConn, update_eq_self] using htouch
  | fillIFuseDesc t d => exact h.fillIFuseDesc hstep
  | unuseIFuseConn t now release => exact h.unuse hclean hstep
  | freeIFuseDesc t d => exact h.freeIFuseDesc hstep
  | relCount t now =>
    simp only [step] at hstep
    split at hstep
    case h_2 => cases hstep
    case h_1 c hpc =>
      split at hstep
      all_goals
        cases hstep
        exact h.touch (h.not_waiting hpc nofun) (fun _ _ => ⟨rfl, rfl, rfl⟩)
          hpc (fun _ => rfl) fun _ => rfl
  | relDesc t =>
    simp only [step] at hstep
    split at hstep
    case h_2 => cases hstep
    case h_1 c hpc =>
      cases hstep
      have ht : t ∉ s.waitQue := h.not_waiting hpc nofun
      split
      all_goals exact h.goto ht hpc (fun _ => rfl) fun _ => rfl
  | relFree t => exact h.relFree hclean hstep
  | connManager now =>
    simp only [step] at hstep
    split at hstep
    case isTrue => cases hstep
    case isFalse =>
      cases hstep
      exact h.sweep now
  | signal => exact h.signal hstep

end Steps

/-! ## Disposing -/

/-- What is marked in use is still there, and up if it was. -/
def KeepsUp (s s' : Pool ι) : Prop :=
  ∀ c x, s.conns c = some x → x.status = .inuse → ∃ y, s'.conns c = some y ∧ (x.conn = true → y.conn = true)

section Keeps

variable {s s' : Pool ι}

theorem KeepsUp.of_conns_eq (h : s'.conns = s.conns) : KeepsUp s s' :=
  fun c x hx _ => ⟨x, by rw [h]; exact hx, fun hup => hup⟩

theorem KeepsUp.setConn (hf : ∀ x, x.conn = true → (f x).conn = true) : KeepsUp s (s.setConn c f) := by
  intro c' x hx _
  by_cases hcc : c' = c
  · subst hcc
    exact ⟨f x, by simp [Pool.setConn, hx], hf x⟩
  · exact ⟨x, by simpa [Pool.setConn, update_of_ne hcc] using hx, fun hup => hup⟩

theorem IFuseConn.unuse_conn (now : Nat) (x : IFuseConn) (h : x.conn = true) : (x.unuse now).conn = true := by
  rw [IFuseConn.unuse, if_pos h]
  exact h

/-- What is marked in use is not disposed of. -/
theorem Pool.dispose_conns (hfree : ∀ c ∈ cs, ∀ x, s.conns c = some x → x.status = .free) (hx : s.conns c = some x)
    (hst : x.status = .inuse) : (s.dispose cs).conns c = some x := by
  have hcs : c ∉ cs := by
    intro hmem
    rw [hfree c hmem x hx] at hst
    cases hst
  simpa [Pool.dispose, hcs] using hx

theorem KeepsUp.sweep (now : Nat) : KeepsUp s (s.sweep now) := by
  intro c x hx hst
  have hexpired := Pool.dispose_conns (Pool.expired_free s now) hx hst
  exact ⟨x, Pool.dispose_conns (Pool.excess_free _) hexpired hst, fun hup => hup⟩

/-- What is marked in use stays up, but for a `disconnect`. -/
theorem step_keepsUp [Fintype ι] [DecidableEq ι] {s s' : State ι} (h : Inv s) (he : ∀ t, e ≠ .disconnect t)
    (hstep : step s e = some s') : KeepsUp s.toPool s'.toPool := by
  cases e with
  | disconnect t => exact absurd rfl (he t)
  | connManager now =>
    simp only [step] at hstep
    split at hstep
    case isTrue => cases hstep
    case isFalse =>
      cases hstep
      exact KeepsUp.sweep now
  | make t ok now =>
    obtain ⟨-, hstep⟩ := ite_none_right_eq_some.mp hstep
    split at hstep
    case isFalse =>
      cases hstep
      exact KeepsUp.of_conns_eq rfl
    case isTrue =>
      cases hstep
      intro c x hx _
      have hne : c ≠ s.nextConn := by
        rintro rfl
        cases (h.fresh _ le_rfl).symm.trans hx
      exact ⟨x, by simpa [State.goto, State.setConn, Pool.setConn, Pool.connect, update_of_ne hne] using hx,
        fun hup => hup⟩
  | _ =>
    -- no connection changes, or one does without going down
    simp only [step] at hstep
    repeat' split at hstep
    all_goals
      cases hstep <;> first
        | exact KeepsUp.of_conns_eq rfl
        | exact KeepsUp.use_or_goto
        | exact KeepsUp.setConn fun _ hup => hup
        | exact KeepsUp.setConn fun _ _ => rfl
        | exact KeepsUp.setConn (IFuseConn.unuse_conn _)

end Keeps

/-! ## Runs -/

theorem Inv.counted [Fintype ι] (h : Inv s) (hc : Held s c) :
    ∃ x, s.conns c = some x ∧ 0 < x.inuseCnt + x.pendingCnt := by
  obtain ⟨x, hx, -⟩ := h.inuse c (.inl hc)
  refine ⟨x, hx, ?_⟩
  have hpending := h.pendingCnt c x hx
  have hinuse := h.inuseCnt c x hx
  obtain ⟨t, ht⟩ := hc
  rcases Bool.or_eq_true_iff.mp ht with ht | ht
  · have hpos := countAt_pos ht
    omega
  · have hpos := countAt_pos ht
    omega

/-- In every run in which the releases are undisturbed, what a thread holds is counted,
what is held or referred to is marked in use, and no step but a reconnect of the thread
that holds it takes it down or frees it. -/
theorem inUse_never_disposed [Fintype ι] [DecidableEq ι] {s : State ι} {es : List (Event ι)} {os : List Unit}
    (hclean : (machine ι).Guarded Undisturbed (init ι) es) (hrun : (machine ι).run (init ι) es = some (s, os)) :
    (∀ c, Held s c → ∃ x, s.conns c = some x ∧ 0 < x.inuseCnt + x.pendingCnt) ∧
    (∀ c, InUse s c → ∃ x, s.conns c = some x ∧ x.status = .inuse) ∧
    ∀ e s', (∀ t, e ≠ .disconnect t) → step s e = some s' → ∀ c, InUse s c →
      ∃ x y, s.conns c = some x ∧ s'.conns c = some y ∧ (x.conn = true → y.conn = true) := by
  have hinv : Inv s := by
    refine Machine.run_invariant Inv (fun t e t' o ht hg hstep => ?_) inv_init hclean hrun
    obtain ⟨t'', ht'', heq⟩ := Option.map_eq_some_iff.mp hstep
    cases heq
    exact inv_step ht hg ht''
  refine ⟨fun c hc => hinv.counted hc, hinv.inuse, fun e s' he hstep c hc => ?_⟩
  obtain ⟨x, hx, hst⟩ := hinv.inuse c hc
  obtain ⟨y, hy, hup⟩ := step_keepsUp hinv he hstep c x hx hst
  exact ⟨x, y, hx, hy, hup⟩

/-- A file is opened over a new connection. -/
def openFile : List (Event Bool) :=
  [.getIFuseConn false, .scan false 1, .make false true 1, .take false, .enqueue false,
    .fillIFuseDesc false 3, .unuseIFuseConn false 2 true, .relCount false 2, .relDesc false]

theorem openFile_undisturbed : (machine Bool).Guarded Undisturbed (init Bool) openFile := by
  refine .cons trivial rfl (.cons trivial rfl (.cons trivial rfl (.cons trivial rfl (.cons trivial rfl
    (.cons trivial rfl (.cons ?_ rfl (.cons trivial rfl (.cons trivial rfl trivial))))))))
  intro c x hpc
  cases hpc

/-- The descriptor keeps the connection from `connManager`. -/
theorem inUse_never_disposed_openFile :
    ∃ s os, (machine Bool).run (init Bool) openFile = some (s, os) ∧ InUse s 0 ∧
      (∃ x, s.conns 0 = some x ∧ x.status = .inuse) ∧
      ∃ s', step s (.connManager 1000) = some s' ∧ ∃ x y, s.conns 0 = some x ∧ s'.conns 0 = some y ∧
        (x.conn = true → y.conn = true) := by
  refine ⟨_, _, rfl, .inr ⟨3, rfl⟩, ?_, _, rfl, ?_⟩
  · exact (inUse_never_disposed openFile_undisturbed rfl).2.1 0 (.inr ⟨3, rfl⟩)
  · exact (inUse_never_disposed openFile_undisturbed rfl).2.2 (.connManager 1000) _ nofun rfl 0 (.inr ⟨3, rfl⟩)

/-- A descriptor refers to its connection without being counted. -/
theorem idle_descriptor_not_counted :
    ∃ s os, (machine Bool).run (init Bool) openFile = some (s, os) ∧ InUse s 0 ∧
      ∃ x, s.conns 0 = some x ∧ x.inuseCnt + x.pendingCnt = 0 :=
  ⟨_, _, rfl, .inr ⟨3, rfl⟩, _, rfl, rfl⟩

/-- Two descriptors share a connection and are freed at once; the second release marks
the connection free after it has been taken again. -/
def racingReleases : List (Event (Fin 3)) :=
  [.getIFuseConn 0, .scan 0 1, .make 0 true 1, .take 0, .enqueue 0, .fillIFuseDesc 0 3, .unuseIFuseConn 0 2 false,
    .getIFuseConnByPath 0 3 3, .take 0, .fillIFuseDesc 0 4, .unuseIFuseConn 0 4 false,
    .freeIFuseDesc 1 3, .freeIFuseDesc 2 4, .relCount 1 5, .relCount 2 5, .relDesc 1, .relDesc 2, .relFree 1,
    .getIFuseConn 0, .scan 0 10, .lock 0, .relFree 2, .connManager 131]

set_option maxRecDepth 4000 in
theorem held_disposed_in_race :
    ∃ s os, (machine (Fin 3)).run (init (Fin 3)) racingReleases = some (s, os) ∧ Held s 0 ∧ s.conns 0 = none :=
  ⟨_, _, rfl, ⟨0, rfl⟩, rfl⟩

end ConnPool
