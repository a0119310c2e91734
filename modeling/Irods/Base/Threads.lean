-- SUMMARY: Counting the threads that are at given program points.
import Mathlib.Algebra.Order.BigOperators.Group.Finset
import Mathlib.Data.Fintype.Basic

/-!
# Threads at program points

A program point for each of finitely many threads. Moving one thread changes a count
by that thread alone.
-/

namespace Threads

variable {ι π : Type} [Fintype ι] [DecidableEq ι]

/-- How many threads are at a point of `P`. -/
def countAt (P : π → Bool) (pc : ι → π) : Nat := ∑ t, (P (pc t)).toNat

theorem countAt_update (P : π → Bool) (pc : ι → π) (t : ι) (p : π) :
    countAt P (Function.update pc t p) + (P (pc t)).toNat = countAt P pc + (P p).toNat := by
  have hothers : ∑ u ∈ Finset.univ.erase t, (P (Function.update pc t p u)).toNat =
      ∑ u ∈ Finset.univ.erase t, (P (pc u)).toNat := by
    refine Finset.sum_congr rfl fun u hu => ?_
    rw [Function.update_of_ne (Finset.ne_of_mem_erase hu)]
  unfold countAt
  rw [← Finset.add_sum_erase Finset.univ (fun u => (P (Function.update pc t p u)).toNat) (Finset.mem_univ t),
    ← Finset.add_sum_erase Finset.univ (fun u => (P (pc u)).toNat) (Finset.mem_univ t), hothers,
    Function.update_self]
  omega

variable {P : π → Bool} {pc : ι → π} {t : ι}

/-- A move between points that count alike leaves the count. -/
theorem countAt_update_of_eq {p : π} (h : P p = P (pc t)) : countAt P (Function.update pc t p) = countAt P pc := by
  have hupdate := countAt_update P pc t p
  rw [h] at hupdate
  exact Nat.add_right_cancel hupdate

omit [DecidableEq ι] in
theorem countAt_pos (h : P (pc t) = true) : 0 < countAt P pc := by
  refine Finset.sum_pos' (fun _ _ => Nat.zero_le _) ⟨t, Finset.mem_univ t, ?_⟩
  rw [h]
  exact Nat.one_pos

omit [DecidableEq ι] in
theorem countAt_eq_zero (h : ∀ t, P (pc t) = false) : countAt P pc = 0 :=
  Finset.sum_eq_zero fun t _ => by rw [h t]; rfl

end Threads
