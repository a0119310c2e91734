-- SUMMARY: A ring of slots that shows the last entries of a sequence.
import Mathlib.Logic.Function.Basic

/-!
# Rings

Entry `i` of a sequence is kept in slot `i % N` of a ring with `N` slots. The sequence may be cut off
and go on with other entries, but a slot that has been written over stays so: what counts is how far
the sequence has ever gone. The slots show every entry that is less than `N` entries behind.
-/

namespace Ring

variable {α : Type} {N peak top i j : Nat} {slots log : Nat → α}

/-- The next index. -/
def inc (N i : Nat) : Nat := if i = N - 1 then 0 else i + 1

/-- The index before. -/
def dec (N i : Nat) : Nat := if i = 0 then N - 1 else i - 1

theorem inc_mod (hN : 0 < N) (i : Nat) : inc N (i % N) = (i + 1) % N := by
  have hlt := Nat.mod_lt i hN
  rw [inc, Nat.add_mod]
  split
  · rename_i hlast
    rw [hlast]
    rcases Nat.lt_or_ge 1 N with hone | hone
    · rw [Nat.mod_eq_of_lt hone, Nat.sub_add_cancel hN, Nat.mod_self]
    · obtain rfl : N = 1 := by omega
      rfl
  · rw [Nat.mod_eq_of_lt (show 1 < N by omega), Nat.mod_eq_of_lt (show i % N + 1 < N by omega)]

theorem dec_mod (hN : 0 < N) (i : Nat) : dec N ((i + 1) % N) = i % N := by
  rw [← inc_mod hN, inc, dec]
  split
  · rename_i hlast
    rw [if_pos rfl, hlast]
  · rw [if_neg (Nat.succ_ne_zero _), Nat.add_sub_cancel]

theorem mod_ne_mod (hlt : i < j) (hnear : j < i + N) : i % N ≠ j % N := by
  intro h
  have hdvd : N ∣ j - i := Nat.dvd_of_mod_eq_zero (Nat.sub_mod_eq_zero_of_mod_eq h.symm)
  exact absurd (Nat.le_of_dvd (by omega) hdvd) (by omega)

/-- The entries in front of `top` that no later one of the first `peak` has written over. -/
def Shows (N : Nat) (slots log : Nat → α) (peak top : Nat) : Prop :=
  ∀ i < top, peak ≤ i + N → slots (i % N) = log i

theorem Shows.start (slots log : Nat → α) (peak : Nat) : Shows N slots log peak 0 := nofun

/-- The next entry goes into its slot. -/
theorem Shows.push (h : Shows N slots log peak top) (x : α) :
    Shows N (Function.update slots (top % N) x) (Function.update log top x) (max peak (top + 1)) (top + 1) := by
  intro i hi hnear
  rcases Nat.lt_succ_iff_lt_or_eq.mp hi with hlt | rfl
  · have hpeak : peak ≤ i + N := Nat.le_trans (Nat.le_max_left _ _) hnear
    have htop : top + 1 ≤ i + N := Nat.le_trans (Nat.le_max_right _ _) hnear
    rw [Function.update_of_ne (mod_ne_mod hlt htop), Function.update_of_ne (Nat.ne_of_lt hlt)]
    exact h i hlt hpeak
  · rw [Function.update_self, Function.update_self]

theorem Shows.truncate (h : Shows N slots log peak top) (hle : j ≤ top) : Shows N slots log peak j :=
  fun i hi hnear => h i (Nat.lt_of_lt_of_le hi hle) hnear

end Ring
