-- SUMMARY: Loops run in rounds against an environment: whether they end, and with what.
import Mathlib.Data.List.Basic

/-!
# Loops in rounds

The body of a loop goes on with new values of the loop's variables or leaves the loop
with a result. What the environment answers in a round may depend on the round's number.
Such a loop need not end: `run` is given a number of rounds, and the loop ends with a
result if some number suffices.
-/

universe u v

variable {σ : Type u} {ρ : Type v}

namespace Rounds

def run (body : Nat → σ → σ ⊕ ρ) : Nat → Nat → σ → Option ρ
  | 0, _, _ => none
  | fuel + 1, n, s =>
    match body n s with
    | .inl s' => run body fuel (n + 1) s'
    | .inr r => some r

/-- The variables before round `n`, if the loop comes to it. -/
def before (body : Nat → σ → σ ⊕ ρ) (s : σ) : Nat → Option σ
  | 0 => some s
  | n + 1 =>
    match before body s n with
    | none => none
    | some t =>
      match body n t with
      | .inl t' => some t'
      | .inr _ => none

/-- The loop ends with `r`. -/
def EndsWith (body : Nat → σ → σ ⊕ ρ) (s : σ) (r : ρ) : Prop := ∃ fuel, run body fuel 0 s = some r

variable {body : Nat → σ → σ ⊕ ρ} {s t t' : σ} {r : ρ} {n : Nat}

theorem before_succ_eq_some :
    before body s (n + 1) = some t' ↔ ∃ t, before body s n = some t ∧ body n t = .inl t' := by
  simp only [before]
  cases before body s n with
  | none => simp
  | some t => cases hb : body n t <;> simp [hb]

/-- A run from round `n` leaves the loop in a round that is come to from there. -/
theorem run_of_before {fuel : Nat} (ht : before body s n = some t) (hrun : run body fuel n t = some r) :
    ∃ m u, before body s m = some u ∧ body m u = .inr r := by
  induction fuel generalizing n t with
  | zero => cases hrun
  | succ fuel ih =>
    simp only [run] at hrun
    cases hb : body n t with
    | inl t' =>
      simp only [hb] at hrun
      exact ih (before_succ_eq_some.2 ⟨t, ht, hb⟩) hrun
    | inr r' =>
      simp only [hb, Option.some.injEq] at hrun
      exact ⟨n, t, ht, hrun ▸ hb⟩

/-- The rounds up to one that is come to can be run first. -/
theorem run_before (ht : before body s n = some t) (fuel : Nat) :
    run body (n + fuel) 0 s = run body fuel n t := by
  induction n generalizing t fuel with
  | zero =>
    cases ht
    rw [Nat.zero_add]
  | succ n ih =>
    obtain ⟨u, hu, hb⟩ := before_succ_eq_some.1 ht
    rw [Nat.add_assoc, ih hu, Nat.add_comm 1 fuel]
    simp only [run, hb]

theorem endsWith_iff :
    EndsWith body s r ↔ ∃ n t, before body s n = some t ∧ body n t = .inr r := by
  constructor
  · rintro ⟨fuel, hrun⟩
    exact run_of_before (n := 0) rfl hrun
  · rintro ⟨n, t, ht, hb⟩
    refine ⟨n + 1, ?_⟩
    rw [run_before ht]
    simp only [run, hb]

/-- A round that is not come to has one before it in which the loop is left. -/
theorem endsWith_of_before_eq_none (h : before body s n = none) :
    ∃ r m, m < n ∧ ∃ t, before body s m = some t ∧ body m t = .inr r := by
  induction n with
  | zero => cases h
  | succ n ih =>
    cases hn : before body s n with
    | none =>
      obtain ⟨r, m, hm, hleft⟩ := ih hn
      exact ⟨r, m, by omega, hleft⟩
    | some t =>
      simp only [before, hn] at h
      cases hb : body n t with
      | inl t' =>
        simp only [hb] at h
        cases h
      | inr r => exact ⟨r, n, by omega, t, hn, hb⟩

/-- What a round keeps, all rounds keep. -/
theorem before_invariant (inv : Nat → σ → Prop) (hzero : inv 0 s)
    (hstep : ∀ n t t', inv n t → body n t = .inl t' → inv (n + 1) t') (ht : before body s n = some t) :
    inv n t := by
  induction n generalizing t with
  | zero =>
    cases ht
    exact hzero
  | succ n ih =>
    obtain ⟨u, hu, hb⟩ := before_succ_eq_some.1 ht
    exact hstep n u t (ih hu) hb

/-- If a condition on the number of a round says when the loop is left in it, the loop
ends if and only if the condition is met by some round. -/
theorem ends_iff {p : Nat → Prop}
    (hp : ∀ n t, before body s n = some t → (p n ↔ ∃ r, body n t = .inr r)) :
    (∃ r, EndsWith body s r) ↔ ∃ n, p n := by
  constructor
  · rintro ⟨r, hends⟩
    obtain ⟨n, t, ht, hb⟩ := endsWith_iff.1 hends
    exact ⟨n, (hp n t ht).mpr ⟨r, hb⟩⟩
  · rintro ⟨n, hn⟩
    cases ht : before body s n with
    | none =>
      obtain ⟨r, m, -, u, hu, hb⟩ := endsWith_of_before_eq_none ht
      exact ⟨r, endsWith_iff.2 ⟨m, u, hu, hb⟩⟩
    | some t =>
      obtain ⟨r, hb⟩ := (hp n t ht).mp hn
      exact ⟨r, endsWith_iff.2 ⟨n, t, ht, hb⟩⟩

end Rounds
