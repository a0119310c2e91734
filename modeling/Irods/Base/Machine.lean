-- SUMMARY: Deterministic step machines with outputs: runs, invariants and simulation.
import Mathlib.Data.List.Basic

/-!
# Step machines

A machine consumes one input at a time, may get stuck, and emits one output per
step. What the environment chooses (a reply of a server, the time of day) is part
of the input, so a machine is a function and a run is determined by its inputs.

A guard is a condition on the state before a step and on the step's input. The
rules below lift what one guarded step preserves to a whole guarded run.
-/

universe u v w

/-- A deterministic machine with states `σ`, inputs `ι` and outputs `ο`. -/
structure Machine (σ : Type u) (ι : Type v) (ο : Type w) where
  step : σ → ι → Option (σ × ο)

namespace Machine

variable {σ τ : Type u} {ι : Type v} {ο : Type w}

/-- Feed the inputs one after another; the outputs come back in order. -/
def run (m : Machine σ ι ο) : σ → List ι → Option (σ × List ο)
  | s, [] => some (s, [])
  | s, i :: is =>
    match m.step s i with
    | none => none
    | some (s', o) =>
      match m.run s' is with
      | none => none
      | some (s'', os) => some (s'', o :: os)

/-- Every step of the run meets `g` in the state it starts from. -/
def Guarded (m : Machine σ ι ο) (g : σ → ι → Prop) : σ → List ι → Prop
  | _, [] => True
  | s, i :: is => g s i ∧ ∀ s' o, m.step s i = some (s', o) → m.Guarded g s' is

instance decidableGuarded (m : Machine σ ι ο) (g : σ → ι → Prop) [∀ s i, Decidable (g s i)] :
    ∀ s is, Decidable (m.Guarded g s is)
  | _, [] => isTrue trivial
  | s, i :: is =>
    match hstep : m.step s i with
    | none => decidable_of_iff (g s i) (by simp [Guarded, hstep])
    | some (s', o) =>
      have := decidableGuarded m g s' is
      decidable_of_iff (g s i ∧ m.Guarded g s' is) (by
        simp only [Guarded, hstep, Option.some.injEq, Prod.mk.injEq, and_imp]
        constructor
        · rintro ⟨hg, hrest⟩
          exact ⟨hg, fun _ _ h _ => h ▸ hrest⟩
        · rintro ⟨hg, hrest⟩
          exact ⟨hg, hrest s' o rfl rfl⟩)

@[simp] theorem run_nil (m : Machine σ ι ο) (s : σ) : m.run s [] = some (s, []) := rfl

variable {m : Machine σ ι ο} {s s' : σ} {i : ι} {is js : List ι} {os : List ο} {g : σ → ι → Prop}

theorem run_cons_eq_some {s'' : σ} :
    m.run s (i :: is) = some (s'', os) ↔
      ∃ s' o os', m.step s i = some (s', o) ∧ m.run s' is = some (s'', os') ∧ os = o :: os' := by
  constructor
  · intro h
    simp only [run] at h
    split at h
    · cases h
    · rename_i s' o hstep
      split at h
      · cases h
      · rename_i t os' hrun
        cases h
        exact ⟨s', o, os', hstep, hrun, rfl⟩
  · rintro ⟨s', o, os', hstep, hrun, rfl⟩
    simp only [run, hstep, hrun]

theorem run_append_eq_some {s'' : σ} :
    m.run s (is ++ js) = some (s'', os) ↔
      ∃ s' os₁ os₂, m.run s is = some (s', os₁) ∧ m.run s' js = some (s'', os₂) ∧
        os = os₁ ++ os₂ := by
  induction is generalizing s os with
  | nil => simp
  | cons i is ih =>
    simp only [List.cons_append, run_cons_eq_some]
    constructor
    · rintro ⟨t, o, os', hstep, hrun, rfl⟩
      obtain ⟨s', os₁, os₂, h₁, h₂, rfl⟩ := ih.mp hrun
      exact ⟨s', o :: os₁, os₂, ⟨t, o, os₁, hstep, h₁, rfl⟩, h₂, rfl⟩
    · rintro ⟨s', os₁, os₂, ⟨t, o, os', hstep, h₁, rfl⟩, h₂, rfl⟩
      exact ⟨t, o, os' ++ os₂, hstep, ih.mpr ⟨s', os', os₂, h₁, h₂, rfl⟩, rfl⟩

theorem run_singleton_eq_some : m.run s [i] = some (s', os) ↔ ∃ o, m.step s i = some (s', o) ∧ os = [o] := by
  rw [run_cons_eq_some]
  constructor
  · rintro ⟨t, o, os', hstep, hrun, rfl⟩
    cases hrun
    exact ⟨o, hstep, rfl⟩
  · rintro ⟨o, hstep, rfl⟩
    exact ⟨s', o, [], hstep, rfl, rfl⟩

theorem Guarded.cons {o : ο} (hg : g s i) (hstep : m.step s i = some (s', o)) (hrest : m.Guarded g s' is) :
    m.Guarded g s (i :: is) := by
  refine ⟨hg, fun t o' ht => ?_⟩
  rw [hstep] at ht
  cases ht
  exact hrest

theorem Guarded.append_left (h : m.Guarded g s (is ++ js)) : m.Guarded g s is := by
  induction is generalizing s with
  | nil => trivial
  | cons i is ih => exact ⟨h.1, fun s' o hstep => ih (h.2 s' o hstep)⟩

theorem Guarded.append_right (h : m.Guarded g s (is ++ js)) (hrun : m.run s is = some (s', os)) :
    m.Guarded g s' js := by
  induction is generalizing s os with
  | nil => cases hrun; exact h
  | cons i is ih =>
    obtain ⟨t, o, os', hstep, hrest, rfl⟩ := run_cons_eq_some.1 hrun
    exact ih (h.2 t o hstep) hrest

/-- What holds of every input can be added to the guard. -/
theorem Guarded.and_mem {p : ι → Prop} (h : m.Guarded g s is) (hp : ∀ i ∈ is, p i) :
    m.Guarded (fun s i => g s i ∧ p i) s is := by
  induction is generalizing s with
  | nil => trivial
  | cons i is ih =>
    refine ⟨⟨h.1, hp i List.mem_cons_self⟩, fun s' o hstep => ?_⟩
    exact ih (h.2 s' o hstep) fun j hj => hp j (List.mem_cons_of_mem i hj)

/-! ## Invariants -/

/-- What every guarded step keeps, every guarded run keeps. -/
theorem run_invariant (inv : σ → Prop) (hstep : ∀ s i s' o, inv s → g s i → m.step s i = some (s', o) → inv s')
    (hs : inv s) (hg : m.Guarded g s is) (hrun : m.run s is = some (s', os)) : inv s' := by
  induction is generalizing s os with
  | nil => cases hrun; exact hs
  | cons i is ih =>
    obtain ⟨t, o, os', h₁, h₂, rfl⟩ := run_cons_eq_some.1 hrun
    exact ih (hstep s i t o hs hg.1 h₁) (hg.2 t o h₁) h₂

/-- The last step of a guarded run starts in a state with the invariant. -/
theorem run_last (inv : σ → Prop) (hstep : ∀ s i s' o, inv s → g s i → m.step s i = some (s', o) → inv s')
    (hs : inv s) (hg : m.Guarded g s (is ++ [i])) (hrun : m.run s (is ++ [i]) = some (s', os)) :
    ∃ t o os', inv t ∧ g t i ∧ m.step t i = some (s', o) ∧ os = os' ++ [o] := by
  obtain ⟨t, os₁, os₂, h₁, h₂, rfl⟩ := run_append_eq_some.1 hrun
  obtain ⟨o, hlast, rfl⟩ := run_singleton_eq_some.1 h₂
  have ht : inv t := run_invariant inv hstep hs hg.append_left h₁
  exact ⟨t, o, os₁, ht, (hg.append_right h₁).1, hlast, rfl⟩

/-! ## Simulation -/

/-- If `n` answers every guarded step of `m` with the same output and keeps `R`, and
gets stuck when `m` does, then the two agree on every guarded run of `m`. -/
theorem run_agree {n : Machine τ ι ο} {R : σ → τ → Prop}
    (hstep : ∀ s t i, R s t → g s i → (m.step s i = none ∧ n.step t i = none) ∨
      ∃ s' t' o, m.step s i = some (s', o) ∧ n.step t i = some (t', o) ∧ R s' t')
    {t : τ} (hR : R s t) (hg : m.Guarded g s is) :
    (m.run s is = none ∧ n.run t is = none) ∨
      ∃ s' t' os, m.run s is = some (s', os) ∧ n.run t is = some (t', os) ∧ R s' t' := by
  induction is generalizing s t with
  | nil => exact .inr ⟨s, t, [], rfl, rfl, hR⟩
  | cons i is ih =>
    rcases hstep s t i hR hg.1 with ⟨hm, hn⟩ | ⟨s', t', o, hm, hn, hR'⟩
    · exact .inl ⟨by simp only [run, hm], by simp only [run, hn]⟩
    · rcases ih hR' (hg.2 s' o hm) with ⟨hm', hn'⟩ | ⟨s'', t'', os, hm', hn', hR''⟩
      · exact .inl ⟨by simp only [run, hm, hm'], by simp only [run, hn, hn']⟩
      · exact .inr ⟨s'', t'', o :: os, by simp only [run, hm, hm'], by simp only [run, hn, hn'],
          hR''⟩

end Machine
