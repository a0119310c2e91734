-- SUMMARY: Computations that take a known amount of a bounded store.
import Irods.Base.EState
import Mathlib.Algebra.Order.Monoid.Canonical.Defs

/-!
# Spending

A computation takes something of a store that is only ever filled, and goes past its end when
the room is not enough. What it takes does not depend on the state: `view` reads how much is
taken already. The rules add up what the parts take.
-/

namespace EStateM

variable {ε σ α β N : Type}

/-- The computation takes `n` when it comes through, and comes through only with what `fits`.
With that and room for `n` it does not end with `past`. -/
structure Spends [Add N] [LE N] (view : σ → N) (room : N) (past : ε) (fits : Prop) (n : N)
    (m : EStateM ε σ α) : Prop where
  ok : ∀ {s a s'}, m s = .ok a s' →
    fits ∧ view s' = view s + n ∧ (view s ≤ room → view s' ≤ room)
  safe : fits → ∀ {s s'}, view s + n ≤ room → m s ≠ .error past s'

namespace Spends

variable [AddCommMonoid N] [PartialOrder N]
variable {view : σ → N} {room : N} {past : ε} {fits : Prop} {n : N} {m m' : EStateM ε σ α}

/-- A step that comes through and takes nothing. -/
theorem of_ok (h : ∀ s, ∃ a s', m s = .ok a s' ∧ view s' = view s) :
    Spends view room past True 0 m where
  ok {s b s'} hrun := by
    obtain ⟨a, s₁, hok, hview⟩ := h s
    obtain ⟨-, rfl⟩ := Result.ok.inj (hrun.symm.trans hok)
    exact ⟨trivial, by rw [hview, add_zero], fun hroom => hview ▸ hroom⟩
  safe _ s s' _ hrun := by
    obtain ⟨a, s₁, hok, -⟩ := h s
    cases hok.symm.trans hrun

theorem pure (a : α) : Spends view room past True 0 (Pure.pure a : EStateM ε σ α) :=
  .of_ok fun s => ⟨a, s, rfl, rfl⟩

theorem get : Spends view room past True 0 (MonadState.get : EStateM ε σ σ) :=
  .of_ok fun s => ⟨s, s, rfl, rfl⟩

theorem modify {g : σ → σ} (h : ∀ s, view (g s) = view s) :
    Spends view room past True 0 (modify g : EStateM ε σ PUnit) :=
  .of_ok fun s => ⟨⟨⟩, g s, rfl, h s⟩

/-- A change of the state that it depends on, but not of what is taken. -/
theorem get_set {g : σ → σ} {f : σ → EStateM ε σ β} (hg : ∀ s, view (g s) = view s)
    (hf : ∀ s, Spends view room past fits n (f s)) :
    Spends view room past fits n (do
      let s ← MonadState.get
      set (g s)
      f s) where
  ok {s a s'} hrun := by
    have h := (hf s).ok (s := g s) hrun
    rwa [hg] at h
  safe hfits s s' hroom hrun := by
    rw [← hg] at hroom
    exact (hf s).safe hfits (s := g s) hroom hrun

/-- An error other than that for the end of the room. -/
theorem throw {e : ε} (h : e ≠ past) :
    Spends view room past fits n (MonadExcept.throw e : EStateM ε σ α) where
  ok hrun := absurd hrun not_throw_ok
  safe _ _ _ _ hrun := h (Result.error.inj hrun).1

theorem ite {c : Prop} [Decidable c] (h : c → Spends view room past fits n m)
    (h' : ¬ c → Spends view room past fits n m') :
    Spends view room past fits n (if c then m else m') := by
  split
  · exact h ‹_›
  · exact h' ‹_›

theorem congr {fits' : Prop} {n' : N} (h : Spends view room past fits n m) (hfits : fits ↔ fits')
    (hn : n = n') :
    Spends view room past fits' n' m := by
  rwa [← propext hfits, ← hn]

/-! ## One after the other -/

variable [CanonicallyOrderedAdd N] {f : α → EStateM ε σ β} {fits' : Prop} {n' : N}

theorem bind (hm : Spends view room past fits n m)
    (hf : ∀ a, Spends view room past fits' n' (f a)) :
    Spends view room past (fits ∧ fits') (n + n') (m >>= f) where
  ok h := by
    obtain ⟨a, s₁, hfirst, hrest⟩ := bind_ok.mp h
    obtain ⟨hfits, hview, hroom⟩ := hm.ok hfirst
    obtain ⟨hfits', hview', hroom'⟩ := (hf a).ok hrest
    exact ⟨⟨hfits, hfits'⟩, by rw [hview', hview, add_assoc], hroom' ∘ hroom⟩
  safe hfits s s' hroom h := by
    rw [← add_assoc] at hroom
    obtain hfirst | ⟨a, s₁, hfirst, hrest⟩ := bind_error.mp h
    · exact hm.safe hfits.1 (le_trans le_self_add hroom) hfirst
    · refine (hf a).safe hfits.2 ?_ hrest
      rwa [(hm.ok hfirst).2.1]

/-- What takes nothing in front. -/
theorem before (hm : Spends view room past True 0 m)
    (hf : ∀ a, Spends view room past fits n (f a)) : Spends view room past fits n (m >>= f) := by
  have h := hm.bind hf
  rwa [true_and, zero_add] at h

/-- What takes nothing behind. -/
theorem after (hm : Spends view room past fits n m)
    (hf : ∀ a, Spends view room past True 0 (f a)) : Spends view room past fits n (m >>= f) := by
  have h := hm.bind hf
  rwa [and_true, add_zero] at h

end Spends

end EStateM
