-- SUMMARY: State machines that keep their state on failure.
import Mathlib.Logic.Basic

/-!
# Runs with a state

A computation in `EStateM` ends with a value or with an error, and has a state in both
cases. The lemmas take a run that ends with a value apart, and carry a relation between
the states before and after through its parts.
-/

namespace EStateM

variable {ε σ α β : Type}

variable {s s' : σ} {e : ε}

variable {b : β} {f : α → EStateM ε σ β} {m : EStateM ε σ α}

theorem bind_ok : (m >>= f) s = .ok b s' ↔ ∃ a s₁, m s = .ok a s₁ ∧ f a s₁ = .ok b s' := by
  change EStateM.bind m f s = _ ↔ _
  unfold EStateM.bind
  cases m s with
  | ok a s₁ =>
    constructor
    · exact fun h => ⟨a, s₁, rfl, h⟩
    · rintro ⟨a', s', heq, h⟩
      cases heq
      exact h
  | error e s₁ =>
    constructor
    · intro h
      cases h
    · rintro ⟨a', s', heq, h⟩
      cases heq

theorem bind_error :
    (m >>= f) s = .error e s' ↔ m s = .error e s' ∨ ∃ a s₁, m s = .ok a s₁ ∧ f a s₁ = .error e s' := by
  change EStateM.bind m f s = _ ↔ _
  unfold EStateM.bind
  cases m s with
  | ok a s₁ =>
    constructor
    · exact fun h => .inr ⟨a, s₁, rfl, h⟩
    · rintro (h | ⟨a', s', heq, h⟩)
      · cases h
      · cases heq
        exact h
  | error e s₁ =>
    constructor
    · intro h
      cases h
      exact .inl rfl
    · rintro (h | ⟨a', s', heq, -⟩)
      · cases h
        rfl
      · cases heq

variable {a : α}

theorem pure_ok {b : α} : (pure a : EStateM ε σ α) s = .ok b s' ↔ a = b ∧ s = s' := by
  change EStateM.Result.ok a s = _ ↔ _
  simp

theorem get_ok {a : σ} : (get : EStateM ε σ σ) s = .ok a s' ↔ a = s ∧ s' = s := by
  change EStateM.Result.ok s s = _ ↔ _
  simp [eq_comm]

variable {u : PUnit}

theorem set_ok {t : σ} : (set t : EStateM ε σ PUnit) s = .ok u s' ↔ s' = t := by
  change EStateM.Result.ok PUnit.unit t = _ ↔ _
  simp [eq_comm]

theorem modify_ok {f : σ → σ} : (modify f : EStateM ε σ PUnit) s = .ok u s' ↔ s' = f s := by
  change EStateM.Result.ok PUnit.unit (f s) = _ ↔ _
  simp [eq_comm]

theorem not_throw_ok : ¬ (throw e : EStateM ε σ α) s = .ok a s' := by
  change ¬ EStateM.Result.error e s = _
  simp

variable {s₁ : σ}

theorem bind_run (h : m s = .ok a s₁) : (m >>= f) s = f a s₁ := by
  show EStateM.bind m f s = _
  unfold EStateM.bind
  rw [h]

theorem get_bind (f : σ → EStateM ε σ β) (s : σ) : (get >>= f) s = f s s := rfl

theorem modify_bind (f : σ → σ) (m : PUnit → EStateM ε σ β) (s : σ) :
    (modify f >>= m) s = m ⟨⟩ (f s) := rfl

/-- A check in front that does not fail. -/
theorem guard_ok {p : Prop} [Decidable p] {m : EStateM ε σ β} :
    (if p then throw e >>= f else m) s = .ok b s' ↔ ¬ p ∧ m s = .ok b s' := by
  split
  · rename_i hp
    rw [bind_ok]
    constructor
    · rintro ⟨a, s₁, h, -⟩
      exact absurd h not_throw_ok
    · exact fun h => absurd hp h.1
  · rename_i hp
    exact ⟨fun h => ⟨hp, h⟩, fun h => h.2⟩

/-- Whenever the computation ends with a value, `R` holds between the states. -/
def OkRel (R : σ → σ → Prop) (m : EStateM ε σ α) : Prop :=
  ∀ s a s', m s = .ok a s' → R s s'

variable {R : σ → σ → Prop} {c : Prop} {m' : EStateM ε σ α}

namespace OkRel

theorem apply (h : OkRel R m) (hrun : m s = .ok a s') :
    R s s' := h s a s' hrun

theorem bind (htrans : ∀ a b c, R a b → R b c → R a c) (hm : OkRel R m) (hf : ∀ a, OkRel R (f a)) :
    OkRel R (m >>= f) := by
  intro s b s' h
  obtain ⟨a, s₁, h₁, h₂⟩ := bind_ok.1 h
  exact htrans _ _ _ (hm _ _ _ h₁) (hf a _ _ _ h₂)

theorem pure (hrefl : ∀ a, R a a) (a : α) : OkRel R (Pure.pure a : EStateM ε σ α) := by
  intro s b s' h
  obtain ⟨-, rfl⟩ := pure_ok.1 h
  exact hrefl s

theorem get (hrefl : ∀ a, R a a) : OkRel R (MonadState.get : EStateM ε σ σ) := by
  intro s a s' h
  obtain ⟨-, rfl⟩ := get_ok.1 h
  exact hrefl _

theorem modify {f : σ → σ} (h : ∀ s, R s (f s)) : OkRel R (modify f : EStateM ε σ PUnit) := by
  intro s a s' hrun
  obtain rfl := modify_ok.1 hrun
  exact h s

theorem throw (e : ε) : OkRel R (throw e : EStateM ε σ α) :=
  fun _ _ _ h => absurd h not_throw_ok

theorem ite [Decidable c] (h : OkRel R m) (h' : OkRel R m') : OkRel R (if c then m else m') := by
  split
  · exact h
  · exact h'

/-- Nothing ends with a value whose last part never does. -/
theorem bind_never (hf : ∀ a, OkRel (fun _ _ => False) (f a)) : OkRel (fun _ _ => False) (m >>= f) := by
  intro s b s' h
  obtain ⟨a, s₁, -, h₂⟩ := bind_ok.1 h
  exact hf a _ _ _ h₂

end OkRel

/-- The state in which a computation ends, with a value or with an error. -/
def state : Result ε σ α → σ
  | .ok _ s => s
  | .error _ s => s

/-- However the computation ends, `R` holds between the states. -/
def AllRel (R : σ → σ → Prop) (m : EStateM ε σ α) : Prop := ∀ s, R s (state (m s))

namespace AllRel

theorem ok (h : AllRel R m) (hrun : m s = .ok a s') : R s s' := by
  have hs := h s
  rwa [hrun] at hs

theorem error (h : AllRel R m) (hrun : m s = .error e s') : R s s' := by
  have hs := h s
  rwa [hrun] at hs

theorem bind (htrans : ∀ a b c, R a b → R b c → R a c) (hm : AllRel R m) (hf : ∀ a, AllRel R (f a)) :
    AllRel R (m >>= f) := by
  intro s
  have hs := hm s
  change R s (state (EStateM.bind m f s))
  unfold EStateM.bind
  cases hrun : m s with
  | ok a s₁ =>
    rw [hrun] at hs
    exact htrans _ _ _ hs (hf a s₁)
  | error e s₁ =>
    rw [hrun] at hs
    exact hs

/-- Nothing comes after a first part that never ends with a value. -/
theorem bind_refused (hm : AllRel R m) (hno : ∀ s s' a, ¬ m s = .ok a s') : AllRel R (m >>= f) := by
  intro s
  have hs := hm s
  change R s (state (EStateM.bind m f s))
  unfold EStateM.bind
  cases hrun : m s with
  | ok a s₁ => exact absurd hrun (hno s s₁ a)
  | error e s₁ =>
    rw [hrun] at hs
    exact hs

theorem pure (hrefl : ∀ a, R a a) (a : α) : AllRel R (Pure.pure a : EStateM ε σ α) := hrefl

theorem get (hrefl : ∀ a, R a a) : AllRel R (MonadState.get : EStateM ε σ σ) := hrefl

theorem modify {f : σ → σ} (h : ∀ s, R s (f s)) : AllRel R (modify f : EStateM ε σ PUnit) := h

theorem throw (hrefl : ∀ a, R a a) (e : ε) : AllRel R (throw e : EStateM ε σ α) := hrefl

theorem ite [Decidable c] (h : AllRel R m) (h' : AllRel R m') : AllRel R (if c then m else m') := by
  split
  · exact h
  · exact h'

end AllRel

/-- From a state with `P` the computation ends with `Q`, or with an error that `E` allows. -/
def Triple (E : ε → Prop) (P : σ → Prop) (m : EStateM ε σ α) (Q : α → σ → Prop) : Prop :=
  ∀ s, P s → match m s with
    | .ok a s'   => Q a s'
    | .error e _ => E e

namespace Triple

variable {E : ε → Prop} {P P' : σ → Prop} {Q Q' : α → σ → Prop}

/-- Runs that are known to end with a value. -/
theorem of_ok (h : ∀ s, P s → ∃ a s', m s = .ok a s' ∧ Q a s') : Triple E P m Q := by
  intro s hs
  obtain ⟨a, s', hrun, hq⟩ := h s hs
  rw [hrun]
  exact hq

theorem ok (h : Triple E P m Q) (hs : P s) (hrun : m s = .ok a s') : Q a s' := by
  have hq := h s hs
  rw [hrun] at hq
  exact hq

theorem error (h : Triple E P m Q) (hs : P s) (hrun : m s = .error e s') : E e := by
  have he := h s hs
  rw [hrun] at he
  exact he

theorem bind {R : β → σ → Prop} (hm : Triple E P m Q) (hf : ∀ a, Triple E (Q a) (f a) R) :
    Triple E P (m >>= f) R := by
  intro s hs
  have hfirst := hm s hs
  change match EStateM.bind m f s with
    | .ok b s' => R b s'
    | .error e _ => E e
  unfold EStateM.bind
  cases hrun : m s with
  | ok a s₁ =>
    rw [hrun] at hfirst
    exact hf a s₁ hfirst
  | error e s₁ =>
    rw [hrun] at hfirst
    exact hfirst

theorem pure (h : ∀ s, P s → Q a s) : Triple E P (Pure.pure a : EStateM ε σ α) Q := h

theorem modify {f : σ → σ} {Q : PUnit → σ → Prop} (h : ∀ s, P s → Q ⟨⟩ (f s)) :
    Triple E P (modify f : EStateM ε σ PUnit) Q := h

theorem get : Triple E P (MonadState.get : EStateM ε σ σ) fun _ => P := fun _ hs => hs

theorem throw (h : E e) : Triple E P (throw e : EStateM ε σ α) Q := fun _ _ => h

theorem conseq (h : Triple E P' m Q') (hpre : ∀ s, P s → P' s) (hpost : ∀ a s, Q' a s → Q a s) : Triple E P m Q := by
  intro s hs
  have hq := h s (hpre s hs)
  split at hq
  · exact hpost _ _ hq
  · exact hq

/-- With what is known of the runs that end with a value. -/
theorem and_ok (h : Triple E P m Q) (hruns : ∀ s a s', P s → m s = .ok a s' → Q' a s') :
    Triple E P m fun a s => Q a s ∧ Q' a s := by
  intro s hs
  have hq := h s hs
  cases hrun : m s with
  | ok a s' =>
    rw [hrun] at hq
    exact ⟨hq, hruns s a s' hs hrun⟩
  | error e s' =>
    rw [hrun] at hq
    exact hq

theorem bind_run {R : β → σ → Prop} (hrun : m s = .ok a s₁) (h : Triple E (· = s₁) (f a) R) :
    Triple E (· = s) (m >>= f) R := by
  rintro _ rfl
  rw [EStateM.bind_run hrun]
  exact h s₁ rfl

theorem ite [Decidable c] (h : c → Triple E P m Q) (h' : ¬ c → Triple E P m' Q) :
    Triple E P (if c then m else m') Q := by
  split
  · exact h ‹_›
  · exact h' ‹_›

/-- An invariant of the turns of a loop. -/
theorem forM {γ : Type} {f : γ → EStateM ε σ PUnit} : ∀ {l : List γ}, (∀ x ∈ l, Triple E P (f x) fun _ => P) →
    Triple E P (l.forM f) fun _ => P
  | [], _ => pure fun _ hs => hs
  | x :: l, h => bind (h x (by simp)) fun _ => forM fun y hy => h y (by simp [hy])

/-- What a relation between the states keeps. -/
theorem of_okRel (h : OkRel R m) (hP : ∀ s s', R s s' → P s → P s') : Triple (fun _ => True) P m fun _ => P := by
  intro s hs
  cases hrun : m s with
  | ok a s' => exact hP s s' (h.apply hrun) hs
  | error e s' => trivial

end Triple

def isOk : Result ε σ α → Bool
  | .ok _ _ => true
  | .error _ _ => false

theorem isOk_iff {r : Result ε σ α} : isOk r = true ↔ ∃ a s, r = .ok a s := by
  cases r <;> simp [isOk]

end EStateM
