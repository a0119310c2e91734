-- SUMMARY: Computations that add to a list in their state.
import Irods.Base.EState

/-!
# Emitters

A computation emits a list when it ends with a value from every state and has then added the
list to what a component of the state holds. The rest of the state is free. Emitters compose
along `++`, so that what a routine writes is read off its parts.
-/

namespace EStateM

variable {ε σ α β γ : Type} {buf : σ → List α}

/-- From every state the computation ends with `b`, and has added `added` to the buffer. -/
def Emits (buf : σ → List α) (m : EStateM ε σ β) (b : β) (added : List α) : Prop :=
  ∀ s, ∃ s', m s = .ok b s' ∧ buf s' = buf s ++ added

variable {added : List α} {b : β} {f : β → EStateM ε σ γ} {m : EStateM ε σ β}

namespace Emits

theorem pure (b : β) : Emits (ε := ε) buf (Pure.pure b) b [] :=
  fun s => ⟨s, rfl, (List.append_nil _).symm⟩

variable {c : γ}

variable {more added' : List α}

theorem bind (hm : Emits buf m b added) (hf : Emits buf (f b) c more) : Emits buf (m >>= f) c (added ++ more) := by
  intro s
  obtain ⟨s₁, hrun₁, hbuf₁⟩ := hm s
  obtain ⟨s₂, hrun₂, hbuf₂⟩ := hf s₁
  refine ⟨s₂, (bind_run hrun₁).trans hrun₂, ?_⟩
  rw [hbuf₂, hbuf₁, List.append_assoc]

theorem bind_silent (hm : Emits buf m b []) (hf : Emits buf (f b) c more) :
    Emits buf (m >>= f) c more := hm.bind hf

theorem bind_last (hm : Emits buf m b added) (hf : Emits buf (f b) c []) : Emits buf (m >>= f) c added := by
  have h := hm.bind hf
  rwa [List.append_nil] at h

theorem modify {f : σ → σ} (h : ∀ s, buf (f s) = buf s ++ added) : Emits (ε := ε) buf (modify f) ⟨⟩ added :=
  fun s => ⟨f s, rfl, h s⟩

theorem congr (h : Emits buf m b added) (heq : added = added') :
    Emits buf m b added' := heq ▸ h

/-- A computation emits one list, if there is a state at all. -/
theorem unique {b' : β} (h : Emits buf m b added) (h' : Emits buf m b' added') (s : σ) : b = b' ∧ added = added' := by
  obtain ⟨s₁, hrun, hbuf⟩ := h s
  obtain ⟨s₂, hrun', hbuf'⟩ := h' s
  rw [hrun] at hrun'
  obtain ⟨rfl, rfl⟩ := Result.ok.inj hrun'
  exact ⟨rfl, List.append_cancel_left (hbuf.symm.trans hbuf')⟩

/-- A first part that never ends with a value. -/
theorem not_bind (hm : ∀ s b s', ¬ m s = .ok b s') (s : σ) : ¬ Emits buf (m >>= f) c added := by
  intro h
  obtain ⟨s', hrun, -⟩ := h s
  obtain ⟨b, s₁, hfirst, -⟩ := bind_ok.mp hrun
  exact hm s b s₁ hfirst

end Emits

/-- From every state the computation ends with `e`. -/
def Stops (m : EStateM ε σ β) (e : ε) : Prop := ∀ s, ∃ s', m s = .error e s'

namespace Stops

theorem throw (e : ε) : Stops (throw e : EStateM ε σ β) e := fun s => ⟨s, rfl⟩

variable {e : ε}

theorem bind (f : β → EStateM ε σ γ) (hm : Stops m e) : Stops (m >>= f) e := by
  intro s
  obtain ⟨s', hrun⟩ := hm s
  exact ⟨s', bind_error.mpr (.inl hrun)⟩

/-- A part behind one that ends with a value. -/
theorem bind_right (buf : σ → List α) (hm : Emits buf m b added) (hf : Stops (f b) e) : Stops (m >>= f) e := by
  intro s
  obtain ⟨s₁, hrun, -⟩ := hm s
  obtain ⟨s₂, herr⟩ := hf s₁
  exact ⟨s₂, (bind_run hrun).trans herr⟩

end Stops

/-- Whenever the computation ends with a value, it has added `n` elements to the buffer. -/
def Adds (buf : σ → List α) (n : Nat) (m : EStateM ε σ β) : Prop :=
  OkRel (fun s s' => ∃ added, added.length = n ∧ buf s' = buf s ++ added) m

namespace Adds

theorem pure (b : β) : Adds (ε := ε) buf 0 (Pure.pure b) := OkRel.pure (fun _ => ⟨[], rfl, (List.append_nil _).symm⟩) b

theorem throw (e : ε) : Adds buf 0 (throw e : EStateM ε σ β) := OkRel.throw e

variable {n : Nat}

variable {k : Nat}

theorem bind (hm : Adds buf n m) (hf : ∀ b, Adds buf k (f b)) : Adds buf (n + k) (m >>= f) := by
  intro s c s' hrun
  obtain ⟨b, s₁, hfirst, hlast⟩ := bind_ok.mp hrun
  obtain ⟨added, rfl, hbuf⟩ := hm _ _ _ hfirst
  obtain ⟨more, rfl, hbuf'⟩ := hf b _ _ _ hlast
  exact ⟨added ++ more, List.length_append, by rw [hbuf', hbuf, List.append_assoc]⟩

theorem bind_silent (hm : Adds buf 0 m) (hf : ∀ b, Adds buf k (f b)) : Adds buf k (m >>= f) := by
  have h := hm.bind hf
  rwa [Nat.zero_add] at h

theorem bind_last (hm : Adds buf n m) (hf : ∀ b, Adds buf 0 (f b)) : Adds buf n (m >>= f) := hm.bind hf

theorem of_emits (h : Emits buf m b added) : Adds buf added.length m := by
  intro s b' s' hrun
  obtain ⟨s₁, hrun', hbuf⟩ := h s
  rw [hrun'] at hrun
  obtain ⟨-, rfl⟩ := Result.ok.inj hrun
  exact ⟨added, rfl, hbuf⟩

theorem ite {c : Prop} [Decidable c] {m' : EStateM ε σ β} (hm : c → Adds buf n m) (hm' : ¬ c → Adds buf n m') :
    Adds buf n (if c then m else m') := by
  split
  · exact hm ‹_›
  · exact hm' ‹_›

end Adds

/-- Whenever the computation ends with a value, `P` holds of it and of what was added to the buffer. -/
def Yields (buf : σ → List α) (P : β → List α → Prop) (m : EStateM ε σ β) : Prop :=
  ∀ s b s', m s = .ok b s' → ∃ added, buf s' = buf s ++ added ∧ P b added

namespace Yields

variable {P P' : β → List α → Prop} {Q : γ → List α → Prop}

theorem pure (h : P b []) : Yields (ε := ε) buf P (Pure.pure b) := by
  intro s b' s' hrun
  obtain ⟨rfl, rfl⟩ := pure_ok.mp hrun
  exact ⟨[], (List.append_nil _).symm, h⟩

theorem throw (e : ε) : Yields buf P (throw e : EStateM ε σ β) := fun _ _ _ hrun => absurd hrun not_throw_ok

theorem bind (hm : Yields buf P m) (hf : ∀ b added, P b added → Yields buf (fun c more => Q c (added ++ more)) (f b)) :
    Yields buf Q (m >>= f) := by
  intro s c s' hrun
  obtain ⟨b, s₁, hfirst, hlast⟩ := bind_ok.mp hrun
  obtain ⟨added, hbuf, hP⟩ := hm _ _ _ hfirst
  obtain ⟨more, hbuf', hQ⟩ := hf b added hP _ _ _ hlast
  exact ⟨added ++ more, by rw [hbuf', hbuf, List.append_assoc], hQ⟩

theorem mono (hm : Yields buf P m) (h : ∀ b added, P b added → P' b added) : Yields buf P' m := by
  intro s b s' hrun
  obtain ⟨added, hbuf, hP⟩ := hm _ _ _ hrun
  exact ⟨added, hbuf, h b added hP⟩

/-- A first part that adds nothing, and of which the value is `p`. -/
theorem bind_silent {p : β → Prop} (hm : Yields buf (fun b added => added = [] ∧ p b) m)
    (hf : ∀ b, p b → Yields buf Q (f b)) : Yields buf Q (m >>= f) := by
  refine hm.bind fun b added h => ?_
  obtain ⟨rfl, hp⟩ := h
  exact hf b hp

theorem of_emits (h : Emits buf m b added) : Yields buf (fun b' added' => b' = b ∧ added' = added) m := by
  intro s b' s' hrun
  obtain ⟨s₁, hrun', hbuf⟩ := h s
  rw [hrun'] at hrun
  obtain ⟨rfl, rfl⟩ := Result.ok.inj hrun
  exact ⟨added, hbuf, rfl, rfl⟩

theorem emits_bind (hm : Emits buf m b added) (hf : Yields buf (fun c more => Q c (added ++ more)) (f b)) :
    Yields buf Q (m >>= f) := by
  refine (of_emits hm).bind fun b' added' h => ?_
  obtain ⟨rfl, rfl⟩ := h
  exact hf

end Yields

end EStateM
