-- SUMMARY: Substitutions kept as a table of bindings that refer to one another.
import Mathlib.Data.List.Basic
import Mathlib.Logic.Function.Basic

/-!
# Tables of bindings

A table binds variables, by their keys, to terms with variables of their own. It is acyclic when a
rank goes down from a key to the variables it is bound to. An acyclic table has a most general
solution; a binding that does not come back to its own key keeps a table acyclic.
-/

namespace Triangular

/-- Terms over variables, with substitution. -/
class Terms (ν τ : Type) where
  var : ν → τ
  vars : τ → List ν
  app : (ν → τ) → τ → τ
  vars_var : ∀ x, vars (var x) = [x]
  app_var : ∀ σ x, app σ (var x) = σ x
  app_id : ∀ t, app var t = t
  app_congr : ∀ {σ σ' t}, (∀ x ∈ vars t, σ x = σ' x) → app σ t = app σ' t
  app_app : ∀ σ σ' t, app σ (app σ' t) = app (fun x => app σ (σ' x)) t

open Terms

variable {ν κ τ : Type} [Terms ν τ] (key : ν → κ) {look : κ → Option τ} {rank : κ → Nat} {σ : ν → τ} {k : κ} {t : τ}

/-- The rank goes down along the bindings. -/
def Ranked (rank : κ → Nat) (look : κ → Option τ) : Prop :=
  ∀ k t, look k = some t → ∀ x ∈ vars t, rank (key x) < rank k

def Acyclic (look : κ → Option τ) : Prop := ∃ rank, Ranked key rank look

/-- Every variable has the value of what it is bound to. -/
def Solves (σ : ν → τ) (look : κ → Option τ) : Prop := ∀ x t, look (key x) = some t → σ x = app σ t

/-- The variables of a term, and those of what they are bound to. -/
inductive Reaches (look : κ → Option τ) : τ → κ → Prop
  | here {t : τ} {x : ν} : x ∈ vars t → Reaches look t (key x)
  | through {t u : τ} {x : ν} {k : κ} : x ∈ vars t → look (key x) = some u → Reaches look u k → Reaches look t k

/-! ## Solutions -/

/-- Bindings are followed `n` times. -/
def stage (look : κ → Option τ) : Nat → ν → τ
  | 0, x => var x
  | n + 1, x =>
    match look (key x) with
    | none => var x
    | some t => app (stage look n) t

variable {key}

variable {x : ν}

theorem stage_free (h : look (key x) = none) (n : Nat) : stage key look n x = var x := by
  cases n with
  | zero => rfl
  | succ n => simp only [stage, h]

theorem stage_bound (h : look (key x) = some t) (n : Nat) : stage key look (n + 1) x = app (stage key look n) t := by
  simp only [stage, h]

/-- Once the rank of a variable is passed nothing changes. -/
theorem stage_stable (hrank : Ranked key rank look) : ∀ {n m : Nat} {x : ν}, rank (key x) < n → rank (key x) < m →
    stage key look n x = stage key look m x := by
  intro n
  induction n with
  | zero => exact nofun
  | succ n ih =>
    intro m x hn hm
    obtain ⟨m, rfl⟩ : ∃ m', m = m' + 1 := ⟨m - 1, by omega⟩
    cases hlook : look (key x) with
    | none => rw [stage_free hlook, stage_free hlook]
    | some t =>
      rw [stage_bound hlook, stage_bound hlook]
      refine app_congr fun y hy => ?_
      have := hrank _ _ hlook y hy
      exact ih (by omega) (by omega)

/-- The most general solution of a ranked table. -/
def solution (key : ν → κ) (rank : κ → Nat) (look : κ → Option τ) (x : ν) : τ := stage key look (rank (key x) + 1) x

theorem solution_solves (hrank : Ranked key rank look) : Solves key (solution key rank look) look := by
  intro x t hlook
  rw [solution, stage_bound hlook]
  refine app_congr fun y hy => ?_
  exact stage_stable hrank (hrank _ _ hlook y hy) (Nat.lt_succ_self _)

theorem solution_free (h : look (key x) = none) : solution key rank look x = var x := stage_free h _

/-! ## Binding -/

/-- The table goes on to say what it said. -/
def Extends (look look' : κ → Option τ) : Prop := ∀ k t, look k = some t → look' k = some t

theorem Extends.refl (look : κ → Option τ) : Extends look look := fun _ _ h => h

theorem Extends.trans {look' look'' : κ → Option τ} (h : Extends look look') (h' : Extends look' look'') :
    Extends look look'' := fun k t hk => h' k t (h k t hk)

theorem Solves.of_extends {look' : κ → Option τ} (hext : Extends look look') (h : Solves key σ look') :
    Solves key σ look := fun x t hlook => h x t (hext _ _ hlook)

theorem exists_bound (f : ν → Nat) (l : List ν) : ∃ n, ∀ x ∈ l, f x < n := by
  induction l with
  | nil => exact ⟨0, nofun⟩
  | cons x l ih =>
    obtain ⟨n, hn⟩ := ih
    refine ⟨n + f x + 1, fun y hy => ?_⟩
    rw [List.mem_cons] at hy
    rcases hy with rfl | hy
    · omega
    · have := hn y hy
      omega

/-- A key that is bound to something that comes back to `k`, or `k` itself. -/
def Depends (key : ν → κ) (look : κ → Option τ) (k k' : κ) : Prop :=
  k' = k ∨ ∃ u, look k' = some u ∧ Reaches key look u k

theorem Reaches.of_depends (hx : x ∈ vars t) (h : Depends key look k (key x)) : Reaches key look t k := by
  rcases h with rfl | ⟨u, hlook, hreach⟩
  · exact .here hx
  · exact .through hx hlook hreach

/-- A free key can be bound to a term that does not come back to it. -/
theorem Acyclic.bind [DecidableEq κ] (h : Acyclic key look) (hfree : look k = none) (hreach : ¬ Reaches key look t k) :
    Acyclic key (Function.update look k (some t)) := by
  classical
  obtain ⟨rank, hrank⟩ := h
  obtain ⟨n, hn⟩ := exists_bound (fun x => rank (key x)) (vars t)
  refine ⟨fun k' => if Depends key look k k' then rank k' + n else rank k', fun k' u hlook x hx => ?_⟩
  beta_reduce
  by_cases hk : k' = k
  · obtain rfl := hk
    rw [Function.update_self] at hlook
    obtain rfl := Option.some.inj hlook
    rw [if_neg fun hdep => hreach (.of_depends hx hdep), if_pos (.inl rfl)]
    have := hn x hx
    omega
  · rw [Function.update_of_ne hk] at hlook
    have hlt := hrank k' u hlook x hx
    by_cases hdep : Depends key look k (key x)
    · rw [if_pos hdep, if_pos (.inr ⟨u, hlook, .of_depends hx hdep⟩)]
      omega
    · rw [if_neg hdep]
      split <;> omega

end Triangular
