-- SUMMARY: The table of equivalent variables.
import Irods.Re.TypeTable

/-!
# The table of equivalent variables

The table links the name of a variable to a variable or a base type. As long as no base type is named
like a variable its links never run in a circle, so a representative is found, and a variable is linked
only to what the environment makes it equal to.
-/

namespace Solving

open Typing (ExprType BaseType TVar Solver lookupFromHashTable updateInHashTable getTVarName typeName
  getBaseTypeOrTVarId equivalenceRepFuel getEquivalenceClassRep addToEquivalenceClass typeEqSyntatic)
open Triangular
open Unification (look number AcyclicTable below below_lt_length below_lt_below)

variable {env env' : List (Nat × ExprType)} {h : List (String × ExprType)} {a b t u : ExprType} {k : String}
  {id : Nat} {ds : List BaseType}

/-! ## Names -/

/-- The type is not named like a variable. -/
def Named (b : BaseType) : Prop := ∀ id, typeName b ≠ getTVarName id

theorem getTVarName_inj {i j : Nat} (hij : getTVarName i = getTVarName j) : i = j := by
  have hrepr : String.ofList (Nat.toDigits 10 i) = String.ofList (Nat.toDigits 10 j) :=
    (String.append_right_inj "?").mp hij
  rw [← Nat.ofDigitChars_ten_toDigits (n := i), String.ofList_injective hrepr, Nat.ofDigitChars_ten_toDigits]

theorem getTVarName_head (id : Nat) : (getTVarName id).toList.head? = some '?' := by
  simp [getTVarName]

theorem named_of_head {b : BaseType} (hb : (typeName b).toList.head? ≠ some '?') : Named b :=
  fun id hid => hb (hid ▸ getTVarName_head id)

theorem named_baseTypes : ∀ b ∈ Typing.baseTypes, Named b := by
  intro b hb
  refine named_of_head ?_
  simp only [Typing.baseTypes, List.mem_cons, List.not_mem_nil, or_false] at hb
  rcases hb with rfl | rfl | rfl | rfl | rfl | rfl <;> decide

/-! ## What the environment says -/

/-- A variable has the same value wherever it stands. -/
def byNumber (value : Nat → ExprType) (x : TVar) : ExprType := value x.1

/-- The environment makes the two types equal. -/
def Same (env : List (Nat × ExprType)) (a b : ExprType) : Prop :=
  ∀ value, Solves number (byNumber value) (look env) → a.app (byNumber value) = b.app (byNumber value)

theorem Same.refl (t : ExprType) : Same env t t := fun _ _ => rfl

theorem Same.symm (hab : Same env a b) : Same env b a := fun value hvalue => (hab value hvalue).symm

theorem Same.trans (hab : Same env a b) (hbt : Same env b t) : Same env a t :=
  fun value hvalue => (hab value hvalue).trans (hbt value hvalue)

theorem Same.of_extends (hext : Triangular.Extends (look env) (look env')) (hab : Same env a b) : Same env' a b :=
  fun value hvalue => hab value (hvalue.of_extends hext)

theorem Same.disjuncts (ds' : List BaseType) (hab : Same env (.tvar id ds) b) : Same env (.tvar id ds') b := hab

theorem Same.of_bound (hlook : look env id = some t) : Same env (.tvar id ds) t :=
  fun _ hvalue => hvalue (id, ds) t hlook

/-- An acyclic environment has a solution in which the unbound variables are not base types. -/
theorem exists_value (hacyclic : AcyclicTable env) :
    ∃ value, Solves number (byNumber value) (look env) ∧ ∀ id, look env id = none → value id = .dynamic := by
  obtain ⟨rank, hrank⟩ := hacyclic
  set σ := solution number rank (look env) with hσ
  set τ : TVar → ExprType := fun _ => .dynamic
  refine ⟨fun id => (σ (id, [])).app τ, fun x t hlook => ?_, fun id hlook => ?_⟩
  · have hdisjuncts (y : TVar) : (σ y).app τ = (σ (y.1, [])).app τ := by
      cases hy : look env y.1 with
      | none =>
        rw [hσ, solution_free hy, solution_free (x := (y.1, [])) hy]
        rfl
      | some u => rw [hσ, solution_solves hrank y u hy, solution_solves hrank (y.1, []) u hy]
    show (σ (x.1, [])).app τ = t.app _
    rw [hσ, solution_solves hrank (x.1, []) t hlook]
    refine (Terms.app_app τ σ t).trans (Terms.app_congr fun y _ => ?_)
    exact hdisjuncts y
  · have hvar : solution number rank (look env) (id, []) = .tvar id [] := solution_free hlook
    show (σ (id, [])).app τ = .dynamic
    rw [hσ, hvar]
    rfl

theorem not_same_base (hacyclic : AcyclicTable env) (hfree : look env id = none) (b : BaseType) :
    ¬ Same env (.tvar id ds) (.base b) := by
  obtain ⟨value, hvalue, hdynamic⟩ := exists_value hacyclic
  intro hsame
  have heq : value id = .base b := hsame value hvalue
  rw [hdynamic id hfree] at heq
  cases heq

theorem same_base_inj (hacyclic : AcyclicTable env) {b c : BaseType}
    (hsame : Same env (.base b) (.base c)) : b = c := by
  obtain ⟨value, hvalue, -⟩ := exists_value hacyclic
  have heq : ExprType.base b = .base c := hsame value hvalue
  cases heq
  rfl

/-! ## Links -/

/-- A variable, or a base type that is not named like one. -/
def Leaf : ExprType → Prop
  | .base b => Named b
  | .tvar _ _ => True
  | _ => False

/-- The links go down, and say nothing that the environment does not. -/
structure Coherent (env : List (Nat × ExprType)) (h : List (String × ExprType)) : Prop where
  ends : ∃ rank : String → Nat, ∀ k t, lookupFromHashTable h k = some t → rank (getBaseTypeOrTVarId t) < rank k
  faithful : ∀ k t, lookupFromHashTable h k = some t → ∃ id, k = getTVarName id ∧ Leaf t ∧ Same env (.tvar id []) t

theorem Coherent.nil : Coherent env [] := ⟨⟨fun _ => 0, nofun⟩, nofun⟩

theorem Coherent.of_extends (hext : Triangular.Extends (look env) (look env')) (hc : Coherent env h) :
    Coherent env' h := by
  refine ⟨hc.ends, fun k t hlook => ?_⟩
  obtain ⟨id, hk, hleaf, hsame⟩ := hc.faithful k t hlook
  exact ⟨id, hk, hleaf, hsame.of_extends hext⟩

/-- Only the name of a variable is linked. -/
theorem Coherent.same_of_linked (hc : Coherent env h) (ht : Leaf t)
    (hlook : lookupFromHashTable h (getBaseTypeOrTVarId t) = some u) :
    Leaf u ∧ Same env t u ∧ ∃ id ds, t = .tvar id ds := by
  obtain ⟨id, hk, hleaf, hsame⟩ := hc.faithful _ _ hlook
  cases t with
  | base b => exact absurd hk (ht id)
  | tvar id' ds =>
    obtain rfl : id' = id := getTVarName_inj hk
    exact ⟨hleaf, hsame.disjuncts ds, id', ds, rfl⟩
  | _ => cases ht

/-- What a representative is. -/
structure Represents (env : List (Nat × ExprType)) (h : List (String × ExprType)) (t rep : ExprType) : Prop where
  leaf : Leaf rep
  same : Same env t rep
  root : lookupFromHashTable h (getBaseTypeOrTVarId rep) = none

theorem equivalenceRepFuel_spec {rank : String → Nat} (hc : Coherent env h)
    (hrank : ∀ k t, lookupFromHashTable h k = some t → rank (getBaseTypeOrTVarId t) < rank k) :
    ∀ {n : Nat} {t : ExprType}, Leaf t → 1 ≤ n →
      (∀ u, lookupFromHashTable h (getBaseTypeOrTVarId t) = some u → below rank h (getBaseTypeOrTVarId t) + 2 ≤ n) →
      ∃ rep, equivalenceRepFuel h n t = some rep ∧ Represents env h t rep ∧
        (rep = t ∨ rank (getBaseTypeOrTVarId rep) < rank (getBaseTypeOrTVarId t)) := by
  intro n
  induction n with
  | zero => exact fun _ h => absurd h (by omega)
  | succ n ih =>
    intro t ht _ hfuel
    cases hlook : lookupFromHashTable h (getBaseTypeOrTVarId t) with
    | none => exact ⟨t, by simp only [equivalenceRepFuel, hlook], ⟨ht, .refl t, hlook⟩, .inl rfl⟩
    | some u =>
      have hbelow := hfuel u hlook
      have hlt := hrank _ _ hlook
      obtain ⟨hu, hsame, -⟩ := hc.same_of_linked ht hlook
      obtain ⟨rep, hrep, hspec, hlower⟩ := ih hu (by omega) fun w hw => by
        have := below_lt_below hw hlt
        omega
      refine ⟨rep, by simp only [equivalenceRepFuel, hlook, hrep], ⟨hspec.leaf, hsame.trans hspec.same, hspec.root⟩, ?_⟩
      rcases hlower with rfl | hlower
      · exact .inr hlt
      · exact .inr (Nat.lt_trans hlower hlt)

theorem lookup_update (h : List (String × ExprType)) (k k' : String) (t : ExprType) :
    lookupFromHashTable (updateInHashTable h k t) k' =
      if k' = k then (lookupFromHashTable h k).map fun _ => t else lookupFromHashTable h k' := by
  induction h with
  | nil => simp [updateInHashTable, lookupFromHashTable]
  | cons e h ih =>
    by_cases he : e.1 = k
    · by_cases hk : k' = k
      · simp [updateInHashTable, lookupFromHashTable, he, hk]
      · simp [updateInHashTable, lookupFromHashTable, he, hk, Ne.symm hk]
    · simp only [updateInHashTable, beq_iff_eq, he, if_false]
      simp only [lookupFromHashTable, List.find?_cons] at ih ⊢
      by_cases hk' : e.1 = k'
      · have hk : k' ≠ k := fun hk => he (hk'.trans hk)
        simp [hk', hk]
      · rw [show (e.1 == k') = false by simpa using hk']
        rw [show (e.1 == k) = false by simpa using he]
        exact ih

/-- The representative is found, and the entry that is set to it says the same as before. -/
theorem getEquivalenceClassRep_spec {s : Solver} (hc : Coherent env s.equivalence) (ht : Leaf t) :
    ∃ rep h, getEquivalenceClassRep s t = some (rep, { s with equivalence := h }) ∧ Coherent env h ∧
      Represents env h t rep ∧ ∀ k, lookupFromHashTable s.equivalence k = none → lookupFromHashTable h k = none := by
  obtain ⟨rank, hrank⟩ := hc.ends
  obtain ⟨rep, hrep, hspec, hlower⟩ := equivalenceRepFuel_spec (n := s.equivalence.length + 1) hc hrank ht
    (Nat.le_add_left _ _) fun u hlook => by
      have : below rank s.equivalence _ < s.equivalence.length := below_lt_length hlook
      omega
  have hnone (k : String) (hk : lookupFromHashTable s.equivalence k = none) :
      lookupFromHashTable (updateInHashTable s.equivalence (getBaseTypeOrTVarId t) rep) k = none := by
    rw [lookup_update]
    split
    · subst_vars
      rw [hk]
      rfl
    · exact hk
  -- a link of the new table is the one that was set, or an old one
  have hlinks (k : String) (u : ExprType)
      (hlook : lookupFromHashTable (updateInHashTable s.equivalence (getBaseTypeOrTVarId t) rep) k = some u) :
      (k = getBaseTypeOrTVarId t ∧ u = rep ∧ ∃ w, lookupFromHashTable s.equivalence k = some w) ∨
        lookupFromHashTable s.equivalence k = some u := by
    rw [lookup_update] at hlook
    split at hlook
    case isTrue hk =>
      obtain ⟨w, hw, rfl⟩ := Option.map_eq_some_iff.mp hlook
      exact .inl ⟨hk, rfl, w, hk ▸ hw⟩
    case isFalse => exact .inr hlook
  refine ⟨rep, _, by simp only [getEquivalenceClassRep, hrep], ⟨⟨rank, fun k u hlook => ?_⟩, fun k u hlook => ?_⟩,
    ⟨hspec.leaf, hspec.same, hnone _ hspec.root⟩, hnone⟩
  · rcases hlinks k u hlook with ⟨rfl, rfl, w, hw⟩ | hold
    · rcases hlower with rfl | hlower
      · rw [hspec.root] at hw
        cases hw
      · exact hlower
    · exact hrank k u hold
  · rcases hlinks k u hlook with ⟨rfl, rfl, w, hw⟩ | hold
    · obtain ⟨-, -, id, ds, rfl⟩ := hc.same_of_linked ht hw
      exact ⟨id, rfl, hspec.leaf, hspec.same.disjuncts []⟩
    · exact hc.faithful k u hold

/-! ## Joining -/

/-- A root can be linked to another one that the environment makes equal to it. -/
theorem Coherent.link (hc : Coherent env h) (hroot : Represents env h (.tvar id []) u)
    (hne : getBaseTypeOrTVarId u ≠ getTVarName id) :
    Coherent env (h ++ [(getTVarName id, u)]) := by
  have hlinks (k : String) (t : ExprType) (hlook : lookupFromHashTable (h ++ [(getTVarName id, u)]) k = some t) :
      lookupFromHashTable h k = some t ∨ (k = getTVarName id ∧ t = u) := by
    simp only [lookupFromHashTable, List.find?_append] at hlook ⊢
    cases hold : h.find? fun e => e.1 == k with
    | some e =>
      rw [hold] at hlook
      exact .inl hlook
    | none =>
      rw [hold, Option.none_or] at hlook
      obtain ⟨e, he, rfl⟩ := Option.map_eq_some_iff.mp hlook
      obtain rfl := List.mem_singleton.mp (List.mem_of_find?_eq_some he)
      exact .inr ⟨(by simpa using List.find?_some he : getTVarName id = k).symm, rfl⟩
  obtain ⟨rank, hrank⟩ := hc.ends
  refine ⟨⟨fun k => if k = getBaseTypeOrTVarId u then 0 else rank k + 1, fun k t hlook => ?_⟩, fun k t hlook => ?_⟩
  · beta_reduce
    have hk : k ≠ getBaseTypeOrTVarId u := by
      rintro rfl
      rcases hlinks _ t hlook with hold | ⟨hk, -⟩
      · rw [hroot.root] at hold
        cases hold
      · exact hne hk
    rw [if_neg hk]
    rcases hlinks k t hlook with hold | ⟨-, rfl⟩
    · have := hrank k t hold
      split <;> omega
    · rw [if_pos rfl]
      exact Nat.succ_pos _
  · rcases hlinks k t hlook with hold | ⟨rfl, rfl⟩
    · exact hc.faithful k t hold
    · exact ⟨id, rfl, hroot.leaf, hroot.same⟩

/-- Two leaves that the environment makes equal are joined. -/
theorem addToEquivalenceClass_spec {s : Solver} (hacyclic : AcyclicTable env) (hc : Coherent env s.equivalence)
    (ha : Leaf a) (hb : Leaf b) (hab : Same env a b) :
    ∃ h, addToEquivalenceClass s a b = some { s with equivalence := h } ∧ Coherent env h := by
  obtain ⟨an, h₁, hrep₁, hc₁, hspec₁, -⟩ := getEquivalenceClassRep_spec hc ha
  obtain ⟨bn, h₂, hrep₂, hc₂, hspec₂, hroots⟩ := getEquivalenceClassRep_spec (s := { s with equivalence := h₁ }) hc₁ hb
  have hsame : Same env an bn := (hspec₁.same.symm.trans hab).trans hspec₂.same
  have hroot := hroots _ hspec₁.root
  simp only [addToEquivalenceClass, hrep₁, Option.bind_eq_bind, Option.bind_some, hrep₂]
  split
  case isTrue => exact ⟨h₂, rfl, hc₂⟩
  case isFalse hne =>
    obtain ⟨hleaf₁, hleaf₂⟩ := And.intro hspec₁.leaf hspec₂.leaf
    match an, bn with
    | .base b₁, .base b₂ =>
      obtain rfl := same_base_inj hacyclic hsame
      exact absurd (by simp [typeEqSyntatic]) hne
    | .base b₁, .tvar j js =>
      exact ⟨_, rfl, hc₂.link ⟨hleaf₁, hsame.symm, hroot⟩ (hleaf₁ j)⟩
    | .tvar i is, .base b₂ => exact ⟨_, rfl, hc₂.link ⟨hleaf₂, hsame, hspec₂.root⟩ (hleaf₂ i)⟩
    | .tvar i is, .tvar j js =>
      refine ⟨_, rfl, hc₂.link ⟨trivial, hsame, hspec₂.root⟩ fun hji => hne ?_⟩
      obtain rfl : j = i := getTVarName_inj hji
      simp [typeEqSyntatic]

end Solving
