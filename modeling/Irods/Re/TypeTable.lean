-- SUMMARY: Dereferencing and instantiation end in an acyclic table.
import Irods.Re.Unify

/-!
# The table of type variables

The table is a triangular substitution. While it is acyclic no chain of variables is longer than the
table, so dereferencing ends within its fuel, and instantiation finds the instance of the most general
solution.
-/

namespace Unification

open Typing (ExprType TVar lookupFromHashTable dereference dereferenceFuel instantiate)
open Triangular

variable {table : List (Nat × ExprType)} {rank : Nat → Nat} {t u : ExprType} {id : Nat}

/-- What the table binds a variable to. -/
abbrev look (table : List (Nat × ExprType)) : Nat → Option ExprType := lookupFromHashTable table

/-- Variables go by their numbers. -/
abbrev number : TVar → Nat := Prod.fst

def AcyclicTable (table : List (Nat × ExprType)) : Prop := Acyclic number (look table)

theorem lookup_insert (h : look table id = none) (t : ExprType) :
    look (table ++ [(id, t)]) = Function.update (look table) id (some t) := by
  funext id'
  simp only [look, lookupFromHashTable, List.find?_append] at h ⊢
  by_cases hid : id' = id
  · obtain rfl := hid
    rw [Option.map_eq_none_iff.mp h]
    simp
  · rw [Function.update_of_ne hid]
    simp only [lookupFromHashTable]
    cases table.find? fun e => e.1 == id' with
    | some e => rfl
    | none => simp [Ne.symm hid]

/-! ## Dereferencing and instantiation end -/

section Counting

variable {κ : Type} {rank : κ → Nat} {h : List (κ × ExprType)} {k k' : κ} {t : ExprType}

/-- The entries whose keys have a lower rank. -/
def below (rank : κ → Nat) (h : List (κ × ExprType)) (k : κ) : Nat :=
  h.countP fun e => rank e.1 < rank k

theorem mem_of_lookup [BEq κ] [LawfulBEq κ] (hlook : lookupFromHashTable h k = some t) : ∃ e ∈ h, e.1 = k := by
  obtain ⟨e, he, -⟩ := Option.map_eq_some_iff.mp hlook
  exact ⟨e, List.mem_of_find?_eq_some he, by simpa using List.find?_some he⟩

theorem countP_lt {α : Type} {p q : α → Bool} {l : List α} (hpq : ∀ x, p x = true → q x = true) {x : α} (hx : x ∈ l)
    (hq : q x = true) (hp : p x = false) : l.countP p < l.countP q := by
  induction l with
  | nil => cases hx
  | cons y l ih =>
    have hle := List.countP_mono_left (l := l) fun x _ h => hpq x h
    rw [List.mem_cons] at hx
    rcases hx with rfl | hx
    · rw [List.countP_cons_of_pos hq, List.countP_cons_of_neg (by simp [hp])]
      omega
    · have := ih hx
      by_cases hy : p y = true
      · rw [List.countP_cons_of_pos hy, List.countP_cons_of_pos (hpq y hy)]
        omega
      · rw [List.countP_cons_of_neg hy, List.countP_cons]
        omega

theorem below_lt_length [BEq κ] [LawfulBEq κ] (hlook : lookupFromHashTable h k = some t) :
    below rank h k < h.length := by
  obtain ⟨e, he, rfl⟩ := mem_of_lookup hlook
  refine Nat.lt_of_lt_of_le (countP_lt (q := fun _ => true) (fun _ _ => rfl) he rfl (by simp)) ?_
  exact List.countP_le_length

theorem below_lt_below [BEq κ] [LawfulBEq κ] (hlook : lookupFromHashTable h k' = some t) (hlt : rank k' < rank k) :
    below rank h k' < below rank h k := by
  obtain ⟨e, he, rfl⟩ := mem_of_lookup hlook
  refine countP_lt (fun e' he' => ?_) he (by simpa using hlt) (by simp)
  simp only [decide_eq_true_eq] at he' ⊢
  omega

end Counting

/-- What dereferencing finds: a type with the same instances that is no bound variable, and that ranks
lower when it is another one. -/
structure Dereferenced (rank : Nat → Nat) (table : List (Nat × ExprType)) (t u : ExprType) : Prop where
  same : ∀ σ, Solves number σ (look table) → t.app σ = u.app σ
  free : ∀ id ds, u = .tvar id ds → look table id = none
  source : ∀ x ∈ u.vars, x ∈ t.vars ∨ ∃ id w, look table id = some w ∧ x ∈ w.vars
  lower : t = u ∨ ∃ id ds, t = .tvar id ds ∧ (look table id).isSome ∧ ∀ x ∈ u.vars, rank x.1 < rank id

theorem dereferenceFuel_spec (hrank : Ranked number rank (look table)) : ∀ {n : Nat} {t : ExprType}, 1 ≤ n →
    (∀ id ds u, t = .tvar id ds → look table id = some u → below rank table id + 2 ≤ n) →
    ∃ u, dereferenceFuel table n t = some u ∧ Dereferenced rank table t u := by
  intro n
  induction n with
  | zero => exact fun h => absurd h (by omega)
  | succ n ih =>
    intro t _ hfuel
    have hself (hfree : ∀ id ds, t = .tvar id ds → look table id = none)
        (hderef : dereferenceFuel table (n + 1) t = some t) :
        ∃ u, dereferenceFuel table (n + 1) t = some u ∧ Dereferenced rank table t u :=
      ⟨t, hderef, fun _ _ => rfl, hfree, fun _ hx => .inl hx, .inl rfl⟩
    cases t with
    | tvar id ds =>
      cases hlook : look table id with
      | none =>
        refine hself (fun id' ds' h => ?_) (by simp only [dereferenceFuel, hlook])
        cases h
        exact hlook
      | some t =>
        have hbelow := hfuel id ds t rfl hlook
        obtain ⟨u, hderef, hu⟩ := ih (show 1 ≤ n by omega) (t := t) (fun id' ds' u' ht hlook' => by
          have hlt := hrank id t hlook (id', ds') (ht ▸ List.mem_singleton_self _)
          have := below_lt_below hlook' hlt
          omega)
        refine ⟨u, by simp only [dereferenceFuel, hlook, hderef], fun σ hσ => ?_, hu.free, fun x hx => ?_,
          .inr ⟨id, ds, rfl, ?_, ?_⟩⟩
        · exact (hσ (id, ds) t hlook).trans (hu.same σ hσ)
        · rcases hu.source x hx with hx | hx
          · exact .inr ⟨id, t, hlook, hx⟩
          · exact .inr hx
        · rw [hlook]
          rfl
        · intro x hx
          rcases hu.lower with rfl | ⟨id', ds', rfl, -, hlow⟩
          · exact hrank id t hlook x hx
          · exact Nat.lt_trans (hlow x hx) (hrank id _ hlook (id', ds') (List.mem_singleton_self _))
    | base _ => exact hself nofun rfl
    | cons _ _ => exact hself nofun rfl
    | tuple _ => exact hself nofun rfl
    | flex _ => exact hself nofun rfl
    | fixd _ _ => exact hself nofun rfl
    | dynamic => exact hself nofun rfl
    | unspeced => exact hself nofun rfl
    | error => exact hself nofun rfl

theorem dereference_spec (hrank : Ranked number rank (look table)) (t : ExprType) :
    ∃ u, dereference table t = some u ∧ Dereferenced rank table t u := by
  refine dereferenceFuel_spec hrank (Nat.le_add_left _ _) fun id ds u _ hlook => ?_
  have : below rank table id < table.length := below_lt_length hlook
  omega

/-- A type that is no bound variable is left as it is. -/
theorem dereference_self (h : ∀ id ds, t = .tvar id ds → look table id = none) : dereference table t = some t := by
  cases t with
  | tvar id ds => simp only [dereference, dereferenceFuel, h id ds rfl]
  | _ => rfl

theorem mapM_total {f : ExprType → Option ExprType} {g : ExprType → ExprType} {ts : List ExprType}
    (h : ∀ t ∈ ts, f t = some (g t)) : ts.mapM f = some (ts.map g) := by
  induction ts with
  | nil => rfl
  | cons t ts ih =>
    rw [List.forall_mem_cons] at h
    simp only [List.mapM_cons, h.1, ih h.2, Option.bind_eq_bind, Option.bind_some, Option.pure_def, List.map_cons]

/-- With enough fuel the instance is found. -/
def Instantiates (table : List (Nat × ExprType)) (t u : ExprType) : Prop :=
  ∃ fuel, ∀ more, instantiate table (fuel + more) t = some u

theorem Instantiates.step (fuel : Nat) (h : ∀ more, instantiate table (fuel + more + 1) t = some u) :
    Instantiates table t u :=
  ⟨fuel + 1, fun more => by rw [Nat.add_right_comm]; exact h more⟩

mutual

variable {σ : TVar → ExprType} {n : Nat}

/-- If the variables of lower rank have instances, so have the types over them. -/
theorem instantiates_below (hvar : ∀ x : TVar, rank x.1 < n → Instantiates table (.tvar x.1 x.2) (σ x)) :
    ∀ t : ExprType, (∀ x ∈ t.vars, rank x.1 < n) → Instantiates table t (t.app σ)
  | .tvar id ds, h => hvar (id, ds) (h _ (List.mem_singleton_self _))
  | .cons name args, h => by
    obtain ⟨fuel, hargs⟩ := instantiateAll_below hvar args h
    refine .step fuel fun more => ?_
    rw [instantiate, mapM_total (hargs more), ExprType.app, ExprType.appAll_eq_map]
    rfl
  | .tuple args, h => by
    obtain ⟨fuel, hargs⟩ := instantiateAll_below hvar args h
    refine .step fuel fun more => ?_
    rw [instantiate, mapM_total (hargs more), ExprType.app, ExprType.appAll_eq_map]
    rfl
  | .flex t, h => by
    obtain ⟨fuel, ht⟩ := instantiates_below hvar t h
    refine .step fuel fun more => ?_
    rw [instantiate, ht more]
    rfl
  | .fixd t u, h => by
    obtain ⟨fuel, ht⟩ := instantiates_below hvar t fun x hx => h x (List.mem_append_left _ hx)
    obtain ⟨fuel', hu⟩ := instantiates_below hvar u fun x hx => h x (List.mem_append_right _ hx)
    refine .step (fuel + fuel') fun more => ?_
    have ht := ht (fuel' + more)
    have hu := hu (fuel + more)
    rw [← Nat.add_assoc] at ht
    rw [Nat.add_left_comm, ← Nat.add_assoc] at hu
    simp only [instantiate, ht, hu, Option.bind_eq_bind, Option.bind_some]
    rfl
  | .base _, _ => .step 0 fun _ => rfl
  | .dynamic, _ => .step 0 fun _ => rfl
  | .unspeced, _ => .step 0 fun _ => rfl
  | .error, _ => .step 0 fun _ => rfl

theorem instantiateAll_below (hvar : ∀ x : TVar, rank x.1 < n → Instantiates table (.tvar x.1 x.2) (σ x)) :
    ∀ ts : List ExprType, (∀ x ∈ ExprType.varsAll ts, rank x.1 < n) →
    ∃ fuel, ∀ more, ∀ t ∈ ts, instantiate table (fuel + more) t = some (t.app σ)
  | [], _ => ⟨0, fun _ => nofun⟩
  | t :: ts, h => by
    obtain ⟨fuel, ht⟩ := instantiates_below hvar t fun x hx => h x (List.mem_append_left _ hx)
    obtain ⟨fuel', hts⟩ := instantiateAll_below hvar ts fun x hx => h x (List.mem_append_right _ hx)
    refine ⟨fuel + fuel', fun more u hu => ?_⟩
    rw [List.mem_cons] at hu
    rcases hu with rfl | hu
    · rw [Nat.add_assoc]
      exact ht _
    · rw [Nat.add_assoc, Nat.add_left_comm]
      exact hts _ u hu

end

/-- Every type has the instance of the most general solution. -/
theorem instantiates_solution (hrank : Ranked number rank (look table)) (t : ExprType) :
    Instantiates table t (t.app (solution number rank (look table))) := by
  have hvar : ∀ n, ∀ x : TVar, rank x.1 < n →
      Instantiates table (.tvar x.1 x.2) (solution number rank (look table) x) := by
    intro n
    induction n with
    | zero => exact fun x hx => absurd hx (Nat.not_lt_zero _)
    | succ n ih =>
      intro x hx
      cases hlook : look table x.1 with
      | none =>
        refine .step 0 fun more => ?_
        rw [instantiate, solution_free hlook]
        exact if_pos (Option.isNone_iff_eq_none.mpr hlook)
      | some t =>
        obtain ⟨u, hderef, hu⟩ := dereference_spec hrank (.tvar x.1 x.2)
        have hsame := hu.same _ (solution_solves hrank)
        have hlower : ∀ y ∈ u.vars, rank y.1 < n := by
          rcases hu.lower with rfl | ⟨id, ds, hx', -, hlow⟩
          · rw [hu.free x.1 x.2 rfl] at hlook
            cases hlook
          · cases hx'
            exact fun y hy => Nat.lt_of_lt_of_le (hlow y hy) (Nat.le_of_lt_succ hx)
        obtain ⟨fuel, hinst⟩ := instantiates_below ih u hlower
        refine .step fuel fun more => ?_
        have hbound : ¬ (lookupFromHashTable table x.1).isNone = true := by
          rw [show lookupFromHashTable table x.1 = some t from hlook]
          exact Bool.false_ne_true
        rw [instantiate, if_neg hbound, hderef, Option.bind_some, hinst more, ← hsame]
        rfl
  obtain ⟨n, hn⟩ := exists_bound (fun x : TVar => rank x.1) t.vars
  exact instantiates_below (hvar n) t hn

end Unification
