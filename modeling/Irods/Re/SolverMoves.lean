-- SUMMARY: What the solver's operations do to its tables.
import Irods.Re.Equivalence
import Mathlib.Data.Finset.Card

/-!
# Moves of the solver

A move binds variables among given ones and new ones, to types over the same variables. It keeps the
tables in order, and it does not make any type higher. What goes down is the number of variables in use
that are not bound.
-/

namespace Solving

open Typing (ExprType BaseType TVar Solver Satisfiability lookupFromHashTable createType createSimpleConstraint
  narrow simplifyL simplifyR fullyBounded doNarrow narrowedL narrowedR addToEquivalenceClass)
open Triangular
open Unification (look number AcyclicTable lookup_insert)

variable {P Q : Nat → Prop} {env env' : List (Nat × ExprType)} {L L' L'' : Finset Nat} {s s' s'' : Solver}
  {t u a b : ExprType} {id i j n : Nat} {ds is js nc : List BaseType}

/-! ## Types -/

mutual

/-- A type of variables, base types, constructors and tuples; `P` holds of the variables. -/
def Plain (P : Nat → Prop) : ExprType → Prop
  | .base b => Named b
  | .tvar id ds => P id ∧ ∀ d ∈ ds, Named d
  | .cons _ args => PlainAll P args
  | .tuple args => PlainAll P args
  | _ => False

def PlainAll (P : Nat → Prop) : List ExprType → Prop
  | [] => True
  | t :: ts => Plain P t ∧ PlainAll P ts

end

theorem plainAll_iff {ts : List ExprType} : PlainAll P ts ↔ ∀ t ∈ ts, Plain P t := by
  induction ts with
  | nil => simp [PlainAll]
  | cons t ts ih => simp [PlainAll, ih]

mutual

theorem Plain.of_mem : ∀ {t : ExprType}, Plain P t → ∀ {x : TVar}, x ∈ t.vars → P x.1
  | .tvar _ _, ht, x, hx => by
    obtain rfl := List.mem_singleton.mp hx
    exact ht.1
  | .cons _ _, ht, x, hx => PlainAll.of_mem ht hx
  | .tuple _, ht, x, hx => PlainAll.of_mem ht hx

theorem PlainAll.of_mem : ∀ {ts : List ExprType}, PlainAll P ts → ∀ {x : TVar}, x ∈ ExprType.varsAll ts → P x.1
  | _ :: _, ht, x, hx => by
    rcases List.mem_append.mp hx with hx | hx
    · exact Plain.of_mem ht.1 hx
    · exact PlainAll.of_mem ht.2 hx

end

mutual

/-- What holds of the variables of the type can be said of it. -/
theorem Plain.of_vars : ∀ {t : ExprType}, Plain P t → (∀ x ∈ t.vars, Q x.1) → Plain Q t
  | .base _, ht, _ => ht
  | .tvar id ds, ht, h => ⟨h (id, ds) (List.mem_singleton_self _), ht.2⟩
  | .cons _ _, ht, h => PlainAll.of_vars ht h
  | .tuple _, ht, h => PlainAll.of_vars ht h

theorem PlainAll.of_vars : ∀ {ts : List ExprType}, PlainAll P ts → (∀ x ∈ ExprType.varsAll ts, Q x.1) → PlainAll Q ts
  | [], _, _ => trivial
  | _ :: _, ht, h => ⟨Plain.of_vars ht.1 fun x hx => h x (List.mem_append_left _ hx),
    PlainAll.of_vars ht.2 fun x hx => h x (List.mem_append_right _ hx)⟩

end

theorem Plain.imp (h : ∀ id, P id → Q id) (ht : Plain P t) : Plain Q t := ht.of_vars fun _ hx => h _ (ht.of_mem hx)

/-- The unfolding of the type through the environment is at most so high. -/
inductive Height (env : List (Nat × ExprType)) : Nat → ExprType → Prop
  | base {n : Nat} {b : BaseType} : Height env n (.base b)
  | free {n id : Nat} {ds : List BaseType} : look env id = none → Height env n (.tvar id ds)
  | bound {n id : Nat} {ds : List BaseType} {t : ExprType} :
    look env id = some t → Height env n t → Height env n (.tvar id ds)
  | cons {n : Nat} {f : String} {args : List ExprType} : (∀ t ∈ args, Height env n t) →
    Height env (n + 1) (.cons f args)
  | tuple {n : Nat} {args : List ExprType} : (∀ t ∈ args, Height env n t) → Height env (n + 1) (.tuple args)

theorem Height.mono {m : Nat} (h : Height env n t) (hnm : n ≤ m) : Height env m t := by
  induction h generalizing m with
  | base => exact .base
  | free hfree => exact .free hfree
  | bound hlook _ ih => exact .bound hlook (ih hnm)
  | cons _ ih =>
    obtain ⟨m, rfl⟩ : ∃ m', m = m' + 1 := ⟨m - 1, by omega⟩
    exact .cons fun t ht => ih t ht (by omega)
  | tuple _ ih =>
    obtain ⟨m, rfl⟩ : ∃ m', m = m' + 1 := ⟨m - 1, by omega⟩
    exact .tuple fun t ht => ih t ht (by omega)

mutual

variable {rank : Nat → Nat} {r : Nat}

theorem height_below (hvar : ∀ id ds, rank id < r → ∃ n, Height env n (.tvar id ds)) :
    ∀ t : ExprType, Plain (fun id => rank id < r) t → ∃ n, Height env n t
  | .base _, _ => ⟨0, .base⟩
  | .tvar id ds, ht => hvar id ds ht.1
  | .cons _ args, ht => by
    obtain ⟨n, hn⟩ := heights_below hvar args ht
    exact ⟨n + 1, .cons hn⟩
  | .tuple args, ht => by
    obtain ⟨n, hn⟩ := heights_below hvar args ht
    exact ⟨n + 1, .tuple hn⟩

theorem heights_below (hvar : ∀ id ds, rank id < r → ∃ n, Height env n (.tvar id ds)) :
    ∀ ts : List ExprType, PlainAll (fun id => rank id < r) ts → ∃ n, ∀ t ∈ ts, Height env n t
  | [], _ => ⟨0, nofun⟩
  | t :: ts, ht => by
    obtain ⟨n, hn⟩ := height_below hvar t ht.1
    obtain ⟨m, hm⟩ := heights_below hvar ts ht.2
    refine ⟨n + m, fun u hu => ?_⟩
    rw [List.mem_cons] at hu
    rcases hu with rfl | hu
    · exact hn.mono (Nat.le_add_right _ _)
    · exact (hm u hu).mono (Nat.le_add_left _ _)

end

theorem exists_height (hacyclic : AcyclicTable env)
    (hvalues : ∀ id t, look env id = some t → Plain P t) (ht : Plain Q t) :
    ∃ n, Height env n t := by
  obtain ⟨rank, hrank⟩ := hacyclic
  have hvar : ∀ r id ds, rank id < r → ∃ n, Height env n (.tvar id ds) := by
    intro r
    induction r with
    | zero => exact nofun
    | succ r ih =>
      intro id ds hid
      cases hlook : look env id with
      | none => exact ⟨0, .free hlook⟩
      | some u =>
        have hlower (x : TVar) (hx : x ∈ u.vars) : rank x.1 < r :=
          Nat.lt_of_lt_of_le (hrank id u hlook x hx) (Nat.le_of_lt_succ hid)
        obtain ⟨n, hn⟩ := height_below ih u ((hvalues id u hlook).of_vars hlower)
        exact ⟨n, .bound hlook hn⟩
  obtain ⟨r, hr⟩ := exists_bound (fun x : TVar => rank x.1) t.vars
  exact height_below (hvar r) t (ht.of_vars hr)

/-- A new binding to a base type or to a variable that is not bound. -/
theorem Height.bind_leaf (hext : ∀ id', id' ≠ id → look env' id' = look env id') (hu : look env' id = some u)
    (hleaf : ∀ n, Height env' n u) (hfree : look env id = none) (ht : Height env n t) : Height env' n t := by
  induction ht with
  | base => exact .base
  | @free n id' ds hnone =>
    by_cases hid : id' = id
    · obtain rfl := hid
      exact .bound hu (hleaf n)
    · exact .free ((hext id' hid).trans hnone)
  | @bound n id' ds w hlook _ ih =>
    have hid : id' ≠ id := by
      rintro rfl
      rw [hfree] at hlook
      cases hlook
    exact .bound ((hext id' hid).trans hlook) ih
  | cons _ ih => exact .cons ih
  | tuple _ ih => exact .tuple ih

/-- Bindings of other variables than those the type leads to. -/
theorem Height.bind_outside (hclosed : ∀ id t, P id → look env id = some t → Plain P t)
    (hsame : ∀ id, P id → look env' id = look env id) (hP : Plain P t) (ht : Height env n t) : Height env' n t := by
  induction ht with
  | base => exact .base
  | free hnone => exact .free ((hsame _ hP.1).trans hnone)
  | bound hlook _ ih => exact .bound ((hsame _ hP.1).trans hlook) (ih (hclosed _ _ hP.1 hlook))
  | cons _ ih => exact .cons fun u hu => ih u hu (plainAll_iff.mp hP u hu)
  | tuple _ ih => exact .tuple fun u hu => ih u hu (plainAll_iff.mp hP u hu)

/-! ## The tables -/

/-- The tables are in order, and the variables in `L` are all those in use. -/
structure Tracked (L : Finset Nat) (s : Solver) : Prop where
  below : ∀ id ∈ L, id < s.tvarNumber
  keys : ∀ id t, look s.typingEnv id = some t → id < s.tvarNumber
  values : ∀ id t, look s.typingEnv id = some t → Plain (· ∈ L) t
  acyclic : AcyclicTable s.typingEnv
  coherent : Coherent s.typingEnv s.equivalence
  kept : s.simpleTypingConstraints = []

/-- The variables in use that are not bound. -/
def openVars (L : Finset Nat) (s : Solver) : Nat := (L.filter fun id => (look s.typingEnv id).isNone).card

/-- A variable that is not bound, or a base type. -/
def Root (L : Finset Nat) (s : Solver) : ExprType → Prop
  | .base b => Named b
  | .tvar id ds => id ∈ L ∧ look s.typingEnv id = none ∧ ∀ d ∈ ds, Named d
  | _ => False

/-- The unbound variables of a root. -/
def weight : ExprType → Nat
  | .tvar _ _ => 1
  | _ => 0

/-- The variable, with some disjuncts. -/
def IsVar (t : ExprType) (id : Nat) : Prop := ∃ ds, t = .tvar id ds

/-- The variable is one of those that may be bound, or a new one. -/
def Touched (B : Nat → Prop) (s s' : Solver) (id : Nat) : Prop := B id ∨ s.tvarNumber ≤ id ∧ id < s'.tvarNumber

/-- Only variables in `B` and new ones are bound, and only to types over such; types over `H` do not get higher. -/
structure Moves (B H : Nat → Prop) (L : Finset Nat) (s : Solver) (L' : Finset Nat) (s' : Solver) : Prop where
  tracked : Tracked L' s'
  sub : L ⊆ L'
  tvarNumber : s.tvarNumber ≤ s'.tvarNumber
  extends' : Triangular.Extends (look s.typingEnv) (look s'.typingEnv)
  touched : ∀ id t, look s'.typingEnv id = some t → look s.typingEnv id = none →
    Touched B s s' id ∧ Plain (Touched B s s') t
  heights : ∀ n t, Plain H t → Height s.typingEnv n t → Height s'.typingEnv n t

variable {B H : Nat → Prop}

section Moving

variable {B' H' : Nat → Prop}

theorem Moves.refl (hs : Tracked L s) : Moves B H L s L s :=
  ⟨hs, fun _ h => h, le_rfl, .refl _, fun _ _ hsome hnone => absurd (hsome.symm.trans hnone) nofun,
    fun _ _ _ h => h⟩

theorem Moves.imp (h : Moves B H L s L' s') (hB : ∀ id, B id → B' id) (hH : ∀ id, H' id → H id) :
    Moves B' H' L s L' s' where
  tracked := h.tracked
  sub := h.sub
  tvarNumber := h.tvarNumber
  extends' := h.extends'
  touched id t hsome hnone := by
    have himp (id : Nat) (hid : Touched B s s' id) : Touched B' s s' id := hid.imp_left (hB id)
    obtain ⟨hid, ht⟩ := h.touched id t hsome hnone
    exact ⟨himp id hid, ht.imp himp⟩
  heights n t ht := h.heights n t (ht.imp hH)

theorem Moves.trans (h : Moves B H L s L' s') (h' : Moves B' H' L' s' L'' s'') (hB : ∀ id, B' id → Touched B s s' id)
    (hH : ∀ id, H id → H' id) : Moves B H L s L'' s'' where
  tracked := h'.tracked
  sub := h.sub.trans h'.sub
  tvarNumber := h.tvarNumber.trans h'.tvarNumber
  extends' := h.extends'.trans h'.extends'
  touched id t hsome hnone := by
    have hfirst (id : Nat) (hid : Touched B s s' id) : Touched B s s'' id :=
      hid.imp_right fun hnew => ⟨hnew.1, hnew.2.trans_le h'.tvarNumber⟩
    have hsecond (id : Nat) (hid : Touched B' s' s'' id) : Touched B s s'' id := by
      rcases hid with hid | hnew
      · exact hfirst id (hB id hid)
      · exact .inr ⟨h.tvarNumber.trans hnew.1, hnew.2⟩
    cases hmid : look s'.typingEnv id with
    | none =>
      obtain ⟨hid, ht⟩ := h'.touched id t hsome hmid
      exact ⟨hsecond id hid, ht.imp hsecond⟩
    | some u =>
      obtain rfl : t = u := Option.some.inj (hsome.symm.trans (h'.extends' id u hmid))
      obtain ⟨hid, ht⟩ := h.touched id t hmid hnone
      exact ⟨hfirst id hid, ht.imp hfirst⟩
  heights n t ht hheight := h'.heights n t (ht.imp hH) (h.heights n t ht hheight)

/-- A variable that is not touched stays unbound. -/
theorem Moves.free (h : Moves B H L s L' s') (hfree : look s.typingEnv id = none) (hid : ¬ Touched B s s' id) :
    look s'.typingEnv id = none := by
  cases hlook : look s'.typingEnv id with
  | none => rfl
  | some t => exact absurd (h.touched id t hlook hfree).1 hid

end Moving

theorem Root.plain (h : Root L s t) : Plain (· ∈ L) t := by
  cases t with
  | base b => exact h
  | tvar id ds => exact ⟨h.1, h.2.2⟩
  | _ => cases h

theorem Root.leaf (h : Root L s t) : Leaf t := by
  cases t with
  | base b => exact h
  | tvar id ds => trivial
  | _ => cases h

theorem Root.mem (h : Root L s t) (hid : IsVar t id) : id ∈ L ∧ look s.typingEnv id = none := by
  obtain ⟨ds, rfl⟩ := hid
  exact ⟨h.1, h.2.1⟩

/-! ## Binding -/

section Binding

variable {h : List (String × ExprType)}

/-- The variable is bound, and the table of equivalent variables changed to `h`. -/
def bound (s : Solver) (id : Nat) (t : ExprType) (h : List (String × ExprType)) : Solver :=
  { s.bind id t with equivalence := h }

theorem look_bind (hfree : look s.typingEnv id = none) (t : ExprType) :
    look (s.bind id t).typingEnv = Function.update (look s.typingEnv) id (some t) := lookup_insert hfree t

theorem extends_bind (hfree : look s.typingEnv id = none) (t : ExprType) :
    Triangular.Extends (look s.typingEnv) (look (s.bind id t).typingEnv) := by
  intro id' u hlook
  rw [look_bind hfree, Function.update_of_ne, hlook]
  rintro rfl
  rw [hfree] at hlook
  cases hlook

/-- A variable can be bound to a type over other unbound variables. -/
theorem acyclic_bind (hacyclic : AcyclicTable s.typingEnv) (hfree : look s.typingEnv id = none)
    (ht : Plain (fun j => look s.typingEnv j = none ∧ j ≠ id) t) : AcyclicTable (s.bind id t).typingEnv := by
  rw [AcyclicTable, look_bind hfree]
  refine Acyclic.bind hacyclic hfree fun hreach => ?_
  cases hreach with
  | here hx => exact (ht.of_mem hx).2 rfl
  | through hx hlook _ =>
    rw [(ht.of_mem hx).1] at hlook
    cases hlook

theorem Tracked.bind (hs : Tracked L s) (hid : id ∈ L) (hfree : look s.typingEnv id = none)
    (ht : Plain (fun j => j ∈ L ∧ look s.typingEnv j = none ∧ j ≠ id) t) (hc : Coherent (s.bind id t).typingEnv h) :
    Tracked L (bound s id t h) where
  below := hs.below
  keys id' u hlook := by
    rw [show look (bound s id t h).typingEnv = _ from look_bind hfree t] at hlook
    by_cases hid' : id' = id
    · exact hid' ▸ hs.below id hid
    · rw [Function.update_of_ne hid'] at hlook
      exact hs.keys id' u hlook
  values id' u hlook := by
    rw [show look (bound s id t h).typingEnv = _ from look_bind hfree t] at hlook
    by_cases hid' : id' = id
    · obtain rfl := hid'
      rw [Function.update_self] at hlook
      obtain rfl := Option.some.inj hlook
      exact ht.imp fun _ hj => hj.1
    · rw [Function.update_of_ne hid'] at hlook
      exact hs.values id' u hlook
  acyclic := acyclic_bind hs.acyclic hfree (ht.imp fun _ hj => hj.2)
  coherent := hc
  kept := hs.kept

theorem openVars_bound (hid : id ∈ L) (hfree : look s.typingEnv id = none) :
    openVars L (bound s id t h) + 1 = openVars L s := by
  have hmem : id ∈ L.filter fun id => (look s.typingEnv id).isNone := by simp [hid, hfree]
  have herase : (L.filter fun id' => (look (bound s id t h).typingEnv id').isNone) =
      (L.filter fun id => (look s.typingEnv id).isNone).erase id := by
    ext id'
    rw [show look (bound s id t h).typingEnv = _ from look_bind hfree t]
    by_cases hid' : id' = id
    · simp [hid']
    · simp [hid']
  rw [openVars, herase, Finset.card_erase_add_one hmem]
  rfl

/-- A new binding touches the variable only, and makes nothing higher if it is to a root. -/
theorem Moves.bind (hs : Tracked L s) (hid : id ∈ L) (hB : B id) (hfree : look s.typingEnv id = none)
    (ht : Root L s t) (hne : ¬ IsVar t id) (htB : ∀ j, IsVar t j → B j) (hc : Coherent (s.bind id t).typingEnv h) :
    Moves B (fun _ => True) L s L (bound s id t h) := by
  have hlook := look_bind hfree t
  have hself : look (s.bind id t).typingEnv id = some t := by rw [hlook, Function.update_self]
  have hother (j : Nat) (hj : j ≠ id) : look (s.bind id t).typingEnv j = look s.typingEnv j := by
    rw [hlook, Function.update_of_ne hj]
  have hplain : Plain (fun j => j ∈ L ∧ look s.typingEnv j = none ∧ j ≠ id) t := by
    cases t with
    | base b => exact ht
    | tvar j js => exact ⟨⟨ht.1, ht.2.1, fun hj => hne ⟨js, hj ▸ rfl⟩⟩, ht.2.2⟩
    | _ => cases ht
  refine ⟨hs.bind hid hfree hplain hc, fun _ h => h, le_rfl, extends_bind hfree t,
    fun id' u hsome hnone => ?_, fun n u _ hheight => ?_⟩
  · have hid' : id' = id := by
      by_contra hid'
      rw [show look (bound s id t h).typingEnv id' = _ from hother id' hid', hnone] at hsome
      cases hsome
    obtain rfl := hid'
    obtain rfl : t = u := Option.some.inj (hself.symm.trans hsome)
    refine ⟨.inl hB, ?_⟩
    cases t with
    | base b => exact ht
    | tvar j js => exact ⟨.inl (htB j ⟨js, rfl⟩), ht.2.2⟩
    | _ => cases ht
  · refine Height.bind_leaf hother hself (fun m => ?_) hfree hheight
    cases t with
    | base b => exact .base
    | tvar j js => exact .free ((hother j fun hj => hne ⟨js, hj ▸ rfl⟩).trans ht.2.1)
    | _ => cases ht

theorem Tracked.count (hs : Tracked L s) (hsub : L ⊆ L') (hnew : ∀ id ∈ L', id ∈ L ∨ id < s.tvarNumber + n) :
    Tracked L' { s with tvarNumber := s.tvarNumber + n } where
  below id hid := by
    rcases hnew id hid with hold | hlt
    · exact Nat.lt_of_lt_of_le (hs.below id hold) (Nat.le_add_right _ _)
    · exact hlt
  keys id t hlook := Nat.lt_of_lt_of_le (hs.keys id t hlook) (Nat.le_add_right _ _)
  values id t hlook := (hs.values id t hlook).imp fun _ hid => hsub hid
  acyclic := hs.acyclic
  coherent := hs.coherent
  kept := hs.kept

theorem Moves.count (hs : Tracked L s) (hsub : L ⊆ L') (hnew : ∀ id ∈ L', id ∈ L ∨ id < s.tvarNumber + n) :
    Moves B H L s L' { s with tvarNumber := s.tvarNumber + n } :=
  ⟨hs.count hsub hnew, hsub, Nat.le_add_right _ _, .refl _,
    fun _ _ hsome hnone => absurd (hsome.symm.trans hnone) nofun,
    fun _ _ _ h => h⟩

theorem Tracked.look_new (hs : Tracked L s) (hid : s.tvarNumber ≤ id) : look s.typingEnv id = none := by
  cases hlook : look s.typingEnv id with
  | none => rfl
  | some t => exact absurd (hs.keys id t hlook) (by omega)

end Binding

/-! ## Constraints on variables -/

/-- A root stays one where its variable is not touched. -/
theorem Root.of_moves (ht : Root L s t) (h : Moves B H L s L' s') (hs : Tracked L s) (hB : ∀ j, IsVar t j → ¬ B j) :
    Root L' s' t := by
  cases t with
  | base b => exact ht
  | tvar j js =>
    refine ⟨h.sub ht.1, h.free ht.2.1 fun htouched => ?_, ht.2.2⟩
    have hlt := hs.below j ht.1
    rcases htouched with hj | hnew
    · exact hB j ⟨js, rfl⟩ hj
    · omega
  | _ => cases ht

/-- Two leaves are joined, and a variable is bound so that they are equal. -/
theorem join_bind (hs : Tracked L s) (ha : Root L s a) (hb : Root L s b) (hi : Root L s (.tvar id ds)) (ht : Root L s t)
    (hne : ¬ IsVar t id) (hsame : Same (s.bind id t).typingEnv a b) :
    ∃ h, addToEquivalenceClass s a b = some { s with equivalence := h } ∧ Tracked L (bound s id t h) ∧
      Coherent (s.bind id t).typingEnv h := by
  have hfree := hi.2.1
  have hplain : Plain (fun j => j ∈ L ∧ look s.typingEnv j = none ∧ j ≠ id) t :=
    ht.plain.of_vars fun x hx => by
      cases t with
      | tvar j js =>
        obtain rfl := List.mem_singleton.mp hx
        exact ⟨ht.1, ht.2.1, fun hj => hne ⟨js, hj ▸ rfl⟩⟩
      | base b => cases hx
      | _ => cases ht
  obtain ⟨h, hjoin, hc⟩ := addToEquivalenceClass_spec (acyclic_bind hs.acyclic hfree (hplain.imp fun _ hj => hj.2))
    (hs.coherent.of_extends (extends_bind hfree t)) ha.leaf hb.leaf hsame
  exact ⟨h, hjoin, hs.bind hi.1 hfree hplain hc, hc⟩

/-- What a constraint between two roots leaves. -/
structure Constrained (L : Finset Nat) (s : Solver) (a b : ExprType) (s' : Solver) : Prop where
  moves : Moves (fun id => IsVar a id ∨ IsVar b id) (fun _ => True) L s L s'
  left : openVars L s' + weight a ≤ openVars L s
  right : openVars L s' + weight b ≤ openVars L s

theorem weight_le (t : ExprType) : weight t ≤ 1 := by
  cases t <;> simp [weight]

theorem constrained_bind (hs : Tracked L s) (ha : Root L s a) (hb : Root L s b) (hi : Root L s (.tvar id ds))
    (ht : Root L s t) (hne : ¬ IsVar t id) (hsame : Same (s.bind id t).typingEnv a b) (hid : IsVar a id ∨ IsVar b id)
    (hvars : ∀ j, IsVar t j → IsVar a j ∨ IsVar b j) :
    ∃ h, addToEquivalenceClass s a b = some { s with equivalence := h } ∧ Constrained L s a b (bound s id t h) := by
  obtain ⟨h, hjoin, -, hc⟩ := join_bind hs ha hb hi ht hne hsame
  have hopen := openVars_bound (s := s) (t := t) (h := h) hi.1 hi.2.1
  have := weight_le a
  have := weight_le b
  exact ⟨h, hjoin, .bind hs hi.1 hid hi.2.1 ht hne hvars hc, by omega, by omega⟩

theorem createSimpleConstraint_spec (hs : Tracked L s) (ha : Root L s a) (hb : Root L s b)
    (hne : ∀ id, IsVar a id → ¬ IsVar b id) :
    ∃ s', createSimpleConstraint s a b false = some (.tautology, s') ∧ Constrained L s a b s' := by
  -- the first is bound to the second, or the other way round
  have hleft (i : Nat) (is : List BaseType) (hi : a = .tvar i is) :
      ∃ h, addToEquivalenceClass s a b = some { s with equivalence := h } ∧ Constrained L s a b (bound s i b h) := by
    subst hi
    have hlook : look (s.bind i b).typingEnv i = some b := by rw [look_bind ha.2.1, Function.update_self]
    exact constrained_bind hs ha hb ha hb (hne i ⟨is, rfl⟩) (.of_bound hlook) (.inl ⟨is, rfl⟩) fun _ => .inr
  have hright (j : Nat) (js : List BaseType) (hj : b = .tvar j js) :
      ∃ h, addToEquivalenceClass s a b = some { s with equivalence := h } ∧ Constrained L s a b (bound s j a h) := by
    subst hj
    have hlook : look (s.bind j a).typingEnv j = some a := by rw [look_bind hb.2.1, Function.update_self]
    exact constrained_bind hs ha hb hb ha (fun hj => hne j hj ⟨js, rfl⟩) (Same.of_bound hlook).symm
      (.inr ⟨js, rfl⟩) fun _ => .inl
  match a, b with
  | .base _, .base _ => exact ⟨s, rfl, .refl hs, le_rfl, le_rfl⟩
  | .base c, .tvar j js =>
    obtain ⟨h, hjoin, hspec⟩ := hright j js rfl
    refine ⟨_, ?_, hspec⟩
    simp only [createSimpleConstraint, hjoin, ExprType.isBaseType, Bool.and_false, Bool.or_true]
    rfl
  | .tvar i is, .base c =>
    obtain ⟨h, hjoin, hspec⟩ := hleft i is rfl
    refine ⟨_, ?_, hspec⟩
    simp only [createSimpleConstraint, hjoin, ExprType.isBaseType, Bool.false_and, Bool.or_true]
    rfl
  | .tvar i is, .tvar j js =>
    by_cases hfirst : is = [] ∨ js ≠ []
    · obtain ⟨h, hjoin, hspec⟩ := hleft i is rfl
      refine ⟨_, ?_, hspec⟩
      simp only [createSimpleConstraint, hjoin]
      rcases is with _ | ⟨d, is⟩
      · rfl
      · rcases js with _ | ⟨e, js⟩
        · simp at hfirst
        · rfl
    · obtain ⟨h, hjoin, hspec⟩ := hright j js rfl
      refine ⟨_, ?_, hspec⟩
      simp only [createSimpleConstraint, hjoin]
      rcases is with _ | ⟨d, is⟩
      · simp at hfirst
      · rcases js with _ | ⟨e, js⟩
        · rfl
        · simp at hfirst

/-- What `createType` makes of a variable that is not bound. -/
structure Created (L : Finset Nat) (s : Solver) (i : Nat) (is nc : List BaseType) (an : ExprType) (L' : Finset Nat)
    (s' : Solver) : Prop where
  moves : Moves (· = i) (fun _ => True) L s L' s'
  root : Root L' s' an
  opened : openVars L' s' + 1 ≤ openVars L s + weight an
  name : ∀ j, IsVar an j → j = i ∨ s.tvarNumber ≤ j
  changed : nc.length ≠ is.length → ¬ IsVar an i
  single : ∀ b, nc = [b] → is.length ≠ 1 → an = .base b
  unchanged : nc.length = is.length → an = .tvar i is ∧ s' = s

/-- The variable is bound to a root and joined with it. -/
theorem create_bind {gcd : ExprType} (hs : Tracked L s) (hi : Root L s (.tvar i is)) (hgcd : Root L s gcd)
    (hne : ¬ IsVar gcd i) :
    ∃ h, addToEquivalenceClass (s.bind i gcd) (.tvar i is) gcd = some (bound s i gcd h) ∧
      Coherent (s.bind i gcd).typingEnv h := by
  obtain ⟨_, -, htracked, -⟩ := join_bind hs hi hgcd hi hgcd hne
    (.of_bound (by rw [look_bind hi.2.1, Function.update_self]))
  have hlook : look (s.bind i gcd).typingEnv i = some gcd := by rw [look_bind hi.2.1, Function.update_self]
  exact addToEquivalenceClass_spec (s := s.bind i gcd) htracked.acyclic
    (hs.coherent.of_extends (extends_bind hi.2.1 gcd)) trivial hgcd.leaf (.of_bound hlook)

theorem createType_spec (hs : Tracked L s) (hi : Root L s (.tvar i is)) (hnc : ∀ d ∈ nc, Named d) :
    ∃ an L' s', createType s i is nc = some (an, s') ∧ Created L s i is nc an L' s' := by
  by_cases hlen : nc.length = is.length
  · refine ⟨.tvar i is, L, s, by simp only [createType, if_pos hlen], .refl hs, hi, le_rfl, ?_, absurd hlen, ?_,
      fun _ => ⟨rfl, rfl⟩⟩
    · rintro j ⟨ds, hj⟩
      cases hj
      exact .inl rfl
    · intro b hb hone
      rw [hb] at hlen
      exact absurd hlen.symm hone
  by_cases hsingle : ∃ b, nc = [b]
  · obtain ⟨b, rfl⟩ := hsingle
    have hb : Root L s (.base b) := hnc b (List.mem_singleton_self b)
    have hne (j : Nat) : ¬ IsVar (.base b) j := nofun
    obtain ⟨h, hjoin, hc⟩ := create_bind hs hi hb (hne i)
    have hmoves := Moves.bind (B := (· = i)) hs hi.1 rfl hi.2.1 hb (hne i) (fun j hj => absurd hj (hne j)) hc
    refine ⟨.base b, L, _, ?_, hmoves, hb, (openVars_bound hi.1 hi.2.1).le, fun j hj => absurd hj (hne j),
      fun _ => hne i, fun _ hb _ => ?_, fun h => absurd h hlen⟩
    · simp only [createType, if_neg hlen, hjoin]
      rfl
    · cases hb
      rfl
  · -- a new variable stands for the disjuncts that are left
    have hnew := hs.look_new le_rfl
    have hnot : s.tvarNumber ∉ L := fun hmem => absurd (hs.below _ hmem) (Nat.lt_irrefl _)
    have hsub : L ⊆ insert s.tvarNumber L := Finset.subset_insert _ _
    have hmem (id : Nat) (hid : id ∈ insert s.tvarNumber L) : id ∈ L ∨ id < s.tvarNumber + 1 := by
      rcases Finset.mem_insert.mp hid with rfl | hid
      · exact .inr (Nat.lt_succ_self _)
      · exact .inl hid
    have hcount := hs.count hsub hmem
    have hi' : Root (insert s.tvarNumber L) { s with tvarNumber := s.tvarNumber + 1 } (.tvar i is) :=
      ⟨hsub hi.1, hi.2⟩
    have hgcd : Root (insert s.tvarNumber L) { s with tvarNumber := s.tvarNumber + 1 } (.tvar s.tvarNumber nc) :=
      ⟨Finset.mem_insert_self _ _, hnew, hnc⟩
    have hne : ¬ IsVar (.tvar s.tvarNumber nc) i := by
      rintro ⟨ds, hid⟩
      cases hid
      exact hnot hi.1
    have hvar (j : Nat) (hj : IsVar (.tvar s.tvarNumber nc) j) : j = s.tvarNumber := by
      obtain ⟨ds, hj⟩ := hj
      cases hj
      rfl
    obtain ⟨h, hjoin, hc⟩ := create_bind hcount hi' hgcd hne
    have hbind := Moves.bind (B := fun j => j = i ∨ j = s.tvarNumber) hcount hi'.1 (.inl rfl) hi'.2.1 hgcd hne
      (fun j hj => .inr (hvar j hj)) hc
    have hmoves : Moves (· = i) (fun _ => True) L s (insert s.tvarNumber L) _ :=
      (Moves.count hs hsub hmem).trans hbind (fun j hj => hj.imp_right fun hj => by subst hj; exact ⟨le_rfl,
        Nat.lt_succ_self _⟩) fun _ h => h
    have hopen := openVars_bound (s := { s with tvarNumber := s.tvarNumber + 1 }) (t := .tvar s.tvarNumber nc) (h := h)
      hi'.1 hi'.2.1
    have hinsert : openVars (insert s.tvarNumber L) { s with tvarNumber := s.tvarNumber + 1 } = openVars L s + 1 := by
      rw [openVars, openVars, Finset.filter_insert, if_pos (by rw [hnew]; rfl), Finset.card_insert_of_notMem]
      exact fun hfilter => hnot (Finset.mem_filter.mp hfilter).1
    refine ⟨.tvar s.tvarNumber nc, _, _, ?_, hmoves, ?_, ?_, fun j hj => .inr (hvar j hj).ge, fun _ => hne,
      fun b hb _ => absurd ⟨b, hb⟩ hsingle, fun h => absurd h hlen⟩
    · rcases nc with _ | ⟨c, _ | ⟨d, nc⟩⟩
      · simp only [createType, if_neg hlen, hjoin]
        rfl
      · exact absurd ⟨c, rfl⟩ hsingle
      · simp only [createType, if_neg hlen, hjoin]
        rfl
    · have hother : s.tvarNumber ≠ i := fun hid => hne ⟨nc, by rw [hid]⟩
      refine ⟨hgcd.1, ?_, hnc⟩
      rw [show look (bound _ _ _ h).typingEnv = _ from look_bind hi'.2.1 _, Function.update_of_ne hother]
      exact hnew
    · simp only [weight]
      omega

/-! ## Comparisons of leaves -/

/-- A comparison that holds binds something, or it leaves the environment as it is. -/
structure Settled (B : Nat → Prop) (L : Finset Nat) (s : Solver) (L' : Finset Nat) (s' : Solver) : Prop where
  moves : Moves B (fun _ => True) L s L' s'
  progress : s'.typingEnv = s.typingEnv ∧ openVars L' s' ≤ openVars L s ∨ openVars L' s' + 1 ≤ openVars L s

/-- What is returned is an absurdity, or a tautology and `after` holds. -/
def Returns (after : Finset Nat → Solver → Prop) (r : Option (Satisfiability × Solver)) : Prop :=
  ∃ v s', r = some (v, s') ∧ (v = .absurdity ∨ v = .tautology ∧ ∃ L', after L' s')

theorem IsVar.eq (h : IsVar (.tvar id ds) j) : j = id := by
  obtain ⟨js, h⟩ := h
  cases h
  rfl

theorem named_narrowed {x y : BaseType} (hx : Named x) (hy : Named y) :
    Named (narrowedL x y) ∧ Named (narrowedR x y) := by
  unfold narrowedR narrowedL
  constructor <;> split_ifs <;> assumption

theorem doNarrow_named (his : ∀ d ∈ is, Named d) (hjs : ∀ d ∈ js, Named d) (flex : Bool) :
    (∀ d ∈ (doNarrow is js flex).1, Named d) ∧ ∀ d ∈ (doNarrow is js flex).2, Named d := by
  refine ⟨fun d hd => ?_, fun d hd => ?_⟩
  · obtain ⟨x, hx, hd⟩ := List.mem_filterMap.mp hd
    obtain ⟨y, hy, rfl⟩ := Option.map_eq_some_iff.mp hd
    exact (named_narrowed (his x hx) (hjs y (List.mem_filter.mp (List.mem_of_getLast? hy)).1)).1
  · obtain ⟨y, hy, hd⟩ := List.mem_filterMap.mp hd
    obtain ⟨x, hx, rfl⟩ := Option.map_eq_some_iff.mp hd
    exact (named_narrowed (his x (List.mem_filter.mp (List.mem_of_getLast? hx)).1) (hjs y hy)).2

/-- Two variables without a common disjunct list: one is bound. -/
theorem narrow_free (hs : Tracked L s) (hi : Root L s (.tvar i is)) (hj : Root L s (.tvar j js)) (hij : i ≠ j)
    (hfree : is = [] ∨ js = []) :
    ∃ s', narrow s i is j js false = some (.tautology, s') ∧
      Moves (fun id => id = i ∨ id = j) (fun _ => True) L s L s' ∧ openVars L s' + 1 ≤ openVars L s := by
  have hnot : ¬ (is ≠ [] ∧ js ≠ []) := fun h => hfree.elim h.1 h.2
  obtain ⟨s', hrun, hspec⟩ := createSimpleConstraint_spec hs hi hj fun id hidi hidj => hij (hidi.eq.symm.trans hidj.eq)
  refine ⟨s', ?_, hspec.moves.imp (fun id hid => hid.imp IsVar.eq IsVar.eq) fun _ h => h, hspec.left⟩
  rw [narrow, if_neg hij, if_neg hnot, hrun]

theorem narrow_spec (hs : Tracked L s) (hi : Root L s (.tvar i is)) (hj : Root L s (.tvar j js)) :
    Returns (Settled (fun id => id = i ∨ id = j) L s) (narrow s i is j js false) := by
  by_cases hij : i = j
  · exact ⟨.tautology, s, by rw [narrow, if_pos hij], .inr ⟨rfl, L, .refl hs, .inl ⟨rfl, le_rfl⟩⟩⟩
  by_cases hboth : is ≠ [] ∧ js ≠ []
  case neg =>
    have hfree : is = [] ∨ js = [] := by
      by_contra h
      exact hboth (not_or.mp h)
    obtain ⟨s', hrun, hmoves, hopen⟩ := narrow_free hs hi hj hij hfree
    exact ⟨.tautology, s', hrun, .inr ⟨rfl, L, hmoves, .inr hopen⟩⟩
  by_cases hempty : (doNarrow is js false).1 = [] ∨ (doNarrow is js false).2 = []
  · refine ⟨.absurdity, s, ?_, .inl rfl⟩
    rw [narrow, if_neg hij, if_pos hboth]
    exact if_pos hempty
  obtain ⟨hleft, hright⟩ := doNarrow_named hi.2.2 hj.2.2 false
  obtain ⟨an, L₁, s₁, hrun₁, h₁⟩ := createType_spec hs hi hleft
  have hj₁ : Root L₁ s₁ (.tvar j js) := hj.of_moves h₁.moves hs fun k hk hki => hij (hki.symm.trans hk.eq)
  obtain ⟨bn, L₂, s₂, hrun₂, h₂⟩ := createType_spec h₁.moves.tracked hj₁ hright
  have hjs := hs.below j hj.1
  have htv := h₁.moves.tvarNumber
  have htv' := h₂.moves.tvarNumber
  have han (k : Nat) (hk : IsVar an k) : k < s₁.tvarNumber := h₁.moves.tracked.below k (h₁.root.mem hk).1
  have hbn (k : Nat) (hk : IsVar bn k) : k < s₂.tvarNumber := h₂.moves.tracked.below k (h₂.root.mem hk).1
  have hroot : Root L₂ s₂ an := h₁.root.of_moves h₂.moves h₁.moves.tracked fun k hk hkj => by
    obtain hki | hnew := h₁.name k hk
    · exact hij (hki.symm.trans hkj)
    · omega
  have hne (k : Nat) (hka : IsVar an k) (hkb : IsVar bn k) : False := by
    have hlt := han k hka
    obtain hkj | hnew := h₂.name k hkb
    · obtain hki | hnew := h₁.name k hka
      · exact hij (hki.symm.trans hkj)
      · omega
    · omega
  obtain ⟨s₃, hrun₃, h₃⟩ := createSimpleConstraint_spec h₂.moves.tracked hroot h₂.root hne
  refine ⟨.tautology, s₃, ?_, .inr ⟨rfl, L₂, ?_, .inr ?_⟩⟩
  · rw [narrow, if_neg hij, if_pos hboth]
    refine (if_neg hempty).trans ?_
    exact (congrArg (· >>= _) hrun₁).trans ((congrArg (· >>= _) hrun₂).trans hrun₃)
  · have hfirst : Moves (fun id => id = i ∨ id = j) (fun _ => True) L s L₁ s₁ :=
      h₁.moves.imp (fun _ => .inl) fun _ h => h
    have hsecond := hfirst.trans h₂.moves (fun id hid => .inl (.inr hid)) fun _ h => h
    refine hsecond.trans h₃.moves (fun id hid => ?_) fun _ h => h
    obtain hid | hid := hid
    · obtain hki | hnew := h₁.name id hid
      · exact .inl (.inl hki)
      · exact .inr ⟨hnew, (han id hid).trans_le htv'⟩
    · obtain hkj | hnew := h₂.name id hid
      · exact .inl (.inr hkj)
      · exact .inr ⟨htv.trans hnew, hbn id hid⟩
  · have := h₁.opened
    have := h₂.opened
    have := h₃.right
    have := weight_le an
    omega

variable {c : BaseType}

/-- A variable narrowed to `nc` and compared with a base type on either side. -/
theorem bounded_spec (hs : Tracked L s) (hi : Root L s (.tvar i is)) (hnc : ∀ d ∈ nc, Named d) (hc : Named c)
    (left : Bool) :
    ∃ L' s', (createType s i is nc >>= fun (an, s) => if nc.length = is.length then some (.tautology, s)
        else if left then createSimpleConstraint s an (.base c) false
        else createSimpleConstraint s (.base c) an false) = some (.tautology, s') ∧
      Moves (· = i) (fun _ => True) L s L' s' ∧
      if nc.length = is.length then s' = s ∧ openVars L' s' ≤ openVars L s else openVars L' s' + 1 ≤ openVars L s := by
  obtain ⟨an, L₁, s₁, hrun₁, h₁⟩ := createType_spec hs hi hnc
  by_cases hlen : nc.length = is.length
  · obtain ⟨-, rfl⟩ := h₁.unchanged hlen
    refine ⟨L₁, s₁, ?_, h₁.moves, ?_⟩
    · rw [hrun₁]
      exact if_pos hlen
    · rw [if_pos hlen]
      have := h₁.opened
      have := weight_le an
      exact ⟨rfl, by omega⟩
  -- the comparison with the base type binds the variable that is left, if any
  have hbase : Root L₁ s₁ (.base c) := hc
  have hclose (s₂ : Solver) (hmoves : Moves (IsVar an) (fun _ => True) L₁ s₁ L₁ s₂)
      (hopen : openVars L₁ s₂ + weight an ≤ openVars L₁ s₁) :
      Moves (· = i) (fun _ => True) L s L₁ s₂ ∧
        if nc.length = is.length then s₂ = s ∧ openVars L₁ s₂ ≤ openVars L s
        else openVars L₁ s₂ + 1 ≤ openVars L s := by
    refine ⟨h₁.moves.trans hmoves (fun id hid => ?_) fun _ h => h, ?_⟩
    · obtain hki | hnew := h₁.name id hid
      · exact .inl hki
      · exact .inr ⟨hnew, h₁.moves.tracked.below id (h₁.root.mem hid).1⟩
    · rw [if_neg hlen]
      have := h₁.opened
      omega
  have hnone (id : Nat) : ¬ IsVar (.base c) id := nofun
  cases left with
  | true =>
    obtain ⟨s₂, hrun₂, h₂⟩ := createSimpleConstraint_spec h₁.moves.tracked h₁.root hbase fun id _ => hnone id
    refine ⟨L₁, s₂, ?_, hclose s₂ (h₂.moves.imp (fun id hid => hid.resolve_right (hnone id)) fun _ h => h) h₂.left⟩
    rw [hrun₁]
    exact (if_neg hlen).trans hrun₂
  | false =>
    obtain ⟨s₂, hrun₂, h₂⟩ := createSimpleConstraint_spec h₁.moves.tracked hbase h₁.root
      fun id hid => absurd hid (hnone id)
    refine ⟨L₁, s₂, ?_, hclose s₂ (h₂.moves.imp (fun id hid => hid.resolve_left (hnone id)) fun _ h => h) h₂.right⟩
    rw [hrun₁]
    exact (if_neg hlen).trans hrun₂

/-- The disjuncts of a variable, and a number that is not used when there are none. -/
theorem fullyBounded_spec (hs : Tracked L s) (his : ∀ d ∈ is, Named d) :
    (∀ d ∈ (fullyBounded s is).1, Named d) ∧ Moves (fun _ => False) (fun _ => True) L s L (fullyBounded s is).2 ∧
      (fullyBounded s is).2.typingEnv = s.typingEnv := by
  unfold fullyBounded
  split_ifs
  · exact ⟨named_baseTypes, .count hs (fun _ h => h) fun _ => .inl, rfl⟩
  · exact ⟨his, .refl hs, rfl⟩

/-- A comparison with a base type behind `fullyBounded`. -/
theorem bounded_settled (hs : Tracked L s) (hi : Root L s (.tvar i is)) (hnc : ∀ d ∈ nc, Named d) (hc : Named c)
    (left : Bool) :
    ∃ L' s', (createType (fullyBounded s is).2 i is nc >>= fun (an, s) =>
        if nc.length = is.length then some (.tautology, s)
        else if left then createSimpleConstraint s an (.base c) false
        else createSimpleConstraint s (.base c) an false) = some (.tautology, s') ∧
      Settled (· = i) L s L' s' ∧ (nc.length ≠ is.length → openVars L' s' + 1 ≤ openVars L s) := by
  obtain ⟨-, hbounded, henv⟩ := fullyBounded_spec hs hi.2.2
  have hi' : Root L (fullyBounded s is).2 (.tvar i is) := ⟨hi.1, by rw [henv]; exact hi.2.1, hi.2.2⟩
  have hopen : openVars L (fullyBounded s is).2 = openVars L s := by rw [openVars, openVars, henv]
  obtain ⟨L', s', hrun, hmoves, hlast⟩ := bounded_spec hbounded.tracked hi' hnc hc left
  have hall : Moves (· = i) (fun _ => True) L s L' s' :=
    (hbounded.imp (fun _ h => h.elim) fun _ h => h).trans hmoves (fun _ => .inl) fun _ h => h
  rw [hopen] at hlast
  refine ⟨L', s', hrun, ⟨hall, ?_⟩, fun hlen => ?_⟩
  · split_ifs at hlast with hlen
    · exact .inl ⟨by rw [hlast.1, henv], hlast.2⟩
    · exact .inr hlast
  · rwa [if_neg hlen] at hlast

theorem simplifyL_spec (hs : Tracked L s) (hi : Root L s (.tvar i is)) (hc : Named c) :
    Returns (Settled (· = i) L s) (simplifyL s i is c false) := by
  have hnc := (doNarrow_named (fullyBounded_spec hs hi.2.2).1 (List.forall_mem_singleton.mpr hc) false).1
  by_cases hempty : (doNarrow (fullyBounded s is).1 [c] false).1 = []
  · exact ⟨.absurdity, _, if_pos hempty, .inl rfl⟩
  · obtain ⟨L', s', hrun, hspec, -⟩ := bounded_settled hs hi hnc hc true
    exact ⟨.tautology, s', (if_neg hempty).trans hrun, .inr ⟨rfl, L', hspec⟩⟩

theorem simplifyR_spec (hs : Tracked L s) (hi : Root L s (.tvar i is)) (hc : Named c) :
    Returns (Settled (· = i) L s) (simplifyR s c i is false) := by
  have hnc := (doNarrow_named (List.forall_mem_singleton.mpr hc) (fullyBounded_spec hs hi.2.2).1 false).2
  by_cases hempty : (doNarrow [c] (fullyBounded s is).1 false).2 = []
  · exact ⟨.absurdity, _, if_pos hempty, .inl rfl⟩
  · obtain ⟨L', s', hrun, hspec, -⟩ := bounded_settled hs hi hnc hc false
    exact ⟨.tautology, s', (if_neg hempty).trans hrun, .inr ⟨rfl, L', hspec⟩⟩

/-- Some base type goes with any given one. -/
theorem doNarrow_baseTypes (c : BaseType) :
    (doNarrow Typing.baseTypes [c] false).1 ≠ [] ∧ (doNarrow [c] Typing.baseTypes false).2 ≠ [] := by
  cases c <;> simp [doNarrow, Typing.baseTypes, Typing.splitBaseType, BaseType.sameKind, BaseType.isUnnamed]

theorem simplifyL_free (hs : Tracked L s) (hi : Root L s (.tvar i [])) (hc : Named c) :
    ∃ L' s', simplifyL s i [] c false = some (.tautology, s') ∧ Moves (· = i) (fun _ => True) L s L' s' ∧
      openVars L' s' + 1 ≤ openVars L s := by
  have hnc := (doNarrow_named named_baseTypes (List.forall_mem_singleton.mpr hc) false).1
  obtain ⟨L', s', hrun, hspec, hlast⟩ := bounded_settled hs hi hnc hc true
  have hne := (doNarrow_baseTypes c).1
  refine ⟨L', s', (if_neg hne).trans hrun, hspec.moves, hlast fun hlen => hne ?_⟩
  exact List.length_eq_zero_iff.mp hlen

theorem simplifyR_free (hs : Tracked L s) (hi : Root L s (.tvar i [])) (hc : Named c) :
    ∃ L' s', simplifyR s c i [] false = some (.tautology, s') ∧ Moves (· = i) (fun _ => True) L s L' s' ∧
      openVars L' s' + 1 ≤ openVars L s := by
  have hnc := (doNarrow_named (List.forall_mem_singleton.mpr hc) named_baseTypes false).2
  obtain ⟨L', s', hrun, hspec, hlast⟩ := bounded_settled hs hi hnc hc false
  have hne := (doNarrow_baseTypes c).2
  refine ⟨L', s', (if_neg hne).trans hrun, hspec.moves, hlast fun hlen => hne ?_⟩
  exact List.length_eq_zero_iff.mp hlen

end Solving
