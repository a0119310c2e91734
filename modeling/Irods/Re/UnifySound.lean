-- SUMMARY: Unification is sound and keeps the table acyclic.
import Irods.Re.TypeTable

/-!
# Soundness of unification

Every binding of `unifyWith` keeps the table acyclic, and every type it returns stands for two types
with the same instances, except in the branches that `SafeStep` names: those that return a type
without comparing or binding anything, and those that bind a variable to a type it occurs in, or
outside its disjuncts. A run is safe when no call it makes comes to such a branch.
-/

namespace Unification

open Typing (ExprType BaseType TVar VarTypes Unified Unifier lookupFromHashTable dereference dereferenceFuel
  occursIn unifyUnions unifyTVars unifyTVarL unifyTVarR unifyArgs unifyNonTvars unifyTypes unifyWith instantiate)
open Triangular

variable {s s' : VarTypes} {table : List (Nat × ExprType)} {a b t u : ExprType} {id : Nat} {ds : List BaseType}

/-! ## Safe runs -/

/-- The table makes the two types equal. -/
def Entails (table : List (Nat × ExprType)) (a b : ExprType) : Prop :=
  ∀ σ, Solves number σ (look table) → a.app σ = b.app σ

/-- A free variable is not bound to a type it occurs in below the surface, a union variable to one of its
disjuncts only. -/
def SafeBinding (table : List (Nat × ExprType)) (id : Nat) (ds : List BaseType) (t : ExprType) : Prop :=
  if ds = [] then occursIn id t = true ∨ ¬ Reaches number (look table) t id
  else (ds.any fun d => (ExprType.base d).sameNode t) = true → ∃ d ∈ ds, t = .base d

/-- Types that are neither variables nor constructed: both have a name where one is looked at, nothing else
that differs is taken for equal, and the error type is not reached. -/
def SafePrimitive (table : List (Nat × ExprType)) (a b : ExprType) : Prop :=
  if a.isIrods ∨ b.isIrods then ∃ x y, a.text = some x ∧ b.text = some y ∧ (x = y → Entails table a b)
  else b.sameNode a = true ∧ Entails table a b

/-- The branches for two dereferenced types. -/
structure SafeStep (table : List (Nat × ExprType)) (a b : ExprType) : Prop where
  specified : a ≠ .unspeced
  static : b ≠ .dynamic
  vars : ∀ i is j js, a = .tvar i is → b = .tvar j js →
    if i = j then is = js else is ≠ [] → js ≠ [] → ∀ c ∈ is, ∀ d ∈ js, c.sameKind d = false
  left : ∀ i is, a = .tvar i is → (∀ j js, b ≠ .tvar j js) → SafeBinding table i is b
  right : ∀ j js, b = .tvar j js → (∀ i is, a ≠ .tvar i is) → SafeBinding table j js a
  others : (∀ i is, a ≠ .tvar i is) → (∀ j js, b ≠ .tvar j js) →
    (∀ f as g bs, a = .cons f as → b ≠ .cons g bs) → SafePrimitive table a b

mutual

/-- The calls of `unifyWith` that a call makes, itself included. -/
inductive Calls : VarTypes → ExprType → ExprType → VarTypes → ExprType → ExprType → Prop
  | self {s : VarTypes} {a b : ExprType} : Calls s a b s a b
  | arg {s s₁ s₂ : VarTypes} {a b a₁ b₁ a₂ b₂ : ExprType} {f : String} {as bs : List ExprType} :
    dereference s.table a = some (.cons f as) → dereference s.table b = some (.cons f bs) →
    as.length = bs.length → ArgCalls s (as.zip bs) s₁ a₁ b₁ → Calls s₁ a₁ b₁ s₂ a₂ b₂ → Calls s a b s₂ a₂ b₂

/-- The calls of the loop over the arguments. -/
inductive ArgCalls : VarTypes → List (ExprType × ExprType) → VarTypes → ExprType → ExprType → Prop
  | head {s : VarTypes} {a b : ExprType} {args : List (ExprType × ExprType)} : ArgCalls s ((a, b) :: args) s a b
  | tail {fuel : Nat} {s s₁ s₂ : VarTypes} {a b t a₂ b₂ : ExprType} {args : List (ExprType × ExprType)} :
    unifyWith fuel s a b = some (some t, s₁) → ArgCalls s₁ args s₂ a₂ b₂ → ArgCalls s ((a, b) :: args) s₂ a₂ b₂

end

/-- No call comes to a defective branch. -/
def Safe (s : VarTypes) (a b : ExprType) : Prop :=
  ∀ s₁ a₁ b₁ a₂ b₂, Calls s a b s₁ a₁ b₁ → dereference s₁.table a₁ = some a₂ → dereference s₁.table b₁ = some b₂ →
    SafeStep s₁.table a₂ b₂

/-! ## More fuel -/

variable {f : Unifier}

variable {g : Unifier}

theorem unifyArgs_mono (h : ∀ s a b r, f s a b = some r → g s a b = some r) :
    ∀ {args : List (ExprType × ExprType)} {s : VarTypes} {r : Option (List ExprType) × VarTypes},
      unifyArgs f args s = some r → unifyArgs g args s = some r := by
  intro args
  induction args with
  | nil => exact fun h => h
  | cons p args ih =>
    intro s r hr
    simp only [unifyArgs] at hr ⊢
    split at hr
    · cases hr
    · rename_i hcall
      rw [h _ _ _ _ hcall]
      exact hr
    · rename_i hcall
      rw [h _ _ _ _ hcall]
      obtain ⟨rest, hrest, hcons⟩ := Option.map_eq_some_iff.mp hr
      exact Option.map_eq_some_iff.mpr ⟨rest, ih hrest, hcons⟩

theorem unifyNonTvars_cons {name : String} {as bs : List ExprType} (hlen : as.length = bs.length) :
    unifyNonTvars f s (.cons name as) (.cons name bs) =
      (unifyArgs f (as.zip bs) s).map fun (ts, s) => (ts.map (.cons name ·), s) := by
  rw [unifyNonTvars, if_pos ⟨rfl, hlen⟩]

theorem unifyNonTvars_mono (h : ∀ s a b r, f s a b = some r → g s a b = some r) {r : Option ExprType × VarTypes}
    (hr : unifyNonTvars f s a b = some r) : unifyNonTvars g s a b = some r := by
  have hcons : unifyNonTvars g s a b = unifyNonTvars f s a b ∨ ∃ x as y bs, a = .cons x as ∧ b = .cons y bs := by
    cases a <;> cases b <;> first | exact .inl rfl | exact .inr ⟨_, _, _, _, rfl, rfl⟩
  rcases hcons with hsame | ⟨x, as, y, bs, rfl, rfl⟩
  · rw [hsame, hr]
  · rw [unifyNonTvars] at hr ⊢
    split at hr
    · rename_i hsame
      obtain ⟨rest, hrest, hcons⟩ := Option.map_eq_some_iff.mp hr
      rw [if_pos hsame]
      exact Option.map_eq_some_iff.mpr ⟨rest, unifyArgs_mono h hrest, hcons⟩
    · rename_i hother
      rw [if_neg hother]
      exact hr

theorem unifyWith_mono : ∀ {fuel fuel' : Nat}, fuel ≤ fuel' → ∀ s a b r, unifyWith fuel s a b = some r →
    unifyWith fuel' s a b = some r := by
  intro fuel
  induction fuel with
  | zero => exact fun _ s a b r h => absurd h nofun
  | succ fuel ih =>
    intro fuel' hle s a b r h
    obtain ⟨fuel', rfl⟩ : ∃ n, fuel' = n + 1 := ⟨fuel' - 1, by omega⟩
    have ih := ih (Nat.le_of_succ_le_succ hle)
    simp only [unifyWith, Option.bind_eq_bind, Option.bind_eq_some_iff] at h ⊢
    obtain ⟨type, htype, expected, hexpected, h⟩ := h
    refine ⟨type, htype, expected, hexpected, ?_⟩
    have hcalls : unifyTypes (unifyWith fuel') s type expected = unifyTypes (unifyWith fuel) s type expected ∨
        unifyTypes (unifyWith fuel') s type expected = unifyNonTvars (unifyWith fuel') s type expected ∧
          unifyTypes (unifyWith fuel) s type expected = unifyNonTvars (unifyWith fuel) s type expected := by
      cases type <;> cases expected <;> first | exact .inl rfl | exact .inr ⟨rfl, rfl⟩
    rcases hcalls with hsame | ⟨hnext, hthis⟩
    · rw [hsame, h]
    · rw [hthis] at h
      rw [hnext]
      exact unifyNonTvars_mono ih h

/-! ## What a call leaves behind -/

/-- All variables are among `vars`. -/
def Within (vars : List TVar) (t : ExprType) : Prop := ∀ x ∈ t.vars, x ∈ vars

def TableWithin (vars : List TVar) (table : List (Nat × ExprType)) : Prop :=
  ∀ id t, look table id = some t → Within vars t

/-- The variables that are not bound yet. -/
def openVars (vars : List TVar) (table : List (Nat × ExprType)) : Nat := vars.countP fun x => (look table x.1).isNone

/-- The table is acyclic still and has grown by bindings of the variables in it and in the two types; if a type
is returned, the table makes the two types equal. -/
structure Good (vars : List TVar) (s : VarTypes) (a b : ExprType) (unified : Bool) (s' : VarTypes) : Prop where
  acyclic : AcyclicTable s'.table
  extends' : Extends (look s.table) (look s'.table)
  within : TableWithin vars s'.table
  grown : s'.table = s.table ∨ openVars vars s'.table < openVars vars s.table
  bounded : ∀ id t, look s'.table id = some t → look s.table id = none →
    ∃ ds, (id, ds) ∈ vars ∧ (ds = [] ∨ ∃ d ∈ ds, t = .base d)
  equal : unified = true → Entails s'.table a b

variable {vars : List TVar}

variable {unified : Bool}

theorem Good.unchanged (hacyclic : AcyclicTable s.table) (hwithin : TableWithin vars s.table)
    (hequal : unified = true → Entails s.table a b) : Good vars s a b unified s where
  acyclic := hacyclic
  extends' := .refl _
  within := hwithin
  grown := .inl rfl
  bounded  := fun id t h h' => by rw [h] at h'; cases h'
  equal := hequal

theorem openVars_insert (hmem : (id, ds) ∈ vars) (hfree : look s.table id = none) (t : ExprType) :
    openVars vars (s.insert id t).table < openVars vars s.table := by
  refine countP_lt (fun x hx => ?_) hmem (by simp [hfree]) ?_
  · rw [VarTypes.insert, lookup_insert hfree] at hx
    by_cases hid : x.1 = id
    · rw [hid, Function.update_self] at hx
      cases hx
    · rwa [Function.update_of_ne hid] at hx
  · rw [VarTypes.insert, lookup_insert hfree, Function.update_self]
    rfl

/-- A free variable, or a union variable and a type of its disjuncts, is bound. -/
theorem Good.insert (hacyclic : AcyclicTable s.table) (hwithin : TableWithin vars s.table) (hmem : (id, ds) ∈ vars)
    (hfree : look s.table id = none) (ht : Within vars t) (hreach : ¬ Reaches number (look s.table) t id)
    (hbound : ds = [] ∨ ∃ d ∈ ds, t = .base d) : Good vars s (.tvar id ds) t true (s.insert id t) := by
  have hlook : look (s.insert id t).table = Function.update (look s.table) id (some t) := lookup_insert hfree t
  refine ⟨?_, ?_, ?_, .inr (openVars_insert hmem hfree t), ?_, fun _ σ hσ => ?_⟩
  · rw [AcyclicTable, hlook]
    exact hacyclic.bind hfree hreach
  · intro id' t' h
    rw [hlook, Function.update_of_ne (fun hid => by rw [hid, hfree] at h; cases h)]
    exact h
  · intro id' t' h
    rw [hlook] at h
    by_cases hid : id' = id
    · rw [hid, Function.update_self] at h
      exact Option.some.inj h ▸ ht
    · rw [Function.update_of_ne hid] at h
      exact hwithin id' t' h
  · intro id' t' h hnone
    rw [hlook] at h
    by_cases hid : id' = id
    · rw [hid, Function.update_self] at h
      exact ⟨ds, hid ▸ hmem, Option.some.inj h ▸ hbound⟩
    · rw [Function.update_of_ne hid, hnone] at h
      cases h
  · exact hσ (id, ds) t (by rw [hlook]; exact Function.update_self _ _ _)

theorem Good.symm (h : Good vars s a b unified s') : Good vars s b a unified s' :=
  { h with equal := fun hu σ hσ => (h.equal hu σ hσ).symm }

theorem Good.change {a' b' : ExprType} {unified' : Bool} (h : Good vars s a b unified s')
    (hequal : unified' = true → Entails s'.table a' b') : Good vars s a' b' unified' s' := { h with equal := hequal }

/-! ## One step -/

/-- A call that returns, in a good state. -/
def Returns (vars : List TVar) (s : VarTypes) (a b : ExprType) (r : Unified) : Prop :=
  ∃ out s', r = some (out, s') ∧ Good vars s a b out.isSome s'

section
variable (hacyclic : AcyclicTable s.table) (hwithin : TableWithin vars s.table)
include hacyclic hwithin

theorem Returns.nothing : Returns vars s a b (some (none, s)) :=
  ⟨none, s, rfl, .unchanged hacyclic hwithin nofun⟩

theorem Returns.same (t : ExprType) (h : Entails s.table a b) : Returns vars s a b (some (some t, s)) :=
  ⟨some t, s, rfl, .unchanged hacyclic hwithin fun _ => h⟩

end

theorem not_reaches_base (d : BaseType) : ¬ Reaches number (look table) (.base d) id := by
  intro h
  cases h with
  | here hx => cases hx
  | through hx _ _ => cases hx

theorem not_reaches_free {id' : Nat} (hne : id' ≠ id) (hfree : look table id' = none) :
    ¬ Reaches number (look table) (.tvar id' ds) id := by
  intro h
  cases h with
  | here hx =>
    obtain rfl := List.mem_singleton.mp hx
    exact hne rfl
  | through hx hlook _ =>
    obtain rfl := List.mem_singleton.mp hx
    rw [hfree] at hlook
    cases hlook

/-- The variable that was just bound leads to its type. -/
theorem dereference_insert (hfree : look s.table id = none)
    (ht : ∀ id' ds', t = .tvar id' ds' → look (s.insert id t).table id' = none) :
    dereference (s.insert id t).table (.tvar id ds) = some t := by
  have hlen : (s.insert id t).table.length = s.table.length + 1 := List.length_append
  have hlook : lookupFromHashTable (s.insert id t).table id = some t := by
    rw [← look, VarTypes.insert, lookup_insert hfree, Function.update_self]
  have hstop : ∀ n, dereferenceFuel (s.insert id t).table (n + 1) t = some t := by
    intro n
    cases t with
    | tvar id' ds' => simp only [dereferenceFuel, ht id' ds' rfl]
    | _ => rfl
  rw [dereference, hlen, dereferenceFuel, hlook]
  exact hstop _

theorem sameNode_comm (a b : ExprType) : a.sameNode b = b.sameNode a := by
  have hkind (x y : BaseType) : x.sameKind y = y.sameKind x := by
    cases x <;> cases y <;> rfl
  cases a <;> cases b <;> first | rfl | exact hkind _ _

section
variable (hacyclic : AcyclicTable s.table) (hwithin : TableWithin vars s.table)
include hacyclic hwithin

variable {i j : Nat} {is js : List BaseType}

theorem unifyTVarL_returns (hmem : (i, is) ∈ vars) (hfree : look s.table i = none) (hb : Within vars b)
    (hvar : ∀ j js, b ≠ .tvar j js) (hsafe : SafeBinding s.table i is b) :
    Returns vars s (.tvar i is) b (unifyTVarL s i is b) := by
  unfold SafeBinding at hsafe
  unfold unifyTVarL
  by_cases his : is = []
  · rw [if_pos his] at hsafe ⊢
    by_cases hoccurs : occursIn i b = true
    · rw [if_pos hoccurs]
      exact .nothing hacyclic hwithin
    · rw [if_neg hoccurs, dereference_self fun id ds h => absurd h (hvar id ds)]
      exact ⟨_, _, rfl, .insert hacyclic hwithin hmem hfree hb (hsafe.resolve_left hoccurs) (.inl his)⟩
  · rw [if_neg his] at hsafe ⊢
    by_cases hany : (is.any fun d => (ExprType.base d).sameNode b) = true
    · rw [if_pos hany]
      obtain ⟨d, hd, rfl⟩ := hsafe hany
      exact ⟨_, _, rfl, .insert hacyclic hwithin hmem hfree hb (not_reaches_base d) (.inr ⟨d, hd, rfl⟩)⟩
    · rw [if_neg hany]
      exact .nothing hacyclic hwithin

theorem unifyTVarR_returns (hmem : (j, js) ∈ vars) (hfree : look s.table j = none) (ha : Within vars a)
    (hvar : ∀ i is, a ≠ .tvar i is) (hsafe : SafeBinding s.table j js a) :
    Returns vars s a (.tvar j js) (unifyTVarR s a j js) := by
  have hderef : dereference (s.insert j a).table (.tvar j js) = some a :=
    dereference_insert hfree fun id ds h => absurd h (hvar id ds)
  unfold SafeBinding at hsafe
  unfold unifyTVarR
  by_cases hjs : js = []
  · rw [if_pos hjs] at hsafe ⊢
    by_cases hoccurs : occursIn j a = true
    · rw [if_pos hoccurs]
      exact .nothing hacyclic hwithin
    · rw [if_neg hoccurs, hderef]
      exact ⟨_, _, rfl, (Good.insert hacyclic hwithin hmem hfree ha (hsafe.resolve_left hoccurs) (.inl hjs)).symm⟩
  · rw [if_neg hjs] at hsafe ⊢
    by_cases hany : (js.any fun d => a.sameNode (.base d)) = true
    · rw [if_pos hany, hderef]
      simp only [sameNode_comm a] at hany
      obtain ⟨d, hd, rfl⟩ := hsafe hany
      exact ⟨_, _, rfl, (Good.insert hacyclic hwithin hmem hfree ha (not_reaches_base d) (.inr ⟨d, hd, rfl⟩)).symm⟩
    · rw [if_neg hany]
      exact .nothing hacyclic hwithin

theorem unifyTVars_returns (hi : (i, is) ∈ vars) (hj : (j, js) ∈ vars) (hifree : look s.table i = none)
    (hjfree : look s.table j = none)
    (hsafe : if i = j then is = js else is ≠ [] → js ≠ [] → ∀ c ∈ is, ∀ d ∈ js, c.sameKind d = false) :
    Returns vars s (.tvar i is) (.tvar j js) (unifyTVars s i is j js) := by
  have hwithin_var {id : Nat} {ds : List BaseType} (hmem : (id, ds) ∈ vars) : Within vars (.tvar id ds) := by
    intro x hx
    obtain rfl := List.mem_singleton.mp hx
    exact hmem
  have hstays {id id' : Nat} {ds' : List BaseType} {t : ExprType} (hne : id' ≠ id) (hfree : look s.table id = none)
      (hfree' : look s.table id' = none) (x : Nat) (xs : List BaseType) (hx : ExprType.tvar id' ds' = .tvar x xs) :
      look (s.insert id t).table x = none := by
    cases hx
    rw [VarTypes.insert, lookup_insert hfree, Function.update_of_ne hne]
    exact hfree'
  unfold unifyTVars
  by_cases hij : i = j
  · rw [if_pos hij] at hsafe ⊢
    rw [hij, hsafe]
    exact .same hacyclic hwithin _ fun _ _ => rfl
  · rw [if_neg hij] at hsafe ⊢
    by_cases hunions : is ≠ [] ∧ js ≠ []
    · rw [if_pos hunions]
      have hnone : (js.filter fun d => is.any fun c => c.sameKind d) = [] := by
        rw [List.filter_eq_nil_iff]
        intro d hd hany
        obtain ⟨c, hc, hsame⟩ := List.any_eq_true.mp hany
        rw [hsafe hunions.1 hunions.2 c hc d hd] at hsame
        cases hsame
      rw [unifyUnions, hnone]
      exact .nothing hacyclic hwithin
    · rw [if_neg hunions]
      by_cases his : is = []
      · rw [if_pos his]
        simp only
        rw [dereference_self (hstays (Ne.symm hij) hifree hjfree)]
        exact ⟨_, _, rfl, .insert hacyclic hwithin hi hifree (hwithin_var hj)
          (not_reaches_free (Ne.symm hij) hjfree) (.inl his)⟩
      · have hjs : js = [] := by
          by_contra hjs
          exact hunions ⟨his, hjs⟩
        rw [if_neg his]
        simp only
        rw [dereference_insert hjfree (hstays hij hjfree hifree)]
        exact ⟨_, _, rfl, (Good.insert hacyclic hwithin hj hjfree (hwithin_var hi) (not_reaches_free hij hifree)
          (.inl hjs)).symm⟩

theorem unifyNonTvars_returns (f : Unifier) (hcons : ∀ x as y bs, a = .cons x as → b ≠ .cons y bs)
    (hsafe : SafePrimitive s.table a b) : Returns vars s a b (unifyNonTvars f s a b) := by
  unfold unifyNonTvars
  split
  · exact absurd rfl (hcons _ _ _ _ rfl)
  unfold SafePrimitive at hsafe
  by_cases hirods : a.isIrods ∨ b.isIrods
  · rw [if_pos hirods] at hsafe ⊢
    obtain ⟨x, y, hx, hy, hequal⟩ := hsafe
    simp only [hx, hy]
    by_cases hxy : x = y
    · rw [if_pos hxy]
      exact .same hacyclic hwithin b (hequal hxy)
    · rw [if_neg hxy]
      exact .nothing hacyclic hwithin
  · rw [if_neg hirods] at hsafe ⊢
    rw [if_pos hsafe.1]
    exact .same hacyclic hwithin b hsafe.2

end

/-- Every branch but that of two constructed types returns without a further call. -/
theorem unifyTypes_returns (f : Unifier) (hacyclic : AcyclicTable s.table) (hwithin : TableWithin vars s.table)
    (ha : Within vars a) (hb : Within vars b) (hafree : ∀ id ds, a = .tvar id ds → look s.table id = none)
    (hbfree : ∀ id ds, b = .tvar id ds → look s.table id = none)
    (hcons : ∀ x as y bs, a = .cons x as → b ≠ .cons y bs) (hsafe : SafeStep s.table a b) :
    Returns vars s a b (unifyTypes f s a b) := by
  have hmem {id : Nat} {ds : List BaseType} {t : ExprType} (ht : Within vars t) (heq : t = .tvar id ds) :
      (id, ds) ∈ vars := ht (id, ds) (heq ▸ List.mem_singleton_self _)
  by_cases hi : ∃ i is, a = .tvar i is
  · obtain ⟨i, is, rfl⟩ := hi
    by_cases hj : ∃ j js, b = .tvar j js
    · obtain ⟨j, js, rfl⟩ := hj
      exact unifyTVars_returns hacyclic hwithin (hmem ha rfl) (hmem hb rfl) (hafree i is rfl) (hbfree j js rfl)
        (hsafe.vars i is j js rfl rfl)
    · have hvar : ∀ j js, b ≠ .tvar j js := fun j js h => hj ⟨j, js, h⟩
      have hbranch : unifyTypes f s (.tvar i is) b = unifyTVarL s i is b := by
        cases b with
        | dynamic => exact absurd rfl hsafe.static
        | tvar j js => exact absurd rfl (hvar j js)
        | _ => rfl
      rw [hbranch]
      exact unifyTVarL_returns hacyclic hwithin (hmem ha rfl) (hafree i is rfl) hb hvar (hsafe.left i is rfl hvar)
  · have hvar : ∀ i is, a ≠ .tvar i is := fun i is h => hi ⟨i, is, h⟩
    by_cases hj : ∃ j js, b = .tvar j js
    · obtain ⟨j, js, rfl⟩ := hj
      have hbranch : unifyTypes f s a (.tvar j js) = unifyTVarR s a j js := by
        cases a with
        | unspeced => exact absurd rfl hsafe.specified
        | tvar i is => exact absurd rfl (hvar i is)
        | _ => rfl
      rw [hbranch]
      exact unifyTVarR_returns hacyclic hwithin (hmem hb rfl) (hbfree j js rfl) ha hvar (hsafe.right j js rfl hvar)
    · have hvar' : ∀ j js, b ≠ .tvar j js := fun j js h => hj ⟨j, js, h⟩
      have hbranch : unifyTypes f s a b = unifyNonTvars f s a b := by
        cases a with
        | unspeced => exact absurd rfl hsafe.specified
        | tvar i is => exact absurd rfl (hvar i is)
        | _ =>
          cases b with
          | dynamic => exact absurd rfl hsafe.static
          | tvar j js => exact absurd rfl (hvar' j js)
          | _ => rfl
      rw [hbranch]
      exact unifyNonTvars_returns hacyclic hwithin f hcons (hsafe.others hvar hvar' hcons)

/-! ## The loop over the arguments -/

variable {vars : List TVar}

/-- The arguments in front keep what they made equal. -/
theorem Good.cons {s₁ : VarTypes} {name : String} {as bs : List ExprType} (h : Good vars s a b true s₁)
    (hrest : Good vars s₁ (.cons name as) (.cons name bs) unified s') :
    Good vars s (.cons name (a :: as)) (.cons name (b :: bs)) unified s' := by
  refine ⟨hrest.acyclic, h.extends'.trans hrest.extends', hrest.within, ?_, fun id t hnew hold => ?_, fun hu σ hσ => ?_⟩
  · rcases h.grown with hsame | hless
    · rcases hrest.grown with hsame' | hless'
      · exact .inl (hsame'.trans hsame)
      · exact .inr (hsame ▸ hless')
    · rcases hrest.grown with hsame' | hless'
      · exact .inr (hsame' ▸ hless)
      · exact .inr (Nat.lt_trans hless' hless)
  · cases hmid : look s₁.table id with
    | none => exact hrest.bounded id t hnew hmid
    | some t' =>
      have hlook := hrest.extends' id t' hmid
      rw [hnew] at hlook
      exact h.bounded id t (hmid.trans hlook.symm) hold
  · have hhead := h.equal rfl σ (hσ.of_extends hrest.extends')
    have htail := ExprType.cons.inj (hrest.equal hu σ hσ)
    rw [ExprType.app, ExprType.app, ExprType.appAll, ExprType.appAll, hhead, htail.2]

theorem unifyArgs_returns {s₀ : VarTypes} (name : String) : ∀ {args : List (ExprType × ExprType)} {s : VarTypes},
    AcyclicTable s.table → TableWithin vars s.table →
    (s.table = s₀.table ∨ openVars vars s.table < openVars vars s₀.table) →
    (∀ s₁ a b, ArgCalls s args s₁ a b → Safe s₁ a b) →
    (∀ (s₁ : VarTypes) (a b : ExprType), (a, b) ∈ args → AcyclicTable s₁.table → TableWithin vars s₁.table →
      (s₁.table = s₀.table ∨ openVars vars s₁.table < openVars vars s₀.table) → Safe s₁ a b →
      ∃ fuel, Returns vars s₁ a b (unifyWith fuel s₁ a b)) →
    ∃ fuel out s', unifyArgs (unifyWith fuel) args s = some (out, s') ∧
      Good vars s (.cons name (args.map Prod.fst)) (.cons name (args.map Prod.snd)) out.isSome s' := by
  intro args
  induction args with
  | nil => exact fun hacyclic hwithin _ _ _ => ⟨0, some [], _, rfl, .unchanged hacyclic hwithin fun _ _ _ => rfl⟩
  | cons p args ih =>
    obtain ⟨a, b⟩ := p
    intro s hacyclic hwithin hgrown hcalls hrec
    obtain ⟨fuel, out, s₁, hcall, hgood⟩ :=
      hrec s a b List.mem_cons_self hacyclic hwithin hgrown (hcalls s a b .head)
    cases out with
    | none =>
      refine ⟨fuel, none, s₁, ?_, hgood.change nofun⟩
      simp only [unifyArgs, hcall]
    | some t =>
      have hgrown' : s₁.table = s₀.table ∨ openVars vars s₁.table < openVars vars s₀.table := by
        rcases hgood.grown with hsame | hless
        · rw [hsame]
          exact hgrown
        · rcases hgrown with hsame' | hless'
          · exact .inr (hsame' ▸ hless)
          · exact .inr (Nat.lt_trans hless hless')
      obtain ⟨fuel', out', s', hargs, hgood'⟩ := ih hgood.acyclic hgood.within hgrown'
        (fun s₂ a₂ b₂ h => hcalls s₂ a₂ b₂ (.tail hcall h)) fun s₂ a₂ b₂ hmem =>
          hrec s₂ a₂ b₂ (List.mem_cons_of_mem _ hmem)
      have hcall' := unifyWith_mono (Nat.le_add_right fuel fuel') s a b _ hcall
      have hargs' := unifyArgs_mono (unifyWith_mono (Nat.le_add_left fuel' fuel)) hargs
      refine ⟨fuel + fuel', out'.map (t :: ·), s', ?_, ?_⟩
      · simp only [unifyArgs, hcall', hargs', Option.map_some]
      · rw [Option.isSome_map]
        exact hgood.cons hgood'

/-! ## The run -/

variable {ts : List ExprType}

theorem vars_of_mem (h : t ∈ ts) {x : TVar} (hx : x ∈ t.vars) : x ∈ ExprType.varsAll ts := by
  induction ts with
  | nil => cases h
  | cons u ts ih =>
    rw [List.mem_cons] at h
    rcases h with rfl | h
    · exact List.mem_append_left _ hx
    · exact List.mem_append_right _ (ih h)

/-- An instance of an argument is smaller than that of the type. -/
theorem sizeOf_arg (name : String) (h : t ∈ ts) (σ : TVar → ExprType) :
    sizeOf (t.app σ) < sizeOf ((ExprType.cons name ts).app σ) := by
  have hmem : t.app σ ∈ ExprType.appAll σ ts := by
    rw [ExprType.appAll_eq_map]
    exact List.mem_map_of_mem h
  have hlt := List.sizeOf_lt_of_mem hmem
  rw [ExprType.app, ExprType.cons.sizeOf_spec]
  omega

theorem Good.of_dereferenced {rank : Nat → Nat} {a' b' : ExprType} (h : Good vars s a' b' unified s')
    (ha : Dereferenced rank s.table a a') (hb : Dereferenced rank s.table b b') : Good vars s a b unified s' := by
  refine h.change fun hu σ hσ => ?_
  have hσ' := hσ.of_extends h.extends'
  rw [ha.same σ hσ', hb.same σ hσ']
  exact h.equal hu σ hσ

/-- A safe call returns. First the variables that are not bound decrease, then the size of the instance. -/
theorem unifyWith_returns (vars : List TVar) : ∀ (m n : Nat) (s : VarTypes) (a b : ExprType) (rank : Nat → Nat),
    Ranked number rank (look s.table) → TableWithin vars s.table → Within vars a → Within vars b →
    openVars vars s.table ≤ m → sizeOf (a.app (solution number rank (look s.table))) ≤ n → Safe s a b →
    ∃ fuel, Returns vars s a b (unifyWith fuel s a b) := by
  intro m
  induction m using Nat.strongRecOn with
  | _ m ihm =>
  intro n
  induction n using Nat.strongRecOn with
  | _ n ihn =>
  intro s a b rank hrank hwithin ha hb hm hn hsafe
  have hacyclic : AcyclicTable s.table := ⟨rank, hrank⟩
  obtain ⟨a', hda, hderefa⟩ := dereference_spec hrank a
  obtain ⟨b', hdb, hderefb⟩ := dereference_spec hrank b
  have hstep := hsafe s a b a' b' .self hda hdb
  have hvars {t t' : ExprType} (ht : Within vars t) (hderef : Dereferenced rank s.table t t') : Within vars t' := by
    intro x hx
    rcases hderef.source x hx with hx | ⟨id, w, hlook, hx⟩
    · exact ht x hx
    · exact hwithin id w hlook x hx
  have hcall (fuel : Nat) : unifyWith (fuel + 1) s a b = unifyTypes (unifyWith fuel) s a' b' := by
    simp only [unifyWith, hda, hdb, Option.bind_eq_bind, Option.bind_some]
  by_cases hcons : ∃ x as y bs, a' = .cons x as ∧ b' = .cons y bs
  · obtain ⟨x, as, y, bs, rfl, rfl⟩ := hcons
    by_cases hsame : x = y ∧ as.length = bs.length
    · obtain ⟨rfl, hlen⟩ := hsame
      have hrec (s₁ : VarTypes) (a₁ b₁ : ExprType) (hmem : (a₁, b₁) ∈ as.zip bs) (hacyclic₁ : AcyclicTable s₁.table)
          (hwithin₁ : TableWithin vars s₁.table)
          (hgrown : s₁.table = s.table ∨ openVars vars s₁.table < openVars vars s.table) (hsafe₁ : Safe s₁ a₁ b₁) :
          ∃ fuel, Returns vars s₁ a₁ b₁ (unifyWith fuel s₁ a₁ b₁) := by
        have hmema := (List.of_mem_zip hmem).1
        have ha₁ : Within vars a₁ := fun z hz => hvars ha hderefa z (vars_of_mem hmema hz)
        have hb₁ : Within vars b₁ := fun z hz => hvars hb hderefb z (vars_of_mem (List.of_mem_zip hmem).2 hz)
        rcases hgrown with htable | hless
        · have hsize := sizeOf_arg x hmema (solution number rank (look s.table))
          rw [← hderefa.same _ (solution_solves hrank)] at hsize
          exact ihn _ (Nat.lt_of_lt_of_le hsize hn) s₁ a₁ b₁ rank (htable ▸ hrank) hwithin₁ ha₁ hb₁ (htable ▸ hm)
            (Nat.le_of_eq (by rw [htable])) hsafe₁
        · obtain ⟨rank₁, hrank₁⟩ := hacyclic₁
          exact ihm _ (Nat.lt_of_lt_of_le hless hm) _ s₁ a₁ b₁ rank₁ hrank₁ hwithin₁ ha₁ hb₁ (Nat.le_refl _)
            (Nat.le_refl _) hsafe₁
      have hcalls (s₁ : VarTypes) (a₁ b₁ : ExprType) (h : ArgCalls s (as.zip bs) s₁ a₁ b₁) : Safe s₁ a₁ b₁ :=
        fun s₂ a₂ b₂ a₃ b₃ hcalls₂ => hsafe s₂ a₂ b₂ a₃ b₃ (.arg hda hdb hlen h hcalls₂)
      obtain ⟨fuel, out, s', hargs, hgood⟩ := unifyArgs_returns x hacyclic hwithin (.inl rfl) hcalls hrec
      rw [List.map_fst_zip (Nat.le_of_eq hlen), List.map_snd_zip (Nat.le_of_eq hlen.symm)] at hgood
      refine ⟨fuel + 1, out.map (.cons x ·), s', ?_, ?_⟩
      · have hbranch : unifyTypes (unifyWith fuel) s (.cons x as) (.cons x bs) =
            unifyNonTvars (unifyWith fuel) s (.cons x as) (.cons x bs) := rfl
        rw [hcall, hbranch, unifyNonTvars_cons hlen, hargs]
        rfl
      · rw [Option.isSome_map]
        exact hgood.of_dereferenced hderefa hderefb
    · refine ⟨1, none, s, ?_, .unchanged hacyclic hwithin nofun⟩
      have hbranch : unifyTypes (unifyWith 0) s (.cons x as) (.cons y bs) =
          unifyNonTvars (unifyWith 0) s (.cons x as) (.cons y bs) := rfl
      rw [hcall, hbranch, unifyNonTvars, if_neg hsame]
  · have hcons' : ∀ x as y bs, a' = .cons x as → b' ≠ .cons y bs :=
      fun x as y bs hx hy => hcons ⟨x, as, y, bs, hx, hy⟩
    obtain ⟨out, s', hstep', hgood⟩ := unifyTypes_returns (unifyWith 0) hacyclic hwithin (hvars ha hderefa)
      (hvars hb hderefb) hderefa.free hderefb.free hcons' hstep
    exact ⟨1, out, s', (hcall 0).trans hstep', hgood.of_dereferenced hderefa hderefb⟩

/-! ## Soundness -/

/-- The variables of the two types and of the table. -/
def allVars (s : VarTypes) (a b : ExprType) : List TVar := a.vars ++ b.vars ++ s.table.flatMap fun e => e.2.vars

/-- A variable has the same disjuncts wherever it stands. -/
def Consistent (D : Nat → List BaseType) (s : VarTypes) (a b : ExprType) : Prop := ∀ x ∈ allVars s a b, x.2 = D x.1

/-- One of the disjuncts, or a variable over some of them. -/
def InBounds (ds : List BaseType) (t : ExprType) : Prop :=
  (∃ d ∈ ds, t = .base d) ∨ ∃ j js, t = .tvar j js ∧ js ≠ [] ∧ js ⊆ ds

/-- Some way to go on from the table makes the two types equal. -/
def Unifiable (D : Nat → List BaseType) (table : List (Nat × ExprType)) (a b : ExprType) : Prop :=
  ∃ σ, Solves number σ (look table) ∧
    (∀ id, look table id = none → D id ≠ [] → InBounds (D id) (σ (id, D id))) ∧ a.app σ = b.app σ

/-- The call returns and leaves an acyclic table, so that all types can be instantiated; if it returns a type the
two have the same instance; variables are bound in their bounds; nothing is returned for types that do not unify. -/
def Sound (s : VarTypes) (a b : ExprType) : Prop :=
  ∃ fuel out s', unifyWith fuel s a b = some (out, s') ∧ AcyclicTable s'.table ∧
    (∀ t, (∃ u, dereference s'.table t = some u) ∧ ∃ u, Instantiates s'.table t u) ∧
    (∀ u, out = some u → ∃ v, Instantiates s'.table a v ∧ Instantiates s'.table b v) ∧
    ∀ D, Consistent D s a b →
      (∀ id t, look s'.table id = some t → look s.table id = none → D id ≠ [] → InBounds (D id) t) ∧
      (¬ Unifiable D s.table a b → out = none)

theorem tableWithin_allVars (s : VarTypes) (a b : ExprType) : TableWithin (allVars s a b) s.table := by
  intro id t hlook x hx
  obtain ⟨e, he, rfl⟩ := Option.map_eq_some_iff.mp hlook
  exact List.mem_append_right _ (List.mem_flatMap.mpr ⟨e, List.mem_of_find?_eq_some he, hx⟩)

variable {D : Nat → List BaseType}

theorem Good.inBounds (h : Good (allVars s a b) s a b unified s') (hD : Consistent D s a b)
    (hnew : look s'.table id = some t) (hold : look s.table id = none) (hne : D id ≠ []) :
    ∃ d ∈ D id, t = .base d := by
  obtain ⟨ds, hmem, hds⟩ := h.bounded id t hnew hold
  obtain rfl : ds = D id := hD _ hmem
  exact hds.resolve_left hne

theorem Good.unifiable (h : Good (allVars s a b) s a b true s') (hD : Consistent D s a b) :
    Unifiable D s.table a b := by
  obtain ⟨rank, hrank⟩ := h.acyclic
  have hsolves := solution_solves hrank
  refine ⟨_, hsolves.of_extends h.extends', fun id hold hne => ?_, h.equal rfl _ hsolves⟩
  cases hnew : look s'.table id with
  | none =>
    have hfree : solution number rank (look s'.table) (id, D id) = .tvar id (D id) := solution_free hnew
    exact .inr ⟨id, D id, hfree, hne, List.Subset.refl _⟩
  | some t =>
    obtain ⟨d, hd, rfl⟩ := h.inBounds hD hnew hold hne
    rw [hsolves (id, D id) _ hnew]
    exact .inl ⟨d, hd, rfl⟩

/-- Along a safe run unification is sound and the table stays acyclic. -/
theorem unifyWith_sound (hacyclic : AcyclicTable s.table) (hsafe : Safe s a b) : Sound s a b := by
  obtain ⟨rank, hrank⟩ := hacyclic
  have hwithin (t : ExprType) (ht : t = a ∨ t = b) : Within (allVars s a b) t := by
    intro x hx
    rcases ht with rfl | rfl
    · exact List.mem_append_left _ (List.mem_append_left _ hx)
    · exact List.mem_append_left _ (List.mem_append_right _ hx)
  obtain ⟨fuel, out, s', hcall, hgood⟩ := unifyWith_returns (allVars s a b) _ _ s a b rank hrank
    (tableWithin_allVars s a b) (hwithin a (.inl rfl)) (hwithin b (.inr rfl)) (Nat.le_refl _) (Nat.le_refl _) hsafe
  obtain ⟨rank', hrank'⟩ := hgood.acyclic
  refine ⟨fuel, out, s', hcall, hgood.acyclic, fun t => ?_, fun u hu => ?_, fun D hD => ⟨fun id t hnew hold hne => ?_,
    fun hnot => ?_⟩⟩
  · obtain ⟨u, hderef, -⟩ := dereference_spec hrank' t
    exact ⟨⟨u, hderef⟩, _, instantiates_solution hrank' t⟩
  · have hequal := hgood.equal (by rw [hu]; rfl) _ (solution_solves hrank')
    exact ⟨_, instantiates_solution hrank' a, hequal ▸ instantiates_solution hrank' b⟩
  · exact .inl (hgood.inBounds hD hnew hold hne)
  · cases out with
    | none => rfl
    | some u => exact absurd (Good.unifiable hgood hD) hnot

/-- A call on two types that are not both constructed makes no further call. -/
theorem Safe.leaf (hcons : ∀ f as, dereference s.table a ≠ some (.cons f as))
    (h : ∀ a' b', dereference s.table a = some a' → dereference s.table b = some b' → SafeStep s.table a' b') :
    Safe s a b := by
  intro s₁ a₁ b₁ a₂ b₂ hcalls
  cases hcalls with
  | self => exact h a₂ b₂
  | arg hda _ _ _ _ => exact absurd hda (hcons _ _)

theorem unifyWith_sound_list :
    Sound ⟨[], 1⟩ (.cons "list" [.tvar 0 []]) (.cons "list" [.base .int]) := by
  refine unifyWith_sound ⟨fun _ => 0, nofun⟩ fun s₁ a₁ b₁ a₂ b₂ hcalls => ?_
  have harg : Safe ⟨[], 1⟩ (.tvar 0 []) (.base .int) := by
    refine .leaf nofun fun a' b' ha hb => ?_
    cases ha
    cases hb
    refine ⟨nofun, nofun, nofun, fun i is hi _ => ?_, nofun, fun h => absurd rfl (h 0 [])⟩
    cases hi
    exact .inr (not_reaches_base _)
  cases hcalls with
  | self =>
    intro ha hb
    cases ha
    cases hb
    exact ⟨nofun, nofun, nofun, nofun, nofun, fun _ _ h => absurd rfl (h _ _ _ _ rfl)⟩
  | arg hda hdb _ hargs hcalls =>
    cases hda
    cases hdb
    cases hargs with
    | head => exact harg _ _ _ _ _ hcalls
    | tail _ hnone => cases hnone

theorem unifyWith_unique {n m : Nat} {r r' : Option ExprType × VarTypes} (h : unifyWith n s a b = some r)
    (h' : unifyWith m s a b = some r') : r = r' := by
  have h := unifyWith_mono (Nat.le_add_right n m) s a b r h
  have h' := unifyWith_mono (Nat.le_add_left m n) s a b r' h'
  exact Option.some.inj (h.symm.trans h')

/-- Two variables bound to lists of each other, an integer and a string, two union variables with one disjunct in
common, and two tuples of different types. -/
theorem unifyWith_unsound :
    ¬ Sound ⟨[], 2⟩ (.cons "pair" [.tvar 1 [], .tvar 0 []])
        (.cons "pair" [.cons "list" [.tvar 0 []], .cons "list" [.tvar 1 []]]) ∧
      ¬ Sound ⟨[], 0⟩ (.base .int) (.base .string) ∧
      ¬ Sound ⟨[], 2⟩ (.tvar 0 [.int, .string]) (.tvar 1 [.string, .double]) ∧
      ¬ Sound ⟨[], 0⟩ (.tuple [.base .int]) (.tuple [.base .string]) := by
  have hdiffer {table : List (Nat × ExprType)} {a b : ExprType}
      (h : ∃ v, Instantiates table a v ∧ Instantiates table b v)
      (n : Nat) : ∃ more, instantiate table (n + more) a = instantiate table (n + more) b := by
    obtain ⟨v, ⟨fuel, ha⟩, fuel', hb⟩ := h
    refine ⟨fuel + fuel', ?_⟩
    rw [Nat.add_left_comm, ha (n + fuel'), Nat.add_left_comm fuel n fuel', ← Nat.add_assoc, Nat.add_comm (n + fuel), hb]
  refine ⟨?_, ?_, ?_, ?_⟩
  · rintro ⟨fuel, out, s', hcall, ⟨rank, hrank⟩, -⟩
    obtain ⟨-, rfl⟩ := Prod.mk.inj (unifyWith_unique (m := 3) hcall rfl)
    have hone := hrank 1 (.cons "list" [.tvar 0 []]) rfl (0, []) (List.mem_singleton_self _)
    have hzero := hrank 0 (.cons "list" [.tvar 1 []]) rfl (1, []) (List.mem_singleton_self _)
    exact Nat.lt_asymm hone hzero
  · rintro ⟨fuel, out, s', hcall, -, -, hequal, -⟩
    obtain ⟨rfl, rfl⟩ := Prod.mk.inj (unifyWith_unique (m := 3) hcall rfl)
    obtain ⟨more, hsame⟩ := hdiffer (hequal _ rfl) 1
    rw [Nat.add_comm] at hsame
    cases hsame
  · rintro ⟨fuel, out, s', hcall, -, -, hequal, -⟩
    obtain ⟨rfl, rfl⟩ := Prod.mk.inj (unifyWith_unique (m := 3) hcall rfl)
    obtain ⟨more, hsame⟩ := hdiffer (hequal _ rfl) 1
    rw [Nat.add_comm] at hsame
    cases hsame
  · rintro ⟨fuel, out, s', hcall, -, -, hequal, -⟩
    obtain ⟨rfl, rfl⟩ := Prod.mk.inj (unifyWith_unique (m := 3) hcall rfl)
    obtain ⟨more, hsame⟩ := hdiffer (hequal _ rfl) 2
    rw [Nat.add_comm] at hsame
    cases hsame

end Unification
