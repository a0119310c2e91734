-- SUMMARY: Soundness of the solver's steps.
import Irods.Re.Typing
import Mathlib.Data.List.Infix

/-!
# Soundness of solving

A substitution solves the tables of the solver if it extends the environment, gives
every bounded variable one of its disjuncts and satisfies the constraints kept. Every
operation of the solver only adds to the tables, and what it decides holds under every
substitution that solves the tables it leaves.
-/

namespace Typing

open List (mem_append mem_filter mem_filterMap mem_singleton mem_singleton_self prefix_append prefix_rfl)
open Option (bind_eq_bind bind_eq_some_iff map_eq_none_iff map_eq_some_iff pure_def)

/-! ## Substitutions -/

/-- A type for each variable. `T_FLEX` and `T_FIXD` mark what a parameter expects; no
value has them as its type. -/
structure Subst where
  type : Nat → ExprType
  not_flex : ∀ id t, type id ≠ .flex t
  not_fixd : ∀ id t u, type id ≠ .fixd t u

mutual

def ExprType.apply (σ : Subst) : ExprType → ExprType
  | .base b => .base b
  | .tvar id _ => σ.type id
  | .cons f as => .cons f (applyArgs σ as)
  | .tuple as => .tuple (applyArgs σ as)
  | .flex t => .flex (t.apply σ)
  | .fixd t u => .fixd (t.apply σ) (u.apply σ)
  | .dynamic => .dynamic
  | .unspeced => .unspeced
  | .error => .error

def applyArgs (σ : Subst) : List ExprType → List ExprType
  | [] => []
  | t :: ts => t.apply σ :: applyArgs σ ts

end

mutual

/-- `P` holds of every variable in the type, with its disjuncts. -/
def ExprType.AllVars (P : Nat → List BaseType → Prop) : ExprType → Prop
  | .tvar id ds => P id ds
  | .cons _ as => ArgsAllVars P as
  | .tuple as => ArgsAllVars P as
  | .flex t => t.AllVars P
  | .fixd t u => t.AllVars P ∧ u.AllVars P
  | _ => True

def ArgsAllVars (P : Nat → List BaseType → Prop) : List ExprType → Prop
  | [] => True
  | t :: ts => t.AllVars P ∧ ArgsAllVars P ts

end

theorem applyArgs_eq_map (σ : Subst) (ts : List ExprType) : applyArgs σ ts = ts.map (ExprType.apply σ) := by
  induction ts with
  | nil => rfl
  | cons t ts ih => rw [applyArgs, ih, List.map_cons]

variable {P : Nat → List BaseType → Prop}

theorem argsAllVars_iff {ts : List ExprType} : ArgsAllVars P ts ↔ ∀ t ∈ ts, t.AllVars P := by
  induction ts with
  | nil => simp [ArgsAllVars]
  | cons t ts ih => simp [ArgsAllVars, ih]

/-- A bounded variable is one of its disjuncts. -/
def Respected (σ : Subst) (id : Nat) (ds : List BaseType) : Prop :=
  ds ≠ [] → ∃ d ∈ ds, σ.type id = .base d

/-- `Sat flex a b`: the type `a` meets `b`. Under `flex` an integer meets a double. An
iRODS type without a name meets any, two with different names do not meet. -/
inductive Sat : Bool → ExprType → ExprType → Prop where
  | refl (flex : Bool) (t : ExprType) : Sat flex t t
  | unspeced (flex : Bool) (t : ExprType) : Sat flex .unspeced t
  | dynamicL (flex : Bool) (t : ExprType) : Sat flex .dynamic t
  | dynamicR (flex : Bool) (t : ExprType) : Sat flex t .dynamic
  | promote : Sat true (.base .int) (.base .double)
  | unnamedL (flex : Bool) (x : Option String) : Sat flex (.base (.irods none)) (.base (.irods x))
  | unnamedR (flex : Bool) (x : Option String) : Sat flex (.base (.irods x)) (.base (.irods none))
  | cons (flex : Bool) (f : String) (as bs : List ExprType) (hlen : as.length = bs.length)
      (hargs : ∀ p ∈ as.zip bs, Sat flex p.1 p.2) : Sat flex (.cons f as) (.cons f bs)
  | tuple (flex : Bool) (as bs : List ExprType) (hlen : as.length = bs.length)
      (hargs : ∀ p ∈ as.zip bs, Sat flex p.1 p.2) : Sat flex (.tuple as) (.tuple bs)
  | flex (flex : Bool) (a b : ExprType) (h : Sat true a b) : Sat flex a (.flex b)
  | fixd (flex : Bool) (a b u : ExprType) (h : Sat flex a b) : Sat flex a (.fixd b u)

def TypingConstraint.Satisfied (σ : Subst) (c : TypingConstraint) : Prop :=
  Sat false (c.a.apply σ) (c.b.apply σ)

def TypingConstraint.AllVars (P : Nat → List BaseType → Prop) (c : TypingConstraint) : Prop :=
  c.a.AllVars P ∧ c.b.AllVars P

/-! ## What the tables say -/

/-- The substitution takes every variable bound in the environment to what it is bound
to. -/
def Extends (σ : Subst) (env : List (Nat × ExprType)) : Prop :=
  ∀ id t, lookupFromHashTable env id = some t → σ.type id = t.apply σ

/-- Every bounded variable in the environment is one of its disjuncts. -/
def RespectsEnv (σ : Subst) (env : List (Nat × ExprType)) : Prop :=
  ∀ e ∈ env, e.2.AllVars (Respected σ)

structure Solves (σ : Subst) (s : Solver) : Prop where
  env : Extends σ s.typingEnv
  respects : RespectsEnv σ s.typingEnv
  kept : ∀ c ∈ s.simpleTypingConstraints, c.Satisfied σ

/-- Two iRODS types with different names. -/
def Mixed (p : BaseType × BaseType) : Prop :=
  ∃ x y, p.1 = .irods (some x) ∧ p.2 = .irods (some y) ∧ x ≠ y

/-- No two differently named iRODS types were compared under `T_FLEX`. -/
def Solver.NoMixed (s : Solver) : Prop := ∀ p ∈ s.compared, ¬ Mixed p

/-- The number of the variable is below the counter. -/
def Below (n : Nat) (id : Nat) (_ : List BaseType) : Prop := id < n

/-- The counter is above all variables in use. -/
structure Solver.Fresh (s : Solver) : Prop where
  keys : ∀ e ∈ s.typingEnv, e.1 < s.tvarNumber
  values : ∀ e ∈ s.typingEnv, e.2.AllVars (Below s.tvarNumber)
  kept : ∀ c ∈ s.simpleTypingConstraints, c.AllVars (Below s.tvarNumber)

/-- The tables only grow. -/
structure Grows (s s' : Solver) : Prop where
  env : s.typingEnv <+: s'.typingEnv
  kept : s.simpleTypingConstraints <+: s'.simpleTypingConstraints
  compared : s.compared <+: s'.compared
  tvarNumber : s.tvarNumber ≤ s'.tvarNumber

/-- An operation that led from `s` to `s'`: under `pre`, what it decided holds wherever
the tables it left are solved. -/
structure Sound (s s' : Solver) (pre post : Subst → Prop) : Prop where
  grows : Grows s s'
  fresh : s'.Fresh
  kept : ∀ σ, RespectsEnv σ s'.typingEnv → pre σ →
    ∀ c ∈ s'.simpleTypingConstraints, c ∈ s.simpleTypingConstraints ∨ c.AllVars (Respected σ)
  sound : s'.NoMixed → ∀ σ, Solves σ s' → pre σ → post σ

mutual

variable {Q : Nat → List BaseType → Prop}

theorem ExprType.AllVars.imp (h : ∀ id ds, P id ds → Q id ds) :
    ∀ t : ExprType, t.AllVars P → t.AllVars Q
  | .tvar id ds, ht => h id ds ht
  | .cons _ as, ht => ArgsAllVars.imp h as ht
  | .tuple as, ht => ArgsAllVars.imp h as ht
  | .flex t, ht => ExprType.AllVars.imp h t ht
  | .fixd t u, ht => ⟨ExprType.AllVars.imp h t ht.1, ExprType.AllVars.imp h u ht.2⟩
  | .base _, _ => trivial
  | .dynamic, _ => trivial
  | .unspeced, _ => trivial
  | .error, _ => trivial

theorem ArgsAllVars.imp (h : ∀ id ds, P id ds → Q id ds) :
    ∀ ts : List ExprType, ArgsAllVars P ts → ArgsAllVars Q ts
  | [], _ => trivial
  | t :: ts, ht => ⟨ExprType.AllVars.imp h t ht.1, ArgsAllVars.imp h ts ht.2⟩

end

theorem ExprType.AllVars.below_mono {t : ExprType} {m n : Nat} (h : t.AllVars (Below m)) (hmn : m ≤ n) :
    t.AllVars (Below n) :=
  ExprType.AllVars.imp (fun _ _ hlt => hlt.trans_le hmn) t h

/-! ## The environment -/

variable {env' : List (Nat × ExprType)} {id : Nat}

section Lookup

variable {env : List (Nat × ExprType)} {id' : Nat} {t : ExprType}

theorem lookup_longer (h : env <+: env') (ht : lookupFromHashTable env id = some t) :
    lookupFromHashTable env' id = some t := by
  obtain ⟨rest, rfl⟩ := h
  simp only [lookupFromHashTable, map_eq_some_iff] at ht ⊢
  obtain ⟨e, he, rfl⟩ := ht
  exact ⟨e, by rw [List.find?_append, he, Option.some_or], rfl⟩

theorem lookup_append_self (h : lookupFromHashTable env id = none) :
    lookupFromHashTable (env ++ [(id, t)]) id = some t := by
  simp only [lookupFromHashTable, map_eq_none_iff] at h ⊢
  rw [List.find?_append, h]
  simp

theorem lookup_append_ne (h : lookupFromHashTable env id = none) (hne : id ≠ id') :
    lookupFromHashTable (env ++ [(id', t)]) id = none := by
  simp only [lookupFromHashTable, map_eq_none_iff] at h ⊢
  rw [List.find?_append, h]
  simp [Ne.symm hne]

theorem lookup_eq_none_of_lt (h : ∀ e ∈ env, e.1 < id) : lookupFromHashTable env id = none := by
  simp only [lookupFromHashTable, map_eq_none_iff, List.find?_eq_none, beq_iff_eq]
  exact fun e he => Nat.ne_of_lt (h e he)

theorem mem_of_lookup (h : lookupFromHashTable env id = some t) : (id, t) ∈ env := by
  simp only [lookupFromHashTable, map_eq_some_iff] at h
  obtain ⟨⟨k, t'⟩, he, rfl⟩ := h
  obtain rfl : k = id := by simpa using List.find?_some he
  exact List.mem_of_find?_eq_some he

end Lookup

/-- Dereferencing changes neither the type under a substitution nor what holds of the
variables, and ends at an unbound variable if at a variable. -/
theorem dereferenceFuel_spec {env : List (Nat × ExprType)} :
    ∀ {fuel : Nat} {t t' : ExprType}, dereferenceFuel env fuel t = some t' →
      (∀ σ, Extends σ env → t'.apply σ = t.apply σ) ∧
      (∀ P, t.AllVars P → (∀ e ∈ env, e.2.AllVars P) → t'.AllVars P) ∧
      ∀ id ds, t' = .tvar id ds → lookupFromHashTable env id = none := by
  intro fuel
  induction fuel with
  | zero => intro t t' h; cases h
  | succ fuel ih =>
    intro t t' h
    cases t with
    | tvar id ds =>
      simp only [dereferenceFuel] at h
      split at h
      case h_1 hnone =>
        cases h
        refine ⟨fun _ _ => rfl, fun _ hP _ => hP, ?_⟩
        intro id' ds' heq
        cases heq
        exact hnone
      case h_2 u hu =>
        obtain ⟨happly, hvars, hfree⟩ := ih h
        refine ⟨fun σ hσ => ?_, fun P _ henv => hvars P (henv _ (mem_of_lookup hu)) henv, hfree⟩
        rw [happly σ hσ, ← hσ id u hu, ExprType.apply]
    | _ =>
      cases h
      refine ⟨fun _ _ => rfl, fun _ hP _ => hP, ?_⟩
      intro id ds heq
      cases heq

/-! ## Growing tables -/

variable {post pre : Subst → Prop} {s' : Solver}

section Growing

variable {s s'' : Solver} {σ : Subst}

theorem Grows.refl (s : Solver) : Grows s s :=
  ⟨prefix_rfl, prefix_rfl, prefix_rfl, le_rfl⟩

theorem Grows.trans (h : Grows s s') (h' : Grows s' s'') : Grows s s'' :=
  ⟨h.env.trans h'.env, h.kept.trans h'.kept, h.compared.trans h'.compared, h.tvarNumber.trans h'.tvarNumber⟩

variable {env : List (Nat × ExprType)}

theorem Extends.of_prefix (h : env <+: env') (hσ : Extends σ env') : Extends σ env :=
  fun id t ht => hσ id t (lookup_longer h ht)

theorem RespectsEnv.of_prefix (h : env <+: env') (hσ : RespectsEnv σ env') : RespectsEnv σ env :=
  fun e he => hσ e (h.subset he)

theorem Solves.of_grows (h : Grows s s') (hσ : Solves σ s') : Solves σ s :=
  ⟨hσ.env.of_prefix h.env, hσ.respects.of_prefix h.env, fun c hc => hσ.kept c (h.kept.subset hc)⟩

theorem Solver.NoMixed.of_prefix (h : s.compared <+: s'.compared) (hm : s'.NoMixed) : s.NoMixed :=
  fun p hp => hm p (h.subset hp)

variable {pre' post' : Subst → Prop}

theorem Sound.refl (hf : s.Fresh) (hpost : ∀ σ, pre σ → post σ) : Sound s s pre post :=
  ⟨Grows.refl s, hf, fun _ _ _ _ hc => .inl hc, fun _ σ _ hpre => hpost σ hpre⟩

/-- One operation after another. The second may rely on the bounds in the environment
that the first left. -/
theorem Sound.trans (h : Sound s s' pre post) (h' : Sound s' s'' pre' post')
    (hpre : ∀ σ, RespectsEnv σ s'.typingEnv → pre σ → pre' σ) :
    Sound s s'' pre fun σ => post σ ∧ post' σ where
  grows := h.grows.trans h'.grows
  fresh := h'.fresh
  kept σ henv hσ c hc := by
    have henv' := henv.of_prefix h'.grows.env
    rcases h'.kept σ henv (hpre σ henv' hσ) c hc with hc | hc
    · exact h.kept σ henv' hσ c hc
    · exact .inr hc
  sound hm σ hs hσ := by
    have hs' := hs.of_grows h'.grows
    exact ⟨h.sound (hm.of_prefix h'.grows.compared) σ hs' hσ, h'.sound hm σ hs (hpre σ hs'.respects hσ)⟩

/-- What was decided may be read under the tables that were left. -/
theorem Sound.imp (h : Sound s s' pre post)
    (hpost : s'.NoMixed → ∀ σ, Solves σ s' → pre σ → post σ → post' σ) : Sound s s' pre post' :=
  ⟨h.grows, h.fresh, h.kept, fun hm σ hs hσ => hpost hm σ hs hσ (h.sound hm σ hs hσ)⟩

theorem Sound.of_pre (h : Sound s s' pre post) (hpre : ∀ σ, pre' σ → pre σ) : Sound s s' pre' post :=
  ⟨h.grows, h.fresh, fun σ henv hσ => h.kept σ henv (hpre σ hσ), fun hm σ hs hσ => h.sound hm σ hs (hpre σ hσ)⟩

end Growing

/-! ## Base types -/

variable {a b x y : BaseType} {flex : Bool}

theorem BaseType.sameKind_iff : a.sameKind b = true ↔ a = b ∨ ∃ x y, a = .irods x ∧ b = .irods y := by
  cases a <;> cases b <;> simp [BaseType.sameKind]

theorem BaseType.isUnnamed_iff : b.isUnnamed = true ↔ b = .irods none := by
  simp [BaseType.isUnnamed]

theorem sat_of_sameKind (h : a.sameKind b = true) (hm : ¬ Mixed (a, b)) : Sat flex (.base a) (.base b) := by
  rcases BaseType.sameKind_iff.mp h with rfl | ⟨x, y, rfl, rfl⟩
  · exact .refl _ _
  · match x, y with
    | none, y => exact .unnamedL _ _
    | x, none => exact .unnamedR _ _
    | some x, some y =>
      by_cases hxy : x = y
      · subst hxy
        exact .refl _ _
      · exact absurd ⟨x, y, rfl, rfl, hxy⟩ hm

theorem tautologyLtBase_cases (h : tautologyLtBase a b = true) : a.sameKind b = true ∨ (a = .int ∧ b = .double) := by
  cases a <;> cases b <;> simp_all [tautologyLtBase, BaseType.sameKind]

/-- Compatible base types meet, unless they are iRODS types of different names. -/
theorem sat_of_splitBaseType (h : splitBaseType a b flex = true) (hm : flex = true → ¬ Mixed (a, b)) :
    Sat flex (.base a) (.base b) := by
  cases flex with
  | true =>
    rcases tautologyLtBase_cases (by simpa [splitBaseType] using h) with hkind | ⟨rfl, rfl⟩
    · exact sat_of_sameKind hkind (hm rfl)
    · exact .promote
  | false =>
    simp only [splitBaseType, Bool.false_and, Bool.not_false, Bool.true_and, Bool.false_or,
      Bool.or_eq_true, Bool.and_eq_true, decide_eq_true_eq] at h
    rcases h with ⟨hkind, hun⟩ | rfl
    · refine sat_of_sameKind hkind ?_
      rintro ⟨x, y, ha, hb, -⟩
      rcases hun with hun | hun
      · rw [BaseType.isUnnamed_iff] at hun
        cases hun.symm.trans ha
      · rw [BaseType.isUnnamed_iff] at hun
        cases hun.symm.trans hb
    · exact .refl _ _

theorem Sat.narrowed (h : Sat flex (.base x) (.base y)) : Sat flex (.base (narrowedL x y)) (.base y) := by
  unfold narrowedL
  split
  · exact .refl _ _
  · exact h

theorem Sat.narrowedR (h : Sat flex (.base x) (.base y)) : Sat flex (.base x) (.base (narrowedR x y)) := by
  unfold Typing.narrowedR narrowedL
  split
  · split
    case isTrue hy hx =>
      rw [BaseType.isUnnamed_iff] at hx hy
      rw [hx, hy]
      exact .refl _ _
    case isFalse => exact .refl _ _
  · exact h

theorem Sat.narrowedBoth (h : Sat flex (.base x) (.base y)) :
    Sat flex (.base (narrowedL x y)) (.base (Typing.narrowedR x y)) := by
  unfold Typing.narrowedR
  split
  · exact .refl _ _
  · exact h.narrowed

/-! ## Narrowing -/

/-- Where one slot is left, only one member was kept. -/
theorem eq_of_filterMap_eq_singleton {α β : Type} {f : α → Option β} {l : List α} {v : β} {a b : α}
    (h : l.filterMap f = [v]) (ha : a ∈ l) (hb : b ∈ l) (hfa : (f a).isSome) (hfb : (f b).isSome) :
    a = b := by
  induction l with
  | nil => cases ha
  | cons c l ih =>
    rw [List.filterMap_cons] at h
    split at h
    case h_1 hc =>
      have hne : ∀ d, (f d).isSome → d ≠ c := by
        rintro d hd rfl
        rw [hc] at hd
        cases hd
      exact ih h (List.mem_of_ne_of_mem (hne a hfa) ha) (List.mem_of_ne_of_mem (hne b hfb) hb)
    case h_2 w hc =>
      have hnil : l.filterMap f = [] := (List.cons.inj h).2
      rw [List.filterMap_eq_nil_iff] at hnil
      have heq : ∀ d ∈ c :: l, (f d).isSome → d = c := by
        intro d hd hsome
        rcases List.mem_cons.mp hd with rfl | hd
        · rfl
        · rw [hnil d hd] at hsome
          cases hsome
      rw [heq a ha hfa, heq b hb hfb]

variable {is js : List BaseType}

section Narrowing

variable {x' y' : BaseType}

theorem doNarrow_left_eq (is : List BaseType) (b : BaseType) (flex : Bool) :
    (doNarrow is [b] flex).1 =
      is.filterMap fun x => if splitBaseType x b flex then some (narrowedL x b) else none := by
  simp only [doNarrow]
  congr 1
  funext x
  by_cases h : splitBaseType x b flex <;> simp [h]

theorem doNarrow_right_eq (a : BaseType) (js : List BaseType) (flex : Bool) :
    (doNarrow [a] js flex).2 =
      js.filterMap fun y => if splitBaseType a y flex then some (narrowedR a y) else none := by
  simp only [doNarrow]
  congr 1
  funext y
  by_cases h : splitBaseType a y flex <;> simp [h]

/-- No disjunct is gone only if each is compatible. -/
theorem splitBaseType_of_doNarrow_left (h : (doNarrow is [b] flex).1.length = is.length) (hx : x ∈ is) :
    splitBaseType x b flex = true := by
  rw [doNarrow_left_eq, List.filterMap_length_eq_length] at h
  have hsome := h x hx
  by_contra hne
  rw [if_neg hne] at hsome
  cases hsome

theorem splitBaseType_of_doNarrow_right (h : (doNarrow [a] js flex).2.length = js.length) (hy : y ∈ js) :
    splitBaseType a y flex = true := by
  rw [doNarrow_right_eq, List.filterMap_length_eq_length] at h
  have hsome := h y hy
  by_contra hne
  rw [if_neg hne] at hsome
  cases hsome

theorem mem_doNarrow_left (h : x' ∈ (doNarrow is [b] flex).1) :
    ∃ x ∈ is, splitBaseType x b flex = true ∧ x' = narrowedL x b := by
  rw [doNarrow_left_eq, mem_filterMap] at h
  obtain ⟨x, hx, heq⟩ := h
  split at heq
  case isTrue hc => exact ⟨x, hx, hc, (Option.some.inj heq).symm⟩
  case isFalse => cases heq

theorem mem_doNarrow_right (h : y' ∈ (doNarrow [a] js flex).2) :
    ∃ y ∈ js, splitBaseType a y flex = true ∧ y' = narrowedR a y := by
  rw [doNarrow_right_eq, mem_filterMap] at h
  obtain ⟨y, hy, heq⟩ := h
  split at heq
  case isTrue hc => exact ⟨y, hy, hc, (Option.some.inj heq).symm⟩
  case isFalse => cases heq

/-- If one disjunct is left on each side, the two come from one compatible pair. -/
theorem doNarrow_singletons (hl : (doNarrow is js flex).1 = [x']) (hr : (doNarrow is js flex).2 = [y']) :
    ∃ x ∈ is, ∃ y ∈ js, splitBaseType x y flex = true ∧ x' = narrowedL x y ∧ y' = narrowedR x y := by
  have hkeptL : ∀ x y, y ∈ js → splitBaseType x y flex = true →
      (((js.filter fun y => splitBaseType x y flex).getLast?).map (narrowedL x)).isSome := by
    intro x y hy hxy
    rw [Option.isSome_map, List.getLast?_isSome]
    exact List.ne_nil_of_mem (mem_filter.mpr ⟨hy, hxy⟩)
  simp only [doNarrow] at hl hr
  have hx' : x' ∈ [x'] := mem_singleton_self x'
  rw [← hl, mem_filterMap] at hx'
  obtain ⟨x, hx, hxl⟩ := hx'
  obtain ⟨y, hy, rfl⟩ := map_eq_some_iff.mp hxl
  obtain ⟨hyj, hxy⟩ := mem_filter.mp (List.mem_of_getLast? hy)
  refine ⟨x, hx, y, hyj, hxy, rfl, ?_⟩
  -- the last member compatible with `y` is `x`, since no other one was kept
  obtain ⟨x₀, hx₀⟩ : ∃ x₀, (is.filter fun x => splitBaseType x y flex).getLast? = some x₀ :=
    Option.isSome_iff_exists.mp (List.getLast?_isSome.mpr
      (List.ne_nil_of_mem (mem_filter.mpr ⟨hx, hxy⟩)))
  obtain ⟨hxi, hxy₀⟩ := mem_filter.mp (List.mem_of_getLast? hx₀)
  obtain rfl : x₀ = x :=
    eq_of_filterMap_eq_singleton hl hxi hx (hkeptL x₀ y hyj hxy₀) (hkeptL x y hyj hxy)
  have hmem : narrowedR x₀ y ∈ [y'] := by
    rw [← hr, mem_filterMap]
    exact ⟨y, hyj, by rw [hx₀, Option.map_some]⟩
  exact (mem_singleton.mp hmem).symm

end Narrowing

/-! ## Operations on the tables -/

section Tables

variable {s : Solver} {a b t rep : ExprType}

theorem getEquivalenceClassRep_eq (h : getEquivalenceClassRep s t = some (rep, s')) :
    ∃ e, s' = { s with equivalence := e } := by
  simp only [getEquivalenceClassRep] at h
  split at h
  · cases h
  · cases h
    exact ⟨_, rfl⟩

theorem addToEquivalenceClass_eq (h : addToEquivalenceClass s a b = some s') :
    ∃ e, s' = { s with equivalence := e } := by
  simp only [addToEquivalenceClass, bind_eq_bind, bind_eq_some_iff] at h
  obtain ⟨⟨an, s₁⟩, ha, ⟨bn, s₂⟩, hb, h⟩ := h
  obtain ⟨e₁, rfl⟩ := getEquivalenceClassRep_eq ha
  obtain ⟨e₂, rfl⟩ := getEquivalenceClassRep_eq hb
  split at h
  · cases h
    exact ⟨_, rfl⟩
  · split at h
    all_goals
      cases h
      exact ⟨_, rfl⟩

/-- The table of equivalences says nothing about the types. -/
theorem Sound.equivalence (h : Sound s s' pre post) (e : List (String × ExprType)) :
    Sound s { s' with equivalence := e } pre post where
  grows := ⟨h.grows.env, h.grows.kept, h.grows.compared, h.grows.tvarNumber⟩
  fresh := ⟨h.fresh.keys, h.fresh.values, h.fresh.kept⟩
  kept := h.kept
  sound hm σ hs := h.sound hm σ ⟨hs.env, hs.respects, hs.kept⟩

theorem Solver.Fresh.unbound (hs : s.Fresh) : lookupFromHashTable s.typingEnv s.tvarNumber = none :=
  lookup_eq_none_of_lt hs.keys

theorem Sound.count (hs : s.Fresh) (n : Nat) : Sound s { s with tvarNumber := s.tvarNumber + n } pre fun _ => True where
  grows := ⟨prefix_rfl, prefix_rfl, prefix_rfl, Nat.le_add_right _ _⟩
  fresh := {
    keys := fun e he => Nat.lt_add_right n (hs.keys e he)
    values := fun e he => (hs.values e he).below_mono (Nat.le_add_right _ _)
    kept := fun c hc =>
      ⟨(hs.kept c hc).1.below_mono (Nat.le_add_right _ _), (hs.kept c hc).2.below_mono (Nat.le_add_right _ _)⟩ }
  kept _ _ _ _ hc := .inl hc
  sound _ _ _ _ := trivial

theorem Sound.bind (hs : s.Fresh) (hid : id < s.tvarNumber) (ht : t.AllVars (Below s.tvarNumber))
    (hfree : lookupFromHashTable s.typingEnv id = none) :
    Sound s (s.bind id t) pre fun σ => σ.type id = t.apply σ where
  grows := ⟨prefix_append _ _, prefix_rfl, prefix_rfl, le_rfl⟩
  fresh := {
    keys := fun e he => by
      rcases mem_append.mp he with he | he
      · exact hs.keys e he
      · rw [mem_singleton.mp he]
        exact hid
    values := fun e he => by
      rcases mem_append.mp he with he | he
      · exact hs.values e he
      · rw [mem_singleton.mp he]
        exact ht
    kept := hs.kept }
  kept _ _ _ _ hc := .inl hc
  sound _ σ hσ _ := hσ.env id t (lookup_append_self hfree)

theorem Sound.record (hs : s.Fresh) (l r : List BaseType) (flex : Bool) :
    Sound s (s.record l r flex) pre fun _ => True := by
  cases flex with
  | false => exact Sound.refl hs fun _ _ => trivial
  | true =>
    exact ⟨⟨prefix_rfl, prefix_rfl, prefix_append _ _, le_rfl⟩,
      ⟨hs.keys, hs.values, hs.kept⟩, fun _ _ _ _ hc => .inl hc, fun _ _ _ _ => trivial⟩

/-- What is compared under `T_FLEX` is recorded. -/
theorem Solver.NoMixed.of_record {l r : List BaseType} (h : (s.record l r flex).NoMixed) (hx : x ∈ l) (hy : y ∈ r) :
    flex = true → ¬ Mixed (x, y) := by
  rintro rfl
  refine h (x, y) (List.mem_append_right _ ?_)
  exact List.mem_flatMap.mpr ⟨x, hx, List.mem_map.mpr ⟨y, hy, rfl⟩⟩

theorem Solver.record_env (s : Solver) (l r : List BaseType) (flex : Bool) :
    (s.record l r flex).typingEnv = s.typingEnv := by
  cases flex <;> rfl

theorem Solver.record_tvarNumber (s : Solver) (l r : List BaseType) (flex : Bool) :
    (s.record l r flex).tvarNumber = s.tvarNumber := by
  cases flex <;> rfl

end Tables

/-- A base type, or a variable in use that is not bound. -/
def Solver.Atom (s : Solver) : ExprType → Prop
  | .base _ => True
  | .tvar id _ => id < s.tvarNumber ∧ lookupFromHashTable s.typingEnv id = none
  | _ => False

variable {s : Solver} {t : ExprType}

theorem Solver.Atom.cases (h : s.Atom t) :
    (∃ b, t = .base b) ∨
      ∃ id ds, t = .tvar id ds ∧ id < s.tvarNumber ∧ lookupFromHashTable s.typingEnv id = none := by
  cases t with
  | base b => exact .inl ⟨b, rfl⟩
  | tvar id ds => exact .inr ⟨id, ds, rfl, h⟩
  | _ => exact h.elim

theorem Solver.Atom.below (h : s.Atom t) : t.AllVars (Below s.tvarNumber) := by
  obtain ⟨b, rfl⟩ | ⟨id, ds, rfl, hlt, -⟩ := h.cases
  · trivial
  · exact hlt

/-- No atom is `T_FLEX` under a substitution. -/
theorem Solver.Atom.apply_ne_flex (h : s.Atom t) (σ : Subst) (u : ExprType) : t.apply σ ≠ .flex u := by
  obtain ⟨b, rfl⟩ | ⟨id, ds, rfl, -⟩ := h.cases
  · exact nofun
  · exact σ.not_flex id u

theorem Sat.of_flex {a b : ExprType} (h : Sat flex a (.flex b)) (ha : ∀ u, a ≠ .flex u) : Sat true a b := by
  cases h with
  | refl => exact absurd rfl (ha b)
  | unspeced => exact .unspeced _ _
  | dynamicL => exact .dynamicL _ _
  | flex _ _ _ h => exact h

/-! ## Constraints on variables -/

section Variables

variable {i j : Nat} {nc : List BaseType} {a b an : ExprType} {v : Satisfiability}

theorem createType_cases (h : createType s i is nc = some (an, s')) :
    (nc.length = is.length ∧ an = .tvar i is ∧ s' = s) ∨
    (∃ x e, nc = [x] ∧ an = .base x ∧ s' = { s.bind i (.base x) with equivalence := e }) ∨
    (∃ e, an = .tvar s.tvarNumber nc ∧
      s' = { Solver.bind { s with tvarNumber := s.tvarNumber + 1 } i an with equivalence := e }) := by
  simp only [createType] at h
  split at h
  case isTrue hlen =>
    cases h
    exact .inl ⟨hlen, rfl, rfl⟩
  case isFalse hlen =>
    split at h
    case h_1 _ x =>
      obtain ⟨s₁, h, heq⟩ := map_eq_some_iff.mp h
      obtain ⟨e, rfl⟩ := addToEquivalenceClass_eq h
      cases heq
      exact .inr (.inl ⟨x, e, rfl, rfl, rfl⟩)
    case h_2 =>
      obtain ⟨s₁, h, heq⟩ := map_eq_some_iff.mp h
      obtain ⟨e, rfl⟩ := addToEquivalenceClass_eq h
      cases heq
      exact .inr (.inr ⟨e, rfl, rfl⟩)

/-- What narrowing the variable `i` leaves: it is equal to an atom, and every other
variable in use is as it was. -/
structure Narrowed (s s' : Solver) (i : Nat) (is nc : List BaseType) (an : ExprType) : Prop where
  sound : Sound s s' (fun _ => True) fun σ => σ.type i = an.apply σ
  atom : s'.Atom an
  respected : ∀ σ, RespectsEnv σ s'.typingEnv → Respected σ i is → an.AllVars (Respected σ)
  base : ∀ x, an = .base x → nc = [x]
  others : ∀ j, j ≠ i → j < s.tvarNumber → lookupFromHashTable s.typingEnv j = none →
    lookupFromHashTable s'.typingEnv j = none ∧ ∀ ds, an ≠ .tvar j ds

theorem createType_narrowed (hs : s.Fresh) (hi : i < s.tvarNumber)
    (hfree : lookupFromHashTable s.typingEnv i = none) (h : createType s i is nc = some (an, s')) :
    Narrowed s s' i is nc an := by
  rcases createType_cases h with ⟨-, rfl, rfl⟩ | ⟨x, e, rfl, rfl, rfl⟩ | ⟨e, rfl, rfl⟩
  · refine ⟨Sound.refl hs fun _ _ => rfl, ⟨hi, hfree⟩, fun _ _ hr => hr, nofun, ?_⟩
    intro j hj hlt hnone
    refine ⟨hnone, fun ds heq => ?_⟩
    cases heq
    exact hj rfl
  · have hbase : (ExprType.base x).AllVars (Below s.tvarNumber) := trivial
    refine ⟨(Sound.bind hs hi hbase hfree).equivalence e, trivial, fun _ _ _ => trivial, ?_, ?_⟩
    · intro y hy
      cases hy
      rfl
    · exact fun j hj _ hnone => ⟨lookup_append_ne hnone hj, nofun⟩
  · have hcount : Sound s { s with tvarNumber := s.tvarNumber + 1 } (fun _ => True) fun _ => True :=
      Sound.count hs 1
    have hvar : (ExprType.tvar s.tvarNumber nc).AllVars (Below (s.tvarNumber + 1)) := Nat.lt_succ_self _
    refine ⟨?_, ⟨Nat.lt_succ_self _, lookup_append_ne hs.unbound hi.ne'⟩, ?_, nofun, ?_⟩
    · refine ((hcount.trans (Sound.bind hcount.fresh (Nat.lt_succ_of_lt hi) hvar hfree)
        fun _ _ h => h).imp ?_).equivalence e
      exact fun _ _ _ _ hpost => hpost.2
    · exact fun σ henv _ => henv (i, .tvar s.tvarNumber nc) (List.mem_append_right _ (mem_singleton_self _))
    · intro j hj hlt hnone
      refine ⟨lookup_append_ne hnone hj, fun ds heq => ?_⟩
      cases heq
      exact Nat.lt_irrefl _ hlt

theorem createSimpleConstraint_cases (ha : s.Atom a) (hb : s.Atom b)
    (h : createSimpleConstraint s a b flex = some (v, s')) :
    (∃ x y, a = .base x ∧ b = .base y ∧ s' = s) ∨
    (flex = true ∧ ∃ e, s' = { s with
      equivalence := e, simpleTypingConstraints := s.simpleTypingConstraints ++ [⟨a, .flex b⟩] }) ∨
    (∃ i is e, a = .tvar i is ∧ s' = { s.bind i b with equivalence := e }) ∨
    (∃ j js e, b = .tvar j js ∧ s' = { s.bind j a with equivalence := e }) := by
  simp only [createSimpleConstraint] at h
  split at h
  case isTrue hbase =>
    cases h
    obtain ⟨x, rfl⟩ | ⟨_, _, rfl, -⟩ := ha.cases
    · obtain ⟨y, rfl⟩ | ⟨_, _, rfl, -⟩ := hb.cases
      · exact .inl ⟨x, y, rfl, rfl, rfl⟩
      · simp [ExprType.isBaseType] at hbase
    · simp [ExprType.isBaseType] at hbase
  case isFalse hbase =>
    simp only [bind_eq_bind, bind_eq_some_iff, pure_def] at h
    obtain ⟨s₁, he, h⟩ := h
    obtain ⟨e, rfl⟩ := addToEquivalenceClass_eq he
    split at h
    case isTrue hflex =>
      cases h
      exact .inr (.inl ⟨hflex, e, rfl⟩)
    case isFalse =>
      obtain ⟨x, rfl⟩ | ⟨i, is, rfl, -⟩ := ha.cases
      · obtain ⟨y, rfl⟩ | ⟨j, js, rfl, -⟩ := hb.cases
        · exact absurd rfl hbase
        · rw [if_neg (by simp [ExprType.isFreeVar, ExprType.isBaseType]), if_pos (by simp [ExprType.isBaseType])] at h
          cases h
          exact .inr (.inr (.inr ⟨j, js, e, rfl, rfl⟩))
      · split at h
        · cases h
          exact .inr (.inr (.inl ⟨i, is, e, rfl, rfl⟩))
        · obtain ⟨y, rfl⟩ | ⟨j, js, rfl, -⟩ := hb.cases
          case inl hor => simp [ExprType.isBaseType] at hor
          split at h
          · cases h
            exact .inr (.inr (.inr ⟨j, js, e, rfl, rfl⟩))
          · cases h
            exact .inr (.inr (.inl ⟨i, is, e, rfl, rfl⟩))

/-- The bounds that the variables of both sides have. -/
def BothRespected (a b : ExprType) (σ : Subst) : Prop := a.AllVars (Respected σ) ∧ b.AllVars (Respected σ)

theorem createSimpleConstraint_sound (hs : s.Fresh) (ha : s.Atom a) (hb : s.Atom b)
    (hbase : s.NoMixed → ∀ x y, a = .base x → b = .base y → Sat flex (.base x) (.base y))
    (h : createSimpleConstraint s a b flex = some (v, s')) :
    Sound s s' (BothRespected a b) fun σ => Sat flex (a.apply σ) (b.apply σ) := by
  rcases createSimpleConstraint_cases ha hb h with ⟨x, y, rfl, rfl, rfl⟩ | ⟨rfl, e, rfl⟩ |
    ⟨i, is, e, rfl, rfl⟩ | ⟨j, js, e, rfl, rfl⟩
  · exact ⟨Grows.refl _, hs, fun _ _ _ _ hc => .inl hc, fun hm _ _ _ => hbase hm x y rfl rfl⟩
  · refine ⟨⟨prefix_rfl, prefix_append _ _, prefix_rfl, le_rfl⟩,
      ⟨hs.keys, hs.values, ?_⟩, ?_, ?_⟩
    · intro c hc
      rcases mem_append.mp hc with hc | hc
      · exact hs.kept c hc
      · rw [mem_singleton.mp hc]
        exact ⟨ha.below, hb.below⟩
    · intro σ _ hpre c hc
      rcases mem_append.mp hc with hc | hc
      · exact .inl hc
      · rw [mem_singleton.mp hc]
        exact .inr hpre
    · intro _ σ hσ _
      have hkept := hσ.kept ⟨a, .flex b⟩ (List.mem_append_right _ (mem_singleton_self _))
      exact hkept.of_flex (ha.apply_ne_flex σ)
  · refine ((Sound.bind hs ha.1 hb.below ha.2).imp fun _ σ _ _ heq => ?_).equivalence e
    rw [ExprType.apply, heq]
    exact .refl _ _
  · refine ((Sound.bind hs hb.1 ha.below hb.2).imp fun _ σ _ _ heq => ?_).equivalence e
    rw [ExprType.apply, heq]
    exact .refl _ _

/-- Narrowing two variables keeps what solves them. -/
theorem narrow_sound (hs : s.Fresh) (hi : s.Atom (.tvar i is)) (hj : s.Atom (.tvar j js))
    (h : narrow s i is j js flex = some (v, s')) (hv : v ≠ .absurdity) :
    Sound s s' (BothRespected (.tvar i is) (.tvar j js)) fun σ => Sat flex (σ.type i) (σ.type j) := by
  simp only [narrow] at h
  split at h
  case isTrue hij =>
    subst hij
    cases h
    exact Sound.refl hs fun _ _ => .refl _ _
  case isFalse hij =>
    split at h
    case isFalse => exact createSimpleConstraint_sound hs hi hj (fun _ _ _ => nofun) h
    case isTrue =>
      split at h
      case isTrue =>
        cases h
        exact absurd rfl hv
      case isFalse =>
        simp only [bind_eq_bind, bind_eq_some_iff] at h
        obtain ⟨⟨an, s₁⟩, han, ⟨bn, s₂⟩, hbn, h⟩ := h
        have hrec : Sound s (s.record is js flex) (BothRespected (.tvar i is) (.tvar j js)) fun _ => True :=
          Sound.record hs is js flex
        have hi₀ : (s.record is js flex).Atom (.tvar i is) := by
          simpa only [Solver.Atom, Solver.record_env, Solver.record_tvarNumber] using hi
        have hj₀ : (s.record is js flex).Atom (.tvar j js) := by
          simpa only [Solver.Atom, Solver.record_env, Solver.record_tvarNumber] using hj
        have hA := createType_narrowed hrec.fresh hi₀.1 hi₀.2 han
        have hj₁ := (hA.others j (Ne.symm hij) hj₀.1 hj₀.2).1
        have hB := createType_narrowed hA.sound.fresh
          (hj₀.1.trans_le hA.sound.grows.tvarNumber) hj₁ hbn
        have hatom : s₂.Atom an := by
          obtain ⟨x, rfl⟩ | ⟨k, ds, rfl, hk, hfree⟩ := hA.atom.cases
          · trivial
          · have hkj : k ≠ j := by
              rintro rfl
              exact (hA.others k (Ne.symm hij) hj₀.1 hj₀.2).2 ds rfl
            exact ⟨hk.trans_le hB.sound.grows.tvarNumber, (hB.others k hkj hk hfree).1⟩
        have hC := createSimpleConstraint_sound hB.sound.fresh hatom hB.atom ?hbase h
        case hbase =>
          intro hm x' y' hx' hy'
          obtain ⟨x, hx, y, hy, hxy, rfl, rfl⟩ := doNarrow_singletons (hA.base x' hx') (hB.base y' hy')
          have hm₀ : (s.record is js flex).NoMixed :=
            hm.of_prefix (hA.sound.grows.trans hB.sound.grows).compared
          exact (sat_of_splitBaseType hxy (hm₀.of_record hx hy)).narrowedBoth
        refine (((hrec.trans hA.sound fun _ _ _ => trivial).trans hB.sound fun _ _ _ => trivial).trans hC
          fun σ henv hσ => ?_).imp ?_
        · exact ⟨hA.respected σ (henv.of_prefix hB.sound.grows.env) hσ.1, hB.respected σ henv hσ.2⟩
        · rintro - σ - - ⟨⟨⟨-, hi⟩, hj⟩, hsat⟩
          rw [hi, hj]
          exact hsat

theorem fullyBounded_sound (hs : s.Fresh) (ds : List BaseType) : Sound s (fullyBounded s ds).2 pre fun _ => True := by
  unfold fullyBounded
  split
  · exact Sound.count hs 1
  · exact Sound.refl hs fun _ _ => trivial

theorem fullyBounded_of_ne {ds : List BaseType} (h : ds ≠ []) : (fullyBounded s ds).1 = ds := by
  rw [fullyBounded, if_neg h]

theorem fullyBounded_env (s : Solver) (ds : List BaseType) : (fullyBounded s ds).2.typingEnv = s.typingEnv := by
  unfold fullyBounded
  split <;> rfl

/-- The state in which a variable with disjuncts `ds` is narrowed against base types. -/
theorem fullyBounded_record (pre : Subst → Prop) (hs : s.Fresh) (hi : s.Atom (.tvar i is))
    (l r : List BaseType) :
    Sound s ((fullyBounded s is).2.record l r flex) pre (fun _ => True) ∧
      ((fullyBounded s is).2.record l r flex).Atom (.tvar i is) := by
  have hfull : Sound s (fullyBounded s is).2 pre fun _ => True := fullyBounded_sound hs is
  have hrec := hfull.trans (Sound.record hfull.fresh l r flex) fun _ _ h => h
  refine ⟨hrec.imp fun _ _ _ _ _ => trivial, hi.1.trans_le hrec.grows.tvarNumber, ?_⟩
  rw [Solver.record_env, fullyBounded_env]
  exact hi.2

theorem simplifyL_sound {b : BaseType} (hs : s.Fresh) (hi : s.Atom (.tvar i is))
    (h : simplifyL s i is b flex = some (v, s')) (hv : v ≠ .absurdity) :
    Sound s s' (BothRespected (.tvar i is) (.base b)) fun σ => Sat flex (σ.type i) (.base b) := by
  simp only [simplifyL] at h
  split at h
  case isTrue =>
    cases h
    exact absurd rfl hv
  case isFalse hne =>
    simp only [bind_eq_bind, bind_eq_some_iff, pure_def] at h
    obtain ⟨⟨an, s₁⟩, han, h⟩ := h
    obtain ⟨hrec, hi₀⟩ := fullyBounded_record (BothRespected (.tvar i is) (.base b)) hs hi
      (fullyBounded s is).1 [b]
    have hA := createType_narrowed hrec.fresh hi₀.1 hi₀.2 han
    have hRA := hrec.trans hA.sound fun _ _ _ => trivial
    have hmixed : s₁.NoMixed → ∀ x ∈ (fullyBounded s is).1, flex = true → ¬ Mixed (x, b) :=
      fun hm x hx => (hm.of_prefix hA.sound.grows.compared).of_record hx (mem_singleton_self b)
    split at h
    case isTrue hlen =>
      -- no disjunct is gone: whichever the variable is, it is compatible
      cases h
      have his : is ≠ [] := fun hnil => hne (List.length_eq_zero_iff.mp (by rw [hlen, hnil]; rfl))
      rw [fullyBounded_of_ne his] at hlen hmixed
      refine hRA.imp fun hm σ _ hσ _ => ?_
      obtain ⟨d, hd, hσd⟩ := hσ.1 his
      rw [hσd]
      exact sat_of_splitBaseType (splitBaseType_of_doNarrow_left hlen hd) (hmixed hm d hd)
    case isFalse =>
      have hC := createSimpleConstraint_sound (b := .base b) hA.sound.fresh hA.atom trivial ?hbase h
      case hbase =>
        intro hm x' y hx' hy
        cases hy
        have hmem : x' ∈ (doNarrow (fullyBounded s is).1 [b] flex).1 := by
          rw [hA.base x' hx']
          exact mem_singleton_self x'
        obtain ⟨x, hx, hxb, rfl⟩ := mem_doNarrow_left hmem
        exact (sat_of_splitBaseType hxb (hmixed hm x hx)).narrowed
      refine (hRA.trans hC fun σ henv hσ => ⟨hA.respected σ henv hσ.1, hσ.2⟩).imp ?_
      rintro - σ - - ⟨⟨-, hi⟩, hsat⟩
      rw [hi]
      exact hsat

theorem simplifyR_sound {a : BaseType} (hs : s.Fresh) (hj : s.Atom (.tvar j js))
    (h : simplifyR s a j js flex = some (v, s')) (hv : v ≠ .absurdity) :
    Sound s s' (BothRespected (.base a) (.tvar j js)) fun σ => Sat flex (.base a) (σ.type j) := by
  simp only [simplifyR] at h
  split at h
  case isTrue =>
    cases h
    exact absurd rfl hv
  case isFalse hne =>
    simp only [bind_eq_bind, bind_eq_some_iff, pure_def] at h
    obtain ⟨⟨bn, s₁⟩, hbn, h⟩ := h
    obtain ⟨hrec, hj₀⟩ := fullyBounded_record (BothRespected (.base a) (.tvar j js)) hs hj
      [a] (fullyBounded s js).1
    have hB := createType_narrowed hrec.fresh hj₀.1 hj₀.2 hbn
    have hRB := hrec.trans hB.sound fun _ _ _ => trivial
    have hmixed : s₁.NoMixed → ∀ y ∈ (fullyBounded s js).1, flex = true → ¬ Mixed (a, y) :=
      fun hm y hy => (hm.of_prefix hB.sound.grows.compared).of_record (mem_singleton_self a) hy
    split at h
    case isTrue hlen =>
      cases h
      have hjs : js ≠ [] := fun hnil => hne (List.length_eq_zero_iff.mp (by rw [hlen, hnil]; rfl))
      rw [fullyBounded_of_ne hjs] at hlen hmixed
      refine hRB.imp fun hm σ _ hσ _ => ?_
      obtain ⟨d, hd, hσd⟩ := hσ.2 hjs
      rw [hσd]
      exact sat_of_splitBaseType (splitBaseType_of_doNarrow_right hlen hd) (hmixed hm d hd)
    case isFalse =>
      have hC := createSimpleConstraint_sound (a := .base a) hB.sound.fresh trivial hB.atom ?hbase h
      case hbase =>
        intro hm x y' hx hy'
        cases hx
        have hmem : y' ∈ (doNarrow [a] (fullyBounded s js).1 flex).2 := by
          rw [hB.base y' hy']
          exact mem_singleton_self y'
        obtain ⟨y, hy, hay, rfl⟩ := mem_doNarrow_right hmem
        exact (sat_of_splitBaseType hay (hmixed hm y hy)).narrowedR
      refine (hRB.trans hC fun σ henv hσ => ⟨hσ.1, hB.respected σ henv hσ.2⟩).imp ?_
      rintro - σ - - ⟨⟨-, hj⟩, hsat⟩
      rw [hj]
      exact hsat

end Variables

end Typing
