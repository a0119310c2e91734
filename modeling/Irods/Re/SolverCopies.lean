-- SUMMARY: A variable compared with a type becomes a copy of it.
import Irods.Re.SolverMoves
import Mathlib.Order.Interval.Finset.Nat

/-!
# Copies

A variable that is compared with a constructed type is bound to a type of the same form over new
variables, each of which is compared with an argument. As long as the type does not lead back to the
variable, each new variable becomes a copy of its argument, by induction on the height of the type.
-/

namespace Solving

open Typing (ExprType BaseType TVar Solver Satisfiability Simplifier lookupFromHashTable dereference dereferenceFuel
  getEquivalenceClassRep occursInEquiv occursInEquivs freshArgs freshLike narrow simplifyL simplifyR splitArgs
  splitConsOrTuple splitVar splitVarL splitVarR stripFlex simplifyLocally)
open Triangular
open Unification (look number AcyclicTable)

variable {P Q : Nat → Prop} {env env' : List (Nat × ExprType)} {L L' : Finset Nat} {s s' : Solver}
  {t u a b a' b' : ExprType} {id i j k n fuel fuel' : Nat} {ds is js : List BaseType} {flex left : Bool}

/-! ## More fuel -/

/-- Where the first returns, the second returns the same. -/
def Agrees (f g : Simplifier) : Prop := ∀ s a b flex r, f s a b flex = some r → g s a b flex = some r

variable {f : Simplifier} {r : Satisfiability × Solver}

section Fuel

variable {g : Simplifier}

variable {args : List (ExprType × ExprType)} {ret : Satisfiability}

theorem splitArgs_mono (h : Agrees f g) (hr : splitArgs f flex args s ret = some r) :
    splitArgs g flex args s ret = some r := by
  induction args generalizing s ret with
  | nil => exact hr
  | cons p args ih =>
    obtain ⟨a, b⟩ := p
    rw [splitArgs] at hr ⊢
    cases hf : f s a b flex with
    | none =>
      rw [hf] at hr
      cases hr
    | some r₁ =>
      obtain ⟨v, s₁⟩ := r₁
      rw [hf] at hr
      rw [h s a b flex _ hf]
      cases v with
      | absurdity => exact hr
      | tautology => exact ih hr
      | contingency => exact ih hr

theorem splitConsOrTuple_mono (h : Agrees f g) (hr : splitConsOrTuple f s a b flex = some r) :
    splitConsOrTuple g s a b flex = some r := by
  unfold splitConsOrTuple at hr ⊢
  split at hr
  · split_ifs at hr ⊢
    · exact hr
    · exact splitArgs_mono h hr
  · split_ifs at hr ⊢
    · exact hr
    · exact splitArgs_mono h hr
  · exact hr

theorem splitVar_mono (h : Agrees f g) (hr : splitVar f s i is t flex left = some r) :
    splitVar g s i is t flex left = some r := by
  unfold splitVar at hr ⊢
  by_cases hoccurs : occursInEquiv t = true
  · rwa [if_pos hoccurs] at hr ⊢
  rw [if_neg hoccurs] at hr ⊢
  cases hrep : getEquivalenceClassRep s (.tvar i is) with
  | none =>
    rw [hrep] at hr
    cases hr
  | some rep =>
    rw [hrep] at hr
    by_cases hbase : rep.1.isBaseType = true
    · exact (if_pos hbase).trans ((if_pos hbase).symm.trans hr)
    · refine (if_neg hbase).trans ?_
      have hr := (if_neg hbase).symm.trans hr
      cases left with
      | true => exact splitConsOrTuple_mono h hr
      | false => exact splitConsOrTuple_mono h hr

theorem simplifyLocally_agrees : ∀ fuel, Agrees (simplifyLocally fuel) (simplifyLocally (fuel + 1)) := by
  intro fuel
  induction fuel with
  | zero => exact fun _ _ _ _ _ h => nomatch h
  | succ fuel ih =>
    intro s a b flex r h
    rw [simplifyLocally] at h ⊢
    simp only [Option.bind_eq_bind, Option.bind_eq_some_iff, Option.pure_def] at h ⊢
    obtain ⟨a', ha', b', hb', h⟩ := h
    refine ⟨a', ha', b', hb', ?_⟩
    split at h
    case h_8 => exact splitVar_mono ih h
    case h_9 => exact splitVar_mono ih h
    case h_10 => exact splitVar_mono ih h
    case h_11 => exact splitVar_mono ih h
    case h_12 => exact splitConsOrTuple_mono ih h
    case h_13 => exact splitConsOrTuple_mono ih h
    all_goals exact h

theorem agrees_of_le (h : fuel ≤ fuel') : Agrees (simplifyLocally fuel) (simplifyLocally fuel') := by
  induction h with
  | refl => exact fun _ _ _ _ _ h => h
  | step _ ih => exact fun s a b flex r h => simplifyLocally_agrees _ _ _ _ _ _ (ih s a b flex r h)

/-- Two runs that return do so with the same result. -/
theorem splitArgs_unique {r₁ r₂ : Satisfiability × Solver}
    (h₁ : splitArgs (simplifyLocally fuel) flex args s ret = some r₁)
    (h₂ : splitArgs (simplifyLocally fuel') flex args s ret = some r₂) : r₁ = r₂ := by
  have h₁ := splitArgs_mono (agrees_of_le (Nat.le_max_left fuel fuel')) h₁
  have h₂ := splitArgs_mono (agrees_of_le (Nat.le_max_right fuel fuel')) h₂
  exact Option.some.inj (h₁.symm.trans h₂)

end Fuel

/-! ## Dereferencing -/

/-- What a type stands for: bound variables are followed. -/
inductive StandsFor (env : List (Nat × ExprType)) : ExprType → ExprType → Prop
  | self {t : ExprType} : (∀ id ds, t = .tvar id ds → look env id = none) → StandsFor env t t
  | bound {id : Nat} {ds : List BaseType} {t u : ExprType} :
    look env id = some t → StandsFor env t u → StandsFor env (.tvar id ds) u

theorem standsFor_of_dereferenceFuel : ∀ {n : Nat} {t : ExprType},
    dereferenceFuel env n t = some u → StandsFor env t u := by
  intro n
  induction n with
  | zero =>
    intro t h
    cases h
  | succ n ih =>
    intro t h
    cases t with
    | tvar id ds =>
      rw [dereferenceFuel] at h
      cases hlook : look env id with
      | none =>
        rw [show lookupFromHashTable env id = none from hlook] at h
        cases h
        refine .self fun id' ds' hid => ?_
        cases hid
        exact hlook
      | some t =>
        rw [show lookupFromHashTable env id = some t from hlook] at h
        exact .bound hlook (ih h)
    | _ =>
      cases h
      refine .self fun id ds hid => ?_
      cases hid

theorem exists_standsFor (hacyclic : AcyclicTable env) (t : ExprType) :
    ∃ u, dereference env t = some u ∧ StandsFor env t u := by
  obtain ⟨rank, hrank⟩ := hacyclic
  obtain ⟨u, hu, -⟩ := Unification.dereference_spec hrank t
  exact ⟨u, hu, standsFor_of_dereferenceFuel hu⟩

/-- What is bound in the environment is over `P` where the variable is. -/
def Closed (P : Nat → Prop) (env : List (Nat × ExprType)) : Prop := ∀ id t, P id → look env id = some t → Plain P t

theorem StandsFor.plain (h : StandsFor env t u) (hclosed : Closed P env) (ht : Plain P t) : Plain P u := by
  induction h with
  | self => exact ht
  | bound hlook _ ih => exact ih (hclosed _ _ ht.1 hlook)

theorem StandsFor.height (h : StandsFor env t u) (ht : Height env n t) : Height env n u := by
  induction h with
  | self => exact ht
  | bound hlook _ ih =>
    cases ht with
    | free hnone =>
      rw [hnone] at hlook
      cases hlook
    | bound hlook' ht =>
      obtain rfl := Option.some.inj (hlook.symm.trans hlook')
      exact ih ht

theorem StandsFor.free (h : StandsFor env t (.tvar id ds)) : look env id = none := by
  generalize hu : ExprType.tvar id ds = u at h
  induction h with
  | self hself => exact hself id ds hu.symm
  | bound _ _ ih => exact ih hu

theorem StandsFor.root (h : StandsFor s.typingEnv t (.tvar id ds)) (hs : Tracked L s) (ht : Plain (· ∈ L) t) :
    Root L s (.tvar id ds) := by
  have hplain := h.plain (fun id t _ hlook => hs.values id t hlook) ht
  exact ⟨hplain.1, h.free, hplain.2⟩

/-- A constructor, or that of the tuples. -/
inductive Form where
  | cons (f : String)
  | tuple
deriving DecidableEq

def Form.type : Form → List ExprType → ExprType
  | .cons f, args => .cons f args
  | .tuple, args => .tuple args

/-- A base type, a variable or a constructed type. -/
inductive Kinds (P : Nat → Prop) : ExprType → Prop
  | base {c : BaseType} : Named c → Kinds P (.base c)
  | var {id : Nat} {ds : List BaseType} : P id → (∀ d ∈ ds, Named d) → Kinds P (.tvar id ds)
  | type (form : Form) {args : List ExprType} : (∀ t ∈ args, Plain P t) → Kinds P (form.type args)

theorem Plain.kinds (h : Plain P t) : Kinds P t := by
  cases t with
  | base c => exact .base h
  | tvar id ds => exact .var h.1 h.2
  | cons f args => exact .type (.cons f) (plainAll_iff.mp h)
  | tuple args => exact .type .tuple (plainAll_iff.mp h)
  | _ => cases h

variable {form : Form} {args : List ExprType}

theorem Form.plain_iff : Plain P (form.type args) ↔ ∀ t ∈ args, Plain P t := by
  cases form <;> exact plainAll_iff

theorem Form.vars_type : (form.type args).vars = ExprType.varsAll args := by
  cases form <;> rfl

theorem mem_varsAll {x : TVar} {ts : List ExprType} : x ∈ ExprType.varsAll ts ↔ ∃ t ∈ ts, x ∈ t.vars := by
  induction ts with
  | nil => simp [ExprType.varsAll]
  | cons t ts ih => simp [ExprType.varsAll, ih]

theorem Height.of_type (h : Height env n (form.type args)) : ∃ m, n = m + 1 ∧ ∀ t ∈ args, Height env m t := by
  cases form with
  | cons f =>
    cases h with
    | cons hargs => exact ⟨_, rfl, hargs⟩
  | tuple =>
    cases h with
    | tuple hargs => exact ⟨_, rfl, hargs⟩

mutual

/-- No part of a type is a variable and a base type at once. -/
theorem occursInEquiv_plain : ∀ t : ExprType, Plain P t → occursInEquiv t = false
  | .base _, _ => rfl
  | .tvar _ _, _ => rfl
  | .cons _ args, h => occursInEquivs_plain args h
  | .tuple args, h => occursInEquivs_plain args h

theorem occursInEquivs_plain : ∀ ts : List ExprType, PlainAll P ts → occursInEquivs ts = false
  | [], _ => rfl
  | t :: ts, h => by rw [occursInEquivs, occursInEquiv_plain t h.1, occursInEquivs_plain ts h.2]; rfl

end

theorem stripFlex_plain (h : Plain P t) : stripFlex t false = (t, false) := by
  cases t <;> first | rfl | cases h

/-! ## One comparison -/

/-- The simplifier on a type and another, on these sides or the other way round. -/
def onSides (f : Simplifier) (left : Bool) (s : Solver) (t u : ExprType) : Option (Satisfiability × Solver) :=
  if left then f s t u false else f s u t false

variable {c : BaseType}

section Comparing

variable (hb : Plain P b) (ha' : dereference s.typingEnv a = some a') (hb' : dereference s.typingEnv b = some b')
include hb ha' hb'

theorem simplifyLocally_bases {d : BaseType} (hac : a' = .base c) (hbd : b' = .base d) :
    simplifyLocally (fuel + 1) s a b false =
      some (if Typing.splitBaseType c d false then .tautology else .absurdity, s) := by
  subst hac hbd
  simp only [simplifyLocally, stripFlex_plain hb, ha', hb']
  rfl

theorem simplifyLocally_vars (hai : a' = .tvar i is) (hbj : b' = .tvar j js) :
    simplifyLocally (fuel + 1) s a b false = narrow s i is j js false := by
  subst hai hbj
  simp only [simplifyLocally, stripFlex_plain hb, ha', hb']
  rfl

theorem simplifyLocally_types {form' : Form} {args' : List ExprType} (haf : a' = form.type args)
    (hbf : b' = form'.type args') :
    simplifyLocally (fuel + 1) s a b false =
      splitConsOrTuple (simplifyLocally fuel) s (form.type args) (form'.type args') false := by
  subst haf hbf
  cases form <;> cases form' <;> simp only [Form.type, simplifyLocally, stripFlex_plain hb, ha', hb'] <;> rfl

end Comparing

theorem simplifyLocally_var_base (ht : Plain P t) (hu : Plain Q u)
    (hti : dereference s.typingEnv t = some (.tvar i is)) (huc : dereference s.typingEnv u = some (.base c)) :
    onSides (simplifyLocally (fuel + 1)) left s t u =
      if left then simplifyL s i is c false else simplifyR s c i is false := by
  cases left <;> simp only [onSides, simplifyLocally, stripFlex_plain ht, stripFlex_plain hu, hti, huc] <;> rfl

/-- A variable is split against a constructed type. -/
theorem simplifyLocally_var_type (ht : Plain P t) (hu : Plain Q u)
    (hti : dereference s.typingEnv t = some (.tvar i is)) (huf : dereference s.typingEnv u = some (form.type args)) :
    onSides (simplifyLocally (fuel + 1)) left s t u =
      splitVar (simplifyLocally fuel) s i is (form.type args) false left := by
  cases left <;> cases form <;>
    simp only [Form.type, onSides, simplifyLocally, stripFlex_plain ht, stripFlex_plain hu, hti, huf] <;> rfl

/-- Types of one form and length are compared argument by argument, others not at all. -/
theorem splitConsOrTuple_types (form form' : Form) (as bs : List ExprType) :
    splitConsOrTuple f s (form.type as) (form'.type bs) false =
      if form = form' ∧ as.length = bs.length then splitArgs f false (as.zip bs) s .tautology
      else some (.absurdity, s) := by
  cases form with
  | cons c =>
    cases form' with
    | cons d =>
      have hiff : (c ≠ d ∨ as.length ≠ bs.length) ↔ ¬ (Form.cons c = .cons d ∧ as.length = bs.length) := by
        rw [Form.cons.injEq, not_and_or]
      simp only [Form.type, splitConsOrTuple, hiff, ite_not]
    | tuple => rfl
  | tuple =>
    cases form' with
    | cons d => rfl
    | tuple => simp only [Form.type, splitConsOrTuple, ne_eq, ite_not, true_and]

/-! ## Opening a variable -/

variable {h : List (String × ExprType)}

section Opening

/-- The variable is bound to a type of the form over new variables. -/
def opened (s : Solver) (i : Nat) (form : Form) (n : Nat) (h : List (String × ExprType)) : Solver :=
  bound { s with tvarNumber := s.tvarNumber + n } i (form.type (freshArgs s n).1) h

def withNew (L : Finset Nat) (s : Solver) (n : Nat) : Finset Nat := L ∪ Finset.Ico s.tvarNumber (s.tvarNumber + n)

/-- The new variables with their arguments, on their sides. -/
def pairs (left : Bool) : Nat → List ExprType → List (ExprType × ExprType)
  | _, [] => []
  | m, t :: ts => (if left then (.tvar m [], t) else (t, .tvar m [])) :: pairs left (m + 1) ts

theorem zip_pairs : ∀ {m : Nat} {args : List ExprType},
    ((List.range' m args.length).map fun id => .tvar id []).zip args = pairs true m args ∧
      args.zip ((List.range' m args.length).map fun id => .tvar id []) = pairs false m args
  | _, [] => ⟨rfl, rfl⟩
  | m, _ :: args => by
    obtain ⟨hleft, hright⟩ := @zip_pairs (m + 1) args
    simp only [List.length_cons, List.range'_succ, List.map_cons, List.zip_cons_cons, hleft, hright]
    exact ⟨rfl, rfl⟩

variable {m : Nat} {ret : Satisfiability}

theorem splitArgs_pairs (hrun : onSides f left s (.tvar m []) t = some (.tautology, s')) :
    splitArgs f false (pairs left m (t :: args)) s ret = splitArgs f false (pairs left (m + 1) args) s' ret := by
  cases left with
  | true => simp only [pairs, splitArgs, if_true, show f s (.tvar m []) t false = _ from hrun]
  | false => simp only [pairs, splitArgs, Bool.false_eq_true, if_false, show f s t (.tvar m []) false = _ from hrun]

theorem splitArgs_pairs_none (hrun : onSides f left s (.tvar m []) t = none) :
    splitArgs f false (pairs left m (t :: args)) s ret = none := by
  cases left with
  | true => simp only [pairs, splitArgs, if_true, show f s (.tvar m []) t false = _ from hrun]
  | false => simp only [pairs, splitArgs, Bool.false_eq_true, if_false, show f s t (.tvar m []) false = _ from hrun]

/-- Splitting opens the variable, since no base type stands for it, and goes through the arguments. -/
theorem splitVar_eq (hs : Tracked L s) (hi : Root L s (.tvar i is)) (hargs : Plain P (form.type args)) (left : Bool) :
    ∃ h, Coherent s.typingEnv h ∧ ∀ f : Simplifier, splitVar f s i is (form.type args) false left =
      splitArgs f false (pairs left s.tvarNumber args) (opened s i form args.length h) .tautology := by
  obtain ⟨rep, h, hrep, hc, hspec, -⟩ := getEquivalenceClassRep_spec (t := .tvar i is) hs.coherent trivial
  refine ⟨h, hc, fun f => ?_⟩
  have hbase : ¬ rep.isBaseType = true := by
    intro hbase
    cases rep with
    | base c => exact not_same_base hs.acyclic hi.2.1 c hspec.same
    | _ => cases hbase
  have hlike : freshLike { s with equivalence := h } (form.type args) =
      (form.type (freshArgs s args.length).1,
        { s with equivalence := h, tvarNumber := s.tvarNumber + args.length }) := by
    cases form <;> rfl
  have hlen : ((List.range' s.tvarNumber args.length).map fun id => ExprType.tvar id []).length = args.length := by simp
  unfold splitVar
  rw [if_neg (by rw [occursInEquiv_plain _ hargs]; decide), hrep]
  dsimp only
  rw [if_neg hbase, hlike]
  cases left with
  | true =>
    rw [← zip_pairs.1]
    exact (splitConsOrTuple_types form form _ _).trans (if_pos ⟨rfl, hlen⟩)
  | false =>
    rw [← zip_pairs.2]
    exact (splitConsOrTuple_types form form _ _).trans (if_pos ⟨rfl, hlen.symm⟩)

theorem plain_new (form : Form) (hP : ∀ id ∈ Finset.Ico s.tvarNumber (s.tvarNumber + n), P id) :
    Plain P (form.type (freshArgs s n).1) := by
  refine Form.plain_iff.2 fun t ht => ?_
  obtain ⟨id, hid, rfl⟩ := List.mem_map.mp ht
  rw [List.mem_range'_1] at hid
  exact ⟨hP id (Finset.mem_Ico.mpr hid), nofun⟩

theorem look_opened (hi : Root L s (.tvar i is)) (form : Form) : look (opened s i form n h).typingEnv =
    Function.update (look s.typingEnv) i (some (form.type (freshArgs s n).1)) := look_bind hi.2.1 _

variable (hs : Tracked L s) (hi : Root L s (.tvar i is))
include hs hi

theorem mem_new (hid : id ∈ Finset.Ico s.tvarNumber (s.tvarNumber + n)) :
    id ∈ withNew L s n ∧ look s.typingEnv id = none ∧ id ≠ i := by
  have hlow := (Finset.mem_Ico.mp hid).1
  refine ⟨Finset.mem_union_right _ hid, hs.look_new hlow, ?_⟩
  rintro rfl
  exact absurd (hs.below id hi.1) (by omega)

theorem opened_moves (hc : Coherent s.typingEnv h) (hclosed : Closed P s.typingEnv) (hP : ¬ P i) (form : Form) :
    Moves (· = i) P L s (withNew L s n) (opened s i form n h) := by
  have hlook := look_opened (n := n) (h := h) hi form
  have hold (id : Nat) (hid : id ≠ i) : look (opened s i form n h).typingEnv id = look s.typingEnv id := by
    rw [hlook, Function.update_of_ne hid]
  have hcount : Tracked (withNew L s n) { s with tvarNumber := s.tvarNumber + n } := by
    refine hs.count Finset.subset_union_left fun id hid => ?_
    exact (Finset.mem_union.mp hid).imp_right fun hid => (Finset.mem_Ico.mp hid).2
  have htype := plain_new form fun id hid => mem_new hs hi (n := n) hid
  have hext : Triangular.Extends (look s.typingEnv) (look (opened s i form n h).typingEnv) :=
    extends_bind hi.2.1 (form.type (freshArgs s n).1)
  have htracked : Tracked (withNew L s n) (opened s i form n h) :=
    hcount.bind (Finset.mem_union_left _ hi.1) hi.2.1 htype (hc.of_extends hext)
  refine ⟨htracked, Finset.subset_union_left, Nat.le_add_right _ _, hext,
    fun id u hsome hnone => ?_, fun m u hu hheight => ?_⟩
  · have hid : id = i := by
      by_contra hid
      rw [hold id hid, hnone] at hsome
      cases hsome
    subst hid
    rw [hlook, Function.update_self, Option.some.injEq] at hsome
    subst hsome
    exact ⟨.inl rfl, plain_new form fun id hid => .inr (Finset.mem_Ico.mp hid)⟩
  · exact hheight.bind_outside hclosed (fun id hid => hold id fun heq => hP (heq ▸ hid)) hu

theorem root_new (form : Form) (hid : id ∈ Finset.Ico s.tvarNumber (s.tvarNumber + n)) :
    Root (withNew L s n) (opened s i form n h) (.tvar id []) := by
  obtain ⟨hmem, hfree, hne⟩ := mem_new hs hi hid
  refine ⟨hmem, ?_, nofun⟩
  rw [look_opened hi form, Function.update_of_ne hne]
  exact hfree

theorem openVars_opened (form : Form) :
    openVars (withNew L s n) (opened s i form n h) + 1 = openVars L s + n := by
  have hbound := openVars_bound (s := { s with tvarNumber := s.tvarNumber + n }) (t := form.type (freshArgs s n).1)
    (h := h) (L := withNew L s n) (Finset.mem_union_left _ hi.1) hi.2.1
  have hnew : (Finset.Ico s.tvarNumber (s.tvarNumber + n)).filter (fun id => (look s.typingEnv id).isNone) =
      Finset.Ico s.tvarNumber (s.tvarNumber + n) :=
    Finset.filter_true_of_mem fun id hid => by rw [(mem_new hs hi hid).2.1]; rfl
  have hdisjoint : Disjoint (L.filter fun id => (look s.typingEnv id).isNone)
      (Finset.Ico s.tvarNumber (s.tvarNumber + n)) := by
    refine Finset.disjoint_left.mpr fun id hid hid' => ?_
    have := hs.below id (Finset.mem_filter.mp hid).1
    have := (Finset.mem_Ico.mp hid').1
    omega
  refine hbound.trans ?_
  rw [openVars, withNew, Finset.filter_union, hnew, Finset.card_union_of_disjoint hdisjoint, Nat.card_Ico,
    Nat.add_sub_cancel_left]
  rfl

end Opening

/-! ## Copies -/

/-- A variable became a copy of a type over `P`: nothing else is bound but variables in `P` and new ones, and
what is over `P` is as high as it was. -/
structure Copied (P : Nat → Prop) (i : Nat) (L : Finset Nat) (s : Solver) (L' : Finset Nat) (s' : Solver) : Prop where
  moves : Moves (fun id => P id ∨ id = i) P L s L' s'
  progress : openVars L' s' + 1 ≤ openVars L s

/-- What a copy is made of: variables in use, among them none that the type does not lead to. -/
structure Source (P : Nat → Prop) (L : Finset Nat) (s : Solver) (n : Nat) (t : ExprType) : Prop where
  plain : Plain P t
  used : Plain (· ∈ L) t
  height : Height s.typingEnv n t

/-- A free variable outside of `P` becomes a copy of every type over `P` of the height. -/
def CopiesAt (left : Bool) (n : Nat) : Prop :=
  ∀ {P : Nat → Prop} {L : Finset Nat} {s : Solver} {j : Nat} {t : ExprType}, Tracked L s → Closed P s.typingEnv →
    (∀ id, P id → id < s.tvarNumber) → Root L s (.tvar j []) → ¬ P j → Source P L s n t →
    ∃ fuel L' s', onSides (simplifyLocally fuel) left s (.tvar j []) t = some (.tautology, s') ∧ Copied P j L s L' s'

theorem onSides_mono (hle : fuel ≤ fuel') (h : onSides (simplifyLocally fuel) left s t u = some r) :
    onSides (simplifyLocally fuel') left s t u = some r := by
  cases left with
  | true => exact agrees_of_le hle _ _ _ _ _ h
  | false => exact agrees_of_le hle _ _ _ _ _ h

/-- What was over `P` and what was touched is closed again. -/
theorem Copied.closed (h : Copied P j L s L' s') (hs : Tracked L s) (hclosed : Closed P s.typingEnv)
    (hfree : look s.typingEnv j = none) : Closed (Touched (fun id => P id ∨ id = j) s s') s'.typingEnv := by
  intro id u hid hlook
  cases hold : look s.typingEnv id with
  | none => exact (h.moves.touched id u hlook hold).2
  | some w =>
    obtain rfl : u = w := Option.some.inj (hlook.symm.trans (h.moves.extends' id w hold))
    obtain (hP | rfl) | hnew := hid
    · exact (hclosed id u hP hold).imp fun _ hP => .inl (.inl hP)
    · rw [hfree] at hold
      cases hold
    · rw [hs.look_new hnew.1] at hold
      cases hold

theorem Source.of_moves {B : Nat → Prop} (ht : Source P L s n t) (h : Moves B P L s L' s') (hPQ : ∀ id, P id → Q id) :
    Source Q L' s' n t :=
  ⟨ht.plain.imp hPQ, ht.used.imp fun _ hid => h.sub hid, h.heights n t ht.plain ht.height⟩

/-- From the number `m` on there are `n` new variables outside of `P`, which is closed. -/
structure Pending (P : Nat → Prop) (m n : Nat) (L : Finset Nat) (s : Solver) : Prop where
  tracked : Tracked L s
  closed : Closed P s.typingEnv
  below : ∀ id, P id → id < s.tvarNumber
  roots : ∀ id, m ≤ id → id < m + n → Root L s (.tvar id []) ∧ ¬ P id

variable {m : Nat}

theorem Pending.first (h : Pending P m (n + 1) L s) : Root L s (.tvar m []) ∧ ¬ P m :=
  h.roots m le_rfl (by omega)

/-- The copy of the first leaves the others as they are. -/
theorem Pending.next (h : Pending P m (n + 1) L s) (hc : Copied P m L s L' s') :
    Pending (Touched (fun id => P id ∨ id = m) s s') (m + 1) n L' s' := by
  have hroot := h.first.1
  refine ⟨hc.moves.tracked, hc.closed h.tracked h.closed hroot.2.1, fun id hid => ?_, fun id hlow hhigh => ?_⟩
  · obtain (hid | rfl) | hnew := hid
    · exact (h.below id hid).trans_le hc.moves.tvarNumber
    · exact (h.tracked.below id hroot.1).trans_le hc.moves.tvarNumber
    · exact hnew.2
  · obtain ⟨hroot', hid⟩ := h.roots id (by omega) (by omega)
    have hout : ¬ (P id ∨ id = m) := fun h => h.elim hid (by omega)
    refine ⟨hroot'.of_moves hc.moves h.tracked fun k hk => hk.eq ▸ hout, fun htouched => ?_⟩
    have := h.tracked.below id hroot'.1
    exact htouched.elim hout (by omega)

theorem pending_opened (hs : Tracked L s) (hi : Root L s (.tvar i is)) (hc : Coherent s.typingEnv h)
    (hclosed : Closed P s.typingEnv) (hbelow : ∀ id, P id → id < s.tvarNumber) (hP : ¬ P i) (form : Form) :
    Pending P s.tvarNumber n (withNew L s n) (opened s i form n h) := by
  have hopened := opened_moves (n := n) hs hi hc hclosed hP form
  refine ⟨hopened.tracked, fun id u hid hlook => ?_, fun id hid => ?_, fun id hlow hhigh => ?_⟩
  · rw [look_opened hi form, Function.update_of_ne (fun heq : id = i => hP (heq ▸ hid))] at hlook
    exact hclosed id u hid hlook
  · exact (hbelow id hid).trans_le hopened.tvarNumber
  · refine ⟨root_new hs hi form (Finset.mem_Ico.mpr ⟨hlow, hhigh⟩), fun hid => ?_⟩
    have := hbelow id hid
    omega

/-- Each argument is copied in the state that the copies before it leave. -/
theorem copies_args (hcopy : CopiesAt left n) (hp : Pending P m args.length L s)
    (hargs : ∀ t ∈ args, Source P L s n t) :
    ∃ fuel L' s', splitArgs (simplifyLocally fuel) false (pairs left m args) s .tautology = some (.tautology, s') ∧
      Moves (fun id => P id ∨ m ≤ id ∧ id < m + args.length) P L s L' s' ∧
      openVars L' s' + args.length ≤ openVars L s := by
  induction args generalizing m P L s with
  | nil => exact ⟨0, L, s, rfl, .refl hp.tracked, le_rfl⟩
  | cons t args ih =>
    obtain ⟨fuel₁, L₁, s₁, hrun₁, h₁⟩ := hcopy hp.tracked hp.closed hp.below hp.first.1 hp.first.2
      (hargs t List.mem_cons_self)
    have hP (id : Nat) (hid : P id) : Touched (fun id => P id ∨ id = m) s s₁ id := .inl (.inl hid)
    obtain ⟨fuel₂, L₂, s₂, hrun₂, h₂, hopen⟩ := ih (hp.next h₁) fun u hu =>
      (hargs u (List.mem_cons_of_mem _ hu)).of_moves h₁.moves hP
    refine ⟨max fuel₁ fuel₂, L₂, s₂, ?_, ?_, ?_⟩
    · rw [splitArgs_pairs (onSides_mono (Nat.le_max_left _ _) hrun₁)]
      exact splitArgs_mono (agrees_of_le (Nat.le_max_right _ _)) hrun₂
    · have hfirst : Moves (fun id => P id ∨ m ≤ id ∧ id < m + (args.length + 1)) P L s L₁ s₁ :=
        h₁.moves.imp (fun id hid => hid.imp_right fun hid => by omega) fun _ h => h
      refine hfirst.trans h₂ (fun id hid => ?_) hP
      obtain ((hid | rfl) | hnew) | hrest := hid
      · exact .inl (.inl hid)
      · exact .inl (.inr (by omega))
      · exact .inr hnew
      · exact .inl (.inr (by omega))
    · have := h₁.progress
      rw [List.length_cons]
      omega

/-- A variable that the arguments do not lead to becomes a copy of the type. -/
theorem split_copies (hcopy : CopiesAt left n) (hs : Tracked L s) (hclosed : Closed P s.typingEnv)
    (hbelow : ∀ id, P id → id < s.tvarNumber) (hi : Root L s (.tvar i is)) (hP : ¬ P i)
    (hargs : ∀ t ∈ args, Source P L s n t) :
    ∃ fuel L' s', splitVar (simplifyLocally fuel) s i is (form.type args) false left = some (.tautology, s') ∧
      Copied P i L s L' s' := by
  have hplain : Plain P (form.type args) := Form.plain_iff.2 fun t ht => (hargs t ht).plain
  obtain ⟨h, hc, hsplit⟩ := splitVar_eq hs hi hplain left
  have hopened := opened_moves (n := args.length) hs hi hc hclosed hP form
  obtain ⟨fuel, L', s', hrun, hmoves, hopen⟩ := copies_args hcopy (pending_opened hs hi hc hclosed hbelow hP form)
    fun t ht => (hargs t ht).of_moves hopened fun _ h => h
  refine ⟨fuel, L', s', (hsplit _).trans hrun, ?_, ?_⟩
  · have hfirst : Moves (fun id => P id ∨ id = i) P L s _ _ := hopened.imp (fun _ => .inr) fun _ h => h
    refine hfirst.trans hmoves (fun id hid => ?_) fun _ h => h
    exact hid.elim (fun hid => .inl (.inl hid)) .inr
  · have := openVars_opened (n := args.length) (h := h) hs hi form
    omega

theorem copies (left : Bool) (n : Nat) : CopiesAt left n := by
  induction n using Nat.strong_induction_on with
  | _ n ih =>
    intro P L s j t hs hclosed hbelow hj hPj ht
    obtain ⟨u, hu, hfor⟩ := exists_standsFor hs.acyclic t
    have hself : dereference s.typingEnv (.tvar j []) = some (.tvar j []) :=
      Unification.dereference_self fun id ds hid => by cases hid; exact hj.2.1
    have hplain := hfor.plain hclosed ht.plain
    have hused := hfor.plain (fun id t _ hlook => hs.values id t hlook) ht.used
    cases hplain.kinds with
    | @base c hc =>
      have hrun : onSides (simplifyLocally 1) left s (.tvar j []) t =
          if left then simplifyL s j [] c false else simplifyR s c j [] false :=
        simplifyLocally_var_base hj.plain ht.plain hself hu
      have hcopied {L' : Finset Nat} {s' : Solver} (hmoves : Moves (· = j) (fun _ => True) L s L' s')
          (hopen : openVars L' s' + 1 ≤ openVars L s) : Copied P j L s L' s' :=
        ⟨hmoves.imp (fun _ => .inr) fun _ _ => trivial, hopen⟩
      cases left with
      | true =>
        obtain ⟨L', s', hsimplify, hmoves, hopen⟩ := simplifyL_free hs hj hc
        exact ⟨1, L', s', hrun.trans hsimplify, hcopied hmoves hopen⟩
      | false =>
        obtain ⟨L', s', hsimplify, hmoves, hopen⟩ := simplifyR_free hs hj hc
        exact ⟨1, L', s', hrun.trans hsimplify, hcopied hmoves hopen⟩
    | @var k ds hk _ =>
      have hroot := hfor.root hs ht.used
      have hne : j ≠ k := fun heq => hPj (heq ▸ hk)
      cases left with
      | true =>
        obtain ⟨s', hnarrow, hmoves, hopen⟩ := narrow_free hs hj hroot hne (.inl rfl)
        refine ⟨1, L, s', (simplifyLocally_vars ht.plain hself hu rfl rfl).trans hnarrow, hmoves.imp ?_ ?_, hopen⟩
        · rintro id (rfl | rfl)
          · exact .inr rfl
          · exact .inl hk
        · exact fun _ _ => trivial
      | false =>
        obtain ⟨s', hnarrow, hmoves, hopen⟩ := narrow_free hs hroot hj hne.symm (.inr rfl)
        refine ⟨1, L, s', (simplifyLocally_vars hj.plain hu hself rfl rfl).trans hnarrow, hmoves.imp ?_ ?_, hopen⟩
        · rintro id (rfl | rfl)
          · exact .inl hk
          · exact .inr rfl
        · exact fun _ _ => trivial
    | @type form args hargs =>
      obtain ⟨m, rfl, hheights⟩ := (hfor.height ht.height).of_type
      have hsource (t : ExprType) (ht : t ∈ args) : Source P L s m t :=
        ⟨hargs t ht, Form.plain_iff.1 hused t ht, hheights t ht⟩
      have hsplit : ∃ fuel L' s', splitVar (simplifyLocally fuel) s j [] (form.type args) false left =
          some (.tautology, s') ∧ Copied P j L s L' s' :=
        split_copies (ih m (Nat.lt_succ_self m)) hs hclosed hbelow hj hPj hsource
      obtain ⟨fuel, L', s', hrun, hcopied⟩ := hsplit
      exact ⟨fuel + 1, L', s', (simplifyLocally_var_type hj.plain ht.plain hself hu).trans hrun, hcopied⟩

end Solving
