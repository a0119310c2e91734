-- SUMMARY: When splitting a variable against a type ends.
import Irods.Re.SolverCopies

/-!
# Splits

A variable that a type does not lead to becomes a copy of it. One that the type leads to never does:
each split leads to another one, of a new variable.
-/

namespace Solving

open Typing (ExprType BaseType TVar Solver Satisfiability Simplifier dereference freshArgs splitArgs splitVar
  simplifyLocally)
open List (mem_singleton)
open Triangular
open Unification (look number)

variable {P : Nat → Prop} {env env' : List (Nat × ExprType)} {L L' : Finset Nat} {s s' : Solver}
  {t u : ExprType} {id i m fuel fuel' : Nat} {ds is : List BaseType} {left : Bool} {form : Form}
  {args : List ExprType}

/-! ## What a type leads to -/

/-- The type leads to the variable, through the environment. -/
abbrev LeadsTo (env : List (Nat × ExprType)) (t : ExprType) (id : Nat) : Prop := Reaches number (look env) t id

theorem LeadsTo.step (h : LeadsTo env t id) (hlook : look env id = some u) {x : TVar} (hx : x ∈ u.vars) :
    LeadsTo env t x.1 := by
  induction h with
  | here hmem => exact .through hmem hlook (.here hx)
  | through hmem hlook' _ ih => exact .through hmem hlook' (ih hlook)

theorem LeadsTo.of_extends (hext : Triangular.Extends (look env) (look env')) (h : LeadsTo env t id) :
    LeadsTo env' t id := by
  induction h with
  | here hmem => exact .here hmem
  | through hmem hlook _ ih => exact .through hmem (hext _ _ hlook) ih

theorem LeadsTo.used (hs : Tracked L s) (ht : Plain (· ∈ L) t) (h : LeadsTo s.typingEnv t id) : id ∈ L := by
  induction h with
  | here hmem => exact ht.of_mem hmem
  | through _ hlook _ ih => exact ih (hs.values _ _ hlook)

theorem leadsTo_type : LeadsTo env (form.type args) id ↔ ∃ t ∈ args, LeadsTo env t id := by
  constructor
  · intro h
    cases h with
    | here hmem =>
      rw [show Terms.vars (form.type args) = _ from Form.vars_type, mem_varsAll] at hmem
      obtain ⟨t, ht, hmem⟩ := hmem
      exact ⟨t, ht, .here hmem⟩
    | through hmem hlook hreach =>
      rw [show Terms.vars (form.type args) = _ from Form.vars_type, mem_varsAll] at hmem
      obtain ⟨t, ht, hmem⟩ := hmem
      exact ⟨t, ht, .through hmem hlook hreach⟩
  · rintro ⟨t, ht, h⟩
    cases h with
    | here hmem =>
      refine .here ?_
      rw [show Terms.vars (form.type args) = _ from Form.vars_type]
      exact mem_varsAll.mpr ⟨t, ht, hmem⟩
    | through hmem hlook hreach =>
      refine .through ?_ hlook hreach
      rw [show Terms.vars (form.type args) = _ from Form.vars_type]
      exact mem_varsAll.mpr ⟨t, ht, hmem⟩

/-- What a type stands for leads to the same unbound variables. -/
theorem StandsFor.leadsTo (h : StandsFor env t u) (hfree : look env id = none) (hlead : LeadsTo env t id) :
    LeadsTo env u id := by
  induction h with
  | self => exact hlead
  | bound hlook _ ih =>
    refine ih ?_
    cases hlead with
    | here hmem =>
      obtain rfl := mem_singleton.mp hmem
      rw [hfree] at hlook
      cases hlook
    | through hmem hlook' hreach =>
      obtain rfl := mem_singleton.mp hmem
      obtain rfl := Option.some.inj (hlook.symm.trans hlook')
      exact hreach

/-! ## Splits that end -/

/-- What a comparison that holds did. -/
structure Advanced (L : Finset Nat) (s : Solver) (L' : Finset Nat) (s' : Solver) : Prop where
  moves : Moves (fun _ => True) (fun _ => False) L s L' s'
  progress : s'.typingEnv = s.typingEnv ∧ openVars L' s' ≤ openVars L s ∨ openVars L' s' + 1 ≤ openVars L s

theorem Settled.advanced (h : Settled P L s L' s') : Advanced L s L' s' :=
  ⟨h.moves.imp (fun _ _ => trivial) fun _ h => h.elim, h.progress⟩

theorem Copied.advanced (h : Copied P i L s L' s') : Advanced L s L' s' :=
  ⟨h.moves.imp (fun _ _ => trivial) fun _ h => h.elim, .inr h.progress⟩

theorem Returns.imp {after after' : Finset Nat → Solver → Prop} {r : Option (Satisfiability × Solver)}
    (h : Returns after r) (himp : ∀ L s, after L s → after' L s) : Returns after' r := by
  obtain ⟨v, s', hr, hv⟩ := h
  exact ⟨v, s', hr, hv.imp_right fun ⟨hv, L', hafter⟩ => ⟨hv, L', himp L' s' hafter⟩⟩

/-- A variable that the type does not lead to becomes a copy of it. -/
theorem split_spec (hs : Tracked L s) (hi : Root L s (.tvar i is)) (hargs : Plain (· ∈ L) (form.type args))
    (hnot : ¬ LeadsTo s.typingEnv (form.type args) i) (left : Bool) :
    ∃ fuel L' s', splitVar (simplifyLocally fuel) s i is (form.type args) false left = some (.tautology, s') ∧
      Advanced L s L' s' := by
  obtain ⟨n, hheight⟩ := exists_height hs.acyclic (fun id t hlook => (hs.values id t hlook)) hargs
  obtain ⟨m, -, hheights⟩ := hheight.of_type
  have hclosed : Closed (LeadsTo s.typingEnv (form.type args)) s.typingEnv := fun id t hid hlook =>
    (hs.values id t hlook).of_vars fun x hx => hid.step hlook hx
  have hover : Plain (LeadsTo s.typingEnv (form.type args)) (form.type args) :=
    hargs.of_vars fun x hx => .here hx
  have hsource (t : ExprType) (ht : t ∈ args) : Source (LeadsTo s.typingEnv (form.type args)) L s m t :=
    ⟨Form.plain_iff.mp hover t ht, Form.plain_iff.mp hargs t ht, hheights t ht⟩
  obtain ⟨fuel, L', s', hrun, hcopied⟩ : ∃ fuel L' s',
    splitVar (simplifyLocally fuel) s i is (form.type args) false left =
      some (.tautology, s') ∧ Copied (LeadsTo s.typingEnv (form.type args)) i L s L' s' :=
    split_copies (copies left m) hs hclosed (fun id hid => hs.below id (hid.used hs hargs)) hi hnot hsource
  exact ⟨fuel, L', s', hrun, hcopied.advanced⟩

/-! ## Splits that do not end -/

theorem onSides_unique {r₁ r₂ : Satisfiability × Solver} (h₁ : onSides (simplifyLocally fuel) left s t u = some r₁)
    (h₂ : onSides (simplifyLocally fuel') left s t u = some r₂) : r₁ = r₂ :=
  Option.some.inj ((onSides_mono (Nat.le_max_left fuel fuel') h₁).symm.trans
    (onSides_mono (Nat.le_max_right fuel fuel') h₂))

/-- A split with the fuel never returns when the type leads to the variable. -/
def NeverSplits (left : Bool) (fuel : Nat) : Prop :=
  ∀ {L : Finset Nat} {s : Solver} {i : Nat} {is : List BaseType} {form : Form} {args : List ExprType}, Tracked L s →
    Root L s (.tvar i is) → Plain (· ∈ L) (form.type args) → LeadsTo s.typingEnv (form.type args) i →
    splitVar (simplifyLocally fuel) s i is (form.type args) false left = none

/-- What leads to a bound variable with a constructed type stands for no unbound variable. -/
theorem StandsFor.not_var (h : StandsFor env t (.tvar m ds)) (hlead : LeadsTo env t i) (hopen : look env i = some u)
    (hu : ∀ id ds, u ≠ .tvar id ds) : False := by
  generalize hv : ExprType.tvar m ds = v at h
  induction h with
  | self hself =>
    subst hv
    have hfree := hself m ds rfl
    cases hlead with
    | here hmem =>
      obtain rfl := mem_singleton.mp hmem
      rw [hfree] at hopen
      cases hopen
    | through hmem hlook =>
      obtain rfl := mem_singleton.mp hmem
      rw [hfree] at hlook
      cases hlook
  | bound hlook hfor ih =>
    cases hlead with
    | here hmem =>
      obtain rfl := mem_singleton.mp hmem
      obtain rfl := Option.some.inj (hlook.symm.trans hopen)
      cases hfor with
      | self => exact hu m ds hv.symm
      | bound => exact hu _ _ rfl
    | through hmem hlook' hreach =>
      obtain rfl := mem_singleton.mp hmem
      obtain rfl := Option.some.inj (hlook.symm.trans hlook')
      exact ih hreach hv

/-- A new variable is split in its turn when its argument leads to it. -/
theorem never_onSides (hsplit : ∀ fuel', fuel = fuel' + 1 → NeverSplits left fuel') (hs : Tracked L s)
    (hm : Root L s (.tvar m [])) (ht : Plain (· ∈ L) t) (hlead : LeadsTo s.typingEnv t m)
    (hbound : ∀ ds, ¬ StandsFor s.typingEnv t (.tvar m ds)) :
    onSides (simplifyLocally fuel) left s (.tvar m []) t = none := by
  cases fuel with
  | zero => cases left <;> rfl
  | succ fuel =>
    obtain ⟨u, hu, hfor⟩ := exists_standsFor hs.acyclic t
    have hself : dereference s.typingEnv (.tvar m []) = some (.tvar m []) :=
      Unification.dereference_self fun id ds hid => by cases hid; exact hm.2.1
    have hplain := hfor.plain (fun id t _ hlook => hs.values id t hlook) ht
    have hlead := hfor.leadsTo hm.2.1 hlead
    cases hplain.kinds with
    | base =>
      cases hlead with
      | here hmem => cases hmem
      | through hmem => cases hmem
    | @var k ds =>
      cases hlead with
      | here hmem =>
        obtain rfl := mem_singleton.mp hmem
        exact absurd hfor (hbound ds)
      | through hmem hlook =>
        obtain rfl := mem_singleton.mp hmem
        rw [hfor.free] at hlook
        cases hlook
    | type form =>
      rw [simplifyLocally_var_type hm.plain ht hself hu]
      exact hsplit fuel rfl hs hm hplain hlead

/-- The arguments of a variable that was opened are copied up to the first that leads to the variable. -/
theorem never_args (hsplit : ∀ fuel', fuel = fuel' + 1 → NeverSplits left fuel')
    (hp : Pending P m args.length L s) (hopen : look s.typingEnv i = some u) (hu : ∀ id ds, u ≠ .tvar id ds)
    (hvars : ∀ id, m ≤ id → id < m + args.length → ∃ x ∈ u.vars, x.1 = id)
    (hargs : ∀ t ∈ args, Plain (· ∈ L) t ∧ (Plain P t ∨ LeadsTo s.typingEnv t i))
    (hlead : ∃ t ∈ args, LeadsTo s.typingEnv t i) :
    splitArgs (simplifyLocally fuel) false (pairs left m args) s .tautology = none := by
  induction args generalizing m P L s with
  | nil =>
    obtain ⟨t, ht, -⟩ := hlead
    cases ht
  | cons t args ih =>
    obtain ⟨hroot, hm⟩ := hp.first
    obtain ⟨hused, hkind⟩ := hargs t List.mem_cons_self
    by_cases ht : LeadsTo s.typingEnv t i
    · obtain ⟨x, hx, rfl⟩ := hvars m le_rfl (by rw [List.length_cons]; omega)
      exact splitArgs_pairs_none (never_onSides hsplit hp.tracked hroot hused (ht.step hopen hx)
        fun ds hfor => hfor.not_var ht hopen hu)
    · have hover := hkind.resolve_right ht
      obtain ⟨n, hheight⟩ := exists_height hp.tracked.acyclic (fun id t hlook => hp.tracked.values id t hlook) hused
      obtain ⟨fuel₁, L₁, s₁, hrun₁, h₁⟩ := copies left n hp.tracked hp.closed hp.below hroot hm ⟨hover, hused, hheight⟩
      cases hrun : onSides (simplifyLocally fuel) left s (.tvar m []) t with
      | none => exact splitArgs_pairs_none hrun
      | some r =>
        obtain rfl := onSides_unique hrun hrun₁
        rw [splitArgs_pairs hrun]
        refine ih (hp.next h₁) (h₁.moves.extends' i u hopen) (fun id hlow hhigh => ?_) (fun v hv => ?_) ?_
        · exact hvars id (by omega) (by rw [List.length_cons]; omega)
        · obtain ⟨hused', hkind'⟩ := hargs v (List.mem_cons_of_mem _ hv)
          refine ⟨hused'.imp fun _ hid => h₁.moves.sub hid, ?_⟩
          exact hkind'.imp (fun hP => hP.imp fun _ hid => .inl (.inl hid)) (LeadsTo.of_extends h₁.moves.extends')
        · obtain ⟨v, hv, hlead⟩ := hlead
          obtain rfl | hv := List.mem_cons.mp hv
          · exact absurd hlead ht
          · exact ⟨v, hv, hlead.of_extends h₁.moves.extends'⟩

theorem leadsTo_of_mem {z : TVar} (hz : z ∈ t.vars) (h : LeadsTo env (.tvar z.1 []) id) : LeadsTo env t id := by
  cases h with
  | here hmem =>
    obtain rfl := mem_singleton.mp hmem
    show LeadsTo env t (number z)
    exact .here hz
  | through hmem hlook hreach =>
    obtain rfl := mem_singleton.mp hmem
    exact .through hz hlook hreach

theorem never_splits_of_less (hsplit : ∀ fuel', fuel = fuel' + 1 → NeverSplits left fuel') : NeverSplits left fuel := by
  intro L s i is form args hs hi hargs hlead
  obtain ⟨h, hc, heq⟩ := splitVar_eq hs hi hargs left
  rw [heq]
  -- the variables that do not lead to the one that is split
  let P : Nat → Prop := fun id => id ∈ L ∧ id ≠ i ∧ ¬ LeadsTo s.typingEnv (.tvar id []) i
  have hover {v : ExprType} (hv : Plain (· ∈ L) v) (hnot : ¬ LeadsTo s.typingEnv v i) : Plain P v :=
    hv.of_vars fun z hz => ⟨hv.of_mem hz, fun heq => hnot (heq ▸ .here hz), fun hlead => hnot (leadsTo_of_mem hz hlead)⟩
  have hclosed : Closed P s.typingEnv := fun id v hid hlook =>
    hover (hs.values id v hlook) fun hlead => hid.2.2 (.through (List.mem_singleton_self _) hlook hlead)
  have hpending := pending_opened (n := args.length) hs hi hc hclosed
    (fun id hid => hs.below id hid.1) (fun hid => hid.2.1 rfl) form
  have hmoves := opened_moves (n := args.length) hs hi hc hclosed (fun hid => hid.2.1 rfl) form
  have hlook : look (opened s i form args.length h).typingEnv i = some (form.type (freshArgs s args.length).1) := by
    rw [look_opened hi form, Function.update_self]
  obtain ⟨v, hv, hlead⟩ := leadsTo_type.mp hlead
  refine never_args hsplit hpending hlook ?_ (fun id hlow hhigh => ?_) (fun v hv => ?_)
    ⟨v, hv, hlead.of_extends hmoves.extends'⟩
  · cases form <;> exact nofun
  · refine ⟨(id, []), ?_, rfl⟩
    rw [Form.vars_type, mem_varsAll]
    refine ⟨.tvar id [], List.mem_map.mpr ⟨id, ?_, rfl⟩, List.mem_singleton_self _⟩
    exact List.mem_range'_1.mpr ⟨hlow, hhigh⟩
  · have hused := Form.plain_iff.mp hargs v hv
    refine ⟨hused.imp fun _ hid => hmoves.sub hid, ?_⟩
    by_cases hto : LeadsTo s.typingEnv v i
    · exact .inr (hto.of_extends hmoves.extends')
    · exact .inl (hover hused hto)

theorem never_splits (left : Bool) (fuel : Nat) : NeverSplits left fuel := by
  induction fuel with
  | zero => exact never_splits_of_less fun _ h => absurd h (Nat.zero_ne_add_one _)
  | succ fuel ih =>
    refine never_splits_of_less fun fuel' heq => ?_
    obtain rfl := Nat.succ.inj heq
    exact ih

end Solving
