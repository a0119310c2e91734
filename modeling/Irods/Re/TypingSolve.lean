-- SUMMARY: Soundness of solveConstraints.
import Irods.Re.TypingSound

/-!
# Soundness of a run of the solver

Each simplifier is sound if those it calls are; the passes and the loops then lead from
a list of constraints to one from which it follows.
-/

namespace Typing

open List (mem_cons_of_mem mem_cons_self mem_map)
open Option (bind_eq_bind bind_eq_some_iff pure_def)

/-! ## Constructed types -/

/-- What a simplifier decides holds wherever the tables it leaves are solved. -/
def SimplifierSound (simp : Simplifier) : Prop :=
  ∀ (s s' : Solver) (a b : ExprType) (flex : Bool) (v : Satisfiability), s.Fresh →
    a.AllVars (Below s.tvarNumber) → b.AllVars (Below s.tvarNumber) →
    simp s a b flex = some (v, s') → v ≠ .absurdity →
    Sound s s' (BothRespected a b) fun σ => Sat flex (a.apply σ) (b.apply σ)

variable {P : Nat → List BaseType → Prop} {a : ExprType} {s s' : Solver} {v : Satisfiability} {σ : Subst}

section Constructed

variable {simp : Simplifier} {b : ExprType} {flex : Bool}

theorem splitArgs_sound (hsimp : SimplifierSound simp) {args : List (ExprType × ExprType)} {ret : Satisfiability}
    (hs : s.Fresh)
    (hbelow : ∀ p ∈ args, p.1.AllVars (Below s.tvarNumber) ∧ p.2.AllVars (Below s.tvarNumber))
    (h : splitArgs simp flex args s ret = some (v, s')) (hv : v ≠ .absurdity) :
    Sound s s' (fun σ => ∀ p ∈ args, BothRespected p.1 p.2 σ)
      fun σ => ∀ p ∈ args, Sat flex (p.1.apply σ) (p.2.apply σ) := by
  induction args generalizing s ret with
  | nil =>
    cases h
    exact Sound.refl hs fun _ _ => nofun
  | cons p args ih =>
    obtain ⟨a, b⟩ := p
    -- the rest is split in the state that the first argument leaves
    have hrest : ∀ {s₁ : Solver} {v₁ ret₁ : Satisfiability}, simp s a b flex = some (v₁, s₁) →
        v₁ ≠ .absurdity → splitArgs simp flex args s₁ ret₁ = some (v, s') →
        Sound s s' (fun σ => ∀ p ∈ (a, b) :: args, BothRespected p.1 p.2 σ)
          fun σ => ∀ p ∈ (a, b) :: args, Sat flex (p.1.apply σ) (p.2.apply σ) := by
      intro s₁ v₁ ret₁ hsome hne h
      obtain ⟨ha, hb⟩ := hbelow (a, b) mem_cons_self
      have hfirst := hsimp s s₁ a b flex v₁ hs ha hb hsome hne
      have hargs := ih hfirst.fresh (fun p hp =>
        ⟨(hbelow p (mem_cons_of_mem _ hp)).1.below_mono hfirst.grows.tvarNumber,
          (hbelow p (mem_cons_of_mem _ hp)).2.below_mono hfirst.grows.tvarNumber⟩) h
      refine ((hfirst.of_pre fun σ hσ => hσ (a, b) mem_cons_self).trans hargs
        fun σ _ hσ p hp => hσ p (mem_cons_of_mem _ hp)).imp ?_
      rintro - σ - - ⟨hsat, hsats⟩ p hp
      rcases List.mem_cons.mp hp with rfl | hp
      · exact hsat
      · exact hsats p hp
    simp only [splitArgs] at h
    split at h
    case h_1 => cases h
    case h_2 =>
      cases h
      exact absurd rfl hv
    case h_3 hsome => exact hrest hsome nofun h
    case h_4 hsome => exact hrest hsome nofun h

variable {as bs : List ExprType}

theorem argsAllVars_zip (ha : ArgsAllVars P as) (hb : ArgsAllVars P bs) :
    ∀ p ∈ as.zip bs, p.1.AllVars P ∧ p.2.AllVars P := by
  rintro ⟨a, b⟩ hp
  obtain ⟨hma, hmb⟩ := List.of_mem_zip hp
  exact ⟨argsAllVars_iff.mp ha a hma, argsAllVars_iff.mp hb b hmb⟩

theorem zip_applyArgs (h : ∀ p ∈ as.zip bs, Sat flex (p.1.apply σ) (p.2.apply σ)) :
    ∀ p ∈ (applyArgs σ as).zip (applyArgs σ bs), Sat flex p.1 p.2 := by
  rw [applyArgs_eq_map, applyArgs_eq_map, List.zip_map]
  intro p hp
  obtain ⟨q, hq, rfl⟩ := mem_map.mp hp
  exact h q hq

theorem splitConsOrTuple_sound (hsimp : SimplifierSound simp) (hs : s.Fresh)
    (ha : a.AllVars (Below s.tvarNumber)) (hb : b.AllVars (Below s.tvarNumber))
    (h : splitConsOrTuple simp s a b flex = some (v, s')) (hv : v ≠ .absurdity) :
    Sound s s' (BothRespected a b) fun σ => Sat flex (a.apply σ) (b.apply σ) := by
  unfold splitConsOrTuple at h
  split at h
  case h_1 f as g bs =>
    split at h
    case isTrue =>
      cases h
      exact absurd rfl hv
    case isFalse hne =>
      obtain ⟨hfg, hlen⟩ := not_or.mp hne
      obtain rfl := not_not.mp hfg
      refine ((splitArgs_sound hsimp hs (argsAllVars_zip ha hb) h hv).of_pre
        fun σ hσ => argsAllVars_zip hσ.1 hσ.2).imp fun _ σ _ _ hargs => ?_
      refine .cons _ _ _ _ ?_ (zip_applyArgs hargs)
      simpa [applyArgs_eq_map] using hlen
  case h_2 as bs =>
    split at h
    case isTrue =>
      cases h
      exact absurd rfl hv
    case isFalse hlen =>
      refine ((splitArgs_sound hsimp hs (argsAllVars_zip ha hb) h hv).of_pre
        fun σ hσ => argsAllVars_zip hσ.1 hσ.2).imp fun _ σ _ _ hargs => ?_
      refine .tuple _ _ _ ?_ (zip_applyArgs hargs)
      simpa [applyArgs_eq_map] using hlen
  case h_3 =>
    cases h
    exact absurd rfl hv

theorem freshArgs_allVars {n : Nat} (h : ∀ id, id < s.tvarNumber + n → P id []) : ArgsAllVars P (freshArgs s n).1 := by
  rw [argsAllVars_iff]
  intro t ht
  obtain ⟨id, hid, rfl⟩ := mem_map.mp ht
  exact h id (List.mem_range'_1.mp hid).2

/-- The new type has new variables, which are free. -/
theorem freshLike_spec (s : Solver) (t : ExprType) :
    ∃ n, (freshLike s t).2 = { s with tvarNumber := s.tvarNumber + n } ∧
      ∀ P : Nat → List BaseType → Prop, t.AllVars P → (∀ id, id < s.tvarNumber + n → P id []) →
        (freshLike s t).1.AllVars P := by
  cases t with
  | cons f as => exact ⟨as.length, rfl, fun _ _ hP => freshArgs_allVars hP⟩
  | tuple as => exact ⟨as.length, rfl, fun _ _ hP => freshArgs_allVars hP⟩
  | _ => exact ⟨0, rfl, fun _ hP _ => hP⟩

variable {c : ExprType}

variable {i : Nat} {is : List BaseType}

/-- Splitting a variable binds it and splits what it is bound to. -/
theorem splitVar_cases (pre : Subst → Prop) {left : Bool} (hs : s.Fresh) (hi : s.Atom (.tvar i is))
    (hc : c.AllVars (Below s.tvarNumber)) (h : splitVar simp s i is c flex left = some (v, s')) (hv : v ≠ .absurdity) :
    ∃ type s₁, Sound s s₁ pre (fun σ => σ.type i = type.apply σ) ∧
      type.AllVars (Below s₁.tvarNumber) ∧
      (∀ σ, c.AllVars (Respected σ) → type.AllVars (Respected σ)) ∧
      (left = true → splitConsOrTuple simp s₁ type c flex = some (v, s')) ∧
      (left = false → splitConsOrTuple simp s₁ c type flex = some (v, s')) := by
  simp only [splitVar] at h
  split at h
  case isTrue =>
    cases h
    exact absurd rfl hv
  case isFalse =>
    split at h
    case h_1 => cases h
    case h_2 rep s₀ hrep =>
      obtain ⟨e, rfl⟩ := getEquivalenceClassRep_eq hrep
      split at h
      case isTrue =>
        cases h
        exact absurd rfl hv
      case isFalse =>
        have hequiv : Sound s { s with equivalence := e } pre fun _ => True :=
          (Sound.refl hs fun _ _ => trivial).equivalence e
        obtain ⟨n, hn, hvars⟩ := freshLike_spec { s with equivalence := e } c
        rw [hn] at h
        have hcount := hequiv.trans (Sound.count hequiv.fresh n) fun _ _ h => h
        have htype := hvars (Below (s.tvarNumber + n)) (hc.below_mono (Nat.le_add_right _ _)) fun _ h => h
        have hbind := hcount.trans (Sound.bind hcount.fresh (Nat.lt_add_right n hi.1) htype hi.2)
          fun _ _ h => h
        refine ⟨_, _, hbind.imp fun _ _ _ _ h => h.2, htype,
          fun σ hσ => hvars (Respected σ) hσ fun _ _ h => absurd rfl h, ?_, ?_⟩
        · rintro rfl
          exact h
        · rintro rfl
          exact h

theorem splitVarL_sound (hsimp : SimplifierSound simp) (hs : s.Fresh) (hi : s.Atom (.tvar i is))
    (hc : c.AllVars (Below s.tvarNumber)) (h : splitVarL simp s i is c flex = some (v, s')) (hv : v ≠ .absurdity) :
    Sound s s' (BothRespected (.tvar i is) c) fun σ => Sat flex (σ.type i) (c.apply σ) := by
  obtain ⟨type, s₁, hbind, htype, hresp, hsplit, -⟩ :=
    splitVar_cases (BothRespected (.tvar i is) c) hs hi hc h hv
  have hsplit := splitConsOrTuple_sound hsimp hbind.fresh htype (hc.below_mono hbind.grows.tvarNumber)
    (hsplit rfl) hv
  refine (hbind.trans hsplit fun σ _ hσ => ⟨hresp σ hσ.2, hσ.2⟩).imp ?_
  rintro - σ - - ⟨hσ, hsat⟩
  rw [hσ]
  exact hsat

theorem splitVarR_sound (hsimp : SimplifierSound simp) {j : Nat} {js : List BaseType} (hs : s.Fresh)
    (hj : s.Atom (.tvar j js)) (hc : c.AllVars (Below s.tvarNumber)) (h : splitVarR simp s c j js flex = some (v, s'))
    (hv : v ≠ .absurdity) : Sound s s' (BothRespected c (.tvar j js)) fun σ => Sat flex (c.apply σ) (σ.type j) := by
  obtain ⟨type, s₁, hbind, htype, hresp, -, hsplit⟩ :=
    splitVar_cases (BothRespected c (.tvar j js)) hs hj hc h hv
  have hsplit := splitConsOrTuple_sound hsimp hbind.fresh (hc.below_mono hbind.grows.tvarNumber) htype
    (hsplit rfl) hv
  refine (hbind.trans hsplit fun σ _ hσ => ⟨hσ.1, hresp σ hσ.1⟩).imp ?_
  rintro - σ - - ⟨hσ, hsat⟩
  rw [hσ]
  exact hsat

end Constructed

/-! ## Simplifying one constraint -/

variable {b : ExprType} {flex : Bool}

theorem stripFlex_allVars (h : b.AllVars P) : (stripFlex b flex).1.AllVars P := by
  cases b with
  | fixd t u => exact h.1
  | _ => exact h

theorem Sat.of_stripFlex (h : Sat (stripFlex b flex).2 a ((stripFlex b flex).1.apply σ)) :
    Sat flex a (b.apply σ) := by
  cases b with
  | flex t => exact .flex _ _ _ h
  | fixd t u => exact .fixd _ _ _ _ h
  | _ => exact h

/-- By induction on the fuel, over the simplifiers it calls. -/
theorem simplifyLocally_sound (fuel : Nat) : SimplifierSound (simplifyLocally fuel) := by
  induction fuel with
  | zero =>
    intro s s' a b flex v _ _ _ h
    cases h
  | succ fuel ih =>
    intro s s' a b flex v hs ha hb h hv
    simp only [simplifyLocally, bind_eq_bind, bind_eq_some_iff, pure_def] at h
    obtain ⟨a', hda, b', hdb, h⟩ := h
    obtain ⟨haσ, havars, hafree⟩ := dereferenceFuel_spec hda
    obtain ⟨hbσ, hbvars, hbfree⟩ := dereferenceFuel_spec hdb
    have ha' := havars _ ha hs.values
    have hb' := hbvars _ (stripFlex_allVars hb) hs.values
    have hcore : Sound s s' (BothRespected a' b') fun σ =>
        Sat (stripFlex b flex).2 (a'.apply σ) (b'.apply σ) := by
      split at h
      case h_1 =>
        cases h
        exact Sound.refl hs fun _ _ => .unspeced _ _
      case h_2 =>
        cases h
        exact Sound.refl hs fun _ _ => .dynamicL _ _
      case h_3 =>
        cases h
        exact Sound.refl hs fun _ _ => .dynamicR _ _
      case h_4 a b =>
        cases h
        refine (Sound.record hs [a] [b] _).imp fun hm σ _ _ _ => ?_
        refine sat_of_splitBaseType ?_ (hm.of_record (List.mem_singleton_self a) (List.mem_singleton_self b))
        by_contra hne
        exact hv (if_neg hne)
      case h_5 i is j js => exact narrow_sound hs ⟨ha', hafree i is rfl⟩ ⟨hb', hbfree j js rfl⟩ h hv
      case h_6 i is b => exact simplifyL_sound hs ⟨ha', hafree i is rfl⟩ h hv
      case h_7 a j js => exact simplifyR_sound hs ⟨hb', hbfree j js rfl⟩ h hv
      case h_8 i is g bs => exact splitVarL_sound ih hs ⟨ha', hafree i is rfl⟩ hb' h hv
      case h_9 i is bs => exact splitVarL_sound ih hs ⟨ha', hafree i is rfl⟩ hb' h hv
      case h_10 f as j js => exact splitVarR_sound ih hs ⟨hb', hbfree j js rfl⟩ ha' h hv
      case h_11 as j js => exact splitVarR_sound ih hs ⟨hb', hbfree j js rfl⟩ ha' h hv
      case h_12 f as g bs => exact splitConsOrTuple_sound ih hs ha' hb' h hv
      case h_13 as bs => exact splitConsOrTuple_sound ih hs ha' hb' h hv
      case h_14 =>
        cases h
        exact absurd rfl hv
    have hderef : Sound s s (BothRespected a b) fun _ => True := Sound.refl hs fun _ _ => trivial
    refine (hderef.trans hcore fun σ henv hσ => ?_).imp fun _ σ hσ _ hpost => ?_
    · exact ⟨havars _ hσ.1 henv, hbvars _ (stripFlex_allVars hσ.2) henv⟩
    · have henv := hσ.env.of_prefix hcore.grows.env
      have hsat := hpost.2
      rw [haσ σ henv, hbσ σ henv] at hsat
      exact hsat.of_stripFlex

/-! ## The loops -/

/-- The solver went from the constraints `tcs` to `tcs'`, from which they follow. -/
structure Leads (s : Solver) (tcs : List TypingConstraint) (s' : Solver) (tcs' : List TypingConstraint) :
    Prop where
  env : s.typingEnv <+: s'.typingEnv
  compared : s.compared <+: s'.compared
  tvarNumber : s.tvarNumber ≤ s'.tvarNumber
  fresh : s'.Fresh
  drained : s'.simpleTypingConstraints = []
  below : ∀ c ∈ tcs', c.AllVars (Below s'.tvarNumber)
  respected : ∀ σ, RespectsEnv σ s'.typingEnv → (∀ c ∈ tcs, c.AllVars (Respected σ)) →
    ∀ c ∈ tcs', c.AllVars (Respected σ)
  sound : s'.NoMixed → ∀ σ, Extends σ s'.typingEnv → RespectsEnv σ s'.typingEnv →
    (∀ c ∈ tcs, c.AllVars (Respected σ)) → (∀ c ∈ tcs', c.Satisfied σ) → ∀ c ∈ tcs, c.Satisfied σ

section Loops

variable {s'' : Solver} {tcs tcs' tcs'' : List TypingConstraint} {ret : Satisfiability} {fuel rounds : Nat}

theorem Leads.trans (h : Leads s tcs s' tcs') (h' : Leads s' tcs' s'' tcs'') : Leads s tcs s'' tcs'' where
  env := h.env.trans h'.env
  compared := h.compared.trans h'.compared
  tvarNumber := h.tvarNumber.trans h'.tvarNumber
  fresh := h'.fresh
  drained := h'.drained
  below := h'.below
  respected σ henv hσ := h'.respected σ henv (h.respected σ (henv.of_prefix h'.env) hσ)
  sound hm σ hext henv hσ hsat := by
    have henv' := henv.of_prefix h'.env
    refine h.sound (hm.of_prefix h'.compared) σ (hext.of_prefix h'.env) henv' hσ ?_
    exact h'.sound hm σ hext henv (h.respected σ henv' hσ) hsat

/-- A pass is the loop over the arguments, with the sides of the constraints. -/
theorem simplifyPass_eq_splitArgs (fuel : Nat) (tcs : List TypingConstraint) (s : Solver) (ret : Satisfiability) :
    simplifyPass fuel tcs s ret =
      splitArgs (simplifyLocally fuel) false (tcs.map fun c => (c.a, c.b)) s ret := by
  induction tcs generalizing s ret with
  | nil => rfl
  | cons tc tcs ih =>
    simp only [simplifyPass, List.map_cons, splitArgs]
    split <;> simp_all

theorem simplifyPass_leads (hs : s.Fresh) (hdrained : s.simpleTypingConstraints = [])
    (hbelow : ∀ c ∈ tcs, c.AllVars (Below s.tvarNumber)) (h : simplifyPass fuel tcs s ret = some (v, s'))
    (hv : v ≠ .absurdity) :
    Leads s tcs { s' with simpleTypingConstraints := [] } s'.simpleTypingConstraints := by
  rw [simplifyPass_eq_splitArgs] at h
  have hpass := splitArgs_sound (simplifyLocally_sound fuel) hs (fun p hp => by
    obtain ⟨c, hc, rfl⟩ := mem_map.mp hp
    exact hbelow c hc) h hv
  have hpre : ∀ σ, (∀ c ∈ tcs, c.AllVars (Respected σ)) →
      ∀ p ∈ tcs.map fun c => (c.a, c.b), BothRespected p.1 p.2 σ := by
    intro σ hσ p hp
    obtain ⟨c, hc, rfl⟩ := mem_map.mp hp
    exact hσ c hc
  refine ⟨hpass.grows.env, hpass.grows.compared, hpass.grows.tvarNumber,
    ⟨hpass.fresh.keys, hpass.fresh.values, nofun⟩, rfl, hpass.fresh.kept, ?_, ?_⟩
  · intro σ henv hσ c hc
    rcases hpass.kept σ henv (hpre σ hσ) c hc with hold | hresp
    · rw [hdrained] at hold
      cases hold
    · exact hresp
  · intro hm σ hext henv hσ hsat c hc
    exact hpass.sound hm σ ⟨hext, henv, hsat⟩ (hpre σ hσ) (c.a, c.b) (mem_map.mpr ⟨c, hc, rfl⟩)

theorem simplifyLoop_leads (hs : s.Fresh) (hdrained : s.simpleTypingConstraints = [])
    (hbelow : ∀ c ∈ tcs, c.AllVars (Below s.tvarNumber))
    (h : simplifyLoop fuel rounds tcs s ret = some (v, tcs', s')) (hv : v ≠ .absurdity) :
    Leads s tcs s' tcs' := by
  induction rounds generalizing s tcs ret with
  | zero => cases h
  | succ rounds ih =>
    simp only [simplifyLoop] at h
    split at h
    case h_1 => cases h
    case h_2 =>
      cases h
      exact absurd rfl hv
    case h_3 ret₁ s₁ hne hpass =>
      have hv₁ : ret₁ ≠ .absurdity := by
        rintro rfl
        exact hne rfl
      have hleads := simplifyPass_leads hs hdrained hbelow hpass hv₁
      split at h
      case isTrue => exact hleads.trans (ih hleads.fresh hleads.drained hleads.below h)
      case isFalse =>
        cases h
        exact hleads

theorem simplify_leads (hs : s.Fresh) (hbelow : ∀ c ∈ tcs, c.AllVars (Below s.tvarNumber))
    (h : simplify fuel tcs s = some (v, tcs', s')) (hv : v ≠ .absurdity) : Leads s tcs s' tcs' := by
  have hfresh : Solver.Fresh { s with equivalence := [], simpleTypingConstraints := [] } :=
    ⟨hs.keys, hs.values, nofun⟩
  have hloop := simplifyLoop_leads hfresh rfl hbelow h hv
  exact ⟨hloop.env, hloop.compared, hloop.tvarNumber, hloop.fresh, hloop.drained, hloop.below,
    hloop.respected, hloop.sound⟩

/-- The constraint that is taken out holds of every substitution. -/
theorem collapse_spec {env : List (Nat × ExprType)} (h : collapse env tcs = some (some tcs')) :
    (∀ c ∈ tcs', c ∈ tcs) ∧
      ∀ σ, Extends σ env → (∀ c ∈ tcs', c.Satisfied σ) → ∀ c ∈ tcs, c.Satisfied σ := by
  induction tcs generalizing tcs' with
  | nil => cases h
  | cons tc tcs ih =>
    have hkeep : ((collapse env tcs).bind fun r => some (r.map (tc :: ·))) = some (some tcs') →
        (∀ c ∈ tcs', c ∈ tc :: tcs) ∧
          ∀ σ, Extends σ env → (∀ c ∈ tcs', c.Satisfied σ) → ∀ c ∈ tc :: tcs, c.Satisfied σ := by
      intro h
      obtain ⟨r, hr, h⟩ := bind_eq_some_iff.mp h
      obtain ⟨rest, rfl, rfl⟩ := Option.map_eq_some_iff.mp (Option.some.inj h)
      obtain ⟨hsub, hsat⟩ := ih hr
      refine ⟨?_, fun σ hext hall => ?_⟩
      · intro c hc
        exact (List.mem_cons.mp hc).elim (fun h => h ▸ mem_cons_self) fun h => mem_cons_of_mem _ (hsub c h)
      · rw [List.forall_mem_cons] at hall ⊢
        exact ⟨hall.1, hsat σ hext hall.2⟩
    simp only [collapse, bind_eq_bind, bind_eq_some_iff, pure_def] at h
    obtain ⟨a, hda, b, hdb, h⟩ := h
    split at h
    case h_1 i is j js hb =>
      split at h
      case isFalse => exact hkeep h
      case isTrue hij =>
        cases h
        refine ⟨fun c hc => mem_cons_of_mem _ hc, fun σ hext hall => ?_⟩
        rw [List.forall_mem_cons]
        refine ⟨?_, hall⟩
        -- both sides are the variable `i`
        have hsat : Sat (stripFlex b false).2 (σ.type i) ((stripFlex b false).1.apply σ) := by
          rw [hb, hij]
          exact .refl _ _
        have ha := (dereferenceFuel_spec hda).1 σ hext
        rw [TypingConstraint.Satisfied, ← ha, ← (dereferenceFuel_spec hdb).1 σ hext]
        exact hsat.of_stripFlex
    case h_2 => exact hkeep h
    case h_3 => exact hkeep h
    case h_4 => cases h

theorem collapse_leads (hs : s.Fresh) (hdrained : s.simpleTypingConstraints = [])
    (hbelow : ∀ c ∈ tcs, c.AllVars (Below s.tvarNumber))
    (h : collapse s.typingEnv tcs = some (some tcs')) : Leads s tcs s tcs' := by
  obtain ⟨hsub, hsat⟩ := collapse_spec h
  exact ⟨List.prefix_rfl, List.prefix_rfl, le_rfl, hs, hdrained, fun c hc => hbelow c (hsub c hc),
    fun _ _ hσ c hc => hσ c (hsub c hc), fun _ σ hext _ _ hall => hsat σ hext hall⟩

theorem solveLoop_leads (hs : s.Fresh) (hbelow : ∀ c ∈ tcs, c.AllVars (Below s.tvarNumber))
    (h : solveLoop fuel rounds tcs s = some (v, tcs', s')) (hv : v ≠ .absurdity) : Leads s tcs s' tcs' := by
  induction rounds generalizing s tcs with
  | zero => cases h
  | succ rounds ih =>
    simp only [solveLoop, bind_eq_bind, bind_eq_some_iff, pure_def] at h
    obtain ⟨⟨sat, tcs₁, s₁⟩, hsimp, h⟩ := h
    split at h
    case isTrue =>
      cases h
      exact absurd rfl hv
    case isFalse hsat =>
      have hleads := simplify_leads hs hbelow hsimp hsat
      obtain ⟨r, hcollapse, h⟩ := bind_eq_some_iff.mp h
      split at h
      case h_1 =>
        cases h
        exact hleads
      case h_2 =>
        cases h
        exact hleads.trans (collapse_leads hleads.fresh hleads.drained hleads.below hcollapse)
      case h_3 tc tcs₂ =>
        have htaken := hleads.trans (collapse_leads hleads.fresh hleads.drained hleads.below hcollapse)
        exact htaken.trans (ih htaken.fresh htaken.below h)

end Loops

/-! ## Solving -/

/-- If the solver finds no absurdity, every substitution that extends the environment it leaves,
respects the disjuncts of bounded variables and satisfies the constraints it leaves satisfies
all it was given. -/
def SolvedSoundly (fuel : Nat) (tcs : List TypingConstraint) (s : Solver) : Prop :=
  ∀ v tcs' s', solveConstraints fuel tcs s = some (v, tcs', s') → v ≠ .absurdity →
    ∀ σ, Extends σ s'.typingEnv → RespectsEnv σ s'.typingEnv → (∀ c ∈ tcs, c.AllVars (Respected σ)) →
      (∀ c ∈ tcs', c.Satisfied σ) → ∀ c ∈ tcs, c.Satisfied σ

/-- No step of the run compares two iRODS types with different names under `T_FLEX`. -/
def NeverMixed (fuel : Nat) (tcs : List TypingConstraint) (s : Solver) : Prop :=
  ∀ v tcs' s', solveConstraints fuel tcs s = some (v, tcs', s') → s'.NoMixed

/-- A solution of what the solver leaves is one of the constraints that it was given. -/
theorem solveConstraints_sound (fuel : Nat) (tcs : List TypingConstraint) (s : Solver) (hs : s.Fresh)
    (hbelow : ∀ c ∈ tcs, c.AllVars (Below s.tvarNumber)) (hm : NeverMixed fuel tcs s) :
    SolvedSoundly fuel tcs s := by
  intro v tcs' s' h hv σ hext henv hσ hsat
  exact (solveLoop_leads hs hbelow h hv).sound (hm v tcs' s' h) σ hext henv hσ hsat

/-- A free variable that a double is expected of, and an iRODS type where it is
expected itself. -/
def promotable : List TypingConstraint :=
  [⟨.tvar 0 [], .flex (.base .double)⟩,
    ⟨.base (.irods (some "KeyValPair_PI")), .flex (.base (.irods (some "KeyValPair_PI")))⟩]

def noTypes (n : Nat) : Solver := { typingEnv := [], tvarNumber := n }

theorem noTypes_fresh (n : Nat) : (noTypes n).Fresh :=
  ⟨fun _ he => absurd he List.not_mem_nil, fun _ he => absurd he List.not_mem_nil,
    fun _ hc => absurd hc List.not_mem_nil⟩

/-- What solving them leaves. -/
def promoted : Solver :=
  ((solveConstraints 3 promotable (noTypes 1)).map fun r => r.2.2).getD (noTypes 0)

theorem solve_promotable : solveConstraints 3 promotable (noTypes 1) = some (.tautology, [], promoted) := by
  rfl

theorem promoted_typingEnv : promoted.typingEnv = [(0, .tvar 2 [.int, .double])] := by
  rfl

theorem promoted_noMixed : promoted.NoMixed := by
  have hcompared : promoted.compared =
      [(.int, .double), (.bool, .double), (.double, .double), (.datetime, .double), (.string, .double),
        (.irods none, .double), (.irods (some "KeyValPair_PI"), .irods (some "KeyValPair_PI")),
        (.int, .double), (.double, .double)] := rfl
  simp [Solver.NoMixed, hcompared, Mixed]

def allInts : Subst := ⟨fun _ => .base .int, nofun, nofun⟩

/-- The variable may be an integer, which meets the double. -/
theorem solveConstraints_sound_promoted :
    NeverMixed 3 promotable (noTypes 1) ∧ ∀ c ∈ promotable, c.Satisfied allInts := by
  have hm : NeverMixed 3 promotable (noTypes 1) := by
    intro v tcs' s' h
    cases h
    exact promoted_noMixed
  have hbelow : ∀ c ∈ promotable, c.AllVars (Below (noTypes 1).tvarNumber) := by
    simp [promotable, TypingConstraint.AllVars, ExprType.AllVars, Below, noTypes]
  have hext : Extends allInts promoted.typingEnv := by
    intro id t ht
    rw [promoted_typingEnv] at ht
    have hmem := mem_of_lookup ht
    rw [List.mem_singleton] at hmem
    cases hmem
    rfl
  have henv : RespectsEnv allInts promoted.typingEnv := by
    intro e he
    rw [promoted_typingEnv, List.mem_singleton] at he
    rw [he]
    exact fun _ => ⟨.int, by decide, rfl⟩
  have hσ : ∀ c ∈ promotable, c.AllVars (Respected allInts) := by
    simp [promotable, TypingConstraint.AllVars, ExprType.AllVars, Respected]
  exact ⟨hm, solveConstraints_sound 3 promotable (noTypes 1) (noTypes_fresh 1) hbelow hm _ _ _
    solve_promotable nofun allInts hext henv hσ nofun⟩

theorem not_sat_of_name_ne {x y : String} (h : x ≠ y) :
    ¬ Sat flex (.base (.irods (some x))) (.base (.irods (some y))) := by
  intro hsat
  cases hsat
  exact h rfl

/-- Under `T_FLEX` the node types alone are compared, so one iRODS type is accepted where
another is expected. -/
theorem flex_accepts_other_name :
    (noTypes 0).Fresh ∧
      ¬ SolvedSoundly 3 [⟨.base (.irods (some "KeyValPair_PI")), .flex (.base (.irods (some "GenQueryInp_PI")))⟩]
        (noTypes 0) := by
  refine ⟨noTypes_fresh 0, fun h => ?_⟩
  have hsat := h .tautology [] _ rfl nofun allInts nofun nofun
    (by simp [TypingConstraint.AllVars, ExprType.AllVars]) nofun _ mem_cons_self
  cases hsat with
  | flex _ _ _ hsat => exact not_sat_of_name_ne (by decide) hsat

end Typing
