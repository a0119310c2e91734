-- SUMMARY: The order in which execRule executes rules, and what it returns.
import Irods.Re.ExecRule
import Mathlib.Data.List.Induction

/-!
# The order of rules

What `execRule` does is first said as a function on the list of rules that take the right
number of arguments, `alternatives`. The info is restored after an error until a rule asks
for a retry without recovery; from then on every rule starts from what the one before has
left. The arguments are never restored.
-/

namespace Re

namespace ExecRule

section

variable {V R W : Type}

/-! ## Alternatives -/

def Res.succeeded : Res V → Bool
  | .error _ => false
  | _ => true

/-- The rule asks that the next one goes on from what it has done. -/
def Res.retries : Res V → Bool
  | .error code => decide (code = RETRY_WITHOUT_RECOVERY_ERR)
  | _ => false

def Res.cut : Res V → Bool
  | .error code => decide (code = CUT_ACTION_PROCESSED_ERR)
  | _ => false

/-- No rule is executed after this result. -/
def stops (applyAll : Nat) (res : Res V) : Bool := res.cut || decide (applyAll = 0) && res.succeeded

/-- The rules for the number of arguments, with their places in the index. -/
def matching (argc : Nat) (rules : List (Rule V R W)) (i : Nat) : List (Rule V R W × Nat) :=
  (rules.zipIdx i).filter fun r => r.1.params.length = argc

/-- What the next rule starts from; `kept` tells that a rule before has asked for a retry
without recovery. -/
def nextStart (reiSaveFlag kept : Bool) (step : Step V R W) : Shared V R W :=
  if reiSaveFlag && !step.res.succeeded && !(kept || step.res.retries) then
    { step.after with rei := step.before.rei }
  else step.after

section

variable (null : V) (argc applyAll : Nat) (reiSaveFlag : Bool)

/-- The execution of a rule from a state. -/
def stepOf (rule : Rule V R W) (ruleInx : Nat) (before : Shared V R W) : Step V R W :=
  ⟨ruleInx, before, (execRuleNodeRes null rule argc (innerApplyAll applyAll) before).1,
    (execRuleNodeRes null rule argc (innerApplyAll applyAll) before).2⟩

/-- The executions of the rules up to one that stops. -/
def alternatives : List (Rule V R W × Nat) → Shared V R W → Bool → List (Step V R W)
  | [], _, _ => []
  | (rule, ruleInx) :: rules, before, kept =>
    let step := stepOf null argc applyAll rule ruleInx before
    if stops applyAll step.res then [step]
    else step :: alternatives rules (nextStart reiSaveFlag kept step) (kept || step.res.retries)

/-- The loop on the list of the rules that are left. -/
def turns : List (Rule V R W) → Nat → Loop V R W → Loop V R W
  | [], _, s => noMoreRules applyAll s
  | rule :: rules, ruleInx, s =>
    match turn null argc applyAll reiSaveFlag rule ruleInx s with
    | (s, true) => s
    | (s, false) => turns rules (ruleInx + 1) s

end

variable {null : V} {argc applyAll : Nat} {reiSaveFlag : Bool}

variable (zero : V) (index : List (Option (FunctionDesc V R W))) (shared : Shared V R W)

theorem loop_eq_turns : ∀ (n i : Nat) (s : Loop V R W), (rulesFor index).length - i = n →
    loop null argc applyAll reiSaveFlag index i s =
      turns null argc applyAll reiSaveFlag ((rulesFor index).drop i) i s := by
  intro n
  induction n with
  | zero =>
    intro i s hn
    have hnone : findNextRuleFromIndex index i = none := by
      rw [findNextRuleFromIndex_eq, List.getElem?_eq_none (by omega)]
    rw [loop, List.drop_eq_nil_of_le (by omega), turns]
    split
    · rfl
    · rename_i rule hsome
      rw [hnone] at hsome
      cases hsome
  | succ n ih =>
    intro i s hn
    have hlt : i < (rulesFor index).length := by omega
    rw [loop, List.drop_eq_getElem_cons hlt, turns]
    split
    · rename_i hnone
      rw [findNextRuleFromIndex_eq, List.getElem?_eq_getElem hlt] at hnone
      cases hnone
    · rename_i rule hsome
      rw [findNextRuleFromIndex_eq, List.getElem?_eq_getElem hlt, Option.some.injEq] at hsome
      rw [hsome]
      cases turn null argc applyAll reiSaveFlag rule i s with
      | mk s' left =>
        cases left with
        | true => rfl
        | false => exact ih (i + 1) s' (by omega)

/-! ## One turn -/

/-- What the next rule starts from, when the info has been restored. -/
def Loop.nextShared (s : Loop V R W) : Shared V R W :=
  { s.shared with
    rei := if s.reTryWithoutRecovery then s.shared.rei else s.saveRei.getD s.shared.rei }

/-- Nothing is saved without the flag. -/
def Saves (reiSaveFlag : Bool) (s : Loop V R W) : Prop := reiSaveFlag = false → s.saveRei = none

/-- What is left of a turn before a rule is executed. -/
structure Prepared (reiSaveFlag : Bool) (s s' : Loop V R W) : Prop where
  statusRes : s'.statusRes = s.statusRes
  retry     : s'.reTryWithoutRecovery = s.reTryWithoutRecovery
  success   : s'.success = s.success
  executed  : s'.executed = s.executed
  shared    : s'.shared = s.nextShared
  saved     : reiSaveFlag = true → ∃ r, s'.saveRei = some r ∧ (s.reTryWithoutRecovery = false → r = s'.shared.rei)
  unsaved   : Saves reiSaveFlag s'

theorem prepare (s : Loop V R W) (hs : Saves reiSaveFlag s) :
    ∃ s', (if reiSaveFlag then saveOrRestore s else (s, 0)) = (s', 0) ∧ Prepared reiSaveFlag s s' := by
  cases reiSaveFlag with
  | false =>
    refine ⟨s, rfl, rfl, rfl, rfl, rfl, ?_, fun h => Bool.noConfusion h, hs⟩
    simp [Loop.nextShared, hs rfl]
  | true =>
    simp only [if_true, saveOrRestore, copyRuleExecInfo]
    cases hsave : s.saveRei with
    | none =>
      refine ⟨{ s with saveRei := some s.shared.rei }, rfl, rfl, rfl, rfl, rfl, ?_, fun _ => ⟨_, rfl, fun _ => rfl⟩,
        fun h => Bool.noConfusion h⟩
      simp [Loop.nextShared, hsave]
    | some r =>
      cases hretry : s.reTryWithoutRecovery with
      | true =>
        refine ⟨s, by simp, rfl, rfl, rfl, rfl, ?_, fun _ => ⟨r, hsave, fun h => ?_⟩, fun h => Bool.noConfusion h⟩
        · simp [Loop.nextShared, hretry]
        · rw [hretry] at h
          cases h
      | false =>
        refine ⟨{ s with shared := { s.shared with rei := r } }, by simp [hsave, hretry], rfl, rfl, rfl, rfl, ?_,
          fun _ => ⟨r, hsave, fun _ => rfl⟩, fun h => Bool.noConfusion h⟩
        simp [Loop.nextShared, hretry, hsave]

/-- A rule for another number of arguments is passed over. -/
theorem turn_skip {rule : Rule V R W} (hargc : rule.params.length ≠ argc) (ruleInx : Nat) {s : Loop V R W}
    (hs : Saves reiSaveFlag s) :
    ∃ s', turn null argc applyAll reiSaveFlag rule ruleInx s = (s', false) ∧ s'.statusRes = s.statusRes ∧
      s'.reTryWithoutRecovery = s.reTryWithoutRecovery ∧ s'.success = s.success ∧ s'.executed = s.executed ∧
      s'.nextShared = s.nextShared ∧ Saves reiSaveFlag s' := by
  obtain ⟨s', hprep, hp⟩ := prepare s hs
  refine ⟨s', ?_, hp.statusRes, hp.retry, hp.success, hp.executed, ?_, hp.unsaved⟩
  · unfold turn
    rw [hprep]
    simp [hargc]
  · cases hflag : reiSaveFlag with
    | false => simp [Loop.nextShared, hp.unsaved hflag, hp.shared]
    | true =>
      obtain ⟨r, hr, hrei⟩ := hp.saved hflag
      cases hretry : s.reTryWithoutRecovery with
      | true => simp [Loop.nextShared, hp.retry, hretry, hp.shared]
      | false =>
        have := hrei hretry
        simp [Loop.nextShared, hp.retry, hretry, hp.shared, hr, this]

/-- Whether the info that was saved is the one a rule has started from. -/
def SavedFor (reiSaveFlag : Bool) (before : Shared V R W) (s : Loop V R W) : Prop :=
  reiSaveFlag = true → ∃ r, s.saveRei = some r ∧ (s.reTryWithoutRecovery = false → r = before.rei)

theorem afterRule_spec (step : Step V R W) {s : Loop V R W} (hs : Saves reiSaveFlag s)
    (hsaved : SavedFor reiSaveFlag step.before s) (hafter : s.shared = step.after) :
    ∃ s', afterRule applyAll reiSaveFlag step.res s = (s', stops applyAll step.res) ∧ s'.statusRes = s.statusRes ∧
      s'.reTryWithoutRecovery = (s.reTryWithoutRecovery || step.res.retries) ∧
      s'.success = (s.success || step.res.succeeded) ∧ s'.executed = s.executed ∧ Saves reiSaveFlag s' ∧
      (stops applyAll step.res = false → s'.nextShared = nextStart reiSaveFlag s.reTryWithoutRecovery step) := by
  obtain ⟨ruleInx, before, res, after⟩ := step
  have hsucceeds (hres : res.succeeded = true) (hretries : res.retries = false) (hcut : res.cut = false)
      (heq : afterRule applyAll reiSaveFlag res s = if applyAll = 0 then ({ s with success := true }, true)
        else ({ s with success := true, saveRei := if reiSaveFlag then none else s.saveRei }, false)) :
      ∃ s', afterRule applyAll reiSaveFlag res s = (s', stops applyAll res) ∧ s'.statusRes = s.statusRes ∧
        s'.reTryWithoutRecovery = (s.reTryWithoutRecovery || res.retries) ∧
        s'.success = (s.success || res.succeeded) ∧ s'.executed = s.executed ∧ Saves reiSaveFlag s' ∧
        (stops applyAll res = false →
          s'.nextShared = nextStart reiSaveFlag s.reTryWithoutRecovery ⟨ruleInx, before, res, after⟩) := by
    rw [heq]
    by_cases hall : applyAll = 0
    · refine ⟨{ s with success := true }, by simp [hall, stops, hres], rfl, ?_, ?_, rfl, hs, fun h => ?_⟩
      · simp [hretries]
      · simp [hres]
      · simp [stops, hall, hres] at h
    · refine ⟨{ s with success := true, saveRei := if reiSaveFlag then none else s.saveRei },
        by simp [hall, stops, hcut], rfl, ?_, ?_, rfl, ?_, fun _ => ?_⟩
      · simp [hretries]
      · simp [hres]
      · intro hflag
        simp [hflag, hs hflag]
      · cases hflag : reiSaveFlag with
        | false => simp [Loop.nextShared, nextStart, hs hflag, hafter]
        | true => simp [Loop.nextShared, nextStart, hafter, hres]
  cases res with
  | value v => exact hsucceeds rfl rfl rfl rfl
  | success => exact hsucceeds rfl rfl rfl rfl
  | error code =>
    have hstops : stops applyAll (.error code : Res V) = decide (code = CUT_ACTION_PROCESSED_ERR) := by
      simp [stops, Res.cut, Res.succeeded]
    by_cases hretry : code = RETRY_WITHOUT_RECOVERY_ERR
    · subst hretry
      refine ⟨{ s with reTryWithoutRecovery := true }, by rw [hstops]; rfl, rfl, ?_, ?_, rfl, hs, fun _ => ?_⟩
      · simp [Res.retries]
      · simp [Res.succeeded]
      · simp [Loop.nextShared, nextStart, Res.retries, hafter]
    · refine ⟨s, by rw [hstops, afterRule]; simp [hretry], rfl, ?_, ?_, rfl, hs, fun _ => ?_⟩
      · simp [Res.retries, hretry]
      · simp [Res.succeeded]
      · cases hflag : reiSaveFlag with
        | false => simp [Loop.nextShared, nextStart, hs hflag, hafter]
        | true =>
          obtain ⟨r, hr, hrei⟩ := hsaved hflag
          cases hkept : s.reTryWithoutRecovery with
          | true => simp [Loop.nextShared, nextStart, hafter, hkept]
          | false => simp [Loop.nextShared, nextStart, hafter, hkept, hr, hrei hkept, Res.retries,
            Res.succeeded, hretry]

/-- A rule for the number of arguments is executed from the restored info. -/
theorem turn_exec {rule : Rule V R W} (hargc : rule.params.length = argc) (ruleInx : Nat) {s : Loop V R W}
    (hs : Saves reiSaveFlag s) :
    let step := stepOf null argc applyAll rule ruleInx s.nextShared
    ∃ s', turn null argc applyAll reiSaveFlag rule ruleInx s = (s', stops applyAll step.res) ∧
      s'.statusRes = some step.res ∧
      s'.reTryWithoutRecovery = (s.reTryWithoutRecovery || step.res.retries) ∧
      s'.success = (s.success || step.res.succeeded) ∧ s'.executed = s.executed ++ [step] ∧
      Saves reiSaveFlag s' ∧
      (stops applyAll step.res = false → s'.nextShared = nextStart reiSaveFlag s.reTryWithoutRecovery step) := by
  intro step
  obtain ⟨s₁, hprep, hp⟩ := prepare s hs
  let s₂ : Loop V R W := { s₁ with
    statusRes := some step.res, shared := step.after, executed := s₁.executed ++ [step] }
  have hsaved : SavedFor reiSaveFlag step.before s₂ := by
    intro hflag
    obtain ⟨r, hr, hrei⟩ := hp.saved hflag
    refine ⟨r, hr, fun hkept => ?_⟩
    rw [hrei (hp.retry.symm.trans hkept), hp.shared]
    rfl
  obtain ⟨s', hafter, hstatus, hretry, hsuccess, hexecuted, hs', hnext⟩ :=
    afterRule_spec step (s := s₂) hp.unsaved hsaved rfl
  have hturn : turn null argc applyAll reiSaveFlag rule ruleInx s =
      afterRule applyAll reiSaveFlag step.res s₂ := by
    unfold turn
    rw [hprep]
    simp only [ne_eq, not_true_eq_false, if_false, hargc, hp.shared]
    rfl
  refine ⟨s', hturn.trans hafter, hstatus, ?_, ?_, ?_, hs', fun h => ?_⟩
  · rw [hretry, ← hp.retry]
  · rw [hsuccess, ← hp.success]
  · rw [hexecuted, ← hp.executed]
  · rw [hnext h, ← hp.retry]

/-! ## All turns -/

/-- The status that the loop is left with. -/
def lastStatus (applyAll : Nat) (before : Option (Res V)) (steps : List (Step V R W)) : Option (Res V) :=
  match steps.getLast? with
  | some step => some step.res
  | none => if applyAll = 0 then some (before.getD (.error NO_RULE_FOUND_ERR)) else before

/-- The last of these executions ends the loop. -/
def stopped (applyAll : Nat) (steps : List (Step V R W)) : Bool :=
  steps.getLast?.any fun step => stops applyAll step.res

theorem lastStatus_cons (before : Option (Res V)) (step : Step V R W) (steps : List (Step V R W)) :
    lastStatus applyAll before (step :: steps) = lastStatus applyAll (some step.res) steps := by
  cases steps with
  | nil => simp [lastStatus]
  | cons step' steps =>
    have hlast : (step' :: steps).getLast? = some _ := List.getLast?_eq_some_getLast (List.cons_ne_nil step' steps)
    simp only [lastStatus, List.getLast?_cons_cons, hlast]

theorem stopped_cons {step : Step V R W} (h : stops applyAll step.res = false) (steps : List (Step V R W)) :
    stopped applyAll (step :: steps) = stopped applyAll steps := by
  cases steps with
  | nil => simp [stopped, h]
  | cons step' steps => simp [stopped, List.getLast?_cons_cons]

theorem turns_eq (rules : List (Rule V R W)) : ∀ (i : Nat) (s : Loop V R W), Saves reiSaveFlag s →
    let steps := alternatives null argc applyAll reiSaveFlag (matching argc rules i) s.nextShared
      s.reTryWithoutRecovery
    let s' := turns null argc applyAll reiSaveFlag rules i s
    s'.executed = s.executed ++ steps ∧ s'.statusRes = lastStatus applyAll s.statusRes steps ∧
      s'.success = (s.success || steps.any (·.res.succeeded) || decide (applyAll ≠ 0) && !stopped applyAll steps) := by
  induction rules with
  | nil =>
    intro i s _
    simp only [matching, List.zipIdx_nil, List.filter_nil, alternatives, turns, noMoreRules]
    by_cases hall : applyAll = 0 <;> simp [hall, lastStatus, stopped]
  | cons rule rules ih =>
    intro i s hs
    by_cases hargc : rule.params.length = argc
    · have hmatching : matching argc (rule :: rules) i = (rule, i) :: matching argc rules (i + 1) := by
        simp [matching, List.zipIdx_cons, hargc]
      obtain ⟨s', hturn, hstatus, hretry, hsuccess, hexecuted, hs', hnext⟩ :=
        @turn_exec V R W null argc applyAll reiSaveFlag rule hargc i s hs
      rw [hmatching]
      simp only [alternatives, turns, hturn]
      cases hstops : stops applyAll (stepOf null argc applyAll rule i s.nextShared).res with
      | true => simp [hexecuted, hstatus, hsuccess, lastStatus, stopped, hstops]
      | false =>
        obtain ⟨hexecuted', hstatus', hsuccess'⟩ := ih (i + 1) s' hs'
        rw [hnext hstops, hretry] at hexecuted' hstatus' hsuccess'
        simp only [Bool.false_eq_true, if_false]
        refine ⟨?_, ?_, ?_⟩
        · rw [hexecuted', hexecuted, List.append_assoc, List.singleton_append]
        · rw [hstatus', hstatus, lastStatus_cons]
        · rw [hsuccess', hsuccess, stopped_cons hstops, List.any_cons, ← Bool.or_assoc]
    · have hmatching : matching argc (rule :: rules) i = matching argc rules (i + 1) := by
        simp [matching, List.zipIdx_cons, hargc]
      obtain ⟨s', hturn, hstatus, hretry, hsuccess, hexecuted, hnext, hs'⟩ :=
        @turn_skip V R W null argc applyAll reiSaveFlag rule hargc i s hs
      have hrest := ih (i + 1) s' hs'
      rw [hmatching]
      simp only [turns, hturn]
      rwa [hnext, hretry, hstatus, hsuccess, hexecuted] at hrest

/-- What is returned. When all rules are applied it is 0, unless a rule cuts before any other
has succeeded. -/
def answer (zero : V) (applyAll : Nat) (steps : List (Step V R W)) : Res V :=
  match steps.getLast? with
  | none => if applyAll = 0 then .error NO_RULE_FOUND_ERR else .value zero
  | some step =>
    if applyAll = 0 then
      match step.res with
      | .success => .value zero
      | res => res
    else if step.res.cut && !steps.any (·.res.succeeded) then step.res
    else .value zero

theorem execRule_turns : execRule null zero argc applyAll reiSaveFlag index shared =
      (result zero applyAll (turns null argc applyAll reiSaveFlag (rulesFor index) 0 (start shared)),
        (turns null argc applyAll reiSaveFlag (rulesFor index) 0 (start shared)).executed) := by
  unfold execRule
  rw [loop_eq_turns index _ 0 (start shared) rfl, List.drop_zero]

/-- The rules executed in a call. -/
def stepsOf (null : V) (argc applyAll : Nat) (reiSaveFlag : Bool) (rules : List (Rule V R W))
    (shared : Shared V R W) : List (Step V R W) :=
  alternatives null argc applyAll reiSaveFlag (matching argc rules 0) shared false

/-- `execRule` does what the list of alternatives says. -/
theorem execRule_eq : execRule null zero argc applyAll reiSaveFlag index shared =
      (some (answer zero applyAll (stepsOf null argc applyAll reiSaveFlag (rulesFor index) shared)),
        stepsOf null argc applyAll reiSaveFlag (rulesFor index) shared) := by
  obtain ⟨hexecuted, hstatus, hsuccess⟩ := turns_eq (rulesFor index) 0 (start shared) fun _ => rfl
  change _ = _ ++ stepsOf null argc applyAll reiSaveFlag (rulesFor index) shared at hexecuted
  change _ = lastStatus applyAll none (stepsOf null argc applyAll reiSaveFlag (rulesFor index) shared) at hstatus
  change _ = (_ || (stepsOf null argc applyAll reiSaveFlag (rulesFor index) shared).any _ ||
    decide (applyAll ≠ 0) && !stopped applyAll
      (stepsOf null argc applyAll reiSaveFlag (rulesFor index) shared)) at hsuccess
  rw [execRule_turns]
  generalize stepsOf null argc applyAll reiSaveFlag (rulesFor index) shared = steps at *
  refine Prod.ext ?_ hexecuted
  unfold result answer
  rw [hstatus, hsuccess]
  unfold lastStatus stopped
  cases hlast : steps.getLast? with
  | none =>
    have hnil : steps = [] := List.getLast?_eq_none_iff.mp hlast
    by_cases hall : applyAll = 0 <;> simp [hall, hnil, start]
  | some step =>
    have hmem : step ∈ steps := List.mem_of_getLast? hlast
    by_cases hall : applyAll = 0
    · have hany : step.res = .success → steps.any (·.res.succeeded) = true := fun h =>
        List.any_eq_true.mpr ⟨step, hmem, by rw [h]; rfl⟩
      cases hres : step.res with
      | success => simp [hall, start, hres, hany hres]
      | _ => simp [hall, start, hres]
    · have hstops : stops applyAll step.res = step.res.cut := by simp [stops, hall]
      simp only [hall, start, hstops, ne_eq, not_false_eq_true, if_true, Option.any_some, if_false, decide_true,
        Bool.true_and, Bool.false_or]
      cases hcut : step.res.cut <;> cases hany : steps.any (·.res.succeeded) <;> simp

/-! ## Order and start of the executions -/

/-- The rules for the number of arguments are executed in the order of the index, up to and
including the first one that stops. -/
structure InOrder (null : V) (argc applyAll : Nat) (rules : List (Rule V R W × Nat)) (steps : List (Step V R W)) :
    Prop where
  order : steps.map Step.ruleInx <+: rules.map Prod.snd
  executes : ∀ step ∈ steps, ∃ rule, (rule, step.ruleInx) ∈ rules ∧
    step = stepOf null argc applyAll rule step.ruleInx step.before
  goesOn : ∀ step ∈ steps.dropLast, stops applyAll step.res = false
  complete : stopped applyAll steps = false → steps.map Step.ruleInx = rules.map Prod.snd

/-- The first rule starts from the state of the call, and every other one from what the one
before has left, with the info restored after an error before any retry without recovery. -/
structure Starts (reiSaveFlag : Bool) (shared : Shared V R W) (steps : List (Step V R W)) : Prop where
  first : ∀ step, steps.head? = some step → step.before = shared
  next  : ∀ front step step' back, steps = front ++ step :: step' :: back →
    step'.before = nextStart reiSaveFlag (front.any fun step => step.res.retries) step

theorem alternatives_inOrder : ∀ (rules : List (Rule V R W × Nat)) (before : Shared V R W) (kept : Bool),
    InOrder null argc applyAll rules (alternatives null argc applyAll reiSaveFlag rules before kept) := by
  intro rules
  induction rules with
  | nil =>
    intro before kept
    exact ⟨List.prefix_rfl, fun _ h => absurd h List.not_mem_nil, fun _ h => absurd h List.not_mem_nil, fun _ => rfl⟩
  | cons r rules ih =>
    obtain ⟨rule, i⟩ := r
    intro before kept
    unfold alternatives
    dsimp only
    cases hstops : stops applyAll (stepOf null argc applyAll rule i before).res with
    | true =>
      refine ⟨?_, fun step hstep => ?_, fun _ h => absurd h List.not_mem_nil, fun h => ?_⟩
      · exact List.cons_prefix_cons.mpr ⟨rfl, List.nil_prefix⟩
      · obtain rfl := List.mem_singleton.mp hstep
        exact ⟨rule, List.mem_cons_self, rfl⟩
      · simp [stopped, hstops] at h
    | false =>
      rw [if_neg (by simp)]
      obtain ⟨horder, hexecutes, hgoesOn, hcomplete⟩ := ih
        (nextStart reiSaveFlag kept (stepOf null argc applyAll rule i before))
        (kept || (stepOf null argc applyAll rule i before).res.retries)
      refine ⟨?_, fun step hstep => ?_, fun step hstep => ?_, fun h => ?_⟩
      · exact List.cons_prefix_cons.mpr ⟨rfl, horder⟩
      · obtain rfl | hstep := List.mem_cons.mp hstep
        · exact ⟨rule, List.mem_cons_self, rfl⟩
        · obtain ⟨rule', hmem, heq⟩ := hexecutes step hstep
          exact ⟨rule', List.mem_cons_of_mem _ hmem, heq⟩
      · by_cases hnil : alternatives null argc applyAll reiSaveFlag rules
            (nextStart reiSaveFlag kept (stepOf null argc applyAll rule i before))
            (kept || (stepOf null argc applyAll rule i before).res.retries) = []
        · rw [hnil] at hstep
          exact absurd hstep List.not_mem_nil
        · rw [List.dropLast_cons_of_ne_nil hnil] at hstep
          obtain rfl | hstep := List.mem_cons.mp hstep
          · exact hstops
          · exact hgoesOn step hstep
      · rw [stopped_cons hstops] at h
        rw [List.map_cons, List.map_cons, hcomplete h]
        rfl

theorem alternatives_head {rules : List (Rule V R W × Nat)} {before : Shared V R W} {kept : Bool} {step : Step V R W}
    (h : (alternatives null argc applyAll reiSaveFlag rules before kept).head? = some step) :
    step.before = before := by
  cases rules with
  | nil => cases h
  | cons r rules =>
    unfold alternatives at h
    dsimp only at h
    split at h
    · cases h
      rfl
    · cases h
      rfl

theorem alternatives_next : ∀ {rules : List (Rule V R W × Nat)} {before : Shared V R W} {kept : Bool}
    {front back : List (Step V R W)} {step step' : Step V R W},
    alternatives null argc applyAll reiSaveFlag rules before kept = front ++ step :: step' :: back →
    step'.before = nextStart reiSaveFlag (kept || front.any fun step => step.res.retries) step := by
  intro rules
  induction rules with
  | nil => exact fun h => absurd h (by simp [alternatives])
  | cons r rules ih =>
    intro before kept front back step step' h
    unfold alternatives at h
    dsimp only at h
    split at h
    · -- a step that stops is the only one
      have hlen := congrArg List.length h
      simp at hlen
      omega
    · cases front with
      | nil =>
        obtain ⟨rfl, hrest⟩ := List.cons.inj h
        have hhead := alternatives_head (by rw [hrest]; rfl)
        simpa using hhead
      | cons first front =>
        obtain ⟨rfl, hrest⟩ := List.cons.inj h
        rw [List.any_cons, ← Bool.or_assoc]
        exact ih hrest

theorem stepsOf_starts (rules : List (Rule V R W)) (shared : Shared V R W) :
    Starts reiSaveFlag shared (stepsOf null argc applyAll reiSaveFlag rules shared) where
  first _ h := alternatives_head h
  next front step step' back h := by simpa using alternatives_next h

/-- The rule has failed in any other way than with a cut or a retry without recovery. -/
def Res.ordinaryError (res : Res V) : Bool := !res.succeeded && !res.retries && !res.cut

/-- `execRule` executes the rules in order up to the first that stops and returns what it
should; the info is restored after an ordinary error as long as no rule before has asked for a
retry without recovery. -/
theorem execRule_order (null zero : V) (argc applyAll : Nat) (reiSaveFlag : Bool)
    (index : List (Option (FunctionDesc V R W))) (shared : Shared V R W) :
    ∃ steps, execRule null zero argc applyAll reiSaveFlag index shared = (some (answer zero applyAll steps), steps) ∧
      InOrder null argc applyAll (matching argc (rulesFor index) 0) steps ∧ Starts reiSaveFlag shared steps ∧
      (reiSaveFlag = true → ∀ front step step' back, steps = front ++ step :: step' :: back →
        step.res.ordinaryError = true → (∀ earlier ∈ front, earlier.res.retries = false) →
        step'.before.rei = step.before.rei) := by
  refine ⟨_, execRule_eq zero index shared, alternatives_inOrder _ _ _, stepsOf_starts _ _, ?_⟩
  intro hflag front step step' back hsteps herror hfront
  have hnext := (stepsOf_starts _ _).next front step step' back hsteps
  have hkept : (front.any fun step => step.res.retries) = false := by
    rw [List.any_eq_false]
    exact fun earlier hmem => by simp [hfront earlier hmem]
  simp only [Res.ordinaryError, Bool.and_eq_true, Bool.not_eq_true'] at herror
  rw [hnext, nextStart, hkept, herror.1.1, herror.1.2, hflag]
  rfl

end

/-! ## What a failed rule leaves -/

section

variable {V R W : Type} {null : V} {argc applyAll : Nat} {reiSaveFlag : Bool}

/-- The condition of the rule holds in the state. -/
def conditionHolds (rule : Rule V R W) (s : Shared V R W) : Bool :=
  decide ((rule.condition s.args (initializeEnv rule.params s.args) s.rei s.rest).1 = .bool true)

/-- What the condition of the rule leaves in the nodes of the arguments. -/
def argsInPlace (rule : Rule V R W) (s : Shared V R W) : List V :=
  (rule.condition s.args (initializeEnv rule.params s.args) s.rei s.rest).2.1

/-- The variables of the rule when its actions have ended. -/
def finalEnv (rule : Rule V R W) (applyAll : Nat) (s : Shared V R W) : Table V :=
  let (_, _, env, rei, rest) := rule.condition s.args (initializeEnv rule.params s.args) s.rei s.rest
  (rule.action applyAll env rei rest).2.1

/-- The arguments that an execution leaves. -/
def argsAfter (null : V) (rule : Rule V R W) (applyAll : Nat) (s : Shared V R W) : List V :=
  if conditionHolds rule s then copyFromEnv null rule.params (finalEnv rule applyAll s) else argsInPlace rule s

theorem execRuleNodeRes_args {rule : Rule V R W} (hargc : rule.params.length = argc) (applyAll : Nat)
    (s : Shared V R W) : (execRuleNodeRes null rule argc applyAll s).2.args = argsAfter null rule applyAll s := by
  unfold execRuleNodeRes argsAfter conditionHolds argsInPlace finalEnv
  simp only [hargc, ne_eq, not_true_eq_false, if_false]
  split <;> simp_all

variable {rules : List (Rule V R W)} {shared : Shared V R W} {front back : List (Step V R W)} {step step' : Step V R W}

/-- What an executed rule leaves in the arguments, the next one finds. -/
theorem stepsOf_args (h : stepsOf null argc applyAll reiSaveFlag rules shared = front ++ step :: step' :: back) :
    ∃ rule, rules[step.ruleInx]? = some rule ∧
      step'.before.args = argsAfter null rule (innerApplyAll applyAll) step.before := by
  have hmem : step ∈ stepsOf null argc applyAll reiSaveFlag rules shared := by
    rw [h]
    simp
  obtain ⟨rule, hrule, hstep⟩ := (alternatives_inOrder (matching argc rules 0) shared false).executes step hmem
  have hfilter := List.mem_filter.mp hrule
  have hindex := List.mem_zipIdx_iff_getElem?.mp hfilter.1
  have hnext := (stepsOf_starts _ _).next front step step' back h
  have hargs : step'.before.args = step.after.args := by
    rw [hnext, nextStart]
    split <;> rfl
  refine ⟨rule, hindex, ?_⟩
  rw [hargs, ← execRuleNodeRes_args (of_decide_eq_true hfilter.2) (innerApplyAll applyAll) step.before]
  exact congrArg (fun st : Step V R W => st.after.args) hstep

/-- The condition of every rule executed so far has failed, and has left the nodes of the arguments alone. -/
def ConditionsFailed (rules : List (Rule V R W)) (steps : List (Step V R W)) : Prop :=
  ∀ step ∈ steps, ∀ rule, rules[step.ruleInx]? = some rule →
    conditionHolds rule step.before = false ∧ argsInPlace rule step.before = step.before.args

theorem stepsOf_args_kept (h : stepsOf null argc applyAll reiSaveFlag rules shared = front ++ step :: back)
    (hfailed : ConditionsFailed rules front) : step.before.args = shared.args := by
  induction front using List.reverseRecOn generalizing step back with
  | nil =>
    have hhead := (stepsOf_starts rules shared).first step (by rw [h]; rfl)
    rw [hhead]
  | append_singleton front last ih =>
    rw [List.append_assoc, List.singleton_append] at h
    obtain ⟨rule, hrule, hargs⟩ := stepsOf_args h
    obtain ⟨hlast, hnodes⟩ := hfailed last (by simp) rule hrule
    rw [hargs, argsAfter, hlast, if_neg Bool.false_ne_true, hnodes]
    exact ih h fun step hstep => hfailed step (by simp [hstep])

/-- After an ordinary error the next rule gets the arguments of the rule that failed if its condition
did not hold, as that has left their nodes, else the last values of its parameters. -/
theorem args_after_error (null zero : V) (argc applyAll : Nat) (reiSaveFlag : Bool)
    (index : List (Option (FunctionDesc V R W))) (shared : Shared V R W) :
    ∀ front step step' back,
      (execRule null zero argc applyAll reiSaveFlag index shared).2 = front ++ step :: step' :: back →
      step.res.ordinaryError = true →
      (∃ rule, (rulesFor index)[step.ruleInx]? = some rule ∧
        step'.before.args = argsAfter null rule (innerApplyAll applyAll) step.before) ∧
      (ConditionsFailed (rulesFor index) (front ++ [step]) → step'.before.args = shared.args) := by
  intro front step step' back hsteps _
  rw [execRule_eq] at hsteps
  refine ⟨stepsOf_args hsteps, fun hfailed => ?_⟩
  have hsplit : stepsOf null argc applyAll reiSaveFlag (rulesFor index) shared =
      (front ++ [step]) ++ step' :: back := by
    rw [List.append_assoc]
    exact hsteps
  exact stepsOf_args_kept hsplit hfailed

end

/-! ## Runs -/

/-- A rule without parameters that leaves a number in the info. -/
def sets (rei : Int) (res : Res Unit) : Rule Unit Int Unit where
  params := []
  condition := fun args h rei rest => (.bool true, args, h, rei, rest)
  action := fun _ h _ rest => (res, h, rei, rest)

/-- A retry without recovery, an ordinary error, and a rule that applies. -/
def retryThenFail : List (Option (FunctionDesc Unit Int Unit)) :=
  [some (.ruleIndexList [sets 1 (.error RETRY_WITHOUT_RECOVERY_ERR), sets 2 (.error (-1)), sets 3 .success])]

/-- The third rule starts from what the second one has left. -/
theorem info_not_restored : ∃ front step step' back,
    (execRule () () 0 0 true retryThenFail ⟨[], 0, ()⟩).2 = front ++ step :: step' :: back ∧
      step.res.ordinaryError = true ∧ step'.before.rei ≠ step.before.rei := by
  refine ⟨[⟨0, ⟨[], 0, ()⟩, .error RETRY_WITHOUT_RECOVERY_ERR, ⟨[], 1, ()⟩⟩],
    ⟨1, ⟨[], 1, ()⟩, .error (-1), ⟨[], 2, ()⟩⟩, ⟨2, ⟨[], 2, ()⟩, .success, ⟨[], 3, ()⟩⟩, [], ?_, by decide, by decide⟩
  rw [execRule_eq]
  decide

/-- A rule with one parameter that is set before the rule ends. -/
def assigns (value : Int) (res : Res Int) : Rule Int Unit Unit where
  params := ["*x"]
  condition := fun args h rei rest => (.bool true, args, h, rei, rest)
  action := fun _ h rei rest => (res, h.map fun e => (e.1, value), rei, rest)

def assignThenFail : List (Option (FunctionDesc Int Unit Unit)) :=
  [some (.ruleIndexList [assigns 5 (.error (-1)), assigns 6 .success])]

/-- The first rule fails, and the second one finds what it has assigned. -/
theorem assignment_left_behind : ∃ step step',
    (execRule 0 0 1 0 true assignThenFail ⟨[7], (), ()⟩).2 = [step, step'] ∧
      step.res.ordinaryError = true ∧ step.before.args = [7] ∧ step'.before.args = [5] := by
  refine ⟨⟨0, ⟨[7], (), ()⟩, .error (-1), ⟨[5], (), ()⟩⟩, ⟨1, ⟨[5], (), ()⟩, .success, ⟨[6], (), ()⟩⟩, ?_,
    by decide, rfl, rfl⟩
  rw [execRule_eq]
  decide

theorem args_after_error_assign : ∃ rule, (rulesFor assignThenFail)[0]? = some rule ∧
    [5] = argsAfter 0 rule 0 (⟨[7], (), ()⟩ : Shared Int Unit Unit) := by
  have hsteps : (execRule 0 0 1 0 true assignThenFail ⟨[7], (), ()⟩).2 = [] ++
      (⟨0, ⟨[7], (), ()⟩, .error (-1), ⟨[5], (), ()⟩⟩ : Step Int Unit Unit) ::
        ⟨1, ⟨[5], (), ()⟩, .success, ⟨[6], (), ()⟩⟩ :: [] := by
    rw [execRule_eq]
    decide
  exact (args_after_error 0 0 1 0 true assignThenFail ⟨[7], (), ()⟩ _ _ _ _ hsteps (by decide)).1

end ExecRule

end Re
