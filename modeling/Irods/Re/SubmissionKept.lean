-- SUMMARY: When a submission of rules leaves the rule engine as it found it.
import Irods.Re.RuleSubmission

/-!
# What a submission leaves behind

A text that the parser rejects leaves the environment pushed for it, and the rules read
before the error. `parseAndComputeRuleAdapter` puts `clearDelayed` back only when it
fails, and `computeExpressionWithParams` not when an argument is too long. The submissions
that the rules make while they run do the same, and nothing repairs it afterwards. Neither
does anything bring back the environment of an application that is linked anew.
-/

namespace RuleSubmission

open List (forall_mem_append)

variable {ν π : Type}

/-! ## The condition -/

/-- A text given to `parseAndComputeRule` that comes to the parser is accepted by it. -/
def Submission.Parses (w : World ν π) (x : Submission ν π) : Prop :=
  match x.call with
  | .parseAndComputeRule rule =>
    overflow rule maxRuleLen = true ∨ w.newPointer2 rule = false ∨
      (parseRuleSet x.engine.checkPointExtRuleSet (w.parse rule)).2 = 0
  | _ => True

/-- The flag is 0 already, or the call takes an exit that puts it back. -/
def Submission.Restores (x : Submission ν π) : Prop :=
  match x.call with
  | .parseAndComputeRuleAdapter _ _ => x.engine.clearDelayed = 0 ∨ x.rescode < 0
  | .computeExpressionWithParams actionName params _ =>
    x.engine.clearDelayed = 0 ∨ World.oversize actionName params = false
  | _ => True

/-- The call links a new environment for the application. -/
def Submission.Relinks (w : World ν π) (x : Submission ν π) : Prop :=
  match x.call with
  | .msiAdmClearAppRuleStruct isUserPrivileged => isUserPrivileged = 0
  | .msiAdmAddAppRuleStruct isUserPrivileged irbSet _ _ =>
    isUserPrivileged = 0 ∧ irbSet ≠ [] ∧ w.getModifiedTime irbSet = 0
  | _ => False

/-- The length of the rule set, the chain of environments and the flag are the same. -/
def Kept (s s' : Engine ν) : Prop :=
  s'.len = s.len ∧ s'.extFuncDescIndex = s.extFuncDescIndex ∧ s'.clearDelayed = s.clearDelayed

/-! ## What the parser touches -/

/-- The environments behind those of `extEnvs`. -/
def SameBase (s s' : Engine ν) : Prop :=
  s'.appFuncDescIndex = s.appFuncDescIndex ∧ s'.coreFuncDescIndex = s.coreFuncDescIndex ∧
    s'.sysFuncDescIndex = s.sysFuncDescIndex

/-- Only the environment on top and the rules change. -/
structure TopOnly (s s' : Engine ν) : Prop where
  chain : ∀ env rest, s.extEnvs = env :: rest → ∃ env', s'.extEnvs = env' :: rest
  base : SameBase s s'
  next : s'.nextEnv = s.nextEnv
  flag : s'.clearDelayed = s.clearDelayed

theorem TopOnly.refl (s : Engine ν) : TopOnly s s := ⟨fun env _ h => ⟨env, h⟩, ⟨rfl, rfl, rfl⟩, rfl, rfl⟩

variable {s s' : Engine ν}

variable {s'' : Engine ν}

theorem SameBase.trans (h : SameBase s s') (h' : SameBase s' s'') : SameBase s s'' :=
  ⟨h'.1.trans h.1, h'.2.1.trans h.2.1, h'.2.2.trans h.2.2⟩

theorem TopOnly.trans (h : TopOnly s s') (h' : TopOnly s' s'') : TopOnly s s'' := by
  refine ⟨fun env rest heq => ?_, h.base.trans h'.base, h'.next.trans h.next, h'.flag.trans h.flag⟩
  obtain ⟨env', heq'⟩ := h.chain env rest heq
  exact h'.chain env' rest heq'

theorem topOnly_pushRule (s : Engine ν) (rd : RuleDesc ν) : TopOnly s (s.pushRule rd) :=
  ⟨fun env _ h => ⟨env, h⟩, ⟨rfl, rfl, rfl⟩, rfl, rfl⟩

theorem topOnly_updateCurrent (s : Engine ν) (f : Frame → Frame) : TopOnly s (s.updateCurrent f) := by
  simp only [Engine.updateCurrent]
  split
  case h_1 => exact TopOnly.refl s
  case h_2 env rest heq =>
    refine ⟨fun env' rest' h => ?_, ⟨rfl, rfl, rfl⟩, rfl, rfl⟩
    rw [heq] at h
    cases h
    exact ⟨_, rfl⟩

theorem topOnly_define {rd : RuleDesc ν} {fd : FunctionDesc} (h : define s rd fd = .ok s') : TopOnly s s' := by
  simp only [define] at h
  split at h
  case isTrue => cases h
  case isFalse =>
    cases h
    exact (topOnly_updateCurrent s _).trans (topOnly_pushRule _ rd)

theorem topOnly_defineAll (s : Engine ν) (rds : List (RuleDesc ν)) : TopOnly s (defineAll s rds).1 := by
  induction rds generalizing s with
  | nil => exact TopOnly.refl s
  | cons rd rds ih =>
    simp only [defineAll]
    split
    case h_1 => exact TopOnly.refl s
    case h_2 s' h => exact (topOnly_define h).trans (ih s')

theorem topOnly_pushRules (s : Engine ν) (rds : List (RuleDesc ν)) : TopOnly s (rds.foldl Engine.pushRule s) := by
  induction rds generalizing s with
  | nil => exact TopOnly.refl s
  | cons rd rds ih => exact (topOnly_pushRule s rd).trans (ih (s.pushRule rd))

theorem topOnly_parseItem (s : Engine ν) (item : Item ν) : TopOnly s (parseItem s item).1 := by
  cases item with
  | fail e => exact TopOnly.refl s
  | induct data constructors => exact (topOnly_pushRule s data).trans (topOnly_defineAll _ constructors)
  | constr rd =>
    simp only [parseItem]
    split
    case h_1 => exact TopOnly.refl s
    case h_2 h => exact topOnly_define h
  | external rd =>
    simp only [parseItem]
    split
    case h_1 => exact TopOnly.refl s
    case h_2 h => exact topOnly_define h
  | rules rds => exact topOnly_pushRules s rds

theorem topOnly_parseRuleSet (s : Engine ν) (items : List (Item ν)) : TopOnly s (parseRuleSet s items).1 := by
  induction items generalizing s with
  | nil => exact TopOnly.refl s
  | cons item items ih =>
    simp only [parseRuleSet]
    split
    · exact topOnly_parseItem s item
    · exact (topOnly_parseItem s item).trans (ih _)

theorem topOnly_appendRules (s : Engine ν) (start : Nat) : TopOnly s (s.appendRules start) := by
  have key (f : Engine ν → Nat → Engine ν) (hf : ∀ s i, TopOnly s (f s i)) (is : List Nat) :
      ∀ s, TopOnly s (is.foldl f s) := by
    induction is with
    | nil => exact TopOnly.refl
    | cons i is ih => exact fun s => (hf s i).trans (ih _)
  refine key _ (fun s i => ?_) _ s
  split
  · split
    · exact topOnly_updateCurrent s _
    · exact TopOnly.refl s
  · exact TopOnly.refl s

/-! ## What a call does to the engine -/

/-- In front of the application's environment environments are only ever left behind, one for each
rejected text; a call that links anew puts another in the place of the application's; and the flag
only ever goes to 0, when a call does not put it back. -/
structure Effect (w : World ν π) (s s' : Engine ν) (tr : Trace ν π) : Prop where
  chain : ∃ left, s'.extEnvs = left ++ s.extEnvs ∧ (left = [] ↔ ∀ x ∈ tr, x.Parses w)
  base : (SameBase s s' ∧ ∀ x ∈ tr, ¬ x.Relinks w) ∨
    (s.nextEnv ≤ s'.appFuncDescIndex.id ∧ ¬ ∀ x ∈ tr, ¬ x.Relinks w)
  next : s.nextEnv ≤ s'.nextEnv
  flag : (s'.clearDelayed = s.clearDelayed ∧ ∀ x ∈ tr, x.Restores) ∨
    (s.clearDelayed ≠ 0 ∧ s'.clearDelayed = 0 ∧ ¬ ∀ x ∈ tr, x.Restores)
  len : (∀ x ∈ tr, x.Parses w) → s'.len = s.len

variable {w : World ν π}

theorem Effect.refl (w : World ν π) (s : Engine ν) : Effect w s s [] :=
  ⟨⟨[], rfl, by simp⟩, .inl ⟨⟨rfl, rfl, rfl⟩, by simp⟩, Nat.le_refl _, .inl ⟨rfl, by simp⟩, fun _ => rfl⟩

variable {s s' : Engine ν} {tr : Trace ν π}

theorem Effect.trans {tr' : Trace ν π} (h : Effect w s s' tr) (h' : Effect w s' s'' tr') :
    Effect w s s'' (tr ++ tr') := by
  constructor
  case chain =>
    obtain ⟨left, heq, hnil⟩ := h.chain
    obtain ⟨left', heq', hnil'⟩ := h'.chain
    refine ⟨left' ++ left, by rw [heq', heq, List.append_assoc], ?_⟩
    rw [List.append_eq_nil_iff, hnil, hnil', forall_mem_append, and_comm]
  case base =>
    rcases h'.base with ⟨hsame', hall'⟩ | ⟨hnew', hnot'⟩
    · rcases h.base with ⟨hsame, hall⟩ | ⟨hnew, hnot⟩
      · exact .inl ⟨hsame.trans hsame', forall_mem_append.mpr ⟨hall, hall'⟩⟩
      · refine .inr ⟨?_, fun hboth => hnot (forall_mem_append.mp hboth).1⟩
        rw [hsame'.1]
        exact hnew
    · exact .inr ⟨Nat.le_trans h.next hnew', fun hboth => hnot' (forall_mem_append.mp hboth).2⟩
  case next => exact Nat.le_trans h.next h'.next
  case flag =>
    rcases h.flag with ⟨heq, hall⟩ | ⟨hne, hz, hnot⟩
    · rcases h'.flag with ⟨heq', hall'⟩ | ⟨hne', hz', hnot'⟩
      · exact .inl ⟨heq'.trans heq, forall_mem_append.mpr ⟨hall, hall'⟩⟩
      · refine .inr ⟨heq ▸ hne', hz', fun hboth => ?_⟩
        exact hnot' (forall_mem_append.mp hboth).2
    · have hz' : s''.clearDelayed = 0 := by
        rcases h'.flag with ⟨heq', -⟩ | ⟨hne', -⟩
        · rw [heq', hz]
        · exact absurd hz hne'
      exact .inr ⟨hne, hz', fun hboth => hnot (forall_mem_append.mp hboth).1⟩
  case len =>
    intro hall
    obtain ⟨hall₁, hall₂⟩ := forall_mem_append.mp hall
    rw [h'.len hall₂, h.len hall₁]

variable {x : Submission ν π}

/-- A submission that is not one of the microservices adds nothing to what was linked anew. -/
theorem Effect.base_snoc (h : Effect w s s' tr) (hl : ¬ x.Relinks w) :
    (SameBase s s' ∧ ∀ y ∈ tr ++ [x], ¬ y.Relinks w) ∨
      (s.nextEnv ≤ s'.appFuncDescIndex.id ∧ ¬ ∀ y ∈ tr ++ [x], ¬ y.Relinks w) := by
  refine h.base.imp (fun ⟨hsame, hall⟩ => ⟨hsame, ?_⟩) fun ⟨hnew, hnot⟩ => ⟨hnew, fun hboth => ?_⟩
  · rw [forall_mem_append]
    exact ⟨hall, by simp [hl]⟩
  · exact hnot (forall_mem_append.mp hboth).1

/-- A call that is kept in every respect adds a submission that meets the condition. -/
theorem Effect.snoc (h : Effect w s s' tr) (hp : x.Parses w) (hl : ¬ x.Relinks w) (hr : x.Restores) :
    Effect w s s' (tr ++ [x]) := by
  constructor
  case chain =>
    obtain ⟨left, heq, hnil⟩ := h.chain
    refine ⟨left, heq, ?_⟩
    rw [hnil, forall_mem_append]
    simp [hp]
  case base => exact h.base_snoc hl
  case next => exact h.next
  case flag =>
    refine h.flag.imp (fun ⟨heq, hall⟩ => ⟨heq, ?_⟩) fun ⟨hne, hz, hnot⟩ => ⟨hne, hz, fun hboth => ?_⟩
    · rw [forall_mem_append]
      exact ⟨hall, by simp [hr]⟩
    · exact hnot (forall_mem_append.mp hboth).1
  case len => exact fun hall => h.len (forall_mem_append.mp hall).1

/-- The flag is at 0 during the calls that an adapter makes. -/
theorem Effect.flag_zero (h : Effect w s s' tr) (hz : s.clearDelayed = 0) :
    s'.clearDelayed = 0 ∧ ∀ x ∈ tr, x.Restores := by
  rcases h.flag with ⟨heq, hall⟩ | ⟨hne, -⟩
  · exact ⟨heq.trans hz, hall⟩
  · exact absurd hz hne

/-- The flag is put back after a call made with it at 0. -/
theorem Effect.restore (h : Effect w { s with clearDelayed := 0 } s' tr) :
    Effect w s { s' with clearDelayed := s.clearDelayed } tr :=
  ⟨h.chain, h.base, h.next, .inl ⟨rfl, (h.flag_zero rfl).2⟩, h.len⟩

/-- The flag is left at 0 after such a call. -/
theorem Effect.unrestored (h : Effect w { s with clearDelayed := 0 } s' tr) (hp : x.Parses w) (hl : ¬ x.Relinks w)
    (hr : x.Restores ↔ s.clearDelayed = 0) : Effect w s s' (tr ++ [x]) := by
  obtain ⟨hz, hall⟩ := h.flag_zero rfl
  constructor
  case chain =>
    obtain ⟨left, heq, hnil⟩ := h.chain
    refine ⟨left, heq, ?_⟩
    rw [hnil, forall_mem_append]
    simp [hp]
  case base => exact h.base_snoc hl
  case next => exact h.next
  case flag =>
    by_cases h0 : s.clearDelayed = 0
    · refine .inl ⟨hz.trans h0.symm, forall_mem_append.mpr ⟨hall, ?_⟩⟩
      simpa using hr.mpr h0
    · refine .inr ⟨h0, hz, fun hboth => h0 (hr.mp ?_)⟩
      exact (forall_mem_append.mp hboth).2 x (by simp)
  case len => exact fun hall' => h.len (forall_mem_append.mp hall').1

/-- Popping the environment that was pushed for a call: one of those left behind goes
instead of it, if there are any. -/
theorem Effect.pop {s₁ s₂ : Engine ν} {env : Env} (hchain : s₁.extEnvs = env :: s.extEnvs) (hbase : SameBase s s₁)
    (hnext : s.nextEnv ≤ s₁.nextEnv) (hflag : s₁.clearDelayed = s.clearDelayed) (h : Effect w s₁ s₂ tr) :
    Effect w s (s₂.popExtRuleSet s.len) tr := by
  refine ⟨?_, ?_, Nat.le_trans hnext h.next, hflag ▸ h.flag, fun _ => rfl⟩
  · obtain ⟨left, heq, hnil⟩ := h.chain
    rw [hchain] at heq
    simp only [Engine.popExtRuleSet, heq]
    cases left with
    | nil => exact ⟨[], rfl, hnil⟩
    | cons f fs =>
      refine ⟨fs ++ [env], by simp, ?_⟩
      rw [← hnil]
      simp
  · exact h.base.imp (fun ⟨hsame, hall⟩ => ⟨hbase.trans hsame, hall⟩) fun ⟨hnew, hnot⟩ =>
      ⟨Nat.le_trans hnext hnew, hnot⟩

/-- What the bodies may assume of the calls that the interpreter makes. -/
def Sound (w : World ν π) (exec : Engine ν → Exec ν π → Option (Result ν π)) : Prop :=
  ∀ s e s' rescode tr, exec s e = some (s', rescode, tr) → Effect w s s' tr

variable {c : Call π} {rescode : Int}

section Body

variable {exec : Engine ν → Exec ν π → Option (Result ν π)}

variable {rule : Text} {ps : Option π}

theorem effect_submitRule (hexec : Sound w exec) (h : w.parseAndComputeRule exec s rule = some (s', rescode, tr)) :
    Effect w s s' (tr ++ [⟨s, .parseAndComputeRule rule, rescode⟩]) := by
  simp only [World.parseAndComputeRule] at h
  split at h
  case isTrue hover =>
    cases h
    exact (Effect.refl w s).snoc (.inl hover) id trivial
  case isFalse hover =>
    split at h
    case isTrue hptr =>
      cases h
      exact (Effect.refl w s).snoc (.inr (.inl hptr)) id trivial
    case isFalse hptr =>
      rcases hparse : parseRuleSet s.checkPointExtRuleSet (w.parse rule) with ⟨s₁, ret⟩
      rw [hparse] at h
      have htop : TopOnly s.checkPointExtRuleSet s₁ := by
        have := topOnly_parseRuleSet s.checkPointExtRuleSet (w.parse rule)
        rw [hparse] at this
        exact this
      obtain ⟨env, hchain⟩ := htop.chain ⟨s.nextEnv, []⟩ s.extEnvs rfl
      have hbase : SameBase s s₁ := htop.base
      have hnext : s₁.nextEnv = s.nextEnv + 1 := htop.next
      split at h
      case isTrue hbad =>
        cases h
        have hnot : ¬ (⟨s, .parseAndComputeRule rule, RE_PARSER_ERROR⟩ : Submission ν π).Parses w := by
          rintro (ho | hp | hr)
          · exact hover ho
          · exact hptr hp
          · rw [hparse] at hr
            exact hbad hr
        refine ⟨⟨[env], hchain, ?_⟩, .inl ⟨hbase, ?_⟩, hnext ▸ Nat.le_succ _, .inl ⟨htop.flag, ?_⟩, fun hall => ?_⟩
        · simp [hnot]
        · simp [Submission.Relinks]
        · simp [Submission.Restores]
        · exact absurd (hall _ (by simp)) hnot
      case isFalse hok =>
        have hparses : ∀ code, (⟨s, .parseAndComputeRule rule, code⟩ : Submission ν π).Parses w := by
          intro code
          refine .inr (.inr ?_)
          rw [hparse]
          simpa using hok
        have happend := topOnly_appendRules s₁ s.len
        obtain ⟨env', hchain'⟩ := happend.chain env _ hchain
        have hbase' : SameBase s (s₁.appendRules s.len) := hbase.trans happend.base
        have hnext' : s.nextEnv ≤ (s₁.appendRules s.len).nextEnv := by
          rw [happend.next, hnext]
          exact Nat.le_succ _
        have hflag : (s₁.appendRules s.len).clearDelayed = s.clearDelayed := happend.flag.trans htop.flag
        split at h
        case isTrue =>
          cases h
          exact ((Effect.refl w _).pop hchain' hbase' hnext' hflag).snoc (hparses _) id trivial
        case isFalse =>
          split at h
          case h_1 => cases h
          case h_2 rd _ =>
            split at h
            case h_1 => cases h
            case h_2 s₂ code tr' hrun =>
              cases h
              exact ((hexec _ _ _ _ _ hrun).pop hchain' hbase' hnext' hflag).snoc (hparses _) id trivial

theorem effect_adapterParams (hexec : Sound w exec) (h : w.adapterParams exec s rule ps = some (s', rescode, tr)) :
    Effect w s s' tr := by
  cases ps with
  | none =>
    cases h
    exact Effect.refl w s
  | some ps =>
    simp only [World.adapterParams] at h
    split at h
    · exact hexec _ _ _ _ _ h
    · cases h
      exact Effect.refl w s

theorem effect_adapter (hexec : Sound w exec)
    (h : w.parseAndComputeRuleAdapter exec s rule ps = some (s', rescode, tr)) :
    Effect w s s' (tr ++ [⟨s, .parseAndComputeRuleAdapter rule ps, rescode⟩]) := by
  simp only [World.parseAndComputeRuleAdapter] at h
  split at h
  case h_1 => cases h
  case h_2 s₁ code₁ tr₁ hparams =>
    have h₁ := effect_adapterParams hexec hparams
    split at h
    case isTrue hneg =>
      cases h
      exact h₁.restore.snoc trivial id (.inr hneg)
    case isFalse =>
      split at h
      case h_1 => cases h
      case h_2 s₂ code₂ tr₂ hsubmit =>
        have h₂ : Effect w { s with clearDelayed := 0 } s₂ (tr₁ ++ tr₂) := by
          refine h₁.trans ?_
          simp only [World.submitRule] at hsubmit
          split at hsubmit
          case h_1 => cases hsubmit
          case h_2 hbody =>
            cases hsubmit
            exact effect_submitRule hexec hbody
        split at h
        case isTrue hneg =>
          cases h
          exact h₂.restore.snoc trivial id (.inr hneg)
        case isFalse hpos =>
          cases h
          exact h₂.unrestored trivial id ⟨fun hx => hx.resolve_right hpos, .inl⟩

theorem effect_expressionWithParams (hexec : Sound w exec) {actionName : Text} {params : List Text}
    (h : w.computeExpressionWithParams exec s actionName params ps = some (s', rescode, tr)) :
    Effect w s s' (tr ++ [⟨s, .computeExpressionWithParams actionName params ps, rescode⟩]) := by
  simp only [World.computeExpressionWithParams] at h
  split at h
  case isTrue hover =>
    cases h
    refine (Effect.refl w _).unrestored trivial id ⟨fun hx => hx.resolve_right ?_, .inl⟩
    simp [hover]
  case isFalse hover =>
    split at h
    case h_1 => cases h
    case h_2 s₁ code tr₁ hrun =>
      cases h
      exact (hexec _ _ _ _ _ hrun).restore.snoc trivial id (.inr (by simpa using hover))

theorem effect_expressionAdapter (hexec : Sound w exec) {inAction : Text}
    (h : w.parseAndComputeExpressionAdapter exec s inAction ps = some (s', rescode, tr)) :
    Effect w s s' (tr ++ [⟨s, .parseAndComputeExpressionAdapter inAction ps, rescode⟩]) := by
  simp only [World.parseAndComputeExpressionAdapter] at h
  split at h
  case h_1 => cases h
  case h_2 s₁ code tr₁ hrun =>
    cases h
    exact (hexec _ _ _ _ _ hrun).restore.snoc trivial id trivial

/-- The application's environment is another one. -/
theorem effect_relink (frame : Frame) (hp : x.Parses w) (hl : x.Relinks w) (hr : x.Restores) :
    Effect w s (s.relinkFuncDescIndex frame) [x] := by
  refine ⟨⟨[], rfl, ?_⟩, .inr ⟨Nat.le_refl _, ?_⟩, Nat.le_succ _, .inl ⟨rfl, ?_⟩, fun _ => rfl⟩
  · simp [hp]
  · simp [hl]
  · simp [hr]

theorem effect_clearAppRuleStruct (priv : Int) :
    Effect w s (w.msiAdmClearAppRuleStruct s priv).1
      [⟨s, .msiAdmClearAppRuleStruct priv, (w.msiAdmClearAppRuleStruct s priv).2⟩] := by
  unfold World.msiAdmClearAppRuleStruct
  split
  case isTrue hne => exact (Effect.refl w s).snoc trivial hne trivial
  case isFalse hpriv => exact effect_relink [] trivial (not_not.mp hpriv) trivial

theorem effect_addAppRuleStruct (priv : Int) (irbSet dvmSet fnmSet : Text) :
    Effect w s (w.msiAdmAddAppRuleStruct s priv irbSet dvmSet fnmSet).1
      [⟨s, .msiAdmAddAppRuleStruct priv irbSet dvmSet fnmSet,
        (w.msiAdmAddAppRuleStruct s priv irbSet dvmSet fnmSet).2⟩] := by
  unfold World.msiAdmAddAppRuleStruct World.loadRuleFromCacheOrFile
  split
  case isTrue hne => exact (Effect.refl w s).snoc trivial (fun hl => hne hl.1) trivial
  case isFalse hpriv =>
    by_cases hempty : irbSet.isEmpty
    · simp only [if_pos hempty]
      exact (Effect.refl w s).snoc trivial (fun hl => hl.2.1 (List.isEmpty_iff.mp hempty)) trivial
    · by_cases htime : w.getModifiedTime irbSet = 0
      · simp only [if_neg hempty, htime, ne_eq, not_true_eq_false, if_false]
        refine effect_relink _ trivial ⟨not_not.mp hpriv, fun hnil => hempty ?_, htime⟩ trivial
        exact List.isEmpty_iff.mpr hnil
      · simp only [if_neg hempty, ne_eq, htime, not_false_eq_true, if_true]
        exact (Effect.refl w s).snoc trivial (fun hl => htime hl.2.2) trivial

theorem effect_submit (hexec : Sound w exec) (h : w.submit exec s c = some (s', rescode, tr)) : Effect w s s' tr := by
  simp only [World.submit] at h
  split at h
  case h_1 => cases h
  case h_2 s₁ code tr₁ hbody =>
    cases h
    cases c with
    | parseAndComputeRule rule => exact effect_submitRule hexec hbody
    | parseAndComputeRuleAdapter rule ps => exact effect_adapter hexec hbody
    | computeExpressionWithParams name args ps => exact effect_expressionWithParams hexec hbody
    | parseAndComputeExpressionAdapter a ps => exact effect_expressionAdapter hexec hbody
    | msiAdmClearAppRuleStruct priv =>
      cases hbody
      exact effect_clearAppRuleStruct priv
    | msiAdmAddAppRuleStruct priv irbSet dvmSet fnmSet =>
      cases hbody
      exact effect_addAppRuleStruct priv irbSet dvmSet fnmSet

end Body

/-! ## Every nesting -/

/-- The interpreter, if the calls it makes have their effect. -/
theorem sound_runExec {call : Engine ν → Call π → Option (Result ν π)}
    (hcall : ∀ s c s' rescode tr, call s c = some (s', rescode, tr) → Effect w s s' tr) :
    Sound w (World.runExec call) := by
  intro s e
  induction e generalizing s with
  | done code =>
    intro s' rescode tr h
    cases h
    exact Effect.refl w s
  | call c k ih =>
    intro s' rescode tr h
    simp only [World.runExec] at h
    split at h
    case h_1 => cases h
    case h_2 s₁ code₁ tr₁ h₁ =>
      split at h
      case h_1 => cases h
      case h_2 s₂ code₂ tr₂ h₂ =>
        cases h
        exact (hcall _ _ _ _ _ h₁).trans (ih code₁ s₁ s₁ _ _ _ h₂)

theorem effect_run (fuel : Nat) (h : w.run fuel s c = some (s', rescode, tr)) : Effect w s s' tr := by
  induction fuel generalizing s s' c rescode tr with
  | zero => cases h
  | succ fuel ih => exact effect_submit (sound_runExec fun _ _ _ _ _ hc => ih hc) h

/-- What a tree of submissions keeps is told from its trace. -/
theorem Effect.kept_iff (h : Effect w s s' tr) :
    Kept s s' ↔ ∀ x ∈ tr, x.Parses w ∧ x.Restores ∧ ¬ x.Relinks w := by
  obtain ⟨left, hchain, hnil⟩ := h.chain
  constructor
  · rintro ⟨-, hc, hf⟩ x hx
    obtain ⟨hext, hends⟩ := List.append_inj' hc rfl
    have hleft : left = [] := by
      rw [hext] at hchain
      simpa using hchain.symm
    refine ⟨hnil.mp hleft x hx, ?_, ?_⟩
    · rcases h.flag with ⟨-, hall⟩ | ⟨hne, hz, -⟩
      · exact hall x hx
      · exact absurd (hf ▸ hz) hne
    · rcases h.base with ⟨-, hall⟩ | ⟨hnew, -⟩
      · exact hall x hx
      · -- a new environment has a new number
        have happ : s'.appFuncDescIndex = s.appFuncDescIndex := (List.cons.inj hends).1
        have hknown := s.known
        rw [happ] at hnew
        omega
  · intro hall
    have hp : ∀ x ∈ tr, x.Parses w := fun x hx => (hall x hx).1
    refine ⟨h.len hp, ?_, ?_⟩
    · rcases h.base with ⟨⟨happ, hcore, hsys⟩, -⟩ | ⟨-, hnot⟩
      · rw [Engine.extFuncDescIndex, hchain, hnil.mpr hp, happ, hcore, hsys]
        rfl
      · exact absurd (fun x hx => (hall x hx).2.2) hnot
    · rcases h.flag with ⟨heq, -⟩ | ⟨-, -, hnot⟩
      · exact heq
      · exact absurd (fun x hx => (hall x hx).2.1) hnot

/-- A call that returns, however deep its rules nest others, leaves the engine as it was
exactly if none of the submissions was rejected by the parser, none left the flag at 0
that was not, and none linked a new environment for the application. -/
theorem submission_kept_iff {fuel : Nat} {s s' : Engine ν} {c : Call π} {rescode : Int} {tr : Trace ν π}
    (h : w.run fuel s c = some (s', rescode, tr)) :
    Kept s s' ↔ ∀ x ∈ tr, x.Parses w ∧ x.Restores ∧ ¬ x.Relinks w :=
  (effect_run fuel h).kept_iff

/-- An engine with nothing submitted. -/
def freshEngine : Engine Unit where
  rules := fun _ => none
  len := 0
  extEnvs := [⟨3, []⟩]
  appFuncDescIndex := ⟨2, []⟩
  coreFuncDescIndex := ⟨1, []⟩
  sysFuncDescIndex := ⟨0, []⟩
  nextEnv := 4
  clearDelayed := 0
  known := by decide

/-- The text `a` is a rule that submits the text `b`, which is a rule that has application rules
added that cannot be found; in any other text a bad rule follows a good one. -/
def twoTexts : World Unit Unit where
  newPointer2 := fun _ => true
  parse := fun text =>
    if text = [97] ∨ text = [98] then [.rules [⟨.rel, text, ()⟩]]
    else [.rules [⟨.rel, text, ()⟩], .fail .badRule]
  typeRule := fun _ _ => true
  execRuleNodeRes := fun _ rd =>
    if rd.name = [97] then .call (.parseAndComputeRule [98]) fun rescode _ => .done rescode
    else .call (.msiAdmAddAppRuleStruct 0 [120] [] []) fun _ _ => .done 0
  convertMsParamArrayToEnv := fun _ => 0
  computeMsParamArrayToEnv := fun _ _ => .done 0
  computeNode := fun _ _ _ _ => .done 0
  computeExpression := fun _ _ _ => .done 0
  getModifiedTime := fun _ => -1
  readRuleSet := fun _ _ => ([], 0)
  readMaps := fun _ _ => 0
  clearMaps := 0

theorem submission_kept_nested :
    ∃ s' tr, twoTexts.run 3 freshEngine (.parseAndComputeRuleAdapter [97] none) = some (s', 0, tr) ∧
      tr.length = 4 ∧ Kept freshEngine s' := by
  have hrun : twoTexts.run 3 freshEngine (.parseAndComputeRuleAdapter [97] none) = some (_, 0, _) := rfl
  refine ⟨_, _, hrun, rfl, (submission_kept_iff hrun).mpr ?_⟩
  refine List.forall_mem_cons.mpr ⟨⟨trivial, trivial, fun hl => absurd hl.2.2 (by decide)⟩, ?_⟩
  refine List.forall_mem_cons.mpr ⟨⟨.inr (.inr rfl), trivial, id⟩, ?_⟩
  refine List.forall_mem_cons.mpr ⟨⟨.inr (.inr rfl), trivial, id⟩, ?_⟩
  exact List.forall_mem_cons.mpr ⟨⟨trivial, .inl rfl, id⟩, fun _ hx => absurd hx List.not_mem_nil⟩

/-- A rule and its environment are left behind by a text with a bad rule after a good one. -/
theorem submission_not_kept :
    ∃ s' tr, twoTexts.run 1 freshEngine (.parseAndComputeRule [99]) = some (s', RE_PARSER_ERROR, tr) ∧
      s'.len = 1 ∧ s'.extFuncDescIndex = ⟨4, []⟩ :: freshEngine.extFuncDescIndex ∧ ¬ Kept freshEngine s' := by
  refine ⟨_, _, rfl, rfl, rfl, ?_⟩
  rintro ⟨hlen, -⟩
  cases hlen

end RuleSubmission
