-- SUMMARY: The array of parameters, and when the variables survive it.
import Irods.Re.Passing
import Mathlib.Data.List.TakeWhile

/-!
# The array of parameters

The walk converts the bindings it reaches one by one into an array that has one parameter a
name. What it leaves is the bindings collected by name, each converted.
-/

namespace Re.Conversion

open Variables
open List (drop_zero map_cons mem_cons mem_cons_of_mem mem_cons_self mem_map)

/-! ## The walk -/

/-- The bindings of a table that the walk reaches: in each bucket those in front of the first type variable. -/
def reachedIn (h : Hashtable) : List (Text × Res) :=
  h.buckets.flatMap fun bucket => bucket.takeWhile fun b => !isTVarName b.1

/-- The bindings of a chain that the walk reaches, from the outermost table inwards. -/
def reached : Env → List (Text × Res)
  | [] => []
  | current :: previous => reached previous ++ reachedIn current

/-- Each binding in turn. -/
def convertAll (l : List (Text × Res)) (var : MsParamArray) : Except Failure MsParamArray :=
  l.foldlM (fun var b => convertVariable var b.1 b.2) var

variable (l k : List (Text × Res)) (var : MsParamArray)

theorem convertAll_append : convertAll (l ++ k) var = convertAll l var >>= convertAll k := List.foldlM_append

theorem convertBucket_eq : convertBucket var l = convertAll (l.takeWhile fun b => !isTVarName b.1) var := by
  induction l generalizing var with
  | nil => rfl
  | cons b l ih =>
    rw [convertBucket]
    by_cases hb : isTVarName b.1 = true
    · rw [if_pos hb, List.takeWhile_cons_of_neg (by rw [hb]; decide)]
      rfl
    · rw [if_neg hb, List.takeWhile_cons_of_pos (by rw [Bool.not_eq_true] at hb; rw [hb]; rfl)]
      exact congrArg _ (funext fun var => ih var)

theorem convertHashtable_eq (h : Hashtable) (var : MsParamArray) :
    convertHashtableToMsParamArray var h = convertAll (reachedIn h) var := by
  rw [convertHashtableToMsParamArray, reachedIn]
  induction h.buckets generalizing var with
  | nil => rfl
  | cons bucket l ih =>
    rw [List.foldlM_cons, List.flatMap_cons, convertAll_append, convertBucket_eq]
    exact congrArg _ (funext fun var => ih var)

theorem convertEnv_eq (env : Env) (var : MsParamArray) :
    convertEnvToMsParamArray var env = convertAll (reached env) var := by
  induction env with
  | nil => rfl
  | cons current previous ih =>
    rw [convertEnvToMsParamArray, ih, reached, convertAll_append]
    exact congrArg _ (funext fun var => convertHashtable_eq current var)

/-! ## One variable -/

/-- The parameter of a binding. -/
def Becomes (b : Text × Res) (p : MsParam) : Prop :=
  ∃ q, convertResToMsParam {} b.2 = .ok q ∧ p = { q with label := some b.1 }

/-- The block has room for as many parameters as there are, in tens. -/
def Allocated (var : MsParamArray) : Prop :=
  (var.allocated = none ∧ var.msParam = []) ∨
    ∃ n, var.allocated = some n ∧ n % PTR_ARRAY_MALLOC_LEN = 0 ∧ var.msParam.length ≤ n

variable {var : MsParamArray} {res : Res}

theorem push_ok (h : Allocated var) (v : MsParam) :
    ∃ var', var.push v = .ok var' ∧ var'.msParam = var.msParam ++ [v] ∧ Allocated var' := by
  obtain ⟨hnone, hempty⟩ | ⟨n, hsome, hten, hle⟩ := h
  · refine ⟨⟨[v], some PTR_ARRAY_MALLOC_LEN⟩, ?_, by rw [hempty]; rfl,
      .inr ⟨_, rfl, rfl, show 1 ≤ PTR_ARRAY_MALLOC_LEN by decide⟩⟩
    rw [MsParamArray.push, hnone]
    rfl
  · by_cases hfull : var.msParam.length % PTR_ARRAY_MALLOC_LEN = 0
    · refine ⟨⟨var.msParam ++ [v], some (PTR_ARRAY_MALLOC_LEN + var.msParam.length)⟩, ?_, rfl, .inr ⟨_, rfl, ?_, ?_⟩⟩
      · rw [MsParamArray.push, hsome]
        simp only [if_pos hfull, Option.getD_some]
        rw [if_pos (by unfold PTR_ARRAY_MALLOC_LEN; omega)]
      · rw [Nat.add_mod, hfull]
        rfl
      · rw [List.length_append, List.length_singleton, Nat.add_comm]
        exact Nat.add_le_add_right (by decide) _
    · have hlt : var.msParam.length < n := by
        refine lt_of_le_of_ne hle fun heq => hfull ?_
        rw [heq, hten]
      refine ⟨⟨var.msParam ++ [v], some n⟩, ?_, rfl, .inr ⟨n, rfl, hten, ?_⟩⟩
      · rw [MsParamArray.push, hsome]
        simp only [if_neg hfull, Option.getD_some]
        rw [if_pos hlt]
      · rw [List.length_append, List.length_singleton]
        exact hlt

variable {m : List (Text × Res)} {key : Text}

/-- The search for the parameter of a name, with what setting it or adding one leaves. -/
theorem find_parameter {params : List MsParam} (hm : List.Forall₂ Becomes m params) {v : MsParam}
    (hv : Becomes (key, res) v) :
    (∃ i, params.findIdx? (fun p => decide (p.label = some key)) = some i ∧
      List.Forall₂ Becomes (Bindings.put key res m) (params.set i v)) ∨
    (params.findIdx? (fun p => decide (p.label = some key)) = none ∧
      List.Forall₂ Becomes (Bindings.put key res m) (params ++ [v])) := by
  induction hm with
  | nil => exact .inr ⟨rfl, .cons hv .nil⟩
  | @cons b p m params hb hrest ih =>
    obtain ⟨q, hq, rfl⟩ := hb
    rw [List.findIdx?_cons, Bindings.put]
    by_cases hkey : b.1 = key
    · refine .inl ⟨0, by rw [if_pos (decide_eq_true (congrArg some hkey))], ?_⟩
      rw [if_pos (beq_iff_eq.mpr hkey), hkey]
      exact .cons hv hrest
    · have hne : ¬ decide (some b.1 = some key) = true := fun h => hkey (Option.some.inj (of_decide_eq_true h))
      rw [if_neg hne, if_neg fun h => hkey (beq_iff_eq.mp h)]
      obtain ⟨i, hi, hset⟩ | ⟨hnone, happ⟩ := ih
      · exact .inl ⟨i + 1, by rw [hi]; rfl, .cons ⟨q, hq, rfl⟩ hset⟩
      · exact .inr ⟨by rw [hnone]; rfl, .cons ⟨q, hq, rfl⟩ happ⟩

theorem convertVariable_ok (hm : List.Forall₂ Becomes m var.msParam) (halloc : Allocated var) (key : Text)
    {q : MsParam} (hq : convertResToMsParam {} res = .ok q) :
    ∃ var', convertVariable var key res = .ok var' ∧ List.Forall₂ Becomes (Bindings.put key res m) var'.msParam ∧
      Allocated var' := by
  have hv : Becomes (key, res) { q with label := some key } := ⟨q, hq, rfl⟩
  obtain ⟨i, hi, hset⟩ | ⟨hnone, happ⟩ := find_parameter hm hv
  · refine ⟨{ var with msParam := var.msParam.set i { q with label := some key } }, ?_, hset, ?_⟩
    · rw [convertVariable, hi]
      show (updateResToMsParam _ res >>= _) = _
      rw [updateResToMsParam, convertResToMsParam_var, hq]
      rfl
    · obtain ⟨hnone, hempty⟩ | ⟨n, hsome, hten, hle⟩ := halloc
      · exact .inl ⟨hnone, by rw [hempty]; rfl⟩
      · exact .inr ⟨n, hsome, hten, by rw [List.length_set]; exact hle⟩
  · obtain ⟨var', hpush, hparams, halloc'⟩ := push_ok halloc { q with label := some key }
    refine ⟨var', ?_, hparams ▸ happ, halloc'⟩
    rw [convertVariable, hnone]
    rw [hq, ok_bind, hpush]

theorem convertVariable_error {f : Failure} (hq : convertResToMsParam {} res = .error f) :
    convertVariable var key res = .error f := by
  rw [convertVariable]
  split
  · rw [updateResToMsParam, convertResToMsParam_var, hq]
    rfl
  · rw [hq]
    rfl

/-! ## All variables -/

variable {l : List (Text × Res)}

/-- Bindings that can all be converted leave the array of the collected bindings. -/
theorem convertAll_ok (h : ∀ b ∈ l, ∃ q, convertResToMsParam {} b.2 = .ok q) :
    ∃ var, convertAll l newMsParamArray = .ok var ∧ List.Forall₂ Becomes (Bindings.collect l) var.msParam ∧
      Allocated var := by
  induction l using List.reverseRecOn with
  | nil => exact ⟨newMsParamArray, rfl, .nil, .inl ⟨rfl, rfl⟩⟩
  | append_singleton l b ih =>
    obtain ⟨var, hrun, hvar, halloc⟩ := ih fun b hb => h b (List.mem_append_left _ hb)
    obtain ⟨q, hq⟩ := h b (List.mem_append_right _ mem_cons_self)
    obtain ⟨var', hrun', hvar', halloc'⟩ := convertVariable_ok hvar halloc b.1 hq
    refine ⟨var', ?_, Bindings.collect_append_singleton l b ▸ hvar', halloc'⟩
    rw [convertAll_append, hrun, ok_bind]
    show (convertVariable var b.1 b.2 >>= Except.ok) = _
    rw [hrun', ok_bind]

theorem converted_of_convertAll {var' : MsParamArray} (h : convertAll l var = .ok var') :
    ∀ b ∈ l, ∃ q, convertResToMsParam {} b.2 = .ok q := by
  induction l generalizing var with
  | nil => exact fun b hb => nomatch hb
  | cons b l ih =>
    replace h : (convertVariable var b.1 b.2 >>= convertAll l) = .ok var' := h
    intro b' hb'
    cases hq : convertResToMsParam {} b.2 with
    | error f =>
      rw [convertVariable_error hq] at h
      cases h
    | ok q =>
      obtain rfl | hb' := mem_cons.mp hb'
      · exact ⟨q, hq⟩
      · cases hstep : convertVariable var b.1 b.2 with
        | error f =>
          rw [hstep] at h
          cases h
        | ok var₁ =>
          rw [hstep] at h
          exact ih h b' hb'

/-! ## What is visible -/

variable {env : Env} {key : Text}

theorem lookupFromEnv_isSome :
    (lookupFromEnv env key).isSome ↔ ∃ h ∈ env, (Variables.lookupFromHashTable h key).isSome := by
  induction env with
  | nil => exact ⟨fun h => Bool.noConfusion h, fun ⟨_, hmem, _⟩ => nomatch hmem⟩
  | cons current previous ih =>
    rw [lookupFromEnv]
    cases hcur : Variables.lookupFromHashTable current key with
    | some val => exact ⟨fun _ => ⟨current, mem_cons_self, by rw [hcur]; rfl⟩, fun _ => rfl⟩
    | none =>
      refine ih.trans ⟨fun ⟨h, hmem, hlook⟩ => ⟨h, mem_cons_of_mem _ hmem, hlook⟩, fun ⟨h, hmem, hlook⟩ => ?_⟩
      obtain rfl | hmem := mem_cons.mp hmem
      · rw [hcur] at hlook
        cases hlook
      · exact ⟨h, hmem, hlook⟩

variable {h : Hashtable}

theorem mem_entries (hlook : Variables.lookupFromHashTable h key = some res) : (key, res) ∈ h.entries := by
  have hmem := Bindings.mem_of_lookup hlook
  rw [List.getD_eq_getElem?_getD] at hmem
  cases hbucket : h.buckets[h.index key]? with
  | none =>
    rw [hbucket] at hmem
    cases hmem
  | some bucket =>
    rw [hbucket] at hmem
    exact List.mem_flatten.mpr ⟨bucket, List.mem_of_getElem? hbucket, hmem⟩

theorem mem_of_lookupFromEnv (hlook : lookupFromEnv env key = some res) : ∃ h ∈ env, (key, res) ∈ h.entries := by
  induction env with
  | nil => cases hlook
  | cons current previous ih =>
    rw [lookupFromEnv] at hlook
    split at hlook
    · rename_i val hcur
      obtain rfl := Option.some.inj hlook
      exact ⟨current, mem_cons_self, mem_entries hcur⟩
    · obtain ⟨h, hmem, hentry⟩ := ih hlook
      exact ⟨h, mem_cons_of_mem _ hmem, hentry⟩

variable {b : Text × Res}

theorem mem_reached (hb : b ∈ reached env) : isTVarName b.1 = false ∧ ∃ h ∈ env, b ∈ h.entries := by
  induction env with
  | nil => cases hb
  | cons current previous ih =>
    obtain hb | hb := List.mem_append.mp hb
    · obtain ⟨hname, h, hmem, hentry⟩ := ih hb
      exact ⟨hname, h, mem_cons_of_mem _ hmem, hentry⟩
    · obtain ⟨bucket, hbucket, hb⟩ := List.mem_flatMap.mp hb
      have hname := List.mem_takeWhile_imp hb
      rw [Bool.not_eq_true'] at hname
      exact ⟨hname, current, mem_cons_self,
        List.mem_flatten.mpr ⟨bucket, hbucket, (List.takeWhile_sublist _).mem hb⟩⟩

variable {env : Env}

namespace HoldsVariables

theorem value (h : HoldsVariables env) (hb : b ∈ reached env) : ∃ v, valueOf b.2 = some v := by
  obtain ⟨hname, t, ht, hentry⟩ := mem_reached hb
  exact Option.isSome_iff_exists.mp (h.values t ht b hentry hname)

theorem visible (h : HoldsVariables env) (hb : b ∈ reached env) :
    isTVarName b.1 = false ∧ (lookupFromEnv env b.1).isSome := by
  obtain ⟨hname, t, ht, hentry⟩ := mem_reached hb
  refine ⟨hname, lookupFromEnv_isSome.mpr ⟨t, ht, ?_⟩⟩
  obtain ⟨res, hres⟩ := Bindings.lookup_isSome_of_mem hentry
  rw [← Hashtable.lookup_entries (h.hashed t ht), hres]
  rfl

end HoldsVariables

/-! ## The array -/

variable {params : List MsParam}

theorem labels_eq (h : List.Forall₂ Becomes m params) : params.map MsParam.label = (m.map Prod.fst).map some := by
  induction h with
  | nil => rfl
  | cons hb _ ih =>
    obtain ⟨q, -, rfl⟩ := hb
    rw [map_cons, map_cons, map_cons, ih]

variable {p : MsParam}

theorem becomes_of_mem (h : List.Forall₂ Becomes m params) (hp : p ∈ params) : ∃ b ∈ m, Becomes b p := by
  induction h with
  | nil => cases hp
  | @cons b _ _ _ hb _ ih =>
    obtain rfl | hp := mem_cons.mp hp
    · exact ⟨b, mem_cons_self, hb⟩
    · obtain ⟨b', hmem, hb'⟩ := ih hp
      exact ⟨b', mem_cons_of_mem _ hmem, hb'⟩

/-- The last binding of a name that the walk reaches. -/
def lastReached (env : Env) (key : Text) : Option Res := (reached env).reverse.lookup key

theorem lastReached_of_collect (hb : b ∈ Bindings.collect (reached env)) : lastReached env b.1 = some b.2 := by
  rw [lastReached, ← Bindings.lookup_collect]
  exact Bindings.lookup_of_mem (Bindings.keys_collect_nodup _) hb

theorem mem_of_lastReached (h : lastReached env key = some res) : (key, res) ∈ reached env :=
  List.mem_reverse.mp (Bindings.mem_of_lookup h)

theorem mem_keys_collect :
    key ∈ (Bindings.collect (reached env)).map Prod.fst ↔ ∃ res, lastReached env key = some res := by
  constructor
  · intro hmem
    obtain ⟨b, hb, rfl⟩ := mem_map.mp hmem
    exact ⟨b.2, lastReached_of_collect hb⟩
  · rintro ⟨res, h⟩
    rw [lastReached, ← Bindings.lookup_collect] at h
    exact mem_map.mpr ⟨_, Bindings.mem_of_lookup h, rfl⟩

/-- The walk reaches every visible variable, and nothing that it reaches for it hides or changes its value. -/
structure Unobstructed (env : Env) : Prop where
  room : ∀ b ∈ reached env, Room b.2
  carried : ∀ key res, isTVarName key = false → lookupFromEnv env key = some res →
    ∃ last, lastReached env key = some last ∧ shown last = valueOf res

section Trip

variable (resultRow : Struct → Int → Option Res)

/-- A parameter of the array conveys what the last binding of its name shows. -/
theorem conveys_last (hvars : HoldsVariables env) (hroom : ∀ b ∈ reached env, Room b.2)
    (hvar : List.Forall₂ Becomes (Bindings.collect (reached env)) var.msParam) (hp : p ∈ var.msParam) :
    ∃ key last w, p.label = some key ∧ lastReached env key = some last ∧ shown last = some w ∧
      Conveys resultRow p w := by
  obtain ⟨b, hb, q, hq, rfl⟩ := becomes_of_mem hvar hp
  have hlast := lastReached_of_collect hb
  have hmem := mem_of_lastReached hlast
  obtain ⟨v, hv⟩ := hvars.value hmem
  obtain ⟨q', w, hq', hshown, hconveys⟩ := converted resultRow hv (hroom _ hmem)
  obtain rfl := Except.ok.inj (hq.symm.trans hq')
  exact ⟨b.1, b.2, w, rfl, hlast, hshown, hconveys _⟩

theorem passed (hvars : HoldsVariables env) (h : Unobstructed env)
    (hvar : List.Forall₂ Becomes (Bindings.collect (reached env)) var.msParam) : Passed resultRow env var := by
  refine ⟨?_, fun key => ?_, fun p hp => ?_⟩
  · rw [labels_eq hvar]
    exact (Bindings.keys_collect_nodup _).map (Option.some_injective _)
  · rw [labels_eq hvar, List.mem_map_of_injective (Option.some_injective _), mem_keys_collect]
    constructor
    · rintro ⟨res, hres⟩
      exact hvars.visible (mem_of_lastReached hres)
    · rintro ⟨hname, hvis⟩
      obtain ⟨res, hres⟩ := Option.isSome_iff_exists.mp hvis
      obtain ⟨last, hlast, -⟩ := h.carried key res hname hres
      exact ⟨last, hlast⟩
  · obtain ⟨key, last, w, hlabel, hlast, hshown, hconveys⟩ := conveys_last resultRow hvars h.room hvar hp
    obtain ⟨hname, hvis⟩ := hvars.visible (mem_of_lastReached hlast)
    obtain ⟨res, hres⟩ := Option.isSome_iff_exists.mp hvis
    obtain ⟨last', hlast', hvalue⟩ := h.carried key res hname hres
    obtain rfl := Option.some.inj (hlast.symm.trans hlast')
    exact ⟨key, res, w, hlabel, hres, hvalue.symm.trans hshown, hconveys.carries⟩

theorem unobstructed_of_passed (hvars : HoldsVariables env)
    (hrun : convertEnvToMsParamArray newMsParamArray env = .ok var) (h : Passed resultRow env var) :
    Unobstructed env := by
  rw [convertEnv_eq] at hrun
  have hconv := converted_of_convertAll hrun
  have hroom : ∀ b ∈ reached env, Room b.2 := fun b hb => by
    obtain ⟨q, hq⟩ := hconv b hb
    exact room_of_converted hq
  obtain ⟨var', hrun', hvar, -⟩ := convertAll_ok hconv
  obtain rfl := Except.ok.inj (hrun.symm.trans hrun')
  refine ⟨hroom, fun key res hname hres => ?_⟩
  obtain ⟨p, hp, hlabel⟩ := mem_map.mp ((h.visible key).mpr ⟨hname, by rw [hres]; rfl⟩)
  obtain ⟨key₁, res₁, v, hlabel₁, hres₁, hv, hcarries⟩ := h.carries p hp
  obtain ⟨key₂, last, w, hlabel₂, hlast, hshown, hconveys⟩ := conveys_last resultRow hvars hroom hvar hp
  obtain rfl := Option.some.inj (hlabel.symm.trans hlabel₁)
  obtain rfl := Option.some.inj (hlabel.symm.trans hlabel₂)
  obtain rfl := Option.some.inj (hres.symm.trans hres₁)
  obtain rfl := carries_unique resultRow hcarries hconveys.carries
  exact ⟨last, hlast, hshown.trans hv.symm⟩

end Trip

/-! ## The way back -/

variable {varName : Text}

theorem lookupFromHashTable_update {old : Res} (hold : Variables.lookupFromHashTable h varName = some old) (res : Res)
    (key : Text) :
    Variables.lookupFromHashTable (Variables.updateInHashTable h varName res) key =
      if key = varName then some res else Variables.lookupFromHashTable h key := by
  rw [Hashtable.lookup_update, hold]
  by_cases hkey : key = varName
  · rw [if_pos hkey, if_pos ⟨hkey, rfl⟩]
  · rw [if_neg hkey, if_neg fun hand => hkey hand.1]

/-- Seen from any table of the chain, a name has what it had, or it is the one that was updated and had what the
whole chain has for it. -/
theorem updateDefined_some (res : Res) : ∀ {env : Env}, (lookupFromEnv env varName).isSome →
    ∃ env', updateDefined varName res env = some env' ∧ ∀ depth key,
      lookupFromEnv (env'.drop depth) key = lookupFromEnv (env.drop depth) key ∨
      (key = varName ∧ lookupFromEnv (env'.drop depth) key = some res ∧
        lookupFromEnv (env.drop depth) key = lookupFromEnv env varName)
  | [], hvis => nomatch hvis
  | current :: previous, hvis => by
    rw [updateDefined]
    cases hcur : Variables.lookupFromHashTable current varName with
    | some old =>
      refine ⟨_, rfl, fun depth key => ?_⟩
      cases depth with
      | succ depth => exact .inl rfl
      | zero =>
        rw [drop_zero, drop_zero, lookupFromEnv, lookupFromEnv, lookupFromHashTable_update hcur]
        by_cases hkey : key = varName
        · rw [if_pos hkey]
          exact .inr ⟨hkey, rfl, by rw [hkey, lookupFromEnv]⟩
        · rw [if_neg hkey]
          exact .inl rfl
    | none =>
      have hsame : lookupFromEnv (current :: previous) varName = lookupFromEnv previous varName := by
        rw [lookupFromEnv, hcur]
      obtain ⟨previous', hrun, hprev⟩ := updateDefined_some res (hsame ▸ hvis)
      refine ⟨current :: previous', by rw [hrun]; rfl, fun depth key => ?_⟩
      cases depth with
      | succ depth =>
        obtain h | ⟨hkey, hnew, hold⟩ := hprev depth key
        · exact .inl h
        · exact .inr ⟨hkey, hnew, hold.trans hsame.symm⟩
      | zero =>
        have hprev := hprev 0 key
        rw [drop_zero, drop_zero] at hprev ⊢
        rw [lookupFromEnv, lookupFromEnv]
        cases hkey' : Variables.lookupFromHashTable current key with
        | some val => exact .inl rfl
        | none =>
          obtain h | ⟨hkey, hnew, hold⟩ := hprev
          · exact .inl h
          · exact .inr ⟨hkey, hnew, hold.trans hsame.symm⟩

/-- The chain still has the names it had, and the scalars of every table. -/
structure SameScalars (env env' : Env) : Prop where
  names   : ∀ key, (lookupFromEnv env key).isSome → (lookupFromEnv env' key).isSome
  scalars : ∀ depth key, scalarOf (env'.drop depth) key = scalarOf (env.drop depth) key

theorem SameScalars.refl (env : Env) : SameScalars env env := ⟨fun _ h => h, fun _ _ => rfl⟩

/-- Writing back a scalar's own value, or no scalar over what is none, keeps the scalars. -/
theorem SameScalars.update {env' : Env} (h : SameScalars env env') (hvis : (lookupFromEnv env varName).isSome)
    (hvalue : (valueOf res).filter Value.isScalar = scalarOf env varName) :
    SameScalars env (updateInEnv env' varName res) := by
  obtain ⟨env'', hrun, hafter⟩ := updateDefined_some res (h.names varName hvis)
  rw [updateInEnv, hrun]
  constructor
  · intro key hkey
    have h₀ := hafter 0 key
    rw [drop_zero, drop_zero] at h₀
    obtain hsame | ⟨-, hnew, -⟩ := h₀
    · rw [hsame]
      exact h.names key hkey
    · rw [hnew]
      rfl
  · intro depth key
    rw [← h.scalars depth key]
    obtain hsame | ⟨rfl, hnew, hold⟩ := hafter depth key
    · rw [scalarOf, hsame, scalarOf]
    · have hwhole := h.scalars 0 key
      rw [scalarOf, hnew, scalarOf, hold]
      exact hvalue.trans hwhole.symm

/-- Parameters that convey the values of their variables leave the scalars as they were. -/
theorem updateAll_ok {resultRow : Struct → Int → Option Res} (h : ∀ p ∈ params, ∃ key res w,
      p.label = some key ∧ lookupFromEnv env key = some res ∧ valueOf res = some w ∧ Conveys resultRow p w) :
    ∀ {env₁ : Env}, SameScalars env env₁ →
      ∃ env', params.foldlM updateFromParam env₁ = .ok env' ∧ SameScalars env env' := by
  induction params with
  | nil => exact fun hsame => ⟨_, rfl, hsame⟩
  | cons p params ih =>
    intro env₁ hsame
    obtain ⟨key, res, w, hlabel, hres, hw, hconveys⟩ := h p mem_cons_self
    obtain ⟨back, hback, hvalue⟩ := hconveys.back
    have hscalar : scalarOf env key = (some w).filter Value.isScalar := by
      rw [scalarOf, hres, Option.bind_some, hw]
    have hstep := hsame.update (by rw [hres]; rfl) (hvalue.trans hscalar.symm)
    obtain ⟨env', hrun, hsame'⟩ := ih (fun p hp => h p (mem_cons_of_mem _ hp)) hstep
    refine ⟨env', ?_, hsame'⟩
    rw [List.foldlM_cons, updateFromParam, hback, ok_bind, hlabel]
    exact hrun

/-! ## The whole trip -/

variable (resultRow : Struct → Int → Option Res)

/-- Variables that the walk does not miss and arrays that hold their lists survive the trip. -/
theorem survives_of_unobstructed (hvars : HoldsVariables env) (h : Unobstructed env) : Survives resultRow env := by
  have hconv : ∀ b ∈ reached env, ∃ q, convertResToMsParam {} b.2 = .ok q := fun b hb => by
    obtain ⟨v, hv⟩ := hvars.value hb
    obtain ⟨q, -, hq, -⟩ := converted resultRow hv (h.room b hb)
    exact ⟨q, hq⟩
  obtain ⟨var, hrun, hvar, -⟩ := convertAll_ok hconv
  have hpassed := passed resultRow hvars h hvar
  have hback : ∀ p ∈ var.msParam, ∃ key res w, p.label = some key ∧ lookupFromEnv env key = some res ∧
      valueOf res = some w ∧ Conveys resultRow p w := by
    intro p hp
    obtain ⟨key, last, w, hlabel, -, -, hconveys⟩ := conveys_last resultRow hvars h.room hvar hp
    obtain ⟨key', res, v, hlabel', hres, hv, hcarries⟩ := hpassed.carries p hp
    obtain rfl := Option.some.inj (hlabel.symm.trans hlabel')
    obtain rfl := carries_unique resultRow hcarries hconveys.carries
    exact ⟨key, res, v, hlabel, hres, hv, hconveys⟩
  obtain ⟨env', hupdate, hsame⟩ := updateAll_ok hback (SameScalars.refl env)
  exact ⟨var, by rw [convertEnv_eq, hrun], hpassed, env', hupdate, hsame.scalars⟩

theorem unobstructed_of_survives (hvars : HoldsVariables env) (h : Survives resultRow env) : Unobstructed env := by
  obtain ⟨var, hrun, hpassed, -⟩ := h
  exact unobstructed_of_passed resultRow hvars hrun hpassed

/-! ## Chains whose variables survive, and others -/

def Value.strs? : Value → Option (List Text)
  | .strs l => some l
  | _ => none

instance (res : Res) : Decidable (Room res) :=
  decidable_of_iff (∀ l ∈ (valueOf res).bind Value.strs?, Fits l) <| by
    refine forall_congr' fun l => imp_congr ?_ Iff.rfl
    cases valueOf res with
    | none => exact ⟨fun h => (nomatch h), fun h => (nomatch h)⟩
    | some v => cases v <;> simp [Value.strs?]

/-- It is enough to look at the bindings of the tables. -/
theorem unobstructed_of_entries (hvars : HoldsVariables env) (hroom : ∀ b ∈ reached env, Room b.2)
    (h : ∀ t ∈ env, ∀ b ∈ t.entries, isTVarName b.1 = false →
      (lastReached env b.1).bind shown = (lookupFromEnv env b.1).bind valueOf) : Unobstructed env := by
  refine ⟨hroom, fun key res hname hres => ?_⟩
  obtain ⟨t, ht, hentry⟩ := mem_of_lookupFromEnv hres
  obtain ⟨v, hv⟩ := Option.isSome_iff_exists.mp (hvars.values t ht _ hentry hname)
  have heq := h t ht _ hentry hname
  rw [hres, Option.bind_some, hv] at heq
  obtain ⟨last, hlast, hshown⟩ := Option.bind_eq_some_iff.mp heq
  exact ⟨last, hlast, hshown.trans hv.symm⟩

/-- A table filled by insertions. -/
def tableOf (l : List (Text × Res)) : Hashtable := l.foldl (fun h b => insertIntoHashTable h b.1 b.2) (newHashTable2 10)

theorem hashed_tableOf (l : List (Text × Res)) : (tableOf l).Hashed := by
  have hall : ∀ (l : List (Text × Res)) (h : Hashtable), h.Hashed →
      (l.foldl (fun h b => insertIntoHashTable h b.1 b.2) h).Hashed := by
    intro l
    induction l with
    | nil => exact fun h hh => hh
    | cons b l ih => exact fun h hh => ih _ (Hashtable.hashed_insert hh b.1 b.2)
  exact hall l _ (Hashtable.hashed_new 10)

/-- Every table of a chain like this one has its keys where their hash says. -/
theorem holdsVariables_tables {ls : List (List (Text × Res))} (h : ∀ t ∈ ls.map tableOf, ∀ b ∈ t.entries,
    isTVarName b.1 = false → (valueOf b.2).isSome) : HoldsVariables (ls.map tableOf) := by
  refine ⟨fun t ht => ?_, h⟩
  obtain ⟨l, -, rfl⟩ := mem_map.mp ht
  exact hashed_tableOf l

/-- The variables survive the trip exactly when the walk reaches a binding with the value of each visible one last,
and every list it meets fits into its array. -/
theorem survives_iff (hvars : HoldsVariables env) : Survives resultRow env ↔ Unobstructed env :=
  ⟨unobstructed_of_survives resultRow hvars, survives_of_unobstructed resultRow hvars⟩

/-- A rule's table in front of the global one, with a name of its own in each and one in both. -/
def nested : Env := List.map tableOf
  [[("*count".toList, newIntRes 8), ("*rate".toList, newDoubleRes (.finite (1 / 2))),
    ("*names".toList, newCollRes .string [newStringRes "ab".toList, newStringRes []]),
    ("*none".toList, newCollRes .int [newIntRes 0, newIntRes 0])],
   [("*count".toList, newIntRes 7), ("ruleExecOut".toList, newStringRes "done".toList)]]

theorem holdsVariables_nested : HoldsVariables nested := holdsVariables_tables (by decide +kernel)

theorem survives_nested : HoldsVariables nested ∧ Survives (fun _ _ => none) nested :=
  ⟨holdsVariables_nested, (survives_iff _ holdsVariables_nested).mpr
    (unobstructed_of_entries holdsVariables_nested (by decide +kernel) (by decide +kernel))⟩

/-- A list with the one integer five. -/
def oneInteger : Env := List.map tableOf [[("*l".toList, newCollRes .int [newIntRes 5])]]

/-- A list with one string. -/
def oneString : Env := List.map tableOf [[("*l".toList, newCollRes .string [newStringRes "a".toList])]]

theorem holdsVariables_oneInteger : HoldsVariables oneInteger := holdsVariables_tables (by decide +kernel)

theorem holdsVariables_oneString : HoldsVariables oneString := holdsVariables_tables (by decide +kernel)

/-- The integer becomes the number of the list's own node, and the end of the string is written behind its array. -/
theorem not_survives : (HoldsVariables oneInteger ∧ ¬ Survives (fun _ _ => none) oneInteger) ∧
    HoldsVariables oneString ∧ ¬ Survives (fun _ _ => none) oneString := by
  refine ⟨⟨holdsVariables_oneInteger, fun h => ?_⟩, holdsVariables_oneString, fun h => ?_⟩
  · have hvis : (lookupFromEnv oneInteger "*l".toList).bind valueOf = some (.ints [5]) := by decide +kernel
    obtain ⟨res, hres, hvalue⟩ := Option.bind_eq_some_iff.mp hvis
    obtain ⟨last, hlast, hshown⟩ :=
      (unobstructed_of_survives _ holdsVariables_oneInteger h).carried "*l".toList res (by decide) hres
    have hzero : (lastReached oneInteger "*l".toList).bind shown = some (.ints [0]) := by decide +kernel
    rw [hlast, Option.bind_some, hshown, hvalue] at hzero
    exact absurd hzero (by decide)
  · have hroom := (unobstructed_of_survives _ holdsVariables_oneString h).room
    exact absurd hroom (by decide +kernel)

end Re.Conversion
