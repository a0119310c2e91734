-- SUMMARY: The trip of the variables through microservice parameters.
import Irods.Re.StringArrays

/-!
# The trip through the parameters

What a variable is worth is a value of the rule language without the nodes around it. The
walk through the chain meets the bindings table by table from outside, and the last one
of a name decides what its parameter carries.
-/

namespace Re.Conversion

open Variables

/-! ## Values -/

/-- What a variable can be worth: a number, a string, or a list of strings or of integers. -/
inductive Value where
  | int (n : Int)
  | double (d : Double)
  | str (s : Text)
  | strs (l : List Text)
  | ints (l : List Int)
deriving DecidableEq

def Value.isScalar : Value → Bool
  | .int _ | .double _ | .str _ => true
  | .strs _ | .ints _ => false

/-- The type of the parameter of a value. -/
def Value.msType : Value → Text
  | .int _ => INT_MS_T
  | .double _ => DOUBLE_MS_T
  | .str _ => STR_MS_T
  | .strs _ => StrArray_MS_T
  | .ints _ => IntArray_MS_T

def valueOf (res : Res) : Option Value :=
  match res.exprType with
  | some .int => (intOf res).map .int
  | some .double => some (.double res.dval)
  | some .string => (textOf res).map .str
  | some (.cons name [.string]) => if name = LIST then (elems stringElem res.subtrees).map .strs else none
  | some (.cons name [.int]) => if name = LIST then (elems intElem res.subtrees).map .ints else none
  | _ => none

section Passing

-- The rows of a query's result, which no variable here is.
variable (resultRow : Struct → Int → Option Res)

/-- A collection gives these elements, one by one, and no more. -/
def Elements (typ : Text) (inPtr : Struct) (vs : List Value) : Prop :=
  ∀ inx : Nat, ∃ elem, getValueFromCollection resultRow typ inPtr inx = .ok elem ∧ elem.map valueOf = vs[inx]?.map some

/-- The parameter carries the value. -/
def Carries (p : MsParam) (v : Value) : Prop :=
  p.type = some v.msType ∧ match v with
    | .int n => p.inOutStruct = .int n
    | .double d => p.inOutStruct = .double d
    | .str s => p.inOutStruct = .str s
    | .strs l => Elements resultRow StrArray_MS_T p.inOutStruct (l.map .str)
    | .ints l => Elements resultRow IntArray_MS_T p.inOutStruct (l.map .int)

/-- The array has one parameter for each visible name but the type variables, with the value of the name. -/
structure Passed (env : Env) (var : MsParamArray) : Prop where
  once : (var.msParam.map MsParam.label).Nodup
  visible : ∀ key, some key ∈ var.msParam.map MsParam.label ↔
    isTVarName key = false ∧ (lookupFromEnv env key).isSome
  carries : ∀ p ∈ var.msParam, ∃ key res v, p.label = some key ∧ lookupFromEnv env key = some res ∧
    valueOf res = some v ∧ Carries resultRow p v

/-- The value of a variable, if it is a scalar. -/
def scalarOf (env : Env) (key : Text) : Option Value :=
  ((lookupFromEnv env key).bind valueOf).filter Value.isScalar

/-- The trip there and back: no access goes wrong, and the scalars of every table stay as they were. -/
def Survives (env : Env) : Prop :=
  ∃ var, convertEnvToMsParamArray newMsParamArray env = .ok var ∧ Passed resultRow env var ∧
    ∃ env', updateMsParamArrayToEnv var env = .ok env' ∧
      ∀ depth key, scalarOf (env'.drop depth) key = scalarOf (env.drop depth) key

/-- Every variable has a value, and every table has its keys where their hash says. -/
structure HoldsVariables (env : Env) : Prop where
  hashed : ∀ h ∈ env, h.Hashed
  values : ∀ h ∈ env, ∀ b ∈ h.entries, isTVarName b.1 = false → (valueOf b.2).isSome

/-! ## One parameter -/

/-- What the parameter of a value shows: strings as their array gives them back, and for each integer of a list
the number in the node of the list. -/
def shown (res : Res) : Option Value :=
  (valueOf res).map fun
    | .strs l => .strs (runOn (longest l) l)
    | .ints l => .ints (l.map fun _ => res.intVal)
    | v => v

/-- The list of strings in a value, if there is one, stays within its array. -/
def Room (res : Res) : Prop := ∀ l, valueOf res = some (.strs l) → Fits l

theorem convertResToMsParam_var (var : MsParam) (res : Res) :
    convertResToMsParam var res = convertResToMsParam {} res := by
  cases res.exprType with
  | none => rfl
  | some t => cases t <;> rfl

/-- How a node is worth a value. -/
inductive Worth (res : Res) : Value → Prop where
  | int {n : Int} (htype : res.exprType = some .int) (h : intOf res = some n) : Worth res (.int n)
  | double (htype : res.exprType = some .double) : Worth res (.double res.dval)
  | str {s : Text} (htype : res.exprType = some .string) (h : textOf res = some s) : Worth res (.str s)
  | strs {l : List Text} (htype : res.exprType = some (.cons LIST [.string]))
      (h : elems stringElem res.subtrees = some l) : Worth res (.strs l)
  | ints {l : List Int} (htype : res.exprType = some (.cons LIST [.int]))
      (h : elems intElem res.subtrees = some l) : Worth res (.ints l)

variable {res : Res} {v : Value} {p : MsParam} {l : List Text}

theorem valueOf_worth (h : valueOf res = some v) : Worth res v := by
  unfold valueOf at h
  split at h
  · rename_i htype
    obtain ⟨n, hn, rfl⟩ := Option.map_eq_some_iff.mp h
    exact .int htype hn
  · rename_i htype
    obtain rfl := Option.some.inj h
    exact .double htype
  · rename_i htype
    obtain ⟨s, hs, rfl⟩ := Option.map_eq_some_iff.mp h
    exact .str htype hs
  · rename_i name htype
    split at h
    · rename_i hname
      obtain ⟨l, hl, rfl⟩ := Option.map_eq_some_iff.mp h
      exact .strs (hname ▸ htype) hl
    · cases h
  · rename_i name htype
    split at h
    · rename_i hname
      obtain ⟨l, hl, rfl⟩ := Option.map_eq_some_iff.mp h
      exact .ints (hname ▸ htype) hl
    · cases h
  · cases h

variable {typ s : Text} {w : Value} {n : Int}

theorem elements_unique {inPtr : Struct} {vs ws : List Value} (hvs : Elements resultRow typ inPtr vs)
    (hws : Elements resultRow typ inPtr ws) : vs = ws := by
  refine List.ext_getElem? fun inx => ?_
  obtain ⟨elem, helem, hv⟩ := hvs inx
  obtain ⟨elem', helem', hw⟩ := hws inx
  obtain rfl := Except.ok.inj (helem.symm.trans helem')
  exact Option.map_injective (Option.some_injective _) (hv.symm.trans hw)

def Value.kind : Value → Nat
  | .int _ => 0
  | .double _ => 1
  | .str _ => 2
  | .strs _ => 3
  | .ints _ => 4

def msTypes : List Text := [INT_MS_T, DOUBLE_MS_T, STR_MS_T, StrArray_MS_T, IntArray_MS_T, DATETIME_MS_T]

theorem msTypes_nodup : msTypes.Nodup := by decide

theorem Value.kind_eq (h : v.msType = w.msType) : v.kind = w.kind := by
  have hget (u : Value) : msTypes[u.kind]? = some u.msType ∧ u.kind < msTypes.length := by
    cases u <;> exact ⟨rfl, by simp [Value.kind, msTypes]⟩
  exact (List.getElem?_inj (hget v).2 msTypes_nodup).mp (by rw [(hget v).1, (hget w).1, h])

theorem carries_unique (hv : Carries resultRow p v) (hw : Carries resultRow p w) : v = w := by
  have hkind := Value.kind_eq (Option.some.inj (hv.1.symm.trans hw.1))
  cases v <;> cases w <;> try cases hkind
  case int n m => exact congrArg _ (Struct.int.inj (hv.2.symm.trans hw.2))
  case double d e => exact congrArg _ (Struct.double.inj (hv.2.symm.trans hw.2))
  case str s t => exact congrArg _ (Struct.str.inj (hv.2.symm.trans hw.2))
  case strs l k =>
    exact congrArg _ (List.map_injective_iff.mpr (fun _ _ => Value.str.inj) (elements_unique resultRow hv.2 hw.2))
  case ints l k =>
    exact congrArg _ (List.map_injective_iff.mpr (fun _ _ => Value.int.inj) (elements_unique resultRow hv.2 hw.2))

/-- The parameter carries the value, and leads back to it if that is a scalar. -/
structure Conveys (p : MsParam) (w : Value) : Prop where
  carries : Carries resultRow p w
  back : ∃ res, convertMsParamToRes p Res.new = .ok res ∧
    (valueOf res).filter Value.isScalar = (some w).filter Value.isScalar

theorem conveys_int (htype : p.type = some INT_MS_T) (hstruct : p.inOutStruct = .int n) (hn : Double.inInt n = true) :
    Conveys resultRow p (.int n) := by
  refine ⟨⟨htype, hstruct⟩, { Res.new with dval := .ofInt n, exprType := some .int }, ?_, ?_⟩
  · rw [convertMsParamToRes, htype, hstruct]
    rfl
  · rw [valueOf, intOf_ofInt rfl hn]
    rfl

theorem conveys_double {d : Double} (htype : p.type = some DOUBLE_MS_T) (hstruct : p.inOutStruct = .double d) :
    Conveys resultRow p (.double d) := by
  refine ⟨⟨htype, hstruct⟩, convertDoubleValue Res.new d, ?_, rfl⟩
  rw [convertMsParamToRes, htype, hstruct]
  rfl

theorem conveys_str (htype : p.type = some STR_MS_T) (hstruct : p.inOutStruct = .str s) (hs : '\x00' ∉ s) :
    Conveys resultRow p (.str s) := by
  refine ⟨⟨htype, hstruct⟩, convertStrValue Res.new (some s), ?_, ?_⟩
  · rw [convertMsParamToRes, htype, hstruct]
    rfl
  · have htext : textOf (convertStrValue Res.new (some s)) = some s :=
      Option.filter_eq_some_iff.mpr ⟨rfl, decide_eq_true hs⟩
    show ((textOf (convertStrValue Res.new (some s))).map Value.str).filter _ = _
    rw [htext]
    rfl

/-- A collection comes back as a value of its own type, which is no scalar. -/
theorem back_irods (htype : p.type = some typ)
    (hother : ∀ t ∈ [DOUBLE_MS_T, INT_MS_T, STR_MS_T, DATETIME_MS_T], typ ≠ t) :
    ∃ res, convertMsParamToRes p Res.new = .ok res ∧ (valueOf res).filter Value.isScalar = none := by
  rw [convertMsParamToRes, htype]
  simp only [if_neg (hother DOUBLE_MS_T (by simp)), if_neg (hother INT_MS_T (by simp)),
    if_neg (hother STR_MS_T (by simp)), if_neg (hother DATETIME_MS_T (by simp))]
  exact ⟨_, rfl, rfl⟩

theorem mem_runOn {m : Nat} (h : ∀ s ∈ l, '\x00' ∉ s) : ∀ s ∈ runOn m l, '\x00' ∉ s := by
  induction l with
  | nil => exact fun s hs => nomatch hs
  | cons t l ih =>
    have hrest := ih fun s hs => h s (List.mem_cons_of_mem _ hs)
    intro s hs
    obtain rfl | hs := List.mem_cons.mp hs
    · have ht := h t List.mem_cons_self
      split
      · intro hmem
        obtain hmem | hmem := List.mem_append.mp hmem
        · exact ht hmem
        · cases hl : runOn m l with
          | nil =>
            rw [hl] at hmem
            cases hmem
          | cons r k =>
            rw [hl] at hmem
            exact hrest r (hl ▸ List.mem_cons_self) hmem
      · exact ht
    · exact hrest s hs

theorem valueOf_newStringRes (h : '\x00' ∉ s) : valueOf (newStringRes s) = some (.str s) := by
  have htext : textOf (newStringRes s) = some s := Option.filter_eq_some_iff.mpr ⟨rfl, decide_eq_true h⟩
  show (textOf (newStringRes s)).map Value.str = _
  rw [htext]
  rfl

theorem valueOf_newIntRes (h : Double.inInt n = true) : valueOf (newIntRes n) = some (.int n) := by
  show (intOf (newIntRes n)).map Value.int = _
  rw [intOf_ofInt rfl h]
  rfl

theorem strings_end {es : List Res} (h : Hold es l) : ∀ s ∈ l, '\x00' ∉ s := by
  induction h with
  | nil => exact fun s hs => nomatch hs
  | cons he _ ih =>
    intro s hs
    obtain rfl | hs := List.mem_cons.mp hs
    · exact (stringElem_eq he).2.1
    · exact ih s hs

/-- A list of strings that stays in its array shows what its strings run on into. -/
theorem elements_strArray {ls : List Text} {value : List (Option Char)} (hlen : ls.length = l.length)
    (hends : ∀ s ∈ ls, '\x00' ∉ s) (hshows : ∀ (j : Nat) (s : Text), ls[j]? = some s →
      readStrAt value (int32 ((j : Int) * (longest l : Int))) = .ok s) :
    Elements resultRow StrArray_MS_T (.strArray l.length (longest l) value) (ls.map .str) := by
  intro inx
  rw [getValueFromCollection, if_pos rfl]
  by_cases hinx : inx < ls.length
  · have hget : ls[inx]? = some ls[inx] := List.getElem?_eq_getElem hinx
    refine ⟨some (newStringRes ls[inx]), ?_, ?_⟩
    · rw [if_neg (by omega), hshows inx _ hget]
      rfl
    · rw [List.getElem?_map, hget]
      exact congrArg _ (valueOf_newStringRes (hends _ (List.getElem_mem hinx)))
  · refine ⟨none, by rw [if_pos (by omega)]; rfl, ?_⟩
    rw [List.getElem?_eq_none (by rw [List.length_map]; omega)]
    rfl

/-- A list of integers shows the number of its own node at each place. -/
theorem elements_intArray {ns : List Int} (hns : ∀ n ∈ ns, Double.inInt n = true) :
    Elements resultRow IntArray_MS_T (.intArray ns.length ns) (ns.map .int) := by
  intro inx
  rw [getValueFromCollection, if_neg (by decide), if_pos rfl]
  by_cases hinx : inx < ns.length
  · have hget : ns[inx]? = some ns[inx] := List.getElem?_eq_getElem hinx
    refine ⟨some (newIntRes ns[inx]), ?_, ?_⟩
    · rw [if_neg (by omega), if_pos (Int.natCast_nonneg _), Int.toNat_natCast, hget]
      rfl
    · rw [List.getElem?_map, hget]
      exact congrArg _ (valueOf_newIntRes (hns _ (List.getElem_mem hinx)))
  · refine ⟨none, by rw [if_pos (by omega)]; rfl, ?_⟩
    rw [List.getElem?_eq_none (by rw [List.length_map]; omega)]
    rfl

theorem convert_strings (htype : res.exprType = some (.cons LIST [.string])) :
    convertResToMsParam {} res =
      strArrayOf res >>= fun st => .ok ({ inOutStruct := st, type := some StrArray_MS_T } : MsParam) := by
  rw [convertResToMsParam, htype]
  rfl

/-- A value that stays in its arrays becomes a parameter that conveys what it shows. -/
theorem converted (h : valueOf res = some v) (hroom : Room res) :
    ∃ q w, convertResToMsParam {} res = .ok q ∧ shown res = some w ∧
      ∀ label, Conveys resultRow { q with label := label } w := by
  rw [shown, h]
  cases valueOf_worth h with
  | @int n htype hn =>
    obtain ⟨hdval, hin⟩ := intOf_eq hn
    refine ⟨{ inOutStruct := .int res.intVal, type := some INT_MS_T }, _, ?_, rfl, fun label =>
      conveys_int resultRow rfl ?_ hin⟩
    · rw [convertResToMsParam, htype]
      rfl
    · show Struct.int res.dval.toInt = _
      rw [hdval, Double.toInt_ofInt hin]
  | double htype =>
    refine ⟨{ inOutStruct := .double res.dval, type := some DOUBLE_MS_T }, _, ?_, rfl, fun label =>
      conveys_double resultRow rfl rfl⟩
    rw [convertResToMsParam, htype]
    rfl
  | @str s htype hs =>
    obtain ⟨htext, hend⟩ := textOf_eq hs
    refine ⟨{ inOutStruct := .str s, type := some STR_MS_T }, _, ?_, rfl,
      fun label => conveys_str resultRow rfl rfl hend⟩
    rw [convertResToMsParam, htype, htext]
    rfl
  | @strs l htype hl =>
    have hhold := elems_forall₂ hl
    obtain ⟨value, hrun, hshows⟩ := strArrayOf_shows hhold (hroom l h)
    refine ⟨{ inOutStruct := .strArray l.length (longest l) value, type := some StrArray_MS_T }, _, ?_, rfl,
      fun label => ⟨⟨rfl, ?_⟩, ?_⟩⟩
    · rw [convert_strings htype, hrun, ok_bind]
    · exact elements_strArray resultRow (length_runOn _ _) (mem_runOn (strings_end hhold)) hshows
    · exact back_irods rfl (by decide)
  | @ints l htype hl =>
    have hlen := (elems_forall₂ hl).length_eq
    refine ⟨{ inOutStruct := intArrayOf res, type := some IntArray_MS_T }, _, ?_, rfl, fun label => ⟨⟨rfl, ?_⟩, ?_⟩⟩
    · rw [convertResToMsParam, htype]
      rfl
    · have hns : (res.subtrees.map fun _ => res.intVal) = l.map fun _ => res.intVal := by
        rw [List.map_const', List.map_const', hlen]
      show Elements resultRow IntArray_MS_T (.intArray res.subtrees.length _) _
      rw [hns, hlen, ← @List.length_map _ _ l fun _ => res.intVal]
      exact elements_intArray resultRow fun n hn => by
        obtain ⟨_, _, rfl⟩ := List.mem_map.mp hn
        exact Double.inInt_toInt _
    · exact back_irods rfl (by decide)

/-- A value whose conversion returns stays in its arrays. -/
theorem room_of_converted {q : MsParam} (hrun : convertResToMsParam {} res = .ok q) : Room res := by
  intro l h
  cases valueOf_worth h with
  | strs htype hl =>
    rw [convert_strings htype] at hrun
    cases harr : strArrayOf res with
    | error f =>
      rw [harr] at hrun
      cases hrun
    | ok st => exact strArrayOf_fits (elems_forall₂ hl) harr

end Passing

end Re.Conversion
