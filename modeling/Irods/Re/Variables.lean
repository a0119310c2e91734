-- SUMMARY: The values of the rule language and the tables that hold them.
import Irods.Base.Bindings
import Irods.Base.CInt
import Irods.Base.CString

/-!
# Variables

A value is one node, whose type says which of its fields counts. A table keeps its
bindings in buckets, and the tables of nested scopes are chained from the innermost
outwards.
-/

namespace Re.Variables

/-! ## Values -/

/-- A C `double`. Every finite one is a rational number. -/
inductive Double where
  | finite (q : Rat)
  | infinite (negative : Bool)
  | nan
deriving DecidableEq

namespace Double

def zero : Double := .finite 0

/-- The conversion of an `int`. -/
def ofInt (n : Int) : Double := .finite n

/-- Is the number within an `int`? -/
def inInt (n : Int) : Bool := decide (-(intBound : Int) ≤ n ∧ n < intBound)

/-- `(int)d`: the fraction is dropped. What is too large for an `int` gives its least value. -/
def toInt : Double → Int
  | .finite q =>
    let n := q.num.tdiv q.den
    if inInt n then n else -(intBound : Int)
  | _ => -(intBound : Int)

theorem toInt_ofInt {n : Int} (h : inInt n = true) : (ofInt n).toInt = n := by
  show (if inInt ((n : Rat).num.tdiv (n : Rat).den) then (n : Rat).num.tdiv (n : Rat).den else _) = n
  rw [Rat.num_intCast, Rat.den_intCast, show ((1 : Nat) : Int) = 1 from rfl, Int.tdiv_one, if_pos h]

theorem inInt_toInt (d : Double) : inInt d.toInt = true := by
  have hleast : inInt (-(intBound : Int)) = true := by decide
  cases d with
  | finite q =>
    show inInt (if _ then _ else _) = true
    split
    · assumption
    · exact hleast
  | infinite negative => exact hleast
  | nan => exact hleast

end Double

/-- The types of values: the node types that the conversions tell apart. -/
inductive ExprType where
  | error
  | unspeced
  | double
  | int
  | string
  | datetime
  | bool
  | cons (name : Text) (args : List ExprType)
  | irods (text : Text)
  | other (nodeType : Int)

def LIST : Text := "[]".toList

/-- What `inOutStruct` points to. -/
inductive Struct where
  | null
  | int (n : Int)
  | long (n : Int)
  | double (d : Double)
  | str (s : Text)
  | strArray (len size : Int) (value : List (Option Char))
  | intArray (len : Int) (value : List Int)
  | other (address : Nat)

/-- A parameter of a microservice, `msParam_t`. -/
structure MsParam where
  label : Option Text := none
  type : Option Text := none
  inOutStruct : Struct := .null
  inpOutBuf : Option Nat := none

/-- A value of the rule language, `Res`. -/
structure Res where
  exprType : Option ExprType := none
  ival : Int := 0
  dval : Double := .zero
  lval : Int := 0
  text : Option Text := none
  param : Option MsParam := none
  subtrees : List Res := []

namespace Res

/-- `newRes`: all fields are zero. -/
def new : Res := {}

def degree (res : Res) : Int := res.subtrees.length

/-- `RES_INT_VAL`. -/
def intVal (res : Res) : Int := res.dval.toInt

end Res

def newIntRes (n : Int) : Res := { Res.new with exprType := some .int, dval := .ofInt n }

def newDoubleRes (a : Double) : Res := { Res.new with exprType := some .double, dval := a }

def newStringRes (s : Text) : Res := { Res.new with exprType := some .string, ival := s.length, text := some s }

/-- `newCollRes` with its elements filled in. -/
def newCollRes (elemType : ExprType) (elems : List Res) : Res :=
  { Res.new with exprType := some (.cons LIST [elemType]), subtrees := elems }

/-! ## Hash tables -/

def HASH_BASE : Nat := 5381

/-- `B_hash`, in an `unsigned long`. -/
def myhash (key : Text) : Nat :=
  key.foldl (fun hash c => ((hash * 32 + hash) + c.toNat) % 2 ^ 64) HASH_BASE

/-- A table with the pairs of each bucket in the order in which its list goes on. -/
structure Hashtable where
  buckets : List (List (Text × Res))
  len : Nat
  dynamic : Bool

namespace Hashtable

def size (h : Hashtable) : Nat := h.buckets.length

def index (h : Hashtable) (key : Text) : Nat := myhash key % h.size

/-- All pairs, bucket after bucket. -/
def entries (h : Hashtable) : List (Text × Res) := h.buckets.flatten

/-- Every key lies in the bucket of its hash. -/
def Hashed (h : Hashtable) : Prop :=
  ∀ i bucket, h.buckets[i]? = some bucket → ∀ b ∈ bucket, h.index b.1 = i

end Hashtable

/-- `newHashTable2`. -/
def newHashTable2 (size : Nat) : Hashtable := ⟨List.replicate size [], 0, true⟩

def lookupFromHashTable (h : Hashtable) (key : Text) : Option Res :=
  (h.buckets.getD (h.index key) []).lookup key

def updateInHashTable (h : Hashtable) (key : Text) (value : Res) : Hashtable :=
  { h with buckets := h.buckets.modify (h.index key) (Bindings.assign key value) }

/-- The pair goes to the end of its bucket. -/
def appendToBucket (h : Hashtable) (b : Text × Res) : Hashtable :=
  { h with buckets := h.buckets.modify (h.index b.1) (· ++ [b]), len := h.len + 1 }

/-- A table that is full is first copied into one of twice the size, which has room for all. -/
def insertIntoHashTable (h : Hashtable) (key : Text) (value : Res) : Hashtable :=
  let h := if h.dynamic && decide (h.size ≤ h.len)
    then h.entries.foldl appendToBucket (newHashTable2 (h.size * 2)) else h
  appendToBucket h (key, value)

/-! ## The chain -/

/-- An environment: its own table and the tables of its `previous` ones, outwards. -/
abbrev Env := List Hashtable

def lookupFromEnv : Env → Text → Option Res
  | [], _ => none
  | current :: previous, key =>
    match lookupFromHashTable current key with
    | some val => some val
    | none => lookupFromEnv previous key

/-- The table that defines the variable is updated. -/
def updateDefined (varName : Text) (res : Res) : Env → Option Env
  | [] => none
  | current :: previous =>
    match lookupFromHashTable current varName with
    | some _ => some (updateInHashTable current varName res :: previous)
    | none => (updateDefined varName res previous).map (current :: ·)

/-- A variable that no table defines becomes one of the innermost table. -/
def updateInEnv (env : Env) (varName : Text) (res : Res) : Env :=
  match updateDefined varName res env with
  | some env' => env'
  | none => env.modifyHead (insertIntoHashTable · varName res)

/-- `IS_TVAR_NAME`. -/
def isTVarName (key : Text) : Bool := key.head? = some '?'

/-! ## What a table holds -/

namespace Hashtable

theorem lookup_entries {h : Hashtable} (hhashed : h.Hashed) (key : Text) :
    h.entries.lookup key = lookupFromHashTable h key := by
  have hsplit : ∀ (l : List (List (Text × Res))) (base : Nat),
      (∀ i bucket, l[i]? = some bucket → ∀ b ∈ bucket, h.index b.1 = base + i) →
      l.flatten.lookup key = if base ≤ h.index key then (l.getD (h.index key - base) []).lookup key else none := by
    intro l
    induction l with
    | nil =>
      intro base _
      rw [List.flatten_nil, List.getD_nil, List.lookup_nil, ite_self]
    | cons bucket l ih =>
      intro base hl
      have hrest := ih (base + 1) fun i bucket' hi b hb =>
        (hl (i + 1) bucket' hi b hb).trans (Nat.add_right_comm base i 1)
      rw [List.flatten_cons, List.lookup_append, hrest]
      by_cases hhere : h.index key = base
      · rw [if_neg (by omega), if_pos hhere.ge, hhere, Nat.sub_self, List.getD_cons_zero, Option.or_none]
      · have hnone : bucket.lookup key = none := by
          rw [List.lookup_eq_none_iff]
          intro b hb
          have hb' := hl 0 bucket rfl b hb
          exact bne_iff_ne.mpr fun heq => hhere (by rw [heq, hb', Nat.add_zero])
        rw [hnone, Option.none_or]
        by_cases hle : base + 1 ≤ h.index key
        · obtain ⟨k, hk⟩ : ∃ k, h.index key - base = k + 1 := ⟨h.index key - base - 1, by omega⟩
          rw [if_pos hle, if_pos (by omega), hk, List.getD_cons_succ]
          congr 2
          omega
        · rw [if_neg hle, if_neg (by omega)]
  have := hsplit h.buckets 0 fun i bucket hi b hb => (hhashed i bucket hi b hb).trans (Nat.zero_add i).symm
  rw [entries, this, if_pos (Nat.zero_le _), Nat.sub_zero]
  rfl

theorem index_update (h : Hashtable) (key : Text) (value : Res) (other : Text) :
    (updateInHashTable h key value).index other = h.index other := by
  show _ % (h.buckets.modify _ _).length = _
  rw [List.length_modify]
  rfl

/-- An update changes what its key has, if it has something. -/
theorem lookup_update (h : Hashtable) (key other : Text) (value : Res) :
    lookupFromHashTable (updateInHashTable h key value) other =
      if other = key ∧ (lookupFromHashTable h key).isSome then some value else lookupFromHashTable h other := by
  rw [lookupFromHashTable, index_update]
  show ((h.buckets.modify _ _).getD _ _).lookup other = _
  rw [List.getD_eq_getElem?_getD, List.getElem?_modify]
  have hread (k : Text) : lookupFromHashTable h k = (h.buckets[h.index k]?.getD []).lookup k := by
    rw [lookupFromHashTable, List.getD_eq_getElem?_getD]
  rw [hread other, hread key]
  by_cases hsame : h.index key = h.index other
  · rw [hsame]
    cases h.buckets[h.index other]? with
    | none => exact (if_neg fun hand => Bool.noConfusion hand.2).symm
    | some bucket =>
      show (if _ then _ else _ : List (Text × Res)).lookup other = _
      rw [if_pos rfl]
      exact Bindings.lookup_assign key other value bucket
  · rw [if_neg fun hand => hsame (by rw [hand.1])]
    cases h.buckets[h.index other]? with
    | none => rfl
    | some bucket =>
      show (if _ then _ else _ : List (Text × Res)).lookup other = _
      rw [if_neg hsame]
      rfl

/-! ## Keys stay where their hash says -/

theorem hashed_new (size : Nat) : (newHashTable2 size).Hashed := by
  intro i bucket hi b hb
  obtain rfl : bucket = [] := List.eq_of_mem_replicate (List.mem_of_getElem? hi)
  cases hb

variable {h : Hashtable}

/-- A change of one bucket that adds keys of this bucket only. -/
theorem hashed_modify (h' : Hashtable) {at' : Nat} {f : List (Text × Res) → List (Text × Res)}
    (hbuckets : h'.buckets = h.buckets.modify at' f)
    (hkeys : ∀ bucket, ∀ b ∈ f bucket, (∃ b' ∈ bucket, b'.1 = b.1) ∨ h.index b.1 = at') (hhashed : h.Hashed) :
    h'.Hashed := by
  have hindex (key : Text) : h'.index key = h.index key := by
    rw [index, size, hbuckets, List.length_modify]
    rfl
  intro i bucket hi b hb
  rw [hindex]
  rw [hbuckets, List.getElem?_modify] at hi
  cases hold : h.buckets[i]? with
  | none =>
    rw [hold] at hi
    cases hi
  | some old =>
    rw [hold] at hi
    replace hi : (if at' = i then f old else old) = bucket := Option.some.inj hi
    by_cases hat : at' = i
    · rw [if_pos hat] at hi
      subst hi
      obtain ⟨b', hb', heq⟩ | hnew := hkeys old b hb
      · rw [← heq]
        exact hhashed i old hold b' hb'
      · exact hnew.trans hat
    · rw [if_neg hat] at hi
      subst hi
      exact hhashed i old hold b hb

theorem hashed_append (hhashed : h.Hashed) (b : Text × Res) : (appendToBucket h b).Hashed := by
  refine hashed_modify (appendToBucket h b) rfl (fun bucket b' hb' => ?_) hhashed
  obtain hb' | hb' := List.mem_append.mp hb'
  · exact .inl ⟨b', hb', rfl⟩
  · obtain rfl := List.mem_singleton.mp hb'
    exact .inr rfl

theorem hashed_insert (hhashed : h.Hashed) (key : Text) (value : Res) : (insertIntoHashTable h key value).Hashed := by
  have hgrown : ∀ (l : List (Text × Res)) (t : Hashtable), t.Hashed → (l.foldl appendToBucket t).Hashed := by
    intro l
    induction l with
    | nil => exact fun t ht => ht
    | cons b l ih => exact fun t ht => ih _ (hashed_append ht b)
  rw [insertIntoHashTable]
  split
  · exact hashed_append (hgrown _ _ (hashed_new _)) _
  · exact hashed_append hhashed _

end Hashtable

end Re.Variables
