-- SUMMARY: Variables to microservice parameters and back.
import Irods.Api.RodsDef
import Irods.Re.Variables

/-!
# Conversions

A microservice gets the variables as an array of parameters, and what it leaves there goes
back into the chain. An access outside of what was allocated, or through a pointer to
something else, ends the conversion in the model.
-/

namespace Re.Conversion

open Variables

def DOUBLE_MS_T : Text := "DOUBLE_PI".toList
def INT_MS_T : Text := "INT_PI".toList
def STR_MS_T : Text := "STR_PI".toList
def DATETIME_MS_T : Text := "DATETIME_MS_T".toList
def StrArray_MS_T : Text := "StrArray_PI".toList
def IntArray_MS_T : Text := "IntArray_PI".toList
def GenQueryOut_MS_T : Text := "GenQueryOut_PI".toList

def RE_PACKING_ERROR : Int := -1234000

/-- Why a conversion does not end as it should. -/
inductive Failure where
  | error (code : Int) (msg : String)
  | badAccess

/-! ## Memory -/

/-- `strcpy` to a place in a block. -/
def strcpy (dest : List (Option Char)) (offset : Int) (src : Text) : Except Failure (List (Option Char)) :=
  if 0 ≤ offset ∧ offset.toNat + src.length < dest.length then
    .ok (dest.take offset.toNat ++ (src ++ ['\x00']).map some ++ dest.drop (offset.toNat + src.length + 1))
  else .error .badAccess

/-- The C string at the start of a block. Bytes that were never written have no value. -/
def readStr : List (Option Char) → Except Failure Text
  | some c :: mem => if c = '\x00' then .ok [] else (readStr mem).map (c :: ·)
  | _ => .error .badAccess

def readStrAt (mem : List (Option Char)) (offset : Int) : Except Failure Text :=
  if 0 ≤ offset then readStr (mem.drop offset.toNat) else .error .badAccess

/-- What a pointer that must not be `NULL` points to. -/
def deref {α : Type} : Option α → Except Failure α
  | some a => .ok a
  | none => .error .badAccess

def Struct.toInt? : Struct → Option Int
  | .int n => some n
  | .long n => some (int32 n)
  | _ => none

def Struct.toLong? : Struct → Option Int
  | .long n => some n
  | _ => none

def Struct.toDouble? : Struct → Option Double
  | .double d => some d
  | _ => none

/-! ## From a value to a parameter -/

/-- The room for an element: the length of the longest string. -/
def maxStrLen (elems : List Res) : Int :=
  elems.foldl (fun maxlen e => if maxlen < e.ival then e.ival else maxlen) 0

/-- The strings go into the array one after the other, from the one of number `i` on. -/
def copyStrings (maxlen : Int) (value : List (Option Char)) (i : Int) : List Res → Except Failure (List (Option Char))
  | [] => .ok value
  | e :: es => do
    let text ← deref e.text
    let value ← strcpy value (int32 (maxlen * i)) text
    copyStrings maxlen value (i + 1) es

def strArrayOf (res : Res) : Except Failure Struct := do
  let maxlen := maxStrLen res.subtrees
  let value ← copyStrings maxlen (List.replicate (maxlen * res.degree).toNat none) 0 res.subtrees
  return .strArray res.degree maxlen value

/-- Every element is read from the list itself. -/
def intArrayOf (res : Res) : Struct := .intArray res.degree (res.subtrees.map fun _ => res.intVal)

def noPacking (what : String) : Failure := .error RE_PACKING_ERROR ("no packing instruction for arbitrary " ++ what)

def convertResToMsParam (var : MsParam) (res : Res) : Except Failure MsParam := do
  let var : MsParam := { var with inpOutBuf := none, label := none }
  match ← deref res.exprType with
  | .error => return { var with inOutStruct := .int res.ival, type := some INT_MS_T }
  | .double => return { var with inOutStruct := .double res.dval, type := some DOUBLE_MS_T }
  | .int => return { var with inOutStruct := .int res.intVal, type := some INT_MS_T }
  | .string =>
    return { var with inOutStruct := match res.text with | some s => .str s | none => .null, type := some STR_MS_T }
  -- a `rodsLong_t` is written into the room of an `int`
  | .datetime => .error .badAccess
  | .cons name args =>
    if name = LIST then
      match ← deref args.head? with
      | .string => return { var with inOutStruct := ← strArrayOf res, type := some StrArray_MS_T }
      | .int => return { var with inOutStruct := intArrayOf res, type := some IntArray_MS_T }
      | _ => .error (noPacking "collection type")
    else .error (noPacking "constructed type")
  | .irods text =>
    let param ← deref res.param
    return { var with inOutStruct := param.inOutStruct, inpOutBuf := param.inpOutBuf, type := some text }
  | .unspeced => return { var with inOutStruct := .null, type := none }
  | .bool => .error (noPacking "type")
  | .other _ => .error (noPacking "type")

/-- What the parameter owned is freed, and the parameter is filled again. -/
def updateResToMsParam (var : MsParam) (res : Res) : Except Failure MsParam := convertResToMsParam var res

/-! ## From a parameter to a value -/

def convertStrValue (res : Res) (val : Option Text) : Res :=
  match val with
  | none => { res with text := none, exprType := some .string }
  | some s => { res with text := some s, ival := s.length, exprType := some .string }

def convertIntValue (res : Res) (inval : Int) : Res := { res with dval := .ofInt inval, exprType := some .int }

def convertDoubleValue (res : Res) (inval : Double) : Res := { res with dval := inval, exprType := some .double }

def convertMsParamToRes (mP : MsParam) (res : Res) : Except Failure Res :=
  match mP.type with
  | none => return { res with exprType := some .unspeced }
  | some type =>
    if type = DOUBLE_MS_T then return convertDoubleValue res (← deref (Struct.toDouble? mP.inOutStruct))
    else if type = INT_MS_T then
      match res.exprType with
      | none => return { res with dval := .ofInt (← deref (Struct.toInt? mP.inOutStruct)), exprType := some .int }
      | some .int => return { res with dval := .ofInt (← deref (Struct.toInt? mP.inOutStruct)) }
      | some .bool => return { res with dval := .ofInt (← deref (Struct.toInt? mP.inOutStruct)) }
      | some .datetime => return { res with lval := ← deref (Struct.toLong? mP.inOutStruct) }
      | some _ => return convertIntValue res (← deref (Struct.toInt? mP.inOutStruct))
    else if type = STR_MS_T then
      match mP.inOutStruct with
      | .str s => return convertStrValue res (some s)
      | .null => return convertStrValue res none
      | _ => .error .badAccess
    else if type = DATETIME_MS_T then do
      -- the type is set in the node that the type pointer leads to
      let lval ← deref (Struct.toLong? mP.inOutStruct)
      let _ ← deref res.exprType
      return { res with lval := lval, exprType := some .datetime }
    else
      let param : MsParam := match res.param with
        | none => { type := some type, inOutStruct := mP.inOutStruct, inpOutBuf := mP.inpOutBuf }
        | some param => { param with type := some type, inOutStruct := mP.inOutStruct, inpOutBuf := mP.inpOutBuf }
      return { res with param := some param, exprType := some (.irods type) }

/-- The element of a collection, if there is one. `resultRow` stands for a row of a query's result. -/
def getValueFromCollection (resultRow : Struct → Int → Option Res) (typ : Text) (inPtr : Struct) (inx : Int) :
    Except Failure (Option Res) :=
  if typ = StrArray_MS_T then
    match inPtr with
    | .strArray len size value =>
      if inx ≥ len then return none
      else return some (newStringRes (← readStrAt value (int32 (inx * size))))
    | _ => .error .badAccess
  else if typ = IntArray_MS_T then
    match inPtr with
    | .intArray len value =>
      if inx ≥ len then return none
      else return some (newIntRes (← deref (if 0 ≤ inx then value[inx.toNat]? else none)))
    | _ => .error .badAccess
  else if typ = GenQueryOut_MS_T then return resultRow inPtr inx
  else return none

/-! ## A chain of tables -/

/-- `msParamArray_t` with the number of pointers that its block has room for, if it has one. -/
structure MsParamArray where
  msParam : List MsParam
  allocated : Option Nat

def newMsParamArray : MsParamArray := ⟨[], none⟩

/-- A new parameter at the end. The block grows when the number of parameters is a multiple of ten. -/
def MsParamArray.push (var : MsParamArray) (v : MsParam) : Except Failure MsParamArray :=
  let var : MsParamArray := match var.allocated with
    | none => ⟨[], some PTR_ARRAY_MALLOC_LEN⟩
    | some n => if var.msParam.length % PTR_ARRAY_MALLOC_LEN = 0
        then { var with allocated := some (PTR_ARRAY_MALLOC_LEN + var.msParam.length) }
        else { var with allocated := some n }
  if var.msParam.length < var.allocated.getD 0 then .ok { var with msParam := var.msParam ++ [v] }
  else .error .badAccess

/-- One variable: the parameter with its name is converted again, or there is a new one. -/
def convertVariable (var : MsParamArray) (key : Text) (res : Res) : Except Failure MsParamArray :=
  match var.msParam.findIdx? fun p => decide (p.label = some key) with
  | some varindex => do
    let v ← updateResToMsParam (var.msParam.getD varindex {}) res
    return { var with msParam := var.msParam.set varindex { v with label := some key } }
  | none => do
    let v ← convertResToMsParam {} res
    var.push { v with label := some key }

/-- A bucket is left at the first type variable. -/
def convertBucket (var : MsParamArray) : List (Text × Res) → Except Failure MsParamArray
  | [] => .ok var
  | b :: l =>
    if isTVarName b.1 then .ok var
    else do
      let var ← convertVariable var b.1 b.2
      convertBucket var l

def convertHashtableToMsParamArray (var : MsParamArray) (env : Hashtable) : Except Failure MsParamArray :=
  env.buckets.foldlM convertBucket var

/-- The tables further out come first. -/
def convertEnvToMsParamArray (var : MsParamArray) : Env → Except Failure MsParamArray
  | [] => .ok var
  | current :: previous => do
    let var ← convertEnvToMsParamArray var previous
    convertHashtableToMsParamArray var current

def updateFromParam (env : Env) (p : MsParam) : Except Failure Env := do
  let res ← convertMsParamToRes p Res.new
  match p.label with
  | some varName => return updateInEnv env varName res
  | none => return env

def updateMsParamArrayToEnv (var : MsParamArray) (env : Env) : Except Failure Env :=
  var.msParam.foldlM updateFromParam env

end Re.Conversion
