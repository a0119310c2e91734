-- SUMMARY: Pack instructions: parsing, dimensions and types.
import Irods.Api.RodsDef
import Irods.Base.CNumber

/-!
# Pack instructions

A pack instruction is a text with one entry for each field of a C struct. An entry names a
type and a field, says whether the field is a pointer, and gives the dimensions of the field
and, in parentheses, of what a pointer points to. A dimension can be the name of an `int`
field that came earlier, in the struct or in one around it.
-/

namespace Pack

open CString

def maxPiLen : Nat := 1024

def maxPackDim : Nat := 20

def SYS_PACK_INSTRUCT_FORMAT_ERR : Int := -15000

def SYS_UNMATCH_PACK_INSTRUCTI_NAME : Int := -44000

def USER_PACKSTRUCT_INPUT_ERR : Int := -308000

/-- Why a call ends: with a negative status, with an access outside of an object or a value
that was never set, or because the nesting is deeper than was allowed for. -/
inductive Stop where
  | status (status : Int)
  | undefined
  | depth
  deriving DecidableEq

/-! ## Items -/

inductive PackTypeInx where
  | char
  | bin
  | str
  | piStr
  | int
  | double
  | struct
  | dependent
  | intDependent
  | int16
  deriving DecidableEq

def packTypeTable : List (Text × PackTypeInx) :=
  [("char".toList, .char), ("bin".toList, .bin), ("str".toList, .str), ("piStr".toList, .piStr),
    ("int".toList, .int), ("double".toList, .double), ("struct".toList, .struct),
    ("?".toList, .dependent), ("%".toList, .intDependent), ("int16".toList, .int16)]

def packTypeLookup (typeName : Text) : Option PackTypeInx :=
  (packTypeTable.find? fun entry => entry.1 = typeName).map Prod.snd

/-- The size of an element. It is not read for structs and dependent types. -/
def PackTypeInx.size : PackTypeInx → Nat
  | .int => 4
  | .double => 8
  | .int16 => 2
  | _ => 1

inductive PointerType where
  | nonPointer
  | aPointer
  | noFreePointer
  | noPackPointer
  deriving DecidableEq

structure PackItem where
  typeInx : PackTypeInx := .char
  name : Text := []
  pointerType : PointerType := .nonPointer
  intValue : Int := 0
  strValue : Text := []
  dimSize : List Nat := []
  hintDimSize : List Nat := []
  deriving DecidableEq

/-- The instructions and the constants by name, each table in the order it is searched. -/
structure Tables where
  packInstructs : List (Text × Text)
  packConstants : List (Text × Int)

def matchPackInstruct (tables : Tables) (name : Text) : Option Text :=
  (tables.packInstructs.find? fun entry => entry.1 = name).map Prod.snd

/-! ## Parsing -/

/-- The next string, added to what is in `outBuf`, and what is left; up to a semicolon when
the flag is set. -/
def copyStrFromPiBuf (dependentFlag : Bool) (outBuf : Text) : Text → Text × Text
  | [] => (outBuf, [])
  | c :: rest =>
    if dependentFlag then
      if c = ';' then (outBuf, c :: rest)
      else if outBuf ≠ [] ∨ ¬ isspace c then copyStrFromPiBuf dependentFlag (outBuf ++ [c]) rest
      else copyStrFromPiBuf dependentFlag outBuf rest
    else if isspace c then
      if outBuf ≠ [] then (outBuf, rest) else copyStrFromPiBuf dependentFlag outBuf rest
    else if c = '*' ∨ c = ';' ∨ c = '?' ∨ c = '$' then
      if outBuf ≠ [] then (outBuf, c :: rest) else ([c], rest)
    else copyStrFromPiBuf dependentFlag (outBuf ++ [c]) rest

/-- What `parsePackInstruct` keeps from string to string; the queued items have the last first. -/
structure Parse where
  myPackItem : Option PackItem := none
  gotTypeCast : Bool := false
  gotItemName : Bool := false
  queued : List PackItem := []

def Parse.pointer (p : Parse) (item : PackItem) (pointerType : PointerType) : Except Stop Parse :=
  if ¬ p.gotTypeCast ∨ p.gotItemName then .error (.status SYS_PACK_INSTRUCT_FORMAT_ERR)
  else .ok { p with myPackItem := some { item with pointerType := pointerType } }

/-- One string of the instruction, with what follows it. -/
def Parse.step (p : Parse) (buf inptr : Text) : Except Stop (Parse × Text) :=
  let item := p.myPackItem.getD {}
  let formatErr := .error (.status SYS_PACK_INSTRUCT_FORMAT_ERR)
  if buf = [';'] then
    if ¬ p.gotTypeCast ∧ ¬ p.gotItemName then .ok ({ p with myPackItem := some item }, inptr)
    else if p.gotTypeCast ∧ ¬ p.gotItemName then formatErr
    else .ok (⟨none, false, false, item :: p.queued⟩, inptr)
  else if buf = ['%'] then
    if p.gotTypeCast ∨ p.gotItemName then formatErr
    else
      let (name, inptr) := copyStrFromPiBuf true [] inptr
      if name = [] then formatErr
      else if name.length ≥ maxPiLen then .error .undefined
      else .ok (⟨some { item with typeInx := .intDependent, name := name }, true, true, p.queued⟩, inptr)
  else if buf = ['?'] then
    if p.gotTypeCast ∨ p.gotItemName then formatErr
    else
      let (name, inptr) := copyStrFromPiBuf false [] inptr
      if name = [] then formatErr
      else if name.length ≥ maxPiLen then .error .undefined
      else
        let strValue := if name.length ≥ NAME_LEN then item.strValue else name
        .ok (⟨some { item with typeInx := .dependent, strValue := strValue }, true, p.gotItemName,
          p.queued⟩, inptr)
  else if buf = ['*'] then (p.pointer item .aPointer).map (·, inptr)
  else if buf = ['#'] then (p.pointer item .noPackPointer).map (·, inptr)
  else if buf = ['$'] then (p.pointer item .noFreePointer).map (·, inptr)
  else if ¬ p.gotTypeCast then
    match packTypeLookup buf with
    | none => formatErr
    | some typeInx =>
      .ok (⟨some { item with typeInx := typeInx }, true, p.gotItemName, p.queued⟩, inptr)
  else if ¬ p.gotItemName then
    .ok (⟨some { item with name := buf }, true, true, p.queued⟩, inptr)
  else formatErr

def parseItems : Nat → Parse → Text → Except Stop (List PackItem)
  | 0, _, _ => .error .depth
  | n + 1, p, inptr =>
    let (buf, inptr) := copyStrFromPiBuf false [] inptr
    if buf = [] then
      match p.myPackItem with
      | some _ => .error (.status SYS_PACK_INSTRUCT_FORMAT_ERR)
      | none => .ok p.queued.reverse
    else if buf.length ≥ maxPiLen then .error .undefined
    else
      match p.step buf inptr with
      | .error stop => .error stop
      | .ok (p', inptr') => parseItems n p' inptr'

/-- Every string takes at least one character of the instruction. -/
def parsePackInstruct (packInstruct : Text) : Except Stop (List PackItem) :=
  parseItems (packInstruct.length + 1) {} packInstruct

/-! ## Dimensions and types of earlier items -/

/-- The items in front of an item in its struct, and those reached from the first item of
the struct over its parent, both with the nearest first. -/
structure Links where
  prev : List PackItem := []
  above : List PackItem := []

namespace Links

/-- The items that are searched. The search begins at the item in front, so that the first
item of a struct does not see its parent. -/
def chain (links : Links) : List PackItem := if links.prev = [] then [] else links.prev ++ links.above

def next (links : Links) (item : PackItem) : Links := { links with prev := item :: links.prev }

/-- The links of the first item of the struct `item`. -/
def child (links : Links) (item : PackItem) : Links := ⟨[], item :: (links.prev ++ links.above)⟩

end Links

def resolveIntInItem (tables : Tables) (links : Links) (name : Text) : Int :=
  if name.all Char.isDigit then atoi name
  else
    match links.chain.find? (fun item => item.name = name ∧ item.typeInx = .int) with
    | some item => item.intValue
    | none =>
      match tables.packConstants.find? (fun entry => entry.1 = name) with
      | some entry => entry.2
      | none => SYS_PACK_INSTRUCT_FORMAT_ERR

def resolveStrInItem (links : Links) (item : PackItem) : Except Stop PackItem :=
  match links.chain.find? (fun prev => prev.name = item.strValue ∧ prev.typeInx = .piStr) with
  | none => .error (.status SYS_PACK_INSTRUCT_FORMAT_ERR)
  | some prev =>
    if prev.strValue = [] then .error (.status SYS_PACK_INSTRUCT_FORMAT_ERR)
    -- `strncpy` left no terminator.
    else if prev.strValue.length ≥ NAME_LEN then .error .undefined
    else .ok { item with typeInx := .struct, name := prev.strValue }

/-- The key in front of the colon, and what is behind it. -/
def intDepKey (name : Text) : Except Stop (Text × Text) :=
  let white (c : Char) := c = ' ' ∨ c = '\t' ∨ c = '\n'
  let name := name.dropWhile fun c => white c ∨ c = ':'
  let key := name.takeWhile fun c => ¬ white c ∧ c ≠ ':' ∧ c ≠ ';'
  match (name.drop key.length).dropWhile (fun c => white c) with
  | ':' :: rest => .ok (key, rest)
  | ';' :: _ => .error (.status SYS_PACK_INSTRUCT_FORMAT_ERR)
  -- The key is terminated at the blank behind it, and nowhere else.
  | [] => if key.length < name.length then .ok (key, []) else .error .undefined
  | _ => .error .undefined

/-- The instruction behind the `=` of the first setting for the value. -/
def intDepInstruct (keyVal : Int) : (fuel : Nat) → (buf tmpPtr : Text) → Except Stop Text
  | 0, _, _ => .error .undefined
  | _ + 1, _, [] => .error .undefined
  | n + 1, buf, c :: tmpPtr =>
    if c = ',' ∨ c = '=' then
      if occurs "default".toList buf ∨ atoi buf = keyVal then
        let tmpPtr := (c :: tmpPtr).dropWhile fun c => c ≠ '=' ∧ c ≠ ';' ∧ c ≠ ':'
        match tmpPtr with
        | '=' :: pi => .ok (pi.takeWhile (fun c => c ≠ ':' ∧ c ≠ ';') ++ [';'])
        | _ => .error (.status SYS_PACK_INSTRUCT_FORMAT_ERR)
      else if c = '=' then
        match tmpPtr.dropWhile (fun c => c ≠ ':' ∧ c ≠ ';') with
        | ':' :: tmpPtr => intDepInstruct keyVal n [] tmpPtr
        | _ => .error (.status SYS_PACK_INSTRUCT_FORMAT_ERR)
      else intDepInstruct keyVal n [] tmpPtr
    else intDepInstruct keyVal n (buf ++ [c]) tmpPtr

/-- The instruction ends at its first semicolon, so that it has one item at most. The new
item has no parent. -/
def resolveIntDepItem (tables : Tables) (links : Links) (item : PackItem) :
    Except Stop (PackItem × Links) := do
  let (key, tmpPtr) ← intDepKey item.name
  let keyVal := resolveIntInItem tables links key
  if keyVal = SYS_PACK_INSTRUCT_FORMAT_ERR then .error (.status SYS_PACK_INSTRUCT_FORMAT_ERR)
  else
    let myPI ← intDepInstruct keyVal (tmpPtr.length + 1) [] tmpPtr
    match ← parsePackInstruct myPI with
    | [newItem] => .ok (newItem, if links.prev = [] then {} else links)
    | _ => .error .undefined

def iparseDependent (tables : Tables) (links : Links) (item : PackItem) :
    Except Stop (PackItem × Links) :=
  match item.typeInx with
  | .dependent => (resolveStrInItem links item).map (·, links)
  | .intDependent => resolveIntDepItem tables links item
  | _ => .ok (item, links)

/-- The bracket or the parenthesis that is open. -/
inductive Open where
  | none
  | brack
  | praren
  deriving DecidableEq

/-- The dimensions in a name: `resolve` gives the value of a text. -/
def scanDims (resolve : Text → Int) (opened : Open) (buf : Text) (dims hints : List Nat) :
    Text → Except Stop (List Nat × List Nat)
  | [] => .ok (dims, hints)
  | c :: rest =>
    let formatErr := .error (.status SYS_PACK_INSTRUCT_FORMAT_ERR)
    if c = '[' then
      if opened ≠ .none ∨ dims.length ≥ maxPackDim then formatErr
      else scanDims resolve .brack buf dims hints rest
    else if c = ']' then
      if opened ≠ .brack ∨ buf = [] ∨ resolve buf < 0 then formatErr
      else scanDims resolve .none [] (dims ++ [(resolve buf).toNat]) hints rest
    else if c = '(' then
      if opened ≠ .none ∨ hints.length ≥ maxPackDim then formatErr
      else scanDims resolve .praren buf dims hints rest
    else if c = ')' then
      if opened ≠ .praren ∨ buf = [] ∨ resolve buf < 0 then formatErr
      else scanDims resolve .none [] dims (hints ++ [(resolve buf).toNat]) rest
    else if opened ≠ .none then scanDims resolve opened (buf ++ [c]) dims hints rest
    else scanDims resolve opened buf dims hints rest

/-- The dimensions are read off the name, which is cut at the first of them. -/
def resolveDepInArray (tables : Tables) (links : Links) (item : PackItem) : Except Stop PackItem := do
  let (dims, hints) ← scanDims (resolveIntInItem tables links) .none [] [] [] item.name
  .ok { item with
    name := item.name.takeWhile fun c => c ≠ '[' ∧ c ≠ '('
    dimSize := dims
    hintDimSize := hints }

/-- `resolvePackedItem`, without the pointer. -/
def resolvePackedItem (tables : Tables) (links : Links) (item : PackItem) :
    Except Stop (PackItem × Links) := do
  let (item, links) ← iparseDependent tables links item
  let item ← resolveDepInArray tables links item
  .ok (item, links)

def getNumElement (item : PackItem) : Nat := item.dimSize.prod

def getNumHintElement (item : PackItem) : Nat := item.hintDimSize.prod

-- A struct with a count, an array of strings and an array of indices as long as the count.
example : parsePackInstruct "int iiLen; str *keyWord[iiLen]; int *inx(iiLen);".toList =
    .ok [{ typeInx := .int, name := "iiLen".toList },
      { typeInx := .str, name := "keyWord[iiLen]".toList, pointerType := .aPointer },
      { typeInx := .int, name := "inx(iiLen)".toList, pointerType := .aPointer }] := by rfl

end Pack
