-- SUMMARY: Packing a struct, with every write into the output buffer.
import Irods.Base.EState
import Irods.Pack.Instruct

/-!
# Packing

A struct is the list of its fields in order, a nested struct in place of its fields. The
pointer into the struct that is packed is what is left of that list. Alignment of the struct
itself is left to the list; the base of an output buffer is aligned, as `malloc` gives it.
-/

namespace Pack

open CString EStateM

inductive IrodsProt where
  | native
  | xml
  deriving DecidableEq

/-! ## Structs -/

/-- A field, or what a pointer points to: an array of bytes, of strings or of numbers. -/
inductive Cell where
  | chars (bytes : Text)
  | strs (strings : List Text)
  | ints (values : List Int)
  /-- Memory that was not set. -/
  | unset
  | null
  | pointer (target : List Cell)
  /-- A pointer to an array of pointers. -/
  | pointers (targets : List (Option (List Cell)))

/-- A pointer into a struct, or what is left of a null pointer that was moved on. -/
inductive InPtr where
  | null
  | cells (rest : List Cell)
  | wild

def InPtr.ofTarget : Option (List Cell) → InPtr
  | none => .null
  | some target => .cells target

namespace InPtr

/-- The bytes, unless the pointer is null, and the pointer behind them. -/
def chars (len : Nat) : InPtr → Except Stop (Option Text × InPtr)
  | .null => .ok (none, .null)
  | .cells (.chars bytes :: rest) => if bytes.length = len then .ok (some bytes, .cells rest) else .error .undefined
  | _ => .error .undefined

/-- The strings. A null pointer is taken for an empty string, and moved on. -/
def strs (numStr : Nat) : InPtr → Except Stop (List Text × InPtr)
  | .null =>
    if numStr = 0 then .ok ([], .null) else if numStr = 1 then .ok ([[]], .wild) else .error .undefined
  | .cells (.strs strings :: rest) =>
    if strings.length = numStr then .ok (strings, .cells rest) else .error .undefined
  | _ => .error .undefined

def ints (numElement : Nat) : InPtr → Except Stop (Option (List Int) × InPtr)
  | .null => .ok (none, .null)
  | .cells (.ints values :: rest) =>
    if values.length = numElement then .ok (some values, .cells rest) else .error .undefined
  | _ => .error .undefined

/-- The pointer, which is null where the pointer to it is. -/
def pointer : InPtr → Except Stop (Cell × InPtr)
  | .null => .ok (.null, .null)
  | .cells (cell :: rest) => .ok (cell, .cells rest)
  | _ => .error .undefined

end InPtr

/-! ## The output buffer -/

def packedOutAllocSz : Nat := 16 * 1024

def maxPackedOutAllocSz : Nat := 1024 * 1024

/-- What is written into an output buffer, or that an item has ended. -/
inductive Op where
  /-- A write of which the length was reserved. -/
  | put
  /-- A string of `strLen` characters without a dimension, unpacked from XML. -/
  | xmlStr (strLen : Nat)
  | pointer
  /-- What `input` decodes to, for an array of `len` bytes. -/
  | bin (input : Text) (len : Nat)
  | item
  deriving DecidableEq

/-- A write of `count` bytes from `start` on: the length and the size of the buffer before the
step, and the size in force when the bytes are written. -/
structure Step where
  op : Op
  len : Nat
  bufSize : Nat
  start : Nat
  count : Nat
  room : Nat
  deriving DecidableEq

/-- The contents of the buffer up to `len`, the buffers that are not packed, and every write so
far into this buffer and those of the structs behind its pointers, the last first. -/
structure PackedOutput (α : Type) where
  buf : List α := []
  len : Nat := 0
  bufSize : Nat
  nopackBufArray : List (Option Text) := []
  trace : List Step := []

abbrev PackM (α : Type) := EStateM Stop (PackedOutput α)

section

variable {α β : Type}

def ofExcept (r : Except Stop β) : PackM α β :=
  match r with
  | .ok b => pure b
  | .error stop => throw stop

/-- Ends with a status when a check fails. -/
def refuse (failed : Bool) (status : Int) : PackM α Unit :=
  if failed then throw (.status status) else pure ()

def initPackedOutput (len : Nat) : PackedOutput α := { bufSize := len }

def extendPackedOutput (out : PackedOutput α) (extLen : Nat) : PackedOutput α :=
  let newOutLen := out.len + extLen
  if newOutLen ≤ out.bufSize then out
  else
    let newBufSize := out.bufSize + out.bufSize
    if newBufSize ≤ newOutLen ∨ out.bufSize > maxPackedOutAllocSz then
      { out with bufSize := newOutLen + packedOutAllocSz }
    else { out with bufSize := newBufSize }

/-- For an address in a buffer, of which the base is aligned. -/
def alignAddrToBoundary (ptr boundary : Nat) : Nat :=
  if ptr % boundary = 0 then ptr else ptr + boundary - ptr % boundary

/-- Reserves `extLen` bytes and writes `count` bytes at the next address that is aligned. -/
def store (op : Op) (extLen boundary count : Nat) : PackM α Unit := modify fun out =>
  let new := extendPackedOutput out extLen
  { new with trace := ⟨op, out.len, out.bufSize, alignAddrToBoundary out.len boundary, count,
      new.bufSize⟩ :: out.trace }

/-- Notes the length after an item. -/
def endItem : PackM α Unit := modify fun out =>
  { out with trace := ⟨.item, out.len, out.bufSize, out.len, 0, out.bufSize⟩ :: out.trace }

end

/-- Reserves `extLen` bytes and writes `count` bytes, of which the text is kept. -/
def append (extLen count : Nat) (text : Text) : PackM Char Unit := do
  store .put extLen 1 count
  modify fun out => { out with buf := out.buf ++ text, len := out.len + text.length }

/-! ## Items of one type -/

/-- With the line feed behind a start tag when `lf` is set. -/
def startTag (name : Text) (lf : Bool) : Text := '<' :: (name ++ if lf then ['>', '\n'] else ['>'])

def endTag (name : Text) : Text := '<' :: '/' :: (name ++ ['>', '\n'])

/-- The characters, a slash, a line feed and the terminator are reserved. -/
def packXmlTag (tag name : Text) : PackM Char Unit := append (name.length + 5) (tag.length + 1) tag

def packStartTag (item : PackItem) (lf : Bool) : PackM Char Unit :=
  packXmlTag (startTag item.name lf) item.name

def packEndTag (item : PackItem) : PackM Char Unit := packXmlTag (endTag item.name) item.name

def codes : Text := "ABCDEFGHIJKLMNOPQRSTUVWXYZabcdefghijklmnopqrstuvwxyz0123456789+/".toList

def code (n : Nat) : Char := codes.getD (n % 64) 'A'

def base64Encode : Text → Text
  | a :: b :: c :: rest =>
    code (a.toNat / 4) :: code (a.toNat % 4 * 16 + b.toNat / 16) ::
      code (b.toNat % 16 * 4 + c.toNat / 64) :: code c.toNat :: base64Encode rest
  | [a, b] =>
    [code (a.toNat / 4), code (a.toNat % 4 * 16 + b.toNat / 16), code (b.toNat % 16 * 4), '=']
  | [a] => [code (a.toNat / 4), code (a.toNat % 4 * 16), '=', '=']
  | [] => []

/-- What is packed only in XML. -/
def onXml (prot : IrodsProt) (pack : PackM Char Unit) : PackM Char Unit :=
  match prot with
  | .xml => pack
  | .native => pure ()

def packBytes (prot : IrodsProt) (item : PackItem) (len : Nat) (bytes : Option Text) : PackM Char Unit :=
  if prot = .xml ∧ item.typeInx = .bin then
    match bytes with
    | none => append (2 * len + 10) len (List.replicate len '\x00')
    | some bytes => append (2 * len + 10) ((base64Encode bytes).length + 1) (base64Encode bytes)
  else append len len (bytes.getD (List.replicate len '\x00'))

def packChar (prot : IrodsProt) (item : PackItem) (len : Nat) (inPtr : InPtr) : PackM Char InPtr := do
  let (bytes, inPtr) ← ofExcept (inPtr.chars len)
  if len = 0 then return inPtr
  onXml prot (packStartTag item false)
  packBytes prot item len bytes
  onXml prot (packEndTag item)
  return inPtr

/-- A string that does not fit in its dimension is refused. -/
def tooLong (strLen : Nat) : Option Nat → Bool
  | none => false
  | some maxStrLen => strLen ≥ maxStrLen

def packNatString (maxStrLen : Option Nat) (s : Text) : PackM Char Unit := do
  refuse (tooLong s.length maxStrLen) USER_PACKSTRUCT_INPUT_ERR
  append (s.length + 1) (s.length + 1) (s ++ ['\x00'])

def xmlChar (c : Char) : Text :=
  if c = '&' then "&amp;".toList
  else if c = '<' then "&lt;".toList
  else if c = '>' then "&gt;".toList
  else if c = '"' then "&quot;".toList
  else if c = '\x60' then "&apos;".toList
  else [c]

/-- The copy has room for five characters for each character of the string and one more, and
the terminator. -/
def strToXmlStr (inStr : Text) : Except Stop Text :=
  let outXmlStr := inStr.flatMap xmlChar
  if outXmlStr.length + 1 ≤ 5 * inStr.length + 6 then .ok outXmlStr else .error .undefined

def packXmlString (item : PackItem) (maxStrLen : Option Nat) (s : Text) : PackM Char Unit := do
  let xmlStr ← ofExcept (strToXmlStr s)
  refuse (tooLong s.length maxStrLen) USER_PACKSTRUCT_INPUT_ERR
  packStartTag item false
  append (xmlStr.length + 1) (xmlStr.length + 1) xmlStr
  packEndTag item

def packString (prot : IrodsProt) (item : PackItem) (maxStrLen : Option Nat) (s : Text) : PackM Char Unit :=
  match prot with
  | .xml => packXmlString item maxStrLen s
  | .native => packNatString maxStrLen s

def packStrings (prot : IrodsProt) (item : PackItem) (maxStrLen : Option Nat) : List Text → PackM Char Unit
  | [] => pure ()
  | s :: ss => do
    packString prot item maxStrLen s
    packStrings prot item maxStrLen ss

/-- The pointer behind the strings of a struct. In XML a string without a dimension is passed over by
the length of its escaped copy. -/
def InPtr.behindStrs (prot : IrodsProt) (maxStrLen : Option Nat) (strings : List Text) (inPtr : InPtr) : InPtr :=
  if prot = .xml ∧ maxStrLen = none ∧ ∃ s ∈ strings, (s.flatMap xmlChar).length ≠ s.length then .wild else inPtr

def nullPtrPackStr : Text := "%@#ANULLSTR$%".toList

def packNullString : PackM Char Unit :=
  append (nullPtrPackStr.length + 1) (nullPtrPackStr.length + 1) (nullPtrPackStr ++ ['\x00'])

/-- The last `size` bytes of `x`, the most significant first. -/
def bigEndian (x : Int) : (size : Nat) → Text
  | 0 => []
  | size + 1 => Char.ofNat ((x / 256 ^ size) % 256).toNat :: bigEndian x size

@[simp] theorem bigEndian_length (x : Int) (size : Nat) : (bigEndian x size).length = size := by
  induction size with
  | zero => rfl
  | succ size ih => rw [bigEndian, List.length_cons, ih]

theorem flatMap_bigEndian_length (size : Nat) (values : List Int) :
    (values.flatMap (bigEndian · size)).length = size * values.length := by
  induction values with
  | nil => rfl
  | cons x xs ih =>
    rw [List.flatMap_cons, List.length_append, bigEndian_length, ih, List.length_cons, Nat.mul_succ, Nat.add_comm]

/-- `snprintf` with `%d`, `%hi` or `%lld` into `extLen` bytes. -/
def packXmlNumbers (item : PackItem) (extLen : Nat) : List Int → PackM Char Unit
  | [] => pure ()
  | x :: xs => do
    packStartTag item false
    append extLen (((decimal x).take (extLen - 1)).length + 1) ((decimal x).take (extLen - 1))
    packEndTag item
    packXmlNumbers item extLen xs

/-- `numElement` numbers of `size` bytes, with the first one, or 0 for a negative one. -/
def packNumbers (size extLen : Nat) (prot : IrodsProt) (item : PackItem) (numElement : Nat)
    (inPtr : InPtr) : PackM Char (Int × InPtr) := do
  let (values, inPtr) ← ofExcept (inPtr.ints numElement)
  match prot, values with
  | .xml, none => return (0, inPtr)
  | .xml, some values =>
    packXmlNumbers item extLen values
    return (max 0 (values.headD 0), inPtr)
  | .native, none =>
    if numElement = 0 then return (0, inPtr)
    append (size * numElement) (size * numElement) (List.replicate (size * numElement) '\x00')
    return (0, inPtr)
  | .native, some values =>
    if numElement = 0 then return (0, inPtr)
    append (size * numElement) (size * numElement) (values.flatMap (bigEndian · size))
    return (max 0 (values.headD 0), inPtr)

def packInt (prot : IrodsProt) (item : PackItem) (numElement : Nat) (inPtr : InPtr) :
    PackM Char (Int × InPtr) := packNumbers 4 12 prot item numElement inPtr

def packInt16 (prot : IrodsProt) (item : PackItem) (numElement : Nat) (inPtr : InPtr) :
    PackM Char (Int × InPtr) := packNumbers 2 12 prot item numElement inPtr

def packDouble (prot : IrodsProt) (item : PackItem) (numElement : Nat) (inPtr : InPtr) :
    PackM Char (Int × InPtr) := packNumbers 8 20 prot item numElement inPtr

/-- The bytes are queued, and their index is packed. -/
def packNopackPointer (prot : IrodsProt) (item : PackItem) (len : Nat) (inPtr : InPtr) :
    PackM Char InPtr := do
  let (bytes, inPtr) ← ofExcept (inPtr.chars len)
  let curNumBuf := (← get).nopackBufArray.length
  modify fun out => { out with nopackBufArray := out.nopackBufArray ++ [bytes] }
  let _ ← packInt prot item 1 (.cells [.ints [curNumBuf]])
  return inPtr

/-! ## Items -/

/-- What packs `numElement` structs of the type of an item. -/
abbrev ChildPacker := PackItem → Links → Nat → InPtr → PackM Char InPtr

/-- The largest length of a string and the number of strings; no length for a string that ends
with its terminator. Without elements nothing is divided by the last dimension. -/
def strDims (dims : List Nat) : Except Stop (Option Nat × Nat) :=
  match dims.getLast? with
  | none => .ok (none, 1)
  | some 0 => .error .undefined
  | some maxStrLen => .ok (some maxStrLen, dims.prod / maxStrLen)

/-- `strncpy` of a string into the `strValue` of an item. -/
def saveStr (item : PackItem) (s : Text) : PackItem := { item with strValue := s.take NAME_LEN }

/-- Of a single string that names an instruction. -/
def savedField (item : PackItem) (numStr : Nat) (inPtr : InPtr) : Except Stop PackItem :=
  if item.typeInx = .piStr ∧ numStr = 1 then
    match inPtr with
    | .cells (.strs (s :: _) :: _) => .ok (saveStr item s)
    | _ => .error .undefined
  else .ok item

def packNonpointerItem (child : ChildPacker) (prot : IrodsProt) (links : Links) (item : PackItem)
    (inPtr : InPtr) : PackM Char (PackItem × InPtr) := do
  let numElement := getNumElement item
  match item.typeInx with
  | .char | .bin => return (item, ← packChar prot item (numElement * item.typeInx.size) inPtr)
  | .str | .piStr =>
    let (maxStrLen, numStr) ← ofExcept (strDims item.dimSize)
    let saved ← ofExcept (savedField item numStr inPtr)
    let (strings, inPtr) ← ofExcept (inPtr.strs numStr)
    packStrings prot item maxStrLen strings
    return (saved, inPtr.behindStrs prot maxStrLen strings)
  | .int =>
    let (intValue, inPtr) ← packInt prot item numElement inPtr
    return ({ item with intValue := intValue }, inPtr)
  | .int16 =>
    let (intValue, inPtr) ← packInt16 prot item numElement inPtr
    return ({ item with intValue := intValue }, inPtr)
  | .double =>
    let (_, inPtr) ← packDouble prot item numElement inPtr
    return (item, inPtr)
  | .struct => return (item, ← child item links numElement inPtr)
  | .dependent | .intDependent => throw (.status SYS_PACK_INSTRUCT_FORMAT_ERR)

/-- The pointers of an item: itself, or the array it points to. -/
def targetsOf (item : PackItem) : Cell → Except Stop (List (Option (List Cell)))
  | .pointer target => if item.dimSize = [] then .ok [some target] else .error .undefined
  | .pointers targets =>
    if item.dimSize ≠ [] ∧ targets.length = getNumElement item then .ok targets else .error .undefined
  | _ => .error .undefined

def packTargets (pack : InPtr → PackM Char Unit) : List (Option (List Cell)) → PackM Char Unit
  | [] => pure ()
  | target :: targets => do
    pack (.ofTarget target)
    packTargets pack targets

/-- The strings of every pointer; nothing for an item of which a dimension is 0. -/
def packStrPointers (prot : IrodsProt) (item : PackItem) (targets : List (Option (List Cell))) :
    PackM Char Unit := do
  if item.hintDimSize ≠ [] ∧ (getNumHintElement item = 0 ∨ item.hintDimSize.getLast? = some 0) then
    return ()
  else
    let (maxStrLen, numStr) ← ofExcept (strDims item.hintDimSize)
    packTargets (fun inPtr => do
      let (strings, _) ← ofExcept (inPtr.strs numStr)
      packStrings prot item maxStrLen strings) targets

/-- Of a single pointer to a string that names an instruction. -/
def savedTarget (item : PackItem) (targets : List (Option (List Cell))) : Except Stop PackItem :=
  if item.dimSize = [] then
    match targets with
    | [some (.strs (s :: _) :: _)] => .ok (saveStr item s)
    | _ => .error .undefined
  else .ok item

/-- A pointer that is not null; freeing what was packed is left out. -/
def packPointerItem (child : ChildPacker) (prot : IrodsProt) (links : Links) (item : PackItem)
    (targets : List (Option (List Cell))) : PackM Char PackItem := do
  let numElement := getNumHintElement item
  match item.typeInx with
  | .char | .bin =>
    let len := numElement * item.typeInx.size
    let pack := if item.pointerType = .noPackPointer then packNopackPointer prot item len
      else packChar prot item len
    packTargets (fun inPtr => do let _ ← pack inPtr) targets
    return item
  | .str =>
    packStrPointers prot item targets
    return item
  | .piStr =>
    let saved ← ofExcept (savedTarget item targets)
    packStrPointers prot item targets
    return saved
  | .int =>
    packTargets (fun inPtr => do let _ ← packInt prot item numElement inPtr) targets
    return item
  | .int16 =>
    packTargets (fun inPtr => do let _ ← packInt16 prot item numElement inPtr) targets
    return item
  | .double =>
    packTargets (fun inPtr => do let _ ← packDouble prot item numElement inPtr) targets
    return item
  | .struct =>
    packTargets (fun inPtr => do let _ ← child item links numElement inPtr) targets
    return item
  | .dependent | .intDependent => throw (.status SYS_PACK_INSTRUCT_FORMAT_ERR)

/-- The item with what was saved in it, for the items that follow, and the rest of the struct. -/
def packItem (child : ChildPacker) (tables : Tables) (prot : IrodsProt) (links : Links) (item : PackItem)
    (inPtr : InPtr) : PackM Char (Links × InPtr) := do
  let (item, links) ← ofExcept (resolvePackedItem tables links item)
  if item.pointerType = .nonPointer then
    let (item, inPtr) ← packNonpointerItem child prot links item inPtr
    endItem
    return (links.next item, inPtr)
  else
    let (cell, inPtr) ← ofExcept inPtr.pointer
    match cell with
    | .null =>
      match prot with
      | .native => packNullString
      | .xml => pure ()
      endItem
      return (links.next item, inPtr)
    | cell =>
      let targets ← ofExcept (targetsOf item cell)
      let item ← packPointerItem child prot links item targets
      endItem
      return (links.next item, inPtr)

def packItems (child : ChildPacker) (tables : Tables) (prot : IrodsProt) :
    Links → List PackItem → InPtr → PackM Char InPtr
  | _, [], inPtr => pure inPtr
  | links, item :: items, inPtr => do
    let (links, inPtr) ← packItem child tables prot links item inPtr
    packItems child tables prot links items inPtr

/-! ## Structs -/

def packElements (child : ChildPacker) (tables : Tables) (prot : IrodsProt) (item : PackItem)
    (links : Links) (packInstruct : Text) : (numElement : Nat) → InPtr → PackM Char InPtr
  | 0, inPtr => pure inPtr
  | n + 1, inPtr => do
    let items ← ofExcept (parsePackInstruct packInstruct)
    onXml prot (packStartTag item true)
    let inPtr ← packItems child tables prot (links.child item) items inPtr
    onXml prot (packEndTag item)
    packElements child tables prot item links packInstruct n inPtr

/-- The structs around a struct are at most `depth`. -/
def packChildStruct (tables : Tables) (prot : IrodsProt) : (depth : Nat) → ChildPacker
  | 0 => fun _ _ _ _ => throw .depth
  | depth + 1 => fun item links numElement inPtr =>
    if numElement = 0 then pure inPtr
    else
      match matchPackInstruct tables item.name with
      | none => throw (.status SYS_UNMATCH_PACK_INSTRUCTI_NAME)
      | some packInstruct =>
        packElements (packChildStruct tables prot depth) tables prot item links packInstruct numElement inPtr

/-- The packed bytes are the buffer up to its length; a terminator is written behind XML. -/
def packStruct (tables : Tables) (prot : IrodsProt) (depth : Nat) (packInstName : Text)
    (inStruct : List Cell) : EStateM.Result Stop (PackedOutput Char) Unit :=
  (do
    let _ ← packChildStruct tables prot depth { name := packInstName } {} 1 (.cells inStruct)
    onXml prot (store .put 1 1 1) : PackM Char Unit) (initPackedOutput maxPackedOutAllocSz)

end Pack
