-- SUMMARY: Unpacking a struct from XML and from the native form.
import Irods.Pack.Packing

/-!
# Unpacking

The input pointer is what is left of the input. It is not null, since `unpackStruct` refuses a
null pointer, so that the branches for null inputs are left out. A read behind the end of the
input is undefined. Of XML the input is the string up to its terminator; unescaping a value
changes bytes that are not read again.
-/

namespace Pack

open CString EStateM

def BASE64_BUFFER_OVERFLOW : Int := -324000

def BASE64_INVALID_PACKET : Int := -325000

def subStructAllocSz : Nat := 1024

/-! ## Tags -/

/-- The length of the end tag, with a line feed behind it, and what is skipped to reach it. -/
def parseEndTag (name inPtr : Text) : Option (Nat × Nat) :=
  (strstr (('<' :: '/' :: (name ++ ['>'])).take (MAX_NAME_LEN - 1)) inPtr).map fun skipLen =>
    let myLen := name.length + 3
    (if inPtr[skipLen + myLen]? = some '\n' then myLen + 1 else myLen, skipLen)

/-- The tag has to be the next one. -/
def parseStartTag (name : Text) (lf : Bool) (inPtr : Text) : Option (Nat × Nat) :=
  match strstr ['<'] inPtr with
  | none => none
  | some skipLen =>
    let inStrPtr := inPtr.drop (skipLen + 1)
    if name.isPrefixOf inStrPtr ∧ inStrPtr[name.length]? = some '>' then
      let myLen := name.length + 2
      some (if lf ∧ inStrPtr[name.length + 1]? = some '\n' then myLen + 1 else myLen, skipLen)
    else none

/-- The lengths of a value and of its end tag, unless a tag is missing, and the input from the
value on, or from where it was when the start tag is missing. -/
def parseXmlValue (name inPtr : Text) : Option (Nat × Nat) × Text :=
  match parseStartTag name false inPtr with
  | none => (none, inPtr)
  | some (len, skip) =>
    let value := inPtr.drop (len + skip)
    match parseEndTag name value with
    | none => (none, value)
    | some (endTagLen, strLen) => (some (strLen, endTagLen), value)

def xmlEntities : List (Text × Char) :=
  [("amp;".toList, '&'), ("lt;".toList, '<'), ("gt;".toList, '>'), ("quot;".toList, '"'),
    ("apos;".toList, '\x60')]

/-- Leaves out `skip` characters first. An unknown entity ends the scan. -/
def xmlStrToStrFrom : (skip : Nat) → Text → Text
  | _, [] => []
  | skip + 1, _ :: rest => xmlStrToStrFrom skip rest
  | 0, c :: rest =>
    if c = '&' then
      match xmlEntities.find? fun entity => entity.1.isPrefixOf rest with
      | some (entity, c) => c :: xmlStrToStrFrom entity.length rest
      | none => c :: rest
    else c :: xmlStrToStrFrom 0 rest

theorem nul_not_mem_xmlStrToStrFrom {s : Text} (h : '\x00' ∉ s) (skip : Nat) : '\x00' ∉ xmlStrToStrFrom skip s := by
  have hentities : ∀ entity ∈ xmlEntities, entity.2 ≠ '\x00' := by decide
  induction s generalizing skip with
  | nil => cases skip <;> exact List.not_mem_nil
  | cons c s ih =>
    obtain ⟨hc, hs⟩ := not_or.mp fun hmem => h (List.mem_cons.mpr hmem)
    cases skip with
    | succ skip => exact ih hs skip
    | zero =>
      unfold xmlStrToStrFrom
      split
      · split
        · rename_i entity d hfind
          have hd := hentities _ (List.mem_of_find?_eq_some hfind)
          exact List.not_mem_cons_of_ne_of_not_mem hd.symm (ih hs _)
        · exact h
      · exact List.not_mem_cons_of_ne_of_not_mem hc (ih hs 0)

def xmlStrToStr (inStr : Text) : Text := xmlStrToStrFrom 0 inStr

/-! ## Values -/

/-- What is written behind an output pointer: the status or the first number, the field, the
number of bytes, for which reason they are written, and what is left of the input. -/
structure Taken where
  status : Int
  cell : Cell
  op : Op
  count : Nat
  inPtr : Text

/-- The bytes of four characters: as many as `=` left of them, and one at least. -/
def decodeGroup (t g : Nat) : Text :=
  Char.ofNat (t / 65536 % 256) ::
    ((if g > 1 then [Char.ofNat (t / 256 % 256)] else []) ++ if g > 2 then [Char.ofNat (t % 256)] else [])

/-- The decoded bytes are written as they are found; an invalid input keeps those in front. The
state is the bits so far, the number of characters in them, and what `=` left of a group. -/
def base64DecodeFrom (outlen t y g : Nat) (out : Text) : Text → Int × Text
  | [] => if y ≠ 0 then (BASE64_INVALID_PACKET, out) else (0, out)
  | c :: cs =>
    let push (v g : Nat) : Int × Text :=
      let t := t * 64 + v
      if y + 1 = 4 then
        if out.length + g > outlen then (BASE64_BUFFER_OVERFLOW, out)
        else base64DecodeFrom outlen 0 0 g (out ++ decodeGroup t g) cs
      else base64DecodeFrom outlen t (y + 1) g out cs
    if c = '=' then
      if g = 0 then (BASE64_INVALID_PACKET, out) else push 0 (g - 1)
    else
      match codes.findIdx? (· = c) with
      | none => base64DecodeFrom outlen t y g out cs
      | some v => if g ≠ 3 then (BASE64_INVALID_PACKET, out) else push v g

def base64Decode (outlen : Nat) (input : Text) : Int × Text := base64DecodeFrom outlen 0 0 3 [] input

/-- A value without its tags is taken for a very long one. -/
def unpackCharToOutPtr (prot : IrodsProt) (item : PackItem) (len : Nat) (inPtr : Text) : Except Stop Taken :=
  match prot with
  | .native =>
    if inPtr.length < len then .error .undefined
    else .ok ⟨0, .chars (inPtr.take len), .put, len, inPtr.drop len⟩
  | .xml =>
    match parseXmlValue item.name inPtr with
    | (none, _) => .error .undefined
    | (some (inLen, endTagLen), value) =>
      if item.typeInx = .bin then
        let (status, bytes) := base64Decode len (value.take inLen)
        let cell := if bytes.length < len then .unset else .chars (bytes.take len)
        .ok ⟨status, cell, .bin (value.take inLen) len, bytes.length,
          if status < 0 then value else value.drop (inLen + endTagLen)⟩
      else if inLen > len then .ok ⟨USER_PACKSTRUCT_INPUT_ERR, .unset, .put, 0, value⟩
      else
        let cell := if inLen < len then .unset else .chars (value.take inLen)
        .ok ⟨0, cell, .put, inLen, value.drop (inLen + endTagLen)⟩

/-- The string the input begins with, and what is behind its terminator. -/
def cString (inPtr : Text) : Except Stop (Text × Text) :=
  let s := inPtr.takeWhile (· ≠ '\x00')
  if s.length = inPtr.length then .error .undefined else .ok (s, inPtr.drop (s.length + 1))

/-- The bytes as a number of two's complement, the most significant first. -/
def fromBigEndian (bytes : Text) : Int :=
  let n : Nat := bytes.foldl (fun n c => n * 256 + c.toNat) 0
  (n : Int).bmod (256 ^ bytes.length)

def nativeNumbers (size : Nat) : (numElement : Nat) → Text → List Int
  | 0, _ => []
  | n + 1, inPtr => fromBigEndian (inPtr.take size) :: nativeNumbers size n (inPtr.drop size)

/-- The numbers up to one that is missing or too long, with the status for it, and what is left. -/
def xmlNumbers (read : Text → Int) (name : Text) : (numElement : Nat) → Text → List Int × Option Int × Text
  | 0, inPtr => ([], none, inPtr)
  | n + 1, inPtr =>
    match parseXmlValue name inPtr with
    | (none, inPtr) => ([], some SYS_PACK_INSTRUCT_FORMAT_ERR, inPtr)
    | (some (strLen, endTagLen), value) =>
      if strLen ≥ NAME_LEN then ([], some USER_PACKSTRUCT_INPUT_ERR, value)
      else
        let (values, failed, inPtr) := xmlNumbers read name n (value.drop (strLen + endTagLen))
        (read (value.take strLen) :: values, failed, inPtr)

def unpackNumbersToOutPtr (size : Nat) (read : Text → Int) (prot : IrodsProt) (item : PackItem)
    (numElement : Nat) (inPtr : Text) : Except Stop Taken :=
  match prot with
  | .native =>
    if inPtr.length < size * numElement then .error .undefined
    else
      let values := nativeNumbers size numElement inPtr
      .ok ⟨values.headD 0, .ints values, .put, size * numElement, inPtr.drop (size * numElement)⟩
  | .xml =>
    let (values, failed, inPtr) := xmlNumbers read item.name numElement inPtr
    match failed with
    | none => .ok ⟨values.headD 0, .ints values, .put, size * numElement, inPtr⟩
    | some status => .ok ⟨status, .unset, .put, size * values.length, inPtr⟩

def octValue (s : Text) : Nat := Nat.ofDigitChars 8 (s.takeWhile fun c => '0' ≤ c ∧ c ≤ '7') 0

def hexDigit (c : Char) : Option Nat :=
  if c.isDigit then some (c.toNat - 48)
  else if 'a' ≤ c ∧ c ≤ 'f' then some (c.toNat - 87)
  else if 'A' ≤ c ∧ c ≤ 'F' then some (c.toNat - 55)
  else none

def hexValue (s : Text) : Nat :=
  ((s.takeWhile fun c => (hexDigit c).isSome).filterMap hexDigit).foldl (fun n d => n * 16 + d) 0

/-- The value without a sign, of a text with base 16 behind `0x`, 8 behind `0`, and 10 otherwise. -/
def unsignedValue (s : Text) : Nat :=
  match s with
  | '0' :: x :: rest =>
    if (x = 'x' ∨ x = 'X') ∧ (rest.head?.bind hexDigit).isSome then hexValue rest
    else octValue (x :: rest)
  | _ => digitsValue s

/-- `strtoll` with base 0. -/
def strtoll (s : Text) : Int :=
  match s.dropWhile isspace with
  | '-' :: cs => max (-(longBound : Int)) (-(unsignedValue cs : Int))
  | '+' :: cs => min (longBound - 1) (unsignedValue cs : Int)
  | cs => min (longBound - 1) (unsignedValue cs : Int)

def unpackIntToOutPtr := unpackNumbersToOutPtr 4 atoi

def unpackInt16ToOutPtr := unpackNumbersToOutPtr 2 fun s => (atoi s).bmod (2 ^ 16)

def unpackDoubleToOutPtr := unpackNumbersToOutPtr 8 strtoll

def unpackStringToOutPtr (prot : IrodsProt) (item : PackItem) (maxStrLen : Option Nat) (inPtr : Text) :
    Except Stop (Text × Text) :=
  match prot with
  | .native => do
    let (s, inPtr) ← cString inPtr
    if tooLong s.length maxStrLen then .error (.status USER_PACKSTRUCT_INPUT_ERR) else .ok (s, inPtr)
  | .xml =>
    match parseXmlValue item.name inPtr with
    | (none, _) => .error (.status SYS_PACK_INSTRUCT_FORMAT_ERR)
    | (some (origStrLen, endTagLen), value) =>
      let s := xmlStrToStr (value.take origStrLen)
      if tooLong s.length maxStrLen then .error (.status USER_PACKSTRUCT_INPUT_ERR)
      else .ok (s, value.drop (origStrLen + endTagLen))

def unpackStringsToOutPtr (prot : IrodsProt) (item : PackItem) (maxStrLen : Option Nat) :
    (numStr : Nat) → Text → Except Stop (List Text × Text)
  | 0, inPtr => .ok ([], inPtr)
  | n + 1, inPtr => do
    let (s, inPtr) ← unpackStringToOutPtr prot item maxStrLen inPtr
    let (strings, inPtr) ← unpackStringsToOutPtr prot item maxStrLen n inPtr
    .ok (s :: strings, inPtr)

/-! ## Fields -/

/-- A field, and the length behind it. -/
def addCell (cell : Cell) (newLen : Nat → Nat) : PackM Cell Unit := modify fun out =>
  { out with buf := out.buf ++ [cell], len := newLen out.len }

def addLen (len : Nat) : PackM Cell Unit := modify fun out => { out with len := out.len + len }

/-- The status of the bytes is not looked at. -/
def unpackChar (prot : IrodsProt) (item : PackItem) (len : Nat) (inPtr : Text) : PackM Cell Text := do
  if len = 0 then
    addCell (.chars []) id
    return inPtr
  else
    let taken ← ofExcept (unpackCharToOutPtr prot item len inPtr)
    store taken.op len 1 taken.count
    addCell taken.cell (· + len)
    return taken.inPtr

def unpackNatString (maxStrLen : Option Nat) (inPtr : Text) : PackM Cell (Text × Text) := do
  let (s, inPtr) ← ofExcept (cString inPtr)
  refuse (tooLong (s.length + 1) maxStrLen) USER_PACKSTRUCT_INPUT_ERR
  let len := maxStrLen.getD (s.length + 1)
  store .put len 1 (s.length + 1)
  addLen len
  return (s, inPtr)

/-- Without a dimension no room is made for the terminator. -/
def storeXmlString (strLen : Nat) : Option Nat → PackM Cell Unit
  | some maxStrLen => do
    store .put maxStrLen 1 (strLen + 1)
    addLen maxStrLen
  | none => do
    store (.xmlStr strLen) strLen 1 (strLen + 1)
    addLen (strLen + 1)

/-- The input goes on inside of the end tag. -/
def unpackXmlString (item : PackItem) (maxStrLen : Option Nat) (inPtr : Text) : PackM Cell (Text × Text) :=
  match parseXmlValue item.name inPtr with
  | (none, _) => throw (.status SYS_PACK_INSTRUCT_FORMAT_ERR)
  | (some (origStrLen, _), value) => do
    let s := xmlStrToStr (value.take origStrLen)
    refuse (tooLong s.length maxStrLen) USER_PACKSTRUCT_INPUT_ERR
    storeXmlString s.length maxStrLen
    return (s, value.drop (origStrLen + 1))

def unpackString (prot : IrodsProt) (item : PackItem) (maxStrLen : Option Nat) (inPtr : Text) :
    PackM Cell (Text × Text) :=
  match prot with
  | .xml => unpackXmlString item maxStrLen inPtr
  | .native => unpackNatString maxStrLen inPtr

def unpackStrings (prot : IrodsProt) (item : PackItem) (maxStrLen : Option Nat) :
    (numStr : Nat) → Text → PackM Cell (List Text × Text)
  | 0, inPtr => return ([], inPtr)
  | n + 1, inPtr => do
    let (s, inPtr) ← unpackString prot item maxStrLen inPtr
    let (strings, inPtr) ← unpackStrings prot item maxStrLen n inPtr
    return (s :: strings, inPtr)

/-- Room is made for one element more than there are, for the alignment. -/
def unpackNumbers (size : Nat) (read : Text → Int) (prot : IrodsProt) (item : PackItem)
    (numElement : Nat) (inPtr : Text) : PackM Cell (Int × Text) := do
  if numElement = 0 then
    addCell (.ints []) id
    return (0, inPtr)
  else
    let taken ← ofExcept (unpackNumbersToOutPtr size read prot item numElement inPtr)
    store taken.op (size * (numElement + 1)) size taken.count
    addCell taken.cell fun start => alignAddrToBoundary start size + size * numElement
    return (max 0 taken.status, taken.inPtr)

def unpackInt := unpackNumbers 4 atoi

def unpackInt16 := unpackNumbers 2 fun s => (atoi s).bmod (2 ^ 16)

def unpackDouble := unpackNumbers 8 strtoll

/-- The pointer goes to the next address that is aligned, in the room for one pointer. What it
points to has memory of its own, and is known when the field is added. -/
def addPointerToPackedOut (cell : Cell) : PackM Cell Unit := do
  store .pointer 8 8 8
  addCell cell fun start => alignAddrToBoundary start 8 + 8

/-! ## Items -/

/-- What unpacks `numElement` structs of the type of an item. -/
abbrev ChildUnpacker := PackItem → Links → Nat → Text → PackM Cell Text

def unpackNonpointerItem (child : ChildUnpacker) (prot : IrodsProt) (links : Links) (item : PackItem)
    (inPtr : Text) : PackM Cell (PackItem × Text) := do
  let numElement := getNumElement item
  match item.typeInx with
  | .char | .bin => return (item, ← unpackChar prot item (numElement * item.typeInx.size) inPtr)
  | .str | .piStr =>
    let (maxStrLen, numStr) ← ofExcept (strDims item.dimSize)
    let (strings, inPtr) ← unpackStrings prot item maxStrLen numStr inPtr
    addCell (.strs strings) id
    let item := match item.typeInx, strings with
      | .piStr, s :: _ => if s = [] then item else saveStr item s
      | _, _ => item
    return (item, inPtr)
  | .int =>
    let (intValue, inPtr) ← unpackInt prot item numElement inPtr
    return ({ item with intValue := intValue }, inPtr)
  | .int16 =>
    let (intValue, inPtr) ← unpackInt16 prot item numElement inPtr
    return ({ item with intValue := intValue }, inPtr)
  | .double =>
    let (_, inPtr) ← unpackDouble prot item numElement inPtr
    return (item, inPtr)
  | .struct => return (item, ← child item links numElement inPtr)
  | .dependent | .intDependent => throw (.status SYS_PACK_INSTRUCT_FORMAT_ERR)

/-- The item has no elements. -/
def noElement (item : PackItem) : Bool :=
  getNumHintElement item = 0 ∨ (item.dimSize ≠ [] ∧ getNumElement item = 0)

/-- For a null pointer, what is left of the input behind it. -/
def unpackNullString (prot : IrodsProt) (item : PackItem) (inPtr : Text) : Except Stop (Option Text) :=
  match prot with
  | .native =>
    if (nullPtrPackStr ++ ['\x00']).isPrefixOf inPtr then .ok (some (inPtr.drop (nullPtrPackStr.length + 1)))
    else if inPtr.isPrefixOf nullPtrPackStr then .error .undefined
    else if noElement item then .ok (some inPtr)
    else .ok none
  | .xml =>
    match parseStartTag item.name false inPtr with
    | none => .ok (some inPtr)
    | some (tagLen, skip) =>
      if noElement item then
        let myPtr := inPtr.drop (tagLen + skip)
        if ('<' :: '/' :: item.name).isPrefixOf myPtr then
          let myPtr := myPtr.drop (item.name.length + 2)
          match myPtr with
          | [] => .error .undefined
          | _ :: '\n' :: rest => .ok (some rest)
          | _ :: rest => .ok (some rest)
        else .ok (some inPtr)
      else .ok none

/-- The fields and the result of `unpack` with an output buffer of its own. -/
def inSubOutput {β : Type} (bufSize : Nat) (unpack : PackM Cell β) : PackM Cell (β × List Cell) := do
  let out ← get
  set ({ bufSize := bufSize, trace := out.trace } : PackedOutput Cell)
  let result ← unpack
  let subPackedOutput ← get
  set { out with trace := subPackedOutput.trace }
  return (result, subPackedOutput.buf)

/-- What each pointer of an array points to. -/
def unpackTargets (unpack : Text → PackM Cell (List Cell × Text)) :
    (numPointer : Nat) → Text → PackM Cell (List (Option (List Cell)) × Text)
  | 0, inPtr => return ([], inPtr)
  | n + 1, inPtr => do
    let (target, inPtr) ← unpack inPtr
    let (targets, inPtr) ← unpackTargets unpack n inPtr
    return (some target :: targets, inPtr)

/-- The bytes behind a pointer; the memory for them has room for `len`. -/
def unpackCharTarget (prot : IrodsProt) (item : PackItem) (len : Nat) (inPtr : Text) :
    PackM Cell (List Cell × Text) := do
  if item.pointerType = .noPackPointer then throw .undefined
  else
    let taken ← ofExcept (unpackCharToOutPtr prot item len inPtr)
    if taken.count > len then throw .undefined
    else
      refuse (taken.status < 0) taken.status
      return ([taken.cell], taken.inPtr)

def unpackStrTarget (prot : IrodsProt) (item : PackItem) (maxStrLen : Option Nat) (numStr : Nat)
    (inPtr : Text) : PackM Cell (List Cell × Text) := do
  let (strings, inPtr) ← ofExcept (unpackStringsToOutPtr prot item maxStrLen numStr inPtr)
  return ([.strs strings], inPtr)

/-- The numbers behind a pointer, of which the status is not looked at. -/
def unpackNumbersTarget (unpack : Text → Except Stop Taken) (inPtr : Text) : PackM Cell (List Cell × Text) := do
  let taken ← ofExcept (unpack inPtr)
  return ([taken.cell], taken.inPtr)

def unpackStructTarget (child : ChildUnpacker) (links : Links) (item : PackItem) (inPtr : Text) :
    PackM Cell (List Cell × Text) := do
  let numElement := getNumHintElement item
  let (inPtr, cells) ← inSubOutput (numElement * subStructAllocSz) (child item links numElement inPtr)
  return (cells, inPtr)

/-- What one pointer of an item points to. -/
def unpackTarget (child : ChildUnpacker) (prot : IrodsProt) (links : Links) (item : PackItem)
    (inPtr : Text) : PackM Cell (List Cell × Text) :=
  let numElement := getNumHintElement item
  match item.typeInx with
  | .char | .bin => unpackCharTarget prot item (numElement * item.typeInx.size) inPtr
  | .str | .piStr => do
    let (maxStrLen, numStr) ← ofExcept (strDims item.hintDimSize)
    unpackStrTarget prot item maxStrLen numStr inPtr
  | .int => unpackNumbersTarget (unpackIntToOutPtr prot item numElement) inPtr
  | .int16 => unpackNumbersTarget (unpackInt16ToOutPtr prot item numElement) inPtr
  | .double => unpackNumbersTarget (unpackDoubleToOutPtr prot item numElement) inPtr
  | .struct => unpackStructTarget child links item inPtr
  | .dependent | .intDependent => throw (.status SYS_PACK_INSTRUCT_FORMAT_ERR)

/-- Into a block that has room for `room` numbers. One more is written behind it, once it
has been read. -/
def unpackNumbersToBlock (size : Nat) (read : Text → Int) (prot : IrodsProt) (item : PackItem)
    (room numElement : Nat) (inPtr : Text) : Except Stop Taken :=
  if numElement ≤ room then unpackNumbersToOutPtr size read prot item numElement inPtr
  else
    match prot with
    | .native => .error .undefined
    | .xml =>
      match xmlNumbers read item.name (room + 1) inPtr with
      | (_, some status, _) => .error (.status status)
      | (_, none, _) => .error .undefined

/-- The numbers behind a pointer of an array: as many are asked for as the block has bytes. -/
def unpackNumbersBlock (size : Nat) (read : Text → Int) (prot : IrodsProt) (item : PackItem)
    (inPtr : Text) : PackM Cell (List Cell × Text) := do
  let room := getNumHintElement item
  let taken ← ofExcept (unpackNumbersToBlock size read prot item room (room * size) inPtr)
  refuse (taken.status < 0) taken.status
  return ([taken.cell], taken.inPtr)

/-- What one pointer of an array points to. -/
def unpackArrayTarget (child : ChildUnpacker) (prot : IrodsProt) (links : Links) (item : PackItem)
    (inPtr : Text) : PackM Cell (List Cell × Text) :=
  match item.typeInx with
  | .int => unpackNumbersBlock 4 atoi prot item inPtr
  | .int16 => unpackNumbersBlock 2 (fun s => (atoi s).bmod (2 ^ 16)) prot item inPtr
  | .double => unpackNumbersBlock 8 strtoll prot item inPtr
  | _ => unpackTarget child prot links item inPtr

/-- The item with what was saved in it. An array of pointers to numbers is also too short,
but its first block does not come through. -/
def unpackPointerItem (child : ChildUnpacker) (prot : IrodsProt) (links : Links) (item : PackItem)
    (inPtr : Text) : PackM Cell (PackItem × Text) := do
  match ← ofExcept (unpackNullString prot item inPtr) with
  | some inPtr =>
    addPointerToPackedOut .null
    return (item, inPtr)
  | none =>
    if item.dimSize = [] then
      let (target, inPtr) ← unpackTarget child prot links item inPtr
      addPointerToPackedOut (.pointer target)
      let item := match item.typeInx, target with
        | .piStr, [.strs (s :: _)] => saveStr item s
        | _, _ => item
      return (item, inPtr)
    else
      let (targets, inPtr) ← unpackTargets (unpackArrayTarget child prot links item) (getNumElement item) inPtr
      addPointerToPackedOut (.pointers targets)
      return (item, inPtr)

def unpackItem (child : ChildUnpacker) (tables : Tables) (prot : IrodsProt) (links : Links)
    (item : PackItem) (inPtr : Text) : PackM Cell (Links × Text) := do
  let (item, links) ← ofExcept (resolvePackedItem tables links item)
  let unpack := if item.pointerType = .nonPointer then unpackNonpointerItem child prot links item
    else unpackPointerItem child prot links item
  let (item, inPtr) ← unpack inPtr
  endItem
  return (links.next item, inPtr)

def unpackItems (child : ChildUnpacker) (tables : Tables) (prot : IrodsProt) :
    Links → List PackItem → Text → PackM Cell Text
  | _, [], inPtr => pure inPtr
  | links, item :: items, inPtr => do
    let (links, inPtr) ← unpackItem child tables prot links item inPtr
    unpackItems child tables prot links items inPtr

/-! ## Structs -/

/-- A struct whose start tag is missing is a null pointer, for an item with pointers. -/
def unpackElements (child : ChildUnpacker) (tables : Tables) (prot : IrodsProt) (item : PackItem)
    (links : Links) (packInstruct : Text) : (numElement : Nat) → Text → PackM Cell Text
  | 0, inPtr => pure inPtr
  | n + 1, inPtr => do
    let items ← ofExcept (parsePackInstruct packInstruct)
    match prot with
    | .native =>
      let inPtr ← unpackItems child tables prot (links.child item) items inPtr
      unpackElements child tables prot item links packInstruct n inPtr
    | .xml =>
      match parseStartTag item.name true inPtr with
      | none =>
        refuse (item.pointerType = .nonPointer) SYS_PACK_INSTRUCT_FORMAT_ERR
        addPointerToPackedOut .null
        unpackElements child tables prot item links packInstruct n inPtr
      | some (len, skip) =>
        let inPtr ← unpackItems child tables prot (links.child item) items (inPtr.drop (len + skip))
        match parseEndTag item.name inPtr with
        | none => throw (.status SYS_PACK_INSTRUCT_FORMAT_ERR)
        | some (len, skip) =>
          unpackElements child tables prot item links packInstruct n (inPtr.drop (len + skip))

def unpackChildStruct (tables : Tables) (prot : IrodsProt) : (depth : Nat) → ChildUnpacker
  | 0 => fun _ _ _ _ => throw .depth
  | depth + 1 => fun item links numElement inPtr =>
    if numElement = 0 then pure inPtr
    else
      match matchPackInstruct tables item.name with
      | none => throw (.status SYS_UNMATCH_PACK_INSTRUCTI_NAME)
      | some packInstruct =>
        unpackElements (unpackChildStruct tables prot depth) tables prot item links packInstruct numElement inPtr

/-- The struct is the fields in the buffer; the result is what is left of the input. -/
def unpackStruct (tables : Tables) (prot : IrodsProt) (depth : Nat) (packInstName inPackedStr : Text) :
    EStateM.Result Stop (PackedOutput Cell) Text :=
  let inPtr := match prot with
    | .native => inPackedStr
    | .xml => inPackedStr.takeWhile (· ≠ '\x00')
  unpackChildStruct tables prot depth { name := packInstName } {} 1 inPtr (initPackedOutput packedOutAllocSz)

end Pack
