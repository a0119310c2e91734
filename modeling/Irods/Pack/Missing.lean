-- SUMMARY: What is missing from an XML text, and when the caller is told.
import Irods.Pack.Numbers

/-!
# Missing items

A struct of bytes, strings and numbers is unpacked from XML. A string whose tags are not
there, or that is too long, ends the call with a status. The status of a number is taken
for a number that is negative and turned to 0, and the status of bytes is not looked at:
such a field is left as the memory was, and reading goes on at the place the reader had
got to. Whether the caller is told then depends on what comes later.
-/

namespace Pack

open CString EStateM
open List (append_nil drop_drop mem_cons suffix_refl)

/-! ## Items of one element after the other -/

/-- An item that is its own field: bytes, strings or numbers. -/
structure Flat (item : PackItem) : Prop where
  nonPointer : item.pointerType = .nonPointer
  typeInx : item.typeInx ∈ [PackTypeInx.char, .str, .int, .int16, .double]

/-- The tags of the names are in the text in this order, and between them the values. What
follows an end tag may begin inside of it. -/
inductive Found : Text → List (Text × Text) → Text → Prop where
  | nil {text rest : Text} : rest <:+ text → Found text [] rest
  | cons {junk name value behind rest : Text} {fields : List (Text × Text)} :
    Found ('/' :: (name ++ '>' :: behind)) fields rest →
    Found (junk ++ (startTag name false ++ (value ++ '<' :: '/' :: (name ++ '>' :: behind))))
      ((name, value) :: fields) rest

/-- How many values an item has in the text. -/
def numValues (item : PackItem) : Except Stop Nat :=
  match item.typeInx with
  | .char => .ok (if getNumElement item = 0 then 0 else 1)
  | .str => (strDims item.dimSize).map Prod.snd
  | _ => .ok (getNumElement item)

/-- The field, all of it written from these values. -/
def fieldOf (item : PackItem) (values : List Text) : Cell :=
  match item.typeInx with
  | .char => .chars values.flatten
  | .str => .strs (values.map xmlStrToStr)
  | .int => .ints (values.map atoi)
  | .int16 => .ints (values.map fun s => (atoi s).bmod (2 ^ 16))
  | _ => .ints (values.map strtoll)

/-- What an item keeps for the dimensions of later ones: the first number, unless it is
negative. -/
def saveFirst (item : PackItem) (values : List Text) : PackItem :=
  match item.typeInx with
  | .int => { item with intValue := max 0 ((values.map atoi).headD 0) }
  | .int16 => { item with intValue := max 0 ((values.map fun s => (atoi s).bmod (2 ^ 16)).headD 0) }
  | _ => item

/-- The fields are those of the items, each of all its values and all of its bytes, and the
tags of the items are in the text one after the other. -/
inductive Complete (tables : Tables) : Links → List PackItem → Text → List Cell → Text → Prop where
  | nil {links : Links} {text : Text} : Complete tables links [] text [] text
  | cons {links links' : Links} {item item' : PackItem} {items : List PackItem} {values : List Text}
    {text text' rest : Text} {cells : List Cell} :
    resolvePackedItem tables links item = .ok (item', links') →
    numValues item' = .ok values.length →
    (item'.typeInx = .char → values.flatten.length = getNumElement item') →
    Found text (values.map fun value => (item'.name, value)) text' →
    Complete tables (links'.next (saveFirst item' values)) items text' cells rest →
    Complete tables links (item :: items) text (fieldOf item' values :: cells) rest

/-! ## Reading the text -/

/-- What the text has for an item, and where reading goes on. -/
inductive ItemRead where
  | whole (values : List Text) (rest : Text)
  /-- Something is missing or of the wrong length, and nothing is said. -/
  | damaged (rest : Text)
  | reported
  | undefined
  deriving DecidableEq

/-- The numbers up to one that is missing or too long, and whether all are there. -/
def readNumbers (name : Text) : (numElement : Nat) → Text → List Text × Bool × Text
  | 0, text => ([], true, text)
  | n + 1, text =>
    match parseXmlValue name text with
    | (none, text) => ([], false, text)
    | (some (strLen, endTagLen), value) =>
      if strLen ≥ NAME_LEN then ([], false, value)
      else
        let (values, all, rest) := readNumbers name n (value.drop (strLen + endTagLen))
        (value.take strLen :: values, all, rest)

def readStrings (name : Text) (maxStrLen : Option Nat) : (numStr : Nat) → Text → Option (List Text × Text)
  | 0, text => some ([], text)
  | n + 1, text =>
    match parseXmlValue name text with
    | (none, _) => none
    | (some (strLen, _), value) =>
      if tooLong (xmlStrToStr (value.take strLen)).length maxStrLen then none
      else (readStrings name maxStrLen n (value.drop (strLen + 1))).map fun r => (value.take strLen :: r.1, r.2)

def readItem (item : PackItem) (text : Text) : ItemRead :=
  match item.typeInx with
  | .char =>
    let len := getNumElement item
    if len = 0 then .whole [] text
    else
      match parseXmlValue item.name text with
      | (none, _) => .undefined
      | (some (inLen, endTagLen), value) =>
        if inLen > len then .damaged value
        else if inLen < len then .damaged (value.drop (inLen + endTagLen))
        else .whole [value.take inLen] (value.drop (inLen + endTagLen))
  | .str =>
    match strDims item.dimSize with
    | .error _ => .undefined
    | .ok (maxStrLen, numStr) =>
      match readStrings item.name maxStrLen numStr text with
      | none => .reported
      | some (values, rest) => .whole values rest
  | _ =>
    match readNumbers item.name (getNumElement item) text with
    | (values, true, rest) => .whole values rest
    | (_, false, rest) => .damaged rest

/-- Once something is missing, the caller is told only if a later dimension cannot be
resolved, a later string is missing or too long, or the end tag of the struct is missing.
Bytes without their tags are never reported. -/
def Reported (tables : Tables) (name : Text) (damaged : Bool) : Links → List PackItem → Text → Prop
  | _, [], text => damaged = true → parseEndTag name text = none
  | links, item :: items, text =>
    match resolvePackedItem tables links item with
    | .error _ => True
    | .ok (item, links) =>
      match readItem item text with
      | .whole values rest => Reported tables name damaged (links.next (saveFirst item values)) items rest
      | .damaged rest => Reported tables name true (links.next (saveFirst item [])) items rest
      | .reported => True
      | .undefined => False

/-! ## Tags that are found -/

variable {name text rest : Text} {strLen endTagLen : Nat} {fields : List (Text × Text)} {values : List Text}

variable {len skip n : Nat}

theorem parseStartTag_some (h : parseStartTag name false text = some (len, skip)) :
    ∃ junk, text = junk ++ (startTag name false ++ text.drop (len + skip)) := by
  unfold parseStartTag at h
  cases hfind : strstr ['<'] text with
  | none => simp [hfind] at h
  | some n =>
    simp only [hfind] at h
    split at h
    case isFalse => cases h
    case isTrue htag =>
      obtain ⟨hpre, hclose⟩ := htag
      simp only [Bool.false_eq_true, false_and, if_false, Option.some.injEq, Prod.mk.injEq] at h
      obtain ⟨rfl, rfl⟩ := h
      obtain ⟨-, hopen, -⟩ := strstr_eq_some hfind
      obtain ⟨behind, hbehind⟩ := hopen
      obtain ⟨value, hvalue⟩ := List.isPrefixOf_iff_prefix.mp hpre
      have htail : text.drop (n + 1) = behind := by
        rw [← drop_drop, ← hbehind]
        rfl
      rw [htail] at hvalue hclose
      rw [← hvalue, List.getElem?_append_right le_rfl, Nat.sub_self] at hclose
      cases value with
      | nil => cases hclose
      | cons c rest =>
        obtain rfl : c = '>' := by simpa using hclose
        have hrest : text.drop (name.length + 2 + n) = rest := by
          have hsum : name.length + 2 + n = n + 1 + (name.length + 1) := by omega
          rw [hsum, ← drop_drop, htail, ← hvalue, ← drop_drop, List.drop_left]
          rfl
        refine ⟨text.take n, ?_⟩
        rw [hrest]
        conv => lhs; rw [← List.take_append_drop n text, ← hbehind, ← hvalue]
        simp [startTag]

theorem parseEndTag_some (hname : TagFits name) (h : parseEndTag name text = some (len, skip)) :
    ∃ behind, text = text.take skip ++ '<' :: '/' :: (name ++ '>' :: behind) ∧ 1 ≤ len := by
  have htake : ('<' :: '/' :: (name ++ ['>'])).take (MAX_NAME_LEN - 1) = '<' :: '/' :: (name ++ ['>']) := by
    refine List.take_of_length_le ?_
    simp only [List.length_cons, List.length_append, List.length_nil]
    exact Nat.le_sub_one_of_lt hname
  unfold parseEndTag at h
  rw [htake] at h
  obtain ⟨n, hfind, heq⟩ := Option.map_eq_some_iff.mp h
  simp only [Prod.mk.injEq] at heq
  obtain ⟨hlen, rfl⟩ := heq
  obtain ⟨-, htag, -⟩ := strstr_eq_some hfind
  obtain ⟨behind, hbehind⟩ := htag
  refine ⟨behind, ?_, ?_⟩
  · conv => lhs; rw [← List.take_append_drop n text, ← hbehind]
    simp
  · rw [← hlen]
    split <;> omega

/-- A value that is found, its tags, and where reading can go on. -/
theorem parseXmlValue_some {value : Text} (hname : TagFits name)
    (h : parseXmlValue name text = (some (strLen, endTagLen), value)) :
    1 ≤ endTagLen ∧ ∃ junk behind,
      text = junk ++ (startTag name false ++ (value.take strLen ++ '<' :: '/' :: (name ++ '>' :: behind))) ∧
      ∀ k, 1 ≤ k → value.drop (strLen + k) <:+ '/' :: (name ++ '>' :: behind) := by
  unfold parseXmlValue at h
  cases hstart : parseStartTag name false text with
  | none => simp [hstart] at h
  | some start =>
    obtain ⟨len, skip⟩ := start
    simp only [hstart] at h
    cases hend : parseEndTag name (text.drop (len + skip)) with
    | none => simp [hend] at h
    | some stop =>
      obtain ⟨len', skip'⟩ := stop
      simp only [hend, Prod.mk.injEq, Option.some.injEq] at h
      obtain ⟨⟨rfl, rfl⟩, rfl⟩ := h
      obtain ⟨junk, hjunk⟩ := parseStartTag_some hstart
      obtain ⟨behind, hbehind, hlen⟩ := parseEndTag_some hname hend
      have hdrop : (text.drop (len + skip)).drop skip' = '<' :: '/' :: (name ++ '>' :: behind) := by
        have happend := (List.take_append_drop skip' (text.drop (len + skip))).trans hbehind
        exact List.append_cancel_left happend
      refine ⟨hlen, junk, behind, ?_, fun k hk => ?_⟩
      · rw [← hbehind]
        exact hjunk
      · obtain ⟨k, rfl⟩ : ∃ m, k = m + 1 := ⟨k - 1, by omega⟩
        rw [← drop_drop, hdrop, List.drop_succ_cons]
        exact List.drop_suffix _ _

theorem parseXmlValue_len {value : Text} (h : parseXmlValue name text = (some (strLen, endTagLen), value)) :
    strLen ≤ value.length := by
  unfold parseXmlValue at h
  cases hstart : parseStartTag name false text with
  | none => simp [hstart] at h
  | some start =>
    simp only [hstart] at h
    cases hend : parseEndTag name (text.drop (start.1 + start.2)) with
    | none => simp [hend] at h
    | some stop =>
      simp only [hend, Prod.mk.injEq, Option.some.injEq] at h
      obtain ⟨⟨rfl, rfl⟩, rfl⟩ := h
      obtain ⟨n, hfind, heq⟩ := Option.map_eq_some_iff.mp hend
      rw [← heq]
      exact (strstr_eq_some hfind).1

theorem Found.behind (h : Found text fields rest) (front : Text) : Found (front ++ text) fields rest := by
  cases h with
  | nil hrest => exact .nil (hrest.trans (List.suffix_append _ _))
  | cons hrest =>
    rw [← List.append_assoc]
    exact .cons hrest

theorem Found.of_suffix {text' : Text} (h : Found text fields rest) (hsuffix : text <:+ text') :
    Found text' fields rest := by
  obtain ⟨front, rfl⟩ := hsuffix
  exact h.behind front

/-- A value in front of those that are found from where reading goes on. -/
theorem Found.value {value : Text} (hname : TagFits name) {k : Nat}
    (h : parseXmlValue name text = (some (strLen, endTagLen), value)) (hk : 1 ≤ k)
    (hrest : Found (value.drop (strLen + k)) fields rest) : Found text ((name, value.take strLen) :: fields) rest := by
  obtain ⟨-, junk, behind, htext, hsuffix⟩ := parseXmlValue_some hname h
  rw [htext]
  exact .cons (hrest.of_suffix (hsuffix k hk))

theorem readNumbers_found (hname : TagFits name) (h : readNumbers name n text = (values, true, rest)) :
    values.length = n ∧ Found text (values.map fun value => (name, value)) rest := by
  induction n generalizing text values with
  | zero =>
    obtain ⟨rfl, rfl⟩ := h
    exact ⟨rfl, .nil (suffix_refl _)⟩
  | succ n ih =>
    simp only [readNumbers] at h
    split at h
    case h_1 => simp at h
    case h_2 strLen endTagLen value hvalue =>
      split at h
      case isTrue => simp at h
      case isFalse =>
        obtain ⟨values', all, rest', hread⟩ : ∃ values' all rest',
          readNumbers name n (value.drop (strLen + endTagLen)) = (values', all, rest') := ⟨_, _, _, rfl⟩
        simp only [hread, Prod.mk.injEq] at h
        obtain ⟨rfl, rfl, rfl⟩ := h
        obtain ⟨hlen, hfound⟩ := ih hread
        exact ⟨by simp [hlen], .value hname hvalue (parseXmlValue_some hname hvalue).1 hfound⟩

theorem readStrings_found (hname : TagFits name) {maxStrLen : Option Nat}
    (h : readStrings name maxStrLen n text = some (values, rest)) :
    values.length = n ∧ Found text (values.map fun value => (name, value)) rest := by
  induction n generalizing text values with
  | zero =>
    obtain ⟨rfl, rfl⟩ := h
    exact ⟨rfl, .nil (suffix_refl _)⟩
  | succ n ih =>
    simp only [readStrings] at h
    split at h
    case h_1 => cases h
    case h_2 strLen endTagLen value hvalue =>
      split at h
      case isTrue => cases h
      case isFalse =>
        obtain ⟨r, hread, heq⟩ := Option.map_eq_some_iff.mp h
        obtain ⟨rfl, rfl⟩ := heq
        obtain ⟨hlen, hfound⟩ := ih hread
        exact ⟨by simp [hlen], .value hname hvalue le_rfl hfound⟩

/-- An item that is there as a whole has all its values, with their tags. -/
theorem readItem_whole {item : PackItem} (hitem : Flat item) (hname : TagFits item.name)
    (h : readItem item text = .whole values rest) :
    numValues item = .ok values.length ∧
      (item.typeInx = .char → values.flatten.length = getNumElement item) ∧
      Found text (values.map fun value => (item.name, value)) rest := by
  have htype := hitem.typeInx
  have hnumbers : readNumbers item.name (getNumElement item) text = (values, true, rest) →
      values.length = getNumElement item ∧ Found text (values.map fun value => (item.name, value)) rest :=
    readNumbers_found hname
  cases hinx : item.typeInx with
  | char =>
    simp only [readItem, hinx] at h
    simp only [numValues, hinx]
    by_cases hzero : getNumElement item = 0
    · simp only [hzero, if_true, ItemRead.whole.injEq] at h
      obtain ⟨rfl, rfl⟩ := h
      exact ⟨by simp [hzero], fun _ => by simp [hzero], .nil (suffix_refl _)⟩
    · rw [if_neg hzero] at h
      split at h
      case h_1 => cases h
      case h_2 inLen endTagLen value hvalue =>
        split at h
        case isTrue => cases h
        case isFalse hlong =>
          split at h
          case isTrue => cases h
          case isFalse hshort =>
            obtain ⟨rfl, rfl⟩ := h
            obtain ⟨hend, junk, behind, htext, hsuffix⟩ := parseXmlValue_some hname hvalue
            have hlen : (value.take inLen).length = inLen := by
              have hparse := parseXmlValue_len hvalue
              rw [List.length_take]
              omega
            refine ⟨by simp [hzero], fun _ => ?_, .value hname hvalue hend (.nil (suffix_refl _))⟩
            simp only [List.flatten_cons, List.flatten_nil, append_nil, hlen]
            omega
  | str =>
    simp only [readItem, hinx] at h
    simp only [numValues, hinx]
    cases hdims : strDims item.dimSize with
    | error stop => simp [hdims] at h
    | ok dims =>
      obtain ⟨maxStrLen, numStr⟩ := dims
      simp only [hdims] at h
      cases hread : readStrings item.name maxStrLen numStr text with
      | none => simp [hread] at h
      | some r =>
        simp only [hread, ItemRead.whole.injEq] at h
        obtain ⟨rfl, rfl⟩ := h
        obtain ⟨hlen, hfound⟩ := readStrings_found hname hread
        exact ⟨by rw [hlen]; rfl, nofun, hfound⟩
  | int | int16 | double =>
    simp only [readItem, hinx] at h
    simp only [numValues, hinx]
    split at h
    case h_2 => cases h
    case h_1 values' rest' hread =>
      obtain ⟨rfl, rfl⟩ := h
      obtain ⟨hlen, hfound⟩ := hnumbers hread
      exact ⟨by rw [hlen], nofun, hfound⟩
  | bin | piStr | struct | dependent | intDependent => simp [hinx] at htype

/-! ## Unpacking follows the reading -/

theorem addCell_emits (cell : Cell) (newLen : Nat → Nat) : Emits PackedOutput.buf (addCell cell newLen) ⟨⟩ [cell] :=
  .modify fun _ => rfl

theorem addLen_emits (len : Nat) : Emits PackedOutput.buf (addLen len) ⟨⟩ [] :=
  .modify fun _ => (append_nil _).symm

theorem endItem_emits {α : Type} : Emits (PackedOutput.buf (α := α)) endItem ⟨⟩ [] :=
  .modify fun _ => (append_nil _).symm

section

variable {item : PackItem}

variable (size : Nat) (read : Text → Int)

theorem xmlNumbers_whole (h : readNumbers name n text = (values, true, rest)) :
    xmlNumbers read name n text = (values.map read, none, rest) := by
  induction n generalizing text values with
  | zero =>
    obtain ⟨rfl, rfl⟩ := h
    rfl
  | succ n ih =>
    simp only [readNumbers] at h
    split at h
    case h_1 => simp at h
    case h_2 strLen endTagLen value hvalue =>
      split at h
      case isTrue => simp at h
      case isFalse hfits =>
        simp only [Prod.mk.injEq] at h
        obtain ⟨rfl, hall, hrest⟩ := h
        simp only [xmlNumbers, hvalue, if_neg hfits, ih (Prod.ext rfl (Prod.ext hall hrest)), List.map_cons]

theorem xmlNumbers_damaged (h : readNumbers name n text = (values, false, rest)) :
    ∃ status < 0, xmlNumbers read name n text = (values.map read, some status, rest) := by
  induction n generalizing text values with
  | zero => simp [readNumbers] at h
  | succ n ih =>
    simp only [readNumbers] at h
    split at h
    case h_1 inPtr hvalue =>
      obtain ⟨rfl, rfl⟩ := h
      refine ⟨SYS_PACK_INSTRUCT_FORMAT_ERR, by decide, ?_⟩
      simp only [xmlNumbers, hvalue, List.map_nil]
    case h_2 strLen endTagLen value hvalue =>
      split at h
      case isTrue hlong =>
        obtain ⟨rfl, rfl⟩ := h
        refine ⟨USER_PACKSTRUCT_INPUT_ERR, by decide, ?_⟩
        simp only [xmlNumbers, hvalue, if_pos hlong, List.map_nil]
      case isFalse hfits =>
        simp only [Prod.mk.injEq] at h
        obtain ⟨rfl, hall, hrest⟩ := h
        obtain ⟨status, hneg, hread⟩ := ih (Prod.ext rfl (Prod.ext hall hrest))
        refine ⟨status, hneg, ?_⟩
        simp only [xmlNumbers, hvalue, if_neg hfits, hread, List.map_cons]

theorem unpackNumbers_whole (h : readNumbers item.name n text = (values, true, rest)) :
    Emits PackedOutput.buf (unpackNumbers size read .xml item n text)
      (max 0 ((values.map read).headD 0), rest) [.ints (values.map read)] := by
  unfold unpackNumbers
  by_cases hzero : n = 0
  · subst hzero
    obtain ⟨rfl, rfl⟩ := h
    exact .bind_last (addCell_emits _ _) (.pure _)
  · simp only [hzero, if_false, unpackNumbersToOutPtr, xmlNumbers_whole read h]
    refine .bind_silent (.pure _) (.bind_silent (store_emits _ _ _ _) ?_)
    exact .bind_last (addCell_emits _ _) (.pure _)

/-- A number that is not there leaves the field unset, and 0 is what the item keeps. -/
theorem unpackNumbers_damaged (h : readNumbers item.name n text = (values, false, rest)) :
    Emits PackedOutput.buf (unpackNumbers size read .xml item n text) (0, rest) [.unset] := by
  have hzero : n ≠ 0 := by
    rintro rfl
    simp [readNumbers] at h
  obtain ⟨status, hneg, hread⟩ := xmlNumbers_damaged read h
  have hclamp : max 0 status = 0 := by omega
  unfold unpackNumbers
  simp only [hzero, if_false, unpackNumbersToOutPtr, hread]
  refine .bind_silent (.pure _) (.bind_silent (store_emits _ _ _ _) (.bind_last (addCell_emits _ _) ?_))
  rw [hclamp]
  exact .pure _

theorem storeXmlString_emits (strLen : Nat) (maxStrLen : Option Nat) :
    Emits PackedOutput.buf (storeXmlString strLen maxStrLen) ⟨⟩ [] := by
  cases maxStrLen with
  | none => exact .bind_silent (store_emits _ _ _ _) (addLen_emits _)
  | some maxStrLen => exact .bind_silent (store_emits _ _ _ _) (addLen_emits _)

variable {maxStrLen : Option Nat}

theorem unpackStrings_whole (h : readStrings item.name maxStrLen n text = some (values, rest)) :
    Emits PackedOutput.buf (unpackStrings .xml item maxStrLen n text) (values.map xmlStrToStr, rest) [] := by
  induction n generalizing text values with
  | zero =>
    obtain ⟨rfl, rfl⟩ := h
    exact .pure _
  | succ n ih =>
    simp only [readStrings] at h
    split at h
    case h_1 => cases h
    case h_2 strLen endTagLen value hvalue =>
      split at h
      case isTrue => cases h
      case isFalse hfits =>
        obtain ⟨r, hread, heq⟩ := Option.map_eq_some_iff.mp h
        obtain ⟨rfl, rfl⟩ := heq
        have hone : Emits PackedOutput.buf (unpackString .xml item maxStrLen text)
            (xmlStrToStr (value.take strLen), value.drop (strLen + 1)) [] := by
          simp only [unpackString, unpackXmlString, hvalue, refuse, hfits, Bool.false_eq_true, if_false]
          exact .bind_silent (.pure _) (.bind_silent (storeXmlString_emits _ _) (.pure _))
        exact .bind_silent hone (.bind_silent (ih hread) (.pure _))

/-- A string that is missing or too long is reported. -/
theorem unpackStrings_reported (h : readStrings item.name maxStrLen n text = none) :
    ∃ status, Stops (unpackStrings .xml item maxStrLen n text) (.status status) := by
  induction n generalizing text with
  | zero => simp [readStrings] at h
  | succ n ih =>
    simp only [readStrings] at h
    split at h
    case h_1 inPtr hvalue =>
      simp only [unpackStrings, unpackString, unpackXmlString, hvalue]
      exact ⟨_, (Stops.throw _).bind _⟩
    case h_2 strLen endTagLen value hvalue =>
      simp only [unpackStrings, unpackString, unpackXmlString, hvalue]
      split at h
      case isTrue hlong =>
        simp only [refuse, hlong, if_true]
        exact ⟨_, ((Stops.throw _).bind _).bind _⟩
      case isFalse hfits =>
        obtain ⟨status, hstop⟩ := ih (Option.map_eq_none_iff.mp h)
        refine ⟨status, .bind_right PackedOutput.buf
          (?_ : Emits _ _ (xmlStrToStr (value.take strLen), value.drop (strLen + 1)) []) (hstop.bind _)⟩
        simp only [refuse, hfits, Bool.false_eq_true, if_false]
        exact .bind_silent (.pure _) (.bind_silent (storeXmlString_emits _ _) (.pure _))

/-- What unpacking an item does, as its reading says; `f` is made of the item. -/
def ReadsAs {β : Type} (m : PackM Cell (β × Text)) (f : PackItem → β) (item : PackItem) : ItemRead → Prop
  | .whole values rest => Emits PackedOutput.buf m (f (saveFirst item values), rest) [fieldOf item values]
  | .damaged rest => Emits PackedOutput.buf m (f (saveFirst item []), rest) [.unset]
  | .reported => ∃ status, Stops m (.status status)
  | .undefined => Stops m .undefined

variable (child : ChildUnpacker) (links : Links)

theorem unpackChar_outcome (hinx : item.typeInx = .char) (text : Text) :
    ReadsAs (unpackNonpointerItem child .xml links item text) id item (readItem item text) := by
  have hsave : ∀ values, saveFirst item values = item := by
    intro values
    simp only [saveFirst, hinx]
  have hfield : ∀ values, fieldOf item values = .chars values.flatten := by
    intro values
    simp only [fieldOf, hinx]
  have hsize : getNumElement item * PackTypeInx.char.size = getNumElement item := Nat.mul_one _
  simp only [unpackNonpointerItem, readItem, hinx, hsize, unpackChar]
  by_cases hzero : getNumElement item = 0
  · simp only [hzero, if_true, ReadsAs, id_eq, hsave, hfield]
    exact .bind_last (.bind_last (addCell_emits _ _) (.pure _)) (.pure _)
  simp only [hzero, if_false, unpackCharToOutPtr]
  cases hvalue : parseXmlValue item.name text with
  | mk found value =>
    cases found with
    | none => exact ((Stops.throw _).bind _).bind _
    | some lens =>
      obtain ⟨inLen, endTagLen⟩ := lens
      by_cases hlong : inLen > getNumElement item
      · simp only [hinx, reduceCtorEq, if_false, hlong, if_true, ReadsAs, id_eq, hsave]
        refine .bind_last (.bind_silent (.pure _) (.bind_silent (store_emits _ _ _ _) ?_)) (.pure _)
        exact .bind_last (addCell_emits _ _) (.pure _)
      by_cases hshort : inLen < getNumElement item
      · simp only [hinx, reduceCtorEq, if_false, hlong, hshort, if_true, ReadsAs, id_eq, hsave]
        refine .bind_last (.bind_silent (.pure _) (.bind_silent (store_emits _ _ _ _) ?_)) (.pure _)
        exact .bind_last (addCell_emits _ _) (.pure _)
      · simp only [hinx, reduceCtorEq, if_false, hlong, hshort, ReadsAs, id_eq, hsave, hfield, List.flatten_cons,
          List.flatten_nil, append_nil]
        refine .bind_last (.bind_silent (.pure _) (.bind_silent (store_emits _ _ _ _) ?_)) (.pure _)
        exact .bind_last (addCell_emits _ _) (.pure _)

theorem unpackStr_outcome (hinx : item.typeInx = .str) (text : Text) :
    ReadsAs (unpackNonpointerItem child .xml links item text) id item (readItem item text) := by
  have hsave : ∀ values, saveFirst item values = item := by
    intro values
    simp only [saveFirst, hinx]
  have hfield : ∀ values, fieldOf item values = .strs (values.map xmlStrToStr) := by
    intro values
    simp only [fieldOf, hinx]
  simp only [unpackNonpointerItem, readItem, hinx]
  cases hdims : strDims item.dimSize with
  | error stop =>
    have hstop : stop = .undefined := by
      unfold strDims at hdims
      split at hdims <;> cases hdims
      rfl
    rw [hstop]
    exact (Stops.throw _).bind _
  | ok dims =>
    obtain ⟨maxStrLen, numStr⟩ := dims
    cases hread : readStrings item.name maxStrLen numStr text with
    | none =>
      obtain ⟨status, hstop⟩ := unpackStrings_reported hread
      simp only [hread, ReadsAs]
      exact ⟨status, .bind_right PackedOutput.buf (.pure _) (hstop.bind _)⟩
    | some r =>
      simp only [hread, ReadsAs, id_eq, hsave, hfield]
      refine .bind_silent (.pure _) (.bind_silent (unpackStrings_whole hread) ?_)
      exact .bind_last (addCell_emits _ _) (.pure _)

theorem unpackNonpointerItem_outcome (hitem : Flat item) (text : Text) :
    ReadsAs (unpackNonpointerItem child .xml links item text) id item (readItem item text) := by
  have htype := hitem.typeInx
  cases hinx : item.typeInx with
  | char => exact unpackChar_outcome child links hinx text
  | str => exact unpackStr_outcome child links hinx text
  | int | int16 | double =>
    simp only [unpackNonpointerItem, readItem, hinx]
    obtain ⟨values, all, rest, hread⟩ : ∃ values all rest,
      readNumbers item.name (getNumElement item) text = (values, all, rest) := ⟨_, _, _, rfl⟩
    simp only [hread]
    cases all with
    | true =>
      simp only [ReadsAs, saveFirst, fieldOf, hinx, id_eq]
      exact .bind_last (unpackNumbers_whole _ _ hread) (.pure _)
    | false =>
      simp only [ReadsAs, saveFirst, hinx, id_eq]
      exact .bind_last (unpackNumbers_damaged _ _ hread) (.pure _)
  | bin | piStr | struct | dependent | intDependent => simp [hinx] at htype

end

/-! ## Dimensions and names -/

variable {buf : Text}

theorem scanDims_error {resolve : Text → Int} {opened : Open} {dims hints : List Nat} {stop : Stop}
    (h : scanDims resolve opened buf dims hints text = .error stop) : ∃ status, stop = .status status := by
  induction text generalizing opened buf dims hints with
  | nil => cases h
  | cons c rest ih =>
    simp only [scanDims] at h
    split_ifs at h
    all_goals first
      | exact ih h
      | (cases h; exact ⟨_, rfl⟩)

/-- The dimensions of a flat item are taken off its name, or the call ends. -/
theorem resolvePackedItem_flat (tables : Tables) (links : Links) {item : PackItem} (hitem : Flat item) :
    (∃ status, resolvePackedItem tables links item = .error (.status status)) ∨
      ∃ item', resolvePackedItem tables links item = .ok (item', links) ∧ Flat item' ∧
        item'.name.length ≤ item.name.length := by
  have htype := hitem.typeInx
  have hdependent : iparseDependent tables links item = .ok (item, links) := by
    unfold iparseDependent
    cases hinx : item.typeInx <;> simp_all
  unfold resolvePackedItem resolveDepInArray
  simp only [hdependent, bind, Except.bind]
  cases hdims : scanDims (resolveIntInItem tables links) .none [] [] [] item.name with
  | error stop =>
    obtain ⟨status, rfl⟩ := scanDims_error hdims
    exact .inl ⟨status, rfl⟩
  | ok dims =>
    exact .inr ⟨_, rfl, ⟨hitem.nonPointer, hitem.typeInx⟩, (List.takeWhile_sublist _).length_le⟩

def ShortNames (p : Parse) : Prop :=
  (∀ item ∈ p.queued, item.name.length < maxPiLen) ∧ ∀ item, p.myPackItem = some item → item.name.length < maxPiLen

variable {p : Parse} {inptr : Text}

theorem ShortNames.item (h : ShortNames p) : (p.myPackItem.getD {}).name.length < maxPiLen := by
  cases hitem : p.myPackItem with
  | none => decide
  | some item => exact h.2 item hitem

theorem ShortNames.set (h : ShortNames p) (item : PackItem) (hitem : item.name.length < maxPiLen) (cast name : Bool) :
    ShortNames ⟨some item, cast, name, p.queued⟩ := by
  refine ⟨h.1, fun item' heq => ?_⟩
  cases heq
  exact hitem

variable {p' : Parse} {inptr' : Text} {items : List PackItem}

theorem ShortNames.pointer (h : ShortNames p) {item : PackItem} (hitem : item.name.length < maxPiLen)
    {pointerType : PointerType} (hstep : (p.pointer item pointerType).map (·, inptr) = .ok (p', inptr')) :
    ShortNames p' := by
  unfold Parse.pointer at hstep
  split at hstep
  · cases hstep
  · cases hstep
    exact h.set { item with pointerType := pointerType } hitem _ _

/-- An instruction's strings are refused where they are too long for a name. -/
theorem ShortNames.step (h : ShortNames p) (hbuf : buf.length < maxPiLen)
    (hstep : p.step buf inptr = .ok (p', inptr')) : ShortNames p' := by
  have hitem := h.item
  simp only [Parse.step] at hstep
  split_ifs at hstep
  · cases hstep
    exact h.set _ hitem _ _
  · cases hstep
    refine ⟨fun item hmem => ?_, nofun⟩
    rcases mem_cons.mp hmem with rfl | hold
    · exact hitem
    · exact h.1 item hold
  · rename_i hlong
    cases hstep
    exact h.set { p.myPackItem.getD {} with
      typeInx := .intDependent, name := (copyStrFromPiBuf true [] inptr).1 } (Nat.lt_of_not_le hlong) _ _
  · cases hstep
    exact h.set { p.myPackItem.getD {} with
      typeInx := .dependent, strValue := (p.myPackItem.getD {}).strValue } hitem _ _
  · cases hstep
    exact h.set { p.myPackItem.getD {} with
      typeInx := .dependent, strValue := (copyStrFromPiBuf false [] inptr).1 } hitem _ _
  · exact h.pointer hitem hstep
  · exact h.pointer hitem hstep
  · exact h.pointer hitem hstep
  · cases hstep
    exact h.set { p.myPackItem.getD {} with name := buf } hbuf _ _
  · cases htype : packTypeLookup buf with
    | none => simp [htype] at hstep
    | some typeInx =>
      simp only [htype, Except.ok.injEq, Prod.mk.injEq] at hstep
      obtain ⟨rfl, -⟩ := hstep
      exact h.set { p.myPackItem.getD {} with typeInx := typeInx } hitem _ _

theorem parseItems_short (h : ShortNames p) (hparse : parseItems n p inptr = .ok items) :
    ∀ item ∈ items, item.name.length < maxPiLen := by
  induction n generalizing p inptr with
  | zero => cases hparse
  | succ n ih =>
    simp only [parseItems] at hparse
    split at hparse
    · cases hitem : p.myPackItem with
      | some item => simp [hitem] at hparse
      | none =>
        simp only [hitem, Except.ok.injEq] at hparse
        subst hparse
        exact fun item hmem => h.1 item (List.mem_reverse.mp hmem)
    · split at hparse
      · cases hparse
      · rename_i hshort
        cases hstep : p.step (copyStrFromPiBuf false [] inptr).1 (copyStrFromPiBuf false [] inptr).2 with
        | error stop => simp [hstep] at hparse
        | ok r =>
          simp only [hstep] at hparse
          exact ih (h.step (Nat.lt_of_not_le hshort) hstep) hparse

/-- The end tags of an instruction's items fit in the buffer they are printed to. -/
theorem parsePackInstruct_tagFits {packInstruct : Text} (h : parsePackInstruct packInstruct = .ok items) :
    ∀ item ∈ items, TagFits item.name := by
  intro item hmem
  have hshort := parseItems_short (p := {}) ⟨nofun, nofun⟩ h item hmem
  unfold maxPiLen at hshort
  unfold TagFits MAX_NAME_LEN MAX_PATH_ALLOWED
  omega

/-! ## Structs -/

theorem fieldOf_ne_unset (item : PackItem) (values : List Text) : fieldOf item values ≠ .unset := by
  unfold fieldOf
  split <;> simp

variable {tables : Tables} {links : Links} {items : List PackItem}

theorem Complete.not_unset {cells : List Cell} (h : Complete tables links items text cells rest) :
    Cell.unset ∉ cells := by
  induction h with
  | nil => exact List.not_mem_nil
  | cons _ _ _ _ _ ih =>
    intro hmem
    rcases mem_cons.mp hmem with heq | hmem
    · exact fieldOf_ne_unset _ _ heq.symm
    · exact ih hmem

/-- What unpacking the items of a struct comes to: fields that are complete unless one of
them is unset, or an end with a status, or one that is not defined. `damaged` says that
something was missing before. -/
def ItemsEnd (tables : Tables) (name : Text) (damaged : Bool) (links : Links) (items : List PackItem)
    (text : Text) (m : PackM Cell Text) : Prop :=
  (∃ cells rest, Emits PackedOutput.buf m rest cells ∧
    (Complete tables links items text cells rest ∨ Cell.unset ∈ cells) ∧
    (Reported tables name damaged links items text ↔
      (damaged = true ∨ Cell.unset ∈ cells → parseEndTag name rest = none))) ∨
  (∃ status, Stops m (.status status) ∧ Reported tables name damaged links items text) ∨
  (Stops m .undefined ∧ ¬ Reported tables name damaged links items text)

variable {links' : Links}

theorem unpackItem_outcome {item item' : PackItem} (child : ChildUnpacker)
    (hresolve : resolvePackedItem tables links item = .ok (item', links')) (hitem' : Flat item') (text : Text) :
    ReadsAs (unpackItem child tables .xml links item text) links'.next item' (readItem item' text) := by
  have hread := unpackNonpointerItem_outcome child links' hitem' text
  unfold unpackItem
  simp only [hresolve]
  cases hcase : readItem item' text with
  | whole values rest =>
    rw [hcase] at hread
    refine .bind_silent (.pure _) ?_
    simp only [hitem'.nonPointer, if_true]
    exact .bind_last hread (.bind_silent endItem_emits (.pure _))
  | damaged rest =>
    rw [hcase] at hread
    refine .bind_silent (.pure _) ?_
    simp only [hitem'.nonPointer, if_true]
    exact .bind_last hread (.bind_silent endItem_emits (.pure _))
  | reported =>
    rw [hcase] at hread
    obtain ⟨status, hstop⟩ := hread
    refine ⟨status, .bind_right PackedOutput.buf (.pure _) ?_⟩
    simp only [hitem'.nonPointer, if_true]
    exact hstop.bind _
  | undefined =>
    rw [hcase] at hread
    refine .bind_right PackedOutput.buf (.pure _) ?_
    simp only [hitem'.nonPointer, if_true]
    exact Stops.bind _ hread

/-- The rest of the items behind one that gave a field. -/
theorem ItemsEnd.after {damaged damaged' : Bool} {item : PackItem} {cell : Cell} {m : PackM Cell (Links × Text)}
    {k : Links × Text → PackM Cell Text} (hm : Emits PackedOutput.buf m (links', rest) [cell])
    (hreported : Reported tables name damaged links (item :: items) text ↔
      Reported tables name damaged' links' items rest)
    (hdamaged : damaged' = true ↔ damaged = true ∨ Cell.unset = cell)
    (hcomplete : ∀ cells rest', Complete tables links' items rest cells rest' →
      Complete tables links (item :: items) text (cell :: cells) rest' ∨ Cell.unset = cell)
    (h : ItemsEnd tables name damaged' links' items rest (k (links', rest))) :
    ItemsEnd tables name damaged links (item :: items) text (m >>= k) := by
  rcases h with ⟨cells, rest', hk, hfields, hreport⟩ | ⟨status, hk, hreport⟩ | ⟨hk, hreport⟩
  · refine .inl ⟨cell :: cells, rest', hm.bind hk, ?_, ?_⟩
    · rcases hfields with hdone | hunset
      · rcases hcomplete cells rest' hdone with h | h
        · exact .inl h
        · exact .inr (h ▸ List.mem_cons_self)
      · exact .inr (List.mem_cons_of_mem _ hunset)
    · rw [hreported, hreport, hdamaged, mem_cons, or_assoc]
  · exact .inr (.inl ⟨status, .bind_right _ hm hk, hreported.mpr hreport⟩)
  · exact .inr (.inr ⟨.bind_right _ hm hk, fun h => hreport (hreported.mp h)⟩)

theorem unpackItems_end (tables : Tables) (name : Text) (child : ChildUnpacker)
    (hitems : ∀ item ∈ items, Flat item ∧ TagFits item.name) (damaged : Bool) (links : Links) (text : Text) :
    ItemsEnd tables name damaged links items text (unpackItems child tables .xml links items text) := by
  induction items generalizing damaged links text with
  | nil => exact .inl ⟨[], text, .pure _, .inl .nil, by simp [Reported]⟩
  | cons item items ih =>
    obtain ⟨hitem, hname⟩ := hitems item List.mem_cons_self
    have hrest := fun damaged links text => ih (fun item hmem => hitems item (List.mem_cons_of_mem _ hmem))
      damaged links text
    rcases resolvePackedItem_flat tables links hitem with ⟨status, hresolve⟩ | ⟨item', hresolve, hitem', hshort⟩
    · have hstop : Stops (unpackItem child tables .xml links item text) (.status status) := by
        unfold unpackItem
        rw [hresolve]
        exact (Stops.throw _).bind _
      exact .inr (.inl ⟨status, hstop.bind _, by simp only [Reported, hresolve]⟩)
    have hname' : TagFits item'.name := by
      unfold TagFits at hname ⊢
      omega
    have hone := unpackItem_outcome child hresolve hitem' text
    cases hcase : readItem item' text with
    | whole values rest =>
      rw [hcase] at hone
      obtain ⟨hcount, hchars, hfound⟩ := readItem_whole hitem' hname' hcase
      refine ItemsEnd.after hone ?_ ?_ ?_ (hrest damaged _ rest)
      · simp only [Reported, hresolve, hcase]
      · simp [(fieldOf_ne_unset item' values).symm]
      · exact fun cells rest' h => .inl (.cons hresolve hcount hchars hfound h)
    | damaged rest =>
      rw [hcase] at hone
      refine ItemsEnd.after hone ?_ ?_ ?_ (hrest true _ rest)
      · simp only [Reported, hresolve, hcase]
      · simp
      · exact fun cells rest' h => .inr rfl
    | reported =>
      rw [hcase] at hone
      obtain ⟨status, hstop⟩ := hone
      exact .inr (.inl ⟨status, hstop.bind _, by simp only [Reported, hresolve, hcase]⟩)
    | undefined =>
      rw [hcase] at hone
      exact .inr (.inr ⟨Stops.bind _ hone, by simp only [Reported, hresolve, hcase, not_false_eq_true]⟩)

/-- The links of the first item of a struct that is unpacked. -/
def firstLinks (name : Text) : Links := ({} : Links).child { name := name }

/-- The fields are complete, and the tags of the struct are around those of the items. -/
def StructComplete (tables : Tables) (name : Text) (items : List PackItem) (text : Text) (cells : List Cell) : Prop :=
  ∃ len skip rest, parseStartTag name true text = some (len, skip) ∧
    Complete tables (firstLinks name) items (text.drop (len + skip)) cells rest ∧ parseEndTag name rest ≠ none

/-- A call that returns without an error has given a struct that is complete, and one that
does not ends with a status. -/
def Reports (tables : Tables) (name : Text) (items : List PackItem) (text : Text) :
    EStateM.Result Stop (PackedOutput Cell) Text → Prop
  | .ok _ out => StructComplete tables name items text out.buf
  | .error stop _ => ∃ status, stop = .status status

/-- The condition on the text, from the start tag of the struct on. -/
def MissingReported (tables : Tables) (name : Text) (items : List PackItem) (text : Text) : Prop :=
  match parseStartTag name true text with
  | none => True
  | some (len, skip) => Reported tables name false (firstLinks name) items (text.drop (len + skip))

theorem unpackElements_reports (tables : Tables) (child : ChildUnpacker) {packInstruct : Text}
    (hparse : parsePackInstruct packInstruct = .ok items) (hflat : ∀ item ∈ items, Flat item) (text : Text)
    (out : PackedOutput Cell) (hout : out.buf = []) :
    Reports tables name items text
        (unpackElements child tables .xml { name := name } {} packInstruct 1 text out) ↔
      MissingReported tables name items text := by
  have hitems : ∀ item ∈ items, Flat item ∧ TagFits item.name := fun item hmem =>
    ⟨hflat item hmem, parsePackInstruct_tagFits hparse item hmem⟩
  unfold unpackElements MissingReported
  simp only [hparse]
  cases hstart : parseStartTag name true text with
  | none =>
    -- the struct itself is missing
    simp only [iff_true]
    exact ⟨_, rfl⟩
  | some start =>
    obtain ⟨len, skip⟩ := start
    dsimp only
    have hitemsRun : ∀ k : List PackItem → PackM Cell Text, (ofExcept (.ok items) >>= k) out = k items out :=
      fun _ => rfl
    have hlinks : ({} : Links).child { name := name } = firstLinks name := rfl
    rcases unpackItems_end tables name child hitems false (firstLinks name) (text.drop (len + skip)) with
      ⟨cells, rest, hemits, hfields, hreport⟩ | ⟨status, hstop, hreport⟩ | ⟨hstop, hreport⟩
    · obtain ⟨out', hrun, hbuf⟩ := hemits out
      rw [hout, List.nil_append] at hbuf
      rw [hitemsRun, hlinks, bind_run hrun, hreport]
      cases hend : parseEndTag name rest with
      | none =>
        simp only [implies_true, iff_true]
        exact ⟨_, rfl⟩
      | some stop =>
        show StructComplete tables name items text out'.buf ↔ _
        rw [hbuf]
        simp only [Bool.false_eq_true, false_or, reduceCtorEq, imp_false]
        constructor
        · rintro ⟨len', skip', rest', hstart', hcomplete, -⟩
          exact hcomplete.not_unset
        · intro hset
          have hcomplete := hfields.resolve_right hset
          exact ⟨len, skip, rest, hstart, hcomplete, by rw [hend]; exact Option.some_ne_none _⟩
    · obtain ⟨out', hrun⟩ := hstop.bind _ out
      rw [hitemsRun, hlinks, hrun]
      exact ⟨fun _ => hreport, fun _ => ⟨status, rfl⟩⟩
    · obtain ⟨out', hrun⟩ := hstop.bind _ out
      rw [hitemsRun, hlinks, hrun]
      refine ⟨fun h => ?_, fun h => absurd h hreport⟩
      obtain ⟨status, heq⟩ := h
      cases heq

/-- Unpacking a struct of bytes, strings and numbers from any XML text gives a complete
struct or ends with a status if and only if, on the way through the text, everything that
is missing is reported. -/
theorem unpackStruct_reports_iff (tables : Tables) (depth : Nat) {name packInstruct : Text} {items : List PackItem}
    (hname : matchPackInstruct tables name = some packInstruct)
    (hparse : parsePackInstruct packInstruct = .ok items) (hflat : ∀ item ∈ items, Flat item) (text : Text) :
    Reports tables name items (text.takeWhile (· ≠ '\x00')) (unpackStruct tables .xml (depth + 1) name text) ↔
      MissingReported tables name items (text.takeWhile (· ≠ '\x00')) := by
  rw [← unpackElements_reports tables (unpackChildStruct tables .xml depth) hparse hflat _
    (initPackedOutput packedOutAllocSz) rfl]
  unfold unpackStruct
  simp only [unpackChildStruct, Nat.one_ne_zero, if_false, hname]

/-- A number, a string and four bytes. -/
def sampleTables : Tables :=
  { packInstructs := [("Sample_PI".toList, "int size; str name[8]; char flags[4];".toList)], packConstants := [] }

def sampleItems : List PackItem :=
  [{ typeInx := .int, name := "size".toList }, { typeInx := .str, name := "name[8]".toList },
    { typeInx := .char, name := "flags[4]".toList }]

theorem sampleItems_flat : ∀ item ∈ sampleItems, Flat item := by
  simp only [sampleItems, List.forall_mem_cons, List.not_mem_nil, false_implies, implies_true, and_true]
  exact ⟨⟨rfl, by decide⟩, ⟨rfl, by decide⟩, ⟨rfl, by decide⟩⟩

theorem unpackStruct_reports_iff_sample :
    Reports sampleTables "Sample_PI".toList sampleItems
        ("<Sample_PI><size>3</size><name>ab</name><flags>wxyz</flags></Sample_PI>".toList.takeWhile (· ≠ '\x00'))
        (unpackStruct sampleTables .xml 1 "Sample_PI".toList
          "<Sample_PI><size>3</size><name>ab</name><flags>wxyz</flags></Sample_PI>".toList) ↔
      MissingReported sampleTables "Sample_PI".toList sampleItems
        ("<Sample_PI><size>3</size><name>ab</name><flags>wxyz</flags></Sample_PI>".toList.takeWhile (· ≠ '\x00')) :=
  @unpackStruct_reports_iff sampleTables 0 "Sample_PI".toList "int size; str name[8]; char flags[4];".toList sampleItems
    (by decide +kernel) (by decide +kernel) sampleItems_flat _

/-- The call has ended without an error and left a field unset. -/
def gaveUnset : EStateM.Result Stop (PackedOutput Cell) Text → Bool
  | .ok _ out => out.buf.any fun cell => match cell with | .unset => true | _ => false
  | .error _ _ => false

theorem not_reports_of_gaveUnset {r : EStateM.Result Stop (PackedOutput Cell) Text} (h : gaveUnset r = true) :
    (∃ rest out, r = .ok rest out) ∧ ¬ Reports tables name items text r := by
  cases r with
  | error stop out => cases h
  | ok rest out =>
    refine ⟨⟨rest, out, rfl⟩, ?_⟩
    rintro ⟨len, skip, rest', -, hcomplete, -⟩
    obtain ⟨cell, hmem, hcell⟩ := List.any_eq_true.mp h
    cases cell with
    | unset => exact hcomplete.not_unset hmem
    | _ => cases hcell

/-- Without its number the struct is given all the same, and so it is with too few bytes. -/
theorem missing_number_unset :
    ((∃ rest out, unpackStruct sampleTables .xml 1 "Sample_PI".toList
          "<Sample_PI><name>ab</name><flags>wxyz</flags></Sample_PI>".toList = .ok rest out) ∧
        ¬ Reports sampleTables "Sample_PI".toList sampleItems
          ("<Sample_PI><name>ab</name><flags>wxyz</flags></Sample_PI>".toList.takeWhile (· ≠ '\x00'))
          (unpackStruct sampleTables .xml 1 "Sample_PI".toList
            "<Sample_PI><name>ab</name><flags>wxyz</flags></Sample_PI>".toList)) ∧
      (∃ rest out, unpackStruct sampleTables .xml 1 "Sample_PI".toList
          "<Sample_PI><size>3</size><name>ab</name><flags>wx</flags></Sample_PI>".toList = .ok rest out) ∧
        ¬ Reports sampleTables "Sample_PI".toList sampleItems
          ("<Sample_PI><size>3</size><name>ab</name><flags>wx</flags></Sample_PI>".toList.takeWhile (· ≠ '\x00'))
          (unpackStruct sampleTables .xml 1 "Sample_PI".toList
            "<Sample_PI><size>3</size><name>ab</name><flags>wx</flags></Sample_PI>".toList) :=
  ⟨not_reports_of_gaveUnset (by decide +kernel), not_reports_of_gaveUnset (by decide +kernel)⟩

end Pack
