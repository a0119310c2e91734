-- SUMMARY: Unpacking the native form of a struct gives the struct back.
import Irods.Pack.NativeForm

/-!
# The native round trip

Unpacking follows the form of a struct item by item, in front of whatever follows its text. A
null pointer within an array of pointers has no form: what is packed for it is read back as
something else. So has a pointer to a text that may be the beginning of a marker.
-/

namespace Pack

open CString EStateM
open List (append_assoc flatMap_cons mem_cons_self prefix_append)

/-! ## Values -/

variable {item : PackItem}

variable {len : Nat} {bytes : Text}

theorem unpackCharToOutPtr_native (hlen : bytes.length = len) (rest : Text) :
    unpackCharToOutPtr .native item len (bytes ++ rest) = .ok ⟨0, .chars bytes, .put, len, rest⟩ := by
  subst hlen
  unfold unpackCharToOutPtr
  have hroom : ¬ (bytes ++ rest).length < bytes.length := by
    rw [List.length_append]
    omega
  simp only [hroom, if_false, List.take_left, List.drop_left]

theorem unpackChar_native (hlen : bytes.length = len) (rest : Text) :
    Emits PackedOutput.buf (unpackChar .native item len (bytes ++ rest)) rest [.chars bytes] := by
  unfold unpackChar
  by_cases hzero : len = 0
  · obtain rfl := List.length_eq_zero_iff.mp (hlen.trans hzero)
    rw [if_pos hzero]
    exact .bind_last (addCell_emits _ _) (.pure _)
  · rw [if_neg hzero, unpackCharToOutPtr_native hlen]
    refine .bind_silent (.pure _) (.bind_silent (store_emits _ _ _ _) ?_)
    exact .bind_last (addCell_emits _ _) (.pure _)

theorem unpackStrings_native {maxStrLen : Option Nat} {strings : List Text}
    (hfits : ∀ s ∈ strings, '\x00' ∉ s ∧ tooLong (s.length + 1) maxStrLen = false) (rest : Text) :
    Emits PackedOutput.buf (unpackStrings .native item maxStrLen strings.length (strings.flatMap natString ++ rest))
      (strings, rest) [] := by
  induction strings with
  | nil => exact .pure _
  | cons s strings ih =>
    obtain ⟨hnul, hfit⟩ := hfits s mem_cons_self
    rw [flatMap_cons, append_assoc]
    have hone : Emits PackedOutput.buf (unpackString .native item maxStrLen
        (natString s ++ (strings.flatMap natString ++ rest))) (s, strings.flatMap natString ++ rest) [] := by
      unfold unpackString unpackNatString
      rw [cString_natString hnul]
      refine .bind_silent (.pure _) ?_
      dsimp only
      rw [hfit]
      refine .bind_silent (.pure _) (.bind_silent (store_emits _ _ _ _) ?_)
      exact .bind_silent (addLen_emits _) (.pure _)
    refine .bind_silent hone (.bind_silent (ih fun s' hmem => hfits s' (List.mem_cons_of_mem s hmem)) ?_)
    exact .pure _

variable {n : Nat}

theorem unpackNumbers_native {size : Nat} (read : Text → Int) (item : PackItem) {values : List Int}
    (hlen : values.length = n) (hrange : ∀ x ∈ values, InRange size x) (rest : Text) :
    Emits PackedOutput.buf (unpackNumbers size read .native item n (values.flatMap (bigEndian · size) ++ rest))
      (max 0 (values.headD 0), rest) [.ints values] := by
  unfold unpackNumbers
  by_cases hzero : n = 0
  · obtain rfl := List.length_eq_zero_iff.mp (hlen.trans hzero)
    rw [if_pos hzero]
    exact .bind_last (addCell_emits _ _) (.pure _)
  · subst hlen
    have htext : (values.flatMap (bigEndian · size)).length = size * values.length :=
      flatMap_bigEndian_length size values
    have hroom : ¬ (values.flatMap (bigEndian · size) ++ rest).length < size * values.length := by
      rw [List.length_append, htext]
      omega
    have hdrop : (values.flatMap (bigEndian · size) ++ rest).drop (size * values.length) = rest := by
      rw [← htext, List.drop_left]
    simp only [if_neg hzero, unpackNumbersToOutPtr, hroom, if_false, nativeNumbers_bigEndian hrange, hdrop]
    refine .bind_silent (.pure _) (.bind_silent (store_emits _ _ _ _) ?_)
    exact .bind_last (addCell_emits _ _) (.pure _)

/-! ## Pointers -/

theorem unpackStringsToOutPtr_native {maxStrLen : Option Nat} {strings : List Text}
    (hfits : ∀ s ∈ strings, '\x00' ∉ s ∧ tooLong s.length maxStrLen = false) (rest : Text) :
    unpackStringsToOutPtr .native item maxStrLen strings.length (strings.flatMap natString ++ rest) =
      .ok (strings, rest) := by
  induction strings with
  | nil => rfl
  | cons s strings ih =>
    obtain ⟨hnul, hfit⟩ := hfits s mem_cons_self
    have hrest := ih fun s' hmem => hfits s' (List.mem_cons_of_mem s hmem)
    have hone : unpackStringToOutPtr .native item maxStrLen (natString s ++ (strings.flatMap natString ++ rest)) =
        .ok (s, strings.flatMap natString ++ rest) := by
      unfold unpackStringToOutPtr
      rw [cString_natString hnul]
      exact if_neg (by rw [hfit]; exact Bool.false_ne_true)
    rw [flatMap_cons, append_assoc, List.length_cons, unpackStringsToOutPtr, hone]
    show (unpackStringsToOutPtr .native item maxStrLen strings.length (strings.flatMap natString ++ rest) >>= _) = _
    rw [hrest]
    rfl

variable {cells : List Cell}

/-- The output buffer of a struct behind a pointer is its own. -/
theorem inSubOutput_emits {β : Type} (bufSize : Nat) {unpack : PackM Cell β} {b : β}
    (h : Emits PackedOutput.buf unpack b cells) :
    Emits PackedOutput.buf (inSubOutput bufSize unpack) (b, cells) [] := by
  intro out
  obtain ⟨sub, hrun, hbuf⟩ := h { bufSize := bufSize, trace := out.trace }
  refine ⟨{ out with trace := sub.trace }, ?_, (List.append_nil _).symm⟩
  unfold inSubOutput
  rw [get_bind]
  have hset : (set ({ bufSize := bufSize, trace := out.trace } : PackedOutput Cell) : PackM Cell PUnit) out =
      .ok ⟨⟩ { bufSize := bufSize, trace := out.trace } := rfl
  rw [bind_run hset, bind_run hrun, get_bind]
  have hcells : sub.buf = cells := hbuf
  rw [hcells]
  rfl

/-- The unpacker gives the fields and leaves what follows the text. -/
def Unpacks (child : ChildUnpacker) (form : Form) : Prop :=
  ∀ item links n cells text, form item links n cells text →
    ∀ rest, Emits PackedOutput.buf (child item links n (text ++ rest)) rest cells

section

variable {unpack : ChildUnpacker} {form : Form} {links : Links}

variable {text : Text}

variable {target : List Cell}

theorem unpackTarget_native (hchild : Unpacks unpack form) (h : TargetForm form links item target text) (rest : Text) :
    Emits PackedOutput.buf (unpackTarget unpack .native links item (text ++ rest)) (target, rest) [] := by
  unfold unpackTarget
  cases h with
  | chars htype hpacked hlen =>
    have hbytes : Emits PackedOutput.buf (unpackCharTarget .native item (getNumHintElement item * item.typeInx.size)
        (text ++ rest)) ([.chars text], rest) [] := by
      unfold unpackCharTarget
      rw [if_neg hpacked, unpackCharToOutPtr_native hlen]
      refine .bind_silent (.pure _) ?_
      simp only [Nat.lt_irrefl, if_false]
      exact .bind_silent (.pure _) (.pure _)
    rcases htype with htype | htype
    · simp only [htype] at hbytes ⊢
      exact hbytes
    · simp only [htype] at hbytes ⊢
      exact hbytes
  | @strs strings maxStrLen htype hdims hfits =>
    simp only [htype, hdims]
    refine .bind_silent (.pure _) ?_
    unfold unpackStrTarget
    rw [unpackStringsToOutPtr_native hfits]
    exact .bind_silent (.pure _) (.pure _)
  | struct htype hstruct =>
    simp only [htype]
    have hsub := inSubOutput_emits (getNumHintElement item * subStructAllocSz) (hchild _ _ _ _ _ hstruct rest)
    exact .bind_silent hsub (.pure _)

/-- The pointers of an array are unpacked like single ones, except for those to numbers. -/
theorem unpackArrayTarget_eq (h : TargetForm form links item target text) (inPtr : Text) :
    unpackArrayTarget unpack .native links item inPtr = unpackTarget unpack .native links item inPtr := by
  unfold unpackArrayTarget
  rcases h.kind with htype | htype | htype | htype <;> simp only [htype]

theorem unpackTargets_native (hchild : Unpacks unpack form) {targets : List (List Cell × Text)}
    (h : ∀ t ∈ targets, TargetForm form links item t.1 t.2) (rest : Text) :
    Emits PackedOutput.buf (unpackTargets (unpackArrayTarget unpack .native links item) targets.length
      (targets.flatMap Prod.snd ++ rest)) (targets.map fun t => some t.1, rest) [] := by
  induction targets with
  | nil => exact .pure _
  | cons t targets ih =>
    have ht := h t mem_cons_self
    have hrest := ih fun t' hmem => h t' (List.mem_cons_of_mem t hmem)
    rw [flatMap_cons, append_assoc, List.length_cons, unpackTargets, unpackArrayTarget_eq ht]
    exact .bind_silent (unpackTarget_native hchild ht _) (.bind_silent hrest (.pure _))

/-- A text that cannot be the beginning of a marker, nor have it in front, is not taken for a null pointer. -/
theorem Unmarked.append (h : Unmarked text) (rest : Text) :
    ¬ nullPtrPackStr <+: text ++ rest ∧ ¬ text ++ rest <+: nullPtrPackStr := by
  refine ⟨fun hmarker => ?_, fun hend => h.2 ((prefix_append text rest).trans hend)⟩
  rcases Nat.le_total nullPtrPackStr.length text.length with hle | hle
  · exact h.1 (List.prefix_of_prefix_length_le hmarker (prefix_append text rest) hle)
  · exact h.2 (List.prefix_of_prefix_length_le (prefix_append text rest) hmarker hle)

theorem unpackNullString_unmarked (hsome : 0 < getNumHintElement item)
    (hdims : item.dimSize = [] ∨ 0 < getNumElement item) (h : Unmarked text) (rest : Text) :
    unpackNullString .native item (text ++ rest) = .ok none := by
  obtain ⟨hmarker, hend⟩ := h.append rest
  have hempty : ¬ noElement item = true := by
    rw [noElement_iff]
    rintro (hzero | ⟨hne, hzero⟩)
    · omega
    · exact hdims.elim hne fun hpos => absurd hzero hpos.ne'
  simp only [unpackNullString, List.isPrefixOf_iff_prefix]
  rw [if_neg fun hnul => hmarker ((prefix_append _ _).trans hnul), if_neg hend, if_neg hempty]

/-! ## Items and structs -/

variable {saved : PackItem} {tables : Tables}

theorem unpackNonpointerItem_native (hchild : Unpacks unpack form)
    (hfield : FieldForm form links item cells text saved) (hpointer : item.pointerType = .nonPointer) (rest : Text) :
    Emits PackedOutput.buf (unpackNonpointerItem unpack .native links item (text ++ rest)) (saved, rest) cells := by
  unfold unpackNonpointerItem
  cases hfield with
  | chars _ htype hlen =>
    rcases htype with htype | htype
    · simp only [htype] at hlen ⊢
      exact .bind_last (unpackChar_native hlen rest) (.pure _)
    · simp only [htype] at hlen ⊢
      exact .bind_last (unpackChar_native hlen rest) (.pure _)
  | strs _ htype hdims hfits =>
    simp only [htype, hdims]
    refine .bind_silent (.pure _) (.bind_silent (unpackStrings_native hfits rest) ?_)
    exact .bind_last (addCell_emits _ _) (.pure _)
  | numbers k _ htype hlen hrange =>
    have hread := fun read => unpackNumbers_native read item hlen hrange rest
    obtain ⟨typeInx, name, pointerType, intValue, strValue, dimSize, hintDimSize⟩ := item
    obtain rfl : typeInx = k.typeInx := htype
    cases k with
    | int => exact .bind_last (hread _) (.pure _)
    | int16 => exact .bind_last (hread _) (.pure _)
    | double => exact .bind_last (hread _) (.pure _)
  | struct _ htype hstruct =>
    simp only [htype]
    exact .bind_last (hchild _ _ _ _ _ hstruct rest) (.pure _)
  | null hno => exact absurd hpointer hno
  | pointer hno => exact absurd hpointer hno
  | pointers hno => exact absurd hpointer hno

theorem unpackPointerItem_native (hchild : Unpacks unpack form) (hfield : FieldForm form links item cells text saved)
    (hpointer : item.pointerType ≠ .nonPointer) (rest : Text) :
    Emits PackedOutput.buf (unpackPointerItem unpack .native links item (text ++ rest)) (saved, rest) cells := by
  cases hfield with
  | null => exact unpackPointerItem_null (unpackNullString_marker item rest) unpack links
  | pointer _ hdims hsome htarget hmark =>
    unfold unpackPointerItem
    rw [unpackNullString_unmarked hsome (.inl hdims) hmark]
    refine .bind_silent (.pure _) ?_
    simp only [hdims, if_true]
    refine .bind_silent (unpackTarget_native hchild htarget rest) (.bind_last (addPointerToPackedOut_emits _) ?_)
    rcases htarget.kind with htype | htype | htype | htype <;> simp only [htype] <;> exact .pure _
  | @pointers targets _ hdims hsome hlen hne htargets =>
    obtain ⟨t, ts, rfl⟩ := List.exists_cons_of_ne_nil hne
    have hpos : 0 < getNumElement item := by
      rw [← hlen]
      exact Nat.succ_pos _
    have hread := unpackTargets_native hchild (fun t hmem => (htargets t hmem).1) rest
    rw [hlen, flatMap_cons, append_assoc] at hread
    unfold unpackPointerItem
    rw [flatMap_cons, append_assoc,
      unpackNullString_unmarked hsome (.inr hpos) (htargets t mem_cons_self).2]
    refine .bind_silent (.pure _) ?_
    simp only [hdims, if_false]
    exact .bind_silent hread (.bind_last (addPointerToPackedOut_emits _) (.pure _))
  | chars hyes => exact absurd hyes hpointer
  | strs hyes => exact absurd hyes hpointer
  | numbers _ hyes => exact absurd hyes hpointer
  | struct hyes => exact absurd hyes hpointer

theorem unpackItem_native {links' : Links} {item' : PackItem} (hchild : Unpacks unpack form)
    (hresolve : resolvePackedItem tables links item = .ok (item', links'))
    (hfield : FieldForm form links' item' cells text saved) (rest : Text) :
    Emits PackedOutput.buf (unpackItem unpack tables .native links item (text ++ rest))
    (links'.next saved, rest) cells := by
  unfold unpackItem
  rw [hresolve]
  refine .bind_silent (.pure _) ?_
  by_cases hpointer : item'.pointerType = .nonPointer
  · simp only [hpointer, if_true]
    exact .bind_last (unpackNonpointerItem_native hchild hfield hpointer rest) (.bind_silent endItem_emits (.pure _))
  · simp only [hpointer, if_false]
    exact .bind_last (unpackPointerItem_native hchild hfield hpointer rest) (.bind_silent endItem_emits (.pure _))

theorem unpackItems_native (hchild : Unpacks unpack form) {items : List PackItem}
    (h : ItemsForm tables form links items cells text) (rest : Text) :
    Emits PackedOutput.buf (unpackItems unpack tables .native links items (text ++ rest)) rest cells := by
  induction h with
  | nil => exact .pure _
  | cons hresolve hfield _ ih =>
    rw [append_assoc]
    exact .bind (unpackItem_native hchild hresolve hfield _) ih

theorem unpackElements_native (hchild : Unpacks unpack form) {packInstruct : Text}
    (h : ElementsForm tables form item links packInstruct n cells text) (rest : Text) :
    Emits PackedOutput.buf (unpackElements unpack tables .native item links packInstruct n
      (text ++ rest)) rest cells := by
  induction h with
  | zero => exact .pure _
  | succ hparse hitems _ ih =>
    unfold unpackElements
    rw [hparse, append_assoc]
    exact .bind_silent (.pure _) (.bind (unpackItems_native hchild hitems _) ih)

end

/-- Structs are unpacked from their form, however deep they are nested. -/
theorem unpackChildStruct_native (tables : Tables) (depth : Nat) :
    Unpacks (unpackChildStruct tables .native depth) (StructForm tables depth) := by
  induction depth with
  | zero => exact fun _ _ _ _ _ h => absurd h id
  | succ depth ih =>
    intro item links n cells text h rest
    unfold StructForm at h
    unfold unpackChildStruct
    by_cases hzero : n = 0
    · rw [if_pos hzero] at h
      obtain ⟨rfl, rfl⟩ := h
      rw [if_pos hzero]
      exact .pure _
    · rw [if_neg hzero] at h
      obtain ⟨packInstruct, hmatch, helements⟩ := h
      rw [if_neg hzero, hmatch]
      exact unpackElements_native ih helements rest

/-- A struct that has a form is packed to it, and unpacked from it, whatever follows. Packing stays
inside of its buffer, and so does unpacking where every pointer fits. -/
theorem unpackStruct_packStruct (tables : Tables) (depth : Nat) {name text : Text} {inStruct : List Cell}
    (h : StructForm tables depth { name := name } {} 1 inStruct text) :
    (∃ out, packStruct tables .native depth name inStruct = .ok ⟨⟩ out ∧ out.buf = text ∧ AllSafe out) ∧
      ∀ rest, ∃ out, unpackStruct tables .native depth name (text ++ rest) = .ok rest out ∧ out.buf = inStruct ∧
        (AllSafe out ↔ AllFit out) := by
  refine ⟨?_, fun rest => ?_⟩
  · have hpack := packChildStruct_native tables depth _ _ _ _ _ h []
    rw [List.append_nil] at hpack
    have hall : Emits PackedOutput.buf (do
        let _ ← packChildStruct tables .native depth { name := name } {} 1 (.cells inStruct)
        onXml .native (store .put 1 1 1) : PackM Char Unit) ⟨⟩ text := hpack.bind_last (.pure _)
    obtain ⟨out, hrun, hbuf⟩ := hall (initPackedOutput maxPackedOutAllocSz)
    exact ⟨out, hrun, hbuf, packStruct_safe hrun⟩
  · obtain ⟨out, hrun, hbuf⟩ :=
      unpackChildStruct_native tables depth _ _ _ _ _ h rest (initPackedOutput packedOutAllocSz)
    have hunpack : unpackStruct tables .native depth name (text ++ rest) = .ok rest out := hrun
    exact ⟨out, hunpack, hbuf, (unpackStruct_roomy hunpack).allSafe_iff⟩

/-! ## A struct with a form, and three without -/

/-- A buffer of bytes and a string. -/
def bufTables : Tables where
  packInstructs := [("Buf_PI".toList, "int buflen; char *buf(buflen); str *note; str name[20];".toList)]
  packConstants := []

def bufStruct : List Cell := [.ints [3], .pointer [.chars "abc".toList], .null, .strs ["d".toList]]

def bufText : Text := bigEndian 3 4 ++ "abc".toList ++ (nullPtrPackStr ++ ['\x00']) ++ "d\x00".toList

/-- The buffer, with its length for a dimension. -/
def bufItem : PackItem where
  typeInx := .char
  name := "buf".toList
  pointerType := .aPointer
  hintDimSize := [3]

theorem bufStruct_form : StructForm bufTables 1 { name := "Buf_PI".toList } {} 1 bufStruct bufText := by
  have hbuf : ∀ links, TargetForm (StructForm bufTables 0) links bufItem [.chars "abc".toList] "abc".toList :=
    fun _ => .chars (.inl rfl) nofun rfl
  have hlen := fun links item => @FieldForm.numbers (StructForm bufTables 0) links item .int [3]
  have hname := fun links item => @FieldForm.strs (StructForm bufTables 0) links item ["d".toList] (some 20)
  have hitems := @ItemsForm.cons bufTables _ (Links.child {} { name := "Buf_PI".toList }) _
      { typeInx := .int, name := "buflen".toList } _ _ _ _ _ _ _ rfl (hlen _ _ rfl rfl rfl (by decide)) <|
    @ItemsForm.cons _ _ _ _ { typeInx := .char, name := "buf(buflen)".toList, pointerType := .aPointer } _ _ _ _ _ _ _
      rfl (.pointer (nofun) rfl (by decide) (hbuf _) (by decide)) <|
    @ItemsForm.cons _ _ _ _ { typeInx := .str, name := "note".toList, pointerType := .aPointer } _ _ _ _ _ _ _
      rfl (.null (nofun)) <|
    @ItemsForm.cons _ _ _ _ { typeInx := .str, name := "name[20]".toList } _ _ _ _ _ _ _
      rfl (hname _ _ rfl rfl rfl (by decide)) .nil
  exact ⟨_, by rfl, .succ rfl hitems .zero⟩

theorem unpackStruct_packStruct_buf :
    (∃ out, packStruct bufTables .native 1 "Buf_PI".toList bufStruct = .ok ⟨⟩ out ∧ out.buf = bufText ∧
      AllSafe out) ∧
      (∃ out, unpackStruct bufTables .native 1 "Buf_PI".toList (bufText ++ []) = .ok [] out ∧ out.buf = bufStruct ∧
        (AllSafe out ↔ AllFit out)) ∧
      overruns (unpackStruct bufTables .native 1 "Buf_PI".toList (bufText ++ [])) = false :=
  have h := unpackStruct_packStruct bufTables 1 bufStruct_form
  ⟨h.1, h.2 [], by decide +kernel⟩

/-- The fields that were unpacked. -/
def fieldsOf : EStateM.Result Stop (PackedOutput Cell) Text → Option (List Cell)
  | .ok _ out => some out.buf
  | .error _ _ => none

/-- The fields that come back from what is packed for some. -/
def comesBack (tables : Tables) (depth : Nat) (name : Text) (inStruct : List Cell) : Option (List Cell) :=
  fieldsOf (unpackStruct tables .native depth name (packedText (packStruct tables .native depth name inStruct)))

def isPointer : Cell → Bool
  | .pointer _ => true
  | _ => false

def holdsNull : Cell → Bool
  | .pointers targets => targets.any Option.isNone
  | _ => false

theorem ne_of_any {fields : Option (List Cell)} (p : Cell → Bool)
    (hfields : fields.all (fun cells => ! cells.any p) = true) (hcells : cells.any p = true) : fields ≠ some cells := by
  rintro rfl
  simp [hcells] at hfields

/-- An array of strings, and a struct of a string. -/
def pairTables : Tables where
  packInstructs := [("KeyValPair_PI".toList, "int ssLen; str *keyWord[ssLen]; str *svalue[ssLen];".toList),
    ("Label_PI".toList, "str *label; int number;".toList), ("Outer_PI".toList, "struct *Label_PI;".toList)]
  packConstants := []

/-- The first bytes of a marker with the others behind them, a null pointer in an array, a struct of
which the first field is null, and a pointer that reaches behind the output buffer. -/
theorem marker_not_kept :
    isOk (packStruct bufTables .native 1 "Buf_PI".toList [.ints [5], .pointer [.chars "%@#AN".toList],
      .pointer [.strs ["ULLSTR$%".toList]], .strs ["d".toList]]) = true ∧
    comesBack bufTables 1 "Buf_PI".toList
        [.ints [5], .pointer [.chars "%@#AN".toList], .pointer [.strs ["ULLSTR$%".toList]], .strs ["d".toList]] ≠
      some [.ints [5], .pointer [.chars "%@#AN".toList], .pointer [.strs ["ULLSTR$%".toList]], .strs ["d".toList]] ∧
    comesBack pairTables 1 "KeyValPair_PI".toList
        [.ints [1], .pointers [some [.strs ["key".toList]]], .pointers [none]] ≠
      some [.ints [1], .pointers [some [.strs ["key".toList]]], .pointers [none]] ∧
    comesBack pairTables 2 "Outer_PI".toList [.pointer [.null, .ints [5]]] ≠ some [.pointer [.null, .ints [5]]] ∧
    overruns (unpackStruct edgeTables .native 1 "Ptr".toList (packedText
      (packStruct edgeTables .native 1 "Ptr".toList [.strs [[]], .strs [[]], .null]))) = true :=
  ⟨by decide +kernel, ne_of_any isPointer (by decide +kernel) (by decide),
    ne_of_any holdsNull (by decide +kernel) (by decide), ne_of_any isPointer (by decide +kernel) (by decide),
    by decide +kernel⟩

end Pack
