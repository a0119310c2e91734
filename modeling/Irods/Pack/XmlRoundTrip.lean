-- SUMMARY: Unpacking the XML form of a struct gives the struct back.
import Irods.Pack.NativeRoundTrip
import Irods.Pack.XmlForm

/-!
# The XML round trip

Reading an item goes on behind its end tag, or inside of it, so that what is left in front of
the next tag is any text without a bracket. A null pointer is told from the next tag, which is that of
another item of the struct or its end tag.
-/

namespace Pack

open CString EStateM
open List (append_assoc drop_left flatMap_cons length_cons mem_cons_self nil_append)

/-! ## Values -/

/-- In front of any text without a tag the computation gives `b` and the fields, and leaves one. -/
def ReadsOver {β : Type} (m : Text → PackM Cell (β × Text)) (text : Text) (b : β)
    (cells : List Cell) (R : Text) : Prop :=
  ∀ junk, NoTag junk → ∃ left, NoTag left ∧ Emits PackedOutput.buf (m (junk ++ (text ++ R))) (b, left ++ R) cells

variable {item : PackItem}

variable {junk name : Text} {maxStrLen : Option Nat} {k : Number}

theorem parseXmlValue_xmlString (hname : ItemName item.name) (hjunk : NoTag junk) (s R : Text) :
    parseXmlValue item.name (junk ++ (xmlString item s ++ R)) =
      (some ((s.flatMap xmlChar).length, (endTag item.name).length), s.flatMap xmlChar ++ (endTag item.name ++ R)) := by
  have h := parseXmlValue_value hname.tagFits hjunk (noTag_escaped s) R
  rw [xmlString, append_assoc, append_assoc]
  exact h

theorem ItemName.noTag_endTag (h : ItemName name) : NoTag ((endTag name).drop 1) := by
  have hopen := h.noOpen
  simp [NoTag, endTag, hopen]

/-- The input goes on inside of the end tag. -/
theorem unpackXmlString_xmlString (hname : ItemName item.name) {s : Text} (hs : XmlSendable maxStrLen s) (R : Text) :
    ReadsOver (unpackString .xml item maxStrLen) (xmlString item s) s [] R := by
  intro junk hjunk
  refine ⟨(endTag item.name).drop 1, hname.noTag_endTag, ?_⟩
  have hdrop : (s.flatMap xmlChar ++ (endTag item.name ++ R)).drop ((s.flatMap xmlChar).length + 1) =
      (endTag item.name).drop 1 ++ R := by
    rw [← List.drop_drop, drop_left]
    rfl
  unfold unpackString
  unfold unpackXmlString
  rw [parseXmlValue_xmlString hname hjunk]
  simp only [List.take_left, xmlStrToStr_escaped, hdrop, refuse, hs.fits, Bool.false_eq_true, if_false]
  exact .bind_silent (.pure _) (.bind_silent (storeXmlString_emits _ _) (.pure _))

theorem unpackStrings_xml (hname : ItemName item.name) {strings : List Text}
    (hfits : ∀ s ∈ strings, XmlSendable maxStrLen s) (R : Text) :
    ReadsOver (unpackStrings .xml item maxStrLen strings.length) (strings.flatMap (xmlString item)) strings [] R := by
  induction strings with
  | nil => exact fun junk hjunk => ⟨junk, hjunk, .pure _⟩
  | cons s strings ih =>
    intro junk hjunk
    obtain ⟨left, hleft, hone⟩ := unpackXmlString_xmlString hname (hfits s mem_cons_self)
      (strings.flatMap (xmlString item) ++ R) junk hjunk
    obtain ⟨left', hleft', hrest⟩ := ih (fun s' hmem => hfits s' (List.mem_cons_of_mem s hmem)) left hleft
    refine ⟨left', hleft', ?_⟩
    rw [flatMap_cons, append_assoc]
    exact .bind_silent hone (.bind_silent hrest (.pure _))

/-- The first number may be behind a text without a tag. -/
theorem xmlNumbers_behind {extLen : Nat} (read : Text → Int) (hname : ItemName name) (hlen : extLen ≤ NAME_LEN)
    (values : List Int) (R : Text) (hjunk : NoTag junk) :
    ∃ left, NoTag left ∧ xmlNumbers read name values.length (junk ++ (values.flatMap (xmlNumber name extLen) ++ R)) =
      (values.map fun x => read (printed extLen x), none, left ++ R) := by
  cases values with
  | nil => exact ⟨junk, hjunk, rfl⟩
  | cons x values =>
    refine ⟨[], .nil, ?_⟩
    have hall := @xmlNumbers_xmlNumber _ _ read hname.tagFits hlen (x :: values) R
    have hparse := fun (junk : Text) (hjunk : NoTag junk) => parseXmlValue_value hname.tagFits hjunk
      (noTag_printed extLen x) (values.flatMap (xmlNumber name extLen) ++ R)
    rw [flatMap_cons, append_assoc, xmlNumber, append_assoc, append_assoc] at hall ⊢
    have hfirst := hparse [] .nil
    rw [nil_append] at hfirst
    rw [length_cons, xmlNumbers, hfirst] at hall
    rw [length_cons, xmlNumbers, hparse junk hjunk]
    exact hall

theorem Number.read_short {x : Int} (h : InRange k.size x) (hlen : (decimal x).length ≤ 19) :
    k.read (printed k.extLen x) = x :=
  (Number.read_printed h).mpr fun _ => ((length_decimal_le_iff (k := 18) (by decide)).mp hlen).1

variable {n : Nat}

theorem unpackNumbers_xml (hname : ItemName item.name) {values : List Int} (hlen : values.length = n)
    (hrange : ∀ x ∈ values, InRange k.size x ∧ (decimal x).length ≤ 19) (R : Text) :
    ReadsOver (unpackNumbers k.size k.read .xml item n) (values.flatMap (xmlNumber item.name k.extLen))
      (max 0 (values.headD 0)) [.ints values] R := by
  intro junk hjunk
  have hback : values.map (fun x => k.read (printed k.extLen x)) = values := by
    have heq : values.map (fun x => k.read (printed k.extLen x)) = values.map id :=
      List.map_congr_left fun x hx => Number.read_short (hrange x hx).1 (hrange x hx).2
    rwa [List.map_id] at heq
  obtain ⟨left, hleft, hread⟩ := xmlNumbers_behind k.read hname k.extLen_le values R hjunk
  rw [hback, hlen] at hread
  unfold unpackNumbers
  by_cases hzero : n = 0
  · obtain rfl := List.length_eq_zero_iff.mp (hlen.trans hzero)
    refine ⟨junk, hjunk, ?_⟩
    rw [if_pos hzero]
    exact .bind_last (addCell_emits _ _) (.pure _)
  · refine ⟨left, hleft, ?_⟩
    simp only [if_neg hzero, unpackNumbersToOutPtr, hread]
    refine .bind_silent (.pure _) (.bind_silent (store_emits _ _ _ _) ?_)
    exact .bind_last (addCell_emits _ _) (.pure _)

/-! ## Pointers -/

theorem unpackStringsToOutPtr_xml (hname : ItemName item.name) {strings : List Text}
    (hfits : ∀ s ∈ strings, XmlSendable maxStrLen s) (R : Text) :
    ∀ junk, NoTag junk → ∃ left, NoTag left ∧ unpackStringsToOutPtr .xml item maxStrLen strings.length
      (junk ++ (strings.flatMap (xmlString item) ++ R)) = .ok (strings, left ++ R) := by
  induction strings with
  | nil => exact fun junk hjunk => ⟨junk, hjunk, rfl⟩
  | cons s strings ih =>
    intro junk hjunk
    have hs := hfits s mem_cons_self
    obtain ⟨left, hleft, hrest⟩ := ih (fun s' hmem => hfits s' (List.mem_cons_of_mem s hmem)) [] .nil
    refine ⟨left, hleft, ?_⟩
    have hdrop : ∀ R, (s.flatMap xmlChar ++ (endTag item.name ++ R)).drop
        ((s.flatMap xmlChar).length + (endTag item.name).length) = R := by
      intro R
      rw [← List.drop_drop, drop_left, drop_left]
    have hone : unpackStringToOutPtr .xml item maxStrLen
        (junk ++ (xmlString item s ++ (strings.flatMap (xmlString item) ++ R))) =
        .ok (s, strings.flatMap (xmlString item) ++ R) := by
      unfold unpackStringToOutPtr
      rw [parseXmlValue_xmlString hname hjunk]
      simp only [List.take_left, xmlStrToStr_escaped, hs.fits, hdrop, Bool.false_eq_true, if_false]
    rw [flatMap_cons, append_assoc, length_cons, unpackStringsToOutPtr, hone]
    show (unpackStringsToOutPtr .xml item maxStrLen strings.length (strings.flatMap (xmlString item) ++ R) >>= _) = _
    rw [nil_append] at hrest
    rw [hrest]
    rfl

/-- The unpacker gives the fields behind any text without a tag, and leaves one. -/
def UnpacksOver (child : ChildUnpacker) (form : Form) : Prop :=
  ∀ item links n cells text, form item links n cells text → ItemName item.name → ∀ R junk, NoTag junk →
    ∃ left, NoTag left ∧ Emits PackedOutput.buf (child item links n (junk ++ (text ++ R))) (left ++ R) cells

variable {R text : Text}

section

variable {unpack : ChildUnpacker} {form : Form} {links : Links}

theorem unpackTarget_xml (hchild : UnpacksOver unpack form) (hname : ItemName item.name) {target : List Cell}
    (h : XmlTarget form links item target text) (R : Text) :
    ∀ junk, NoTag junk → ∃ left, NoTag left ∧
      Emits PackedOutput.buf (unpackTarget unpack .xml links item (junk ++ (text ++ R))) (target, left ++ R) [] := by
  intro junk hjunk
  unfold unpackTarget
  cases h with
  | @strs strings maxStrLen htype hdims hfits =>
    obtain ⟨left, hleft, hread⟩ := unpackStringsToOutPtr_xml hname hfits R junk hjunk
    refine ⟨left, hleft, ?_⟩
    simp only [htype, hdims]
    refine .bind_silent (.pure _) ?_
    unfold unpackStrTarget
    rw [hread]
    exact .bind_silent (.pure _) (.pure _)
  | struct htype hstruct =>
    obtain ⟨left, hleft, hread⟩ := hchild _ _ _ _ _ hstruct hname R junk hjunk
    refine ⟨left, hleft, ?_⟩
    simp only [htype]
    exact .bind_silent (inSubOutput_emits (getNumHintElement item * subStructAllocSz) hread) (.pure _)

theorem unpackTargets_xml (hchild : UnpacksOver unpack form) (hname : ItemName item.name)
    {targets : List (List Cell × Text)} (h : ∀ t ∈ targets, XmlTarget form links item t.1 t.2) (R : Text) :
    ∀ junk, NoTag junk → ∃ left, NoTag left ∧ Emits PackedOutput.buf
      (unpackTargets (unpackArrayTarget unpack .xml links item) targets.length
        (junk ++ (targets.flatMap Prod.snd ++ R)))
      (targets.map fun t => some t.1, left ++ R) [] := by
  induction targets with
  | nil => exact fun junk hjunk => ⟨junk, hjunk, .pure _⟩
  | cons t targets ih =>
    intro junk hjunk
    have ht := h t mem_cons_self
    have heq : ∀ inPtr, unpackArrayTarget unpack .xml links item inPtr = unpackTarget unpack .xml links item inPtr := by
      intro inPtr
      unfold unpackArrayTarget
      rcases ht.kind with htype | htype <;> simp only [htype]
    obtain ⟨left, hleft, hone⟩ := unpackTarget_xml hchild hname ht (targets.flatMap Prod.snd ++ R) junk hjunk
    obtain ⟨left', hleft', hrest⟩ := ih (fun t' hmem => h t' (List.mem_cons_of_mem t hmem)) left hleft
    refine ⟨left', hleft', ?_⟩
    rw [flatMap_cons, append_assoc, length_cons, unpackTargets, heq]
    exact .bind_silent hone (.bind_silent hrest (.pure _))

/-- The start tag says that there is something. -/
theorem unpackNullString_opens (hsome : 0 < getNumHintElement item)
    (hdims : item.dimSize = [] ∨ 0 < getNumElement item) (h : Opens item.name text) (R : Text) (hjunk : NoTag junk) :
    unpackNullString .xml item (junk ++ (text ++ R)) = .ok none := by
  obtain ⟨more, rfl⟩ := h
  have hempty : ¬ noElement item = true := by
    rw [noElement_iff]
    rintro (hzero | ⟨hne, hzero⟩)
    · omega
    · exact hdims.elim hne fun hpos => absurd hzero hpos.ne'
  simp only [unpackNullString]
  rw [append_assoc, parseStartTag_startTag item.name (more ++ R) false hjunk]
  exact if_neg hempty

theorem unpackNullString_missing (h : NextIsNot item.name R) (hjunk : NoTag junk) :
    unpackNullString .xml item (junk ++ R) = .ok (some (junk ++ R)) := by
  simp only [unpackNullString]
  rw [h junk false hjunk]

/-! ## Items and structs -/

variable {cells : List Cell} {saved : PackItem} {tables : Tables}

theorem unpackNonpointerItem_xml (hchild : UnpacksOver unpack form) (hname : ItemName item.name)
    (hfield : XmlField form links item cells text saved) (hpointer : item.pointerType = .nonPointer) (R : Text) :
    ReadsOver (unpackNonpointerItem unpack .xml links item) text saved cells R := by
  intro junk hjunk
  unfold unpackNonpointerItem
  cases hfield with
  | strs _ htype hdims hfits =>
    obtain ⟨left, hleft, hread⟩ := unpackStrings_xml hname hfits R junk hjunk
    refine ⟨left, hleft, ?_⟩
    simp only [htype, hdims]
    exact .bind_silent (.pure _) (.bind_silent hread (.bind_last (addCell_emits _ _) (.pure _)))
  | numbers k _ htype hlen hrange =>
    obtain ⟨left, hleft, hread⟩ := unpackNumbers_xml hname hlen hrange R junk hjunk
    refine ⟨left, hleft, ?_⟩
    obtain ⟨typeInx, name, pointerType, intValue, strValue, dimSize, hintDimSize⟩ := item
    obtain rfl : typeInx = k.typeInx := htype
    cases k with
    | int => exact .bind_last hread (.pure _)
    | int16 => exact .bind_last hread (.pure _)
    | double => exact .bind_last hread (.pure _)
  | struct _ htype hstruct =>
    obtain ⟨left, hleft, hread⟩ := hchild _ _ _ _ _ hstruct hname R junk hjunk
    refine ⟨left, hleft, ?_⟩
    simp only [htype]
    exact .bind_last hread (.pure _)
  | null hno => exact absurd hpointer hno
  | pointer hno => exact absurd hpointer hno
  | pointers hno => exact absurd hpointer hno

/-- A pointer in front of a text of which the next tag is not that of its item. -/
theorem unpackPointerItem_xml (hform : form.Tagged) (hchild : UnpacksOver unpack form) (hname : ItemName item.name)
    (hfield : XmlField form links item cells text saved) (hpointer : item.pointerType ≠ .nonPointer)
    (hnext : NextIsNot item.name R) : ReadsOver (unpackPointerItem unpack .xml links item) text saved cells R := by
  intro junk hjunk
  cases hfield with
  | null => exact ⟨junk, hjunk, unpackPointerItem_null (unpackNullString_missing hnext hjunk) unpack links⟩
  | pointer _ hdims hsome htarget =>
    obtain ⟨left, hleft, hread⟩ := unpackTarget_xml hchild hname htarget R junk hjunk
    refine ⟨left, hleft, ?_⟩
    unfold unpackPointerItem
    rw [unpackNullString_opens hsome (.inl hdims) (htarget.opens hform hsome) R hjunk]
    refine .bind_silent (.pure _) ?_
    simp only [hdims, if_true]
    refine .bind_silent hread (.bind_last (addPointerToPackedOut_emits _) ?_)
    rcases htarget.kind with htype | htype <;> simp only [htype] <;> exact .pure _
  | @pointers targets _ hdims hsome hlen hne htargets =>
    obtain ⟨left, hleft, hread⟩ := unpackTargets_xml hchild hname htargets R junk hjunk
    refine ⟨left, hleft, ?_⟩
    have hpos : 0 < getNumElement item := by
      rw [← hlen]
      exact List.length_pos_iff.mpr hne
    have hopens : Opens item.name (targets.flatMap Prod.snd) := by
      obtain ⟨t, targets, rfl⟩ := List.exists_cons_of_ne_nil hne
      exact ((htargets t mem_cons_self).opens hform hsome).append _
    rw [hlen] at hread
    unfold unpackPointerItem
    rw [unpackNullString_opens hsome (.inr hpos) hopens R hjunk]
    refine .bind_silent (.pure _) ?_
    simp only [hdims, if_false]
    exact .bind_silent hread (.bind_last (addPointerToPackedOut_emits _) (.pure _))
  | strs hyes => exact absurd hyes hpointer
  | numbers _ hyes => exact absurd hyes hpointer
  | struct hyes => exact absurd hyes hpointer

theorem unpackItem_xml {links' : Links} {item' : PackItem} (hform : form.Tagged) (hchild : UnpacksOver unpack form)
    (hresolve : resolvePackedItem tables links item = .ok (item', links')) (hname : ItemName item'.name)
    (hfield : XmlField form links' item' cells text saved) (hnext : NextIsNot item'.name R) :
    ReadsOver (unpackItem unpack tables .xml links item) text (links'.next saved) cells R := by
  intro junk hjunk
  unfold unpackItem
  rw [hresolve]
  by_cases hpointer : item'.pointerType = .nonPointer
  · obtain ⟨left, hleft, hread⟩ := unpackNonpointerItem_xml hchild hname hfield hpointer R junk hjunk
    refine ⟨left, hleft, .bind_silent (.pure _) ?_⟩
    simp only [hpointer, if_true]
    exact .bind_last hread (.bind_silent endItem_emits (.pure _))
  · obtain ⟨left, hleft, hread⟩ := unpackPointerItem_xml hform hchild hname hfield hpointer hnext junk hjunk
    refine ⟨left, hleft, .bind_silent (.pure _) ?_⟩
    simp only [hpointer, if_false]
    exact .bind_last hread (.bind_silent endItem_emits (.pure _))

/-- Items in front of a text of which the next tag is not that of any item. -/
theorem unpackItems_xml (hform : form.Tagged) (hchild : UnpacksOver unpack form) {items : List PackItem}
    {names : List Text} (h : XmlItems tables form links items cells text names)
    (hnext : ∀ name, ItemName name → NextIsNot name R) :
    ∀ junk, NoTag junk → ∃ left, NoTag left ∧
      Emits PackedOutput.buf (unpackItems unpack tables .xml links items (junk ++ (text ++ R))) (left ++ R) cells := by
  induction h with
  | nil => exact fun junk hjunk => ⟨junk, hjunk, .pure _⟩
  | @cons _ _ _ item' _ _ _ _ _ behind names hresolve hname hnew hfield hrest ih =>
    intro junk hjunk
    have hnext' : NextIsNot item'.name (behind ++ R) := by
      rcases hrest.opens hform with rfl | ⟨name, hmem, hother, more, rfl⟩
      · exact hnext item'.name hname
      · rw [append_assoc]
        exact .startTag hname hother (ne_of_mem_of_not_mem hmem hnew).symm false _
    obtain ⟨left, hleft, hone⟩ := unpackItem_xml hform hchild hresolve hname hfield hnext' junk hjunk
    obtain ⟨left', hleft', hmore⟩ := ih left hleft
    refine ⟨left', hleft', ?_⟩
    rw [append_assoc]
    exact .bind hone hmore

theorem unpackElements_xml (hform : form.Tagged) (hchild : UnpacksOver unpack form) (hname : ItemName item.name)
    {packInstruct : Text} (h : XmlElements tables form item links packInstruct n cells text) (R : Text) :
    ∀ junk, NoTag junk → ∃ left, NoTag left ∧ Emits PackedOutput.buf
      (unpackElements unpack tables .xml item links packInstruct n (junk ++ (text ++ R))) (left ++ R) cells := by
  induction h with
  | zero => exact fun junk hjunk => ⟨junk, hjunk, .pure _⟩
  | @succ n items cells more text behind names hparse hitems hrest ih =>
    intro junk hjunk
    obtain ⟨left, hleft, hread⟩ := unpackItems_xml hform hchild hitems
      (fun name hname => .endTag hname item.name (behind ++ R)) [] .nil
    obtain ⟨left', hleft', hmore⟩ := ih [] .nil
    refine ⟨left', hleft', ?_⟩
    unfold unpackElements
    rw [hparse]
    refine .bind_silent (.pure _) ?_
    simp only [append_assoc]
    rw [parseStartTag_startTag item.name _ true hjunk]
    dsimp only
    rw [drop_tag]
    refine .bind hread ?_
    rw [parseEndTag_endTag hname.tagFits hleft]
    dsimp only
    rw [drop_tag]
    exact hmore

end

/-- Structs are unpacked from their form, however deep they are nested. -/
theorem unpackChildStruct_xml (tables : Tables) (depth : Nat) :
    UnpacksOver (unpackChildStruct tables .xml depth) (XmlStruct tables depth) := by
  induction depth with
  | zero => exact fun _ _ _ _ _ h => absurd h id
  | succ depth ih =>
    intro item links n cells text h hname R junk hjunk
    unfold XmlStruct at h
    unfold unpackChildStruct
    by_cases hzero : n = 0
    · rw [if_pos hzero] at h
      obtain ⟨rfl, rfl⟩ := h
      rw [if_pos hzero]
      exact ⟨junk, hjunk, .pure _⟩
    · rw [if_neg hzero] at h
      obtain ⟨packInstruct, hmatch, helements⟩ := h
      rw [if_neg hzero, hmatch]
      exact unpackElements_xml (xmlStruct_tagged tables depth) ih hname helements R junk hjunk

/-- A struct that has a form is packed to it, and unpacked from it up to its terminator. Packing stays
inside of its buffer, and so does unpacking where every pointer fits. -/
theorem unpackXmlStruct_packXmlStruct (tables : Tables) (depth : Nat) {name text : Text} {inStruct : List Cell}
    (hname : ItemName name) (h : XmlStruct tables depth { name := name } {} 1 inStruct text) :
    (∃ out, packStruct tables .xml depth name inStruct = .ok ⟨⟩ out ∧ out.buf = text ∧ AllSafe out) ∧
      ∀ rest, ∃ left out, unpackStruct tables .xml depth name (text ++ '\x00' :: rest) = .ok left out ∧
        out.buf = inStruct ∧ (AllSafe out ↔ AllFit out) := by
  refine ⟨?_, fun rest => ?_⟩
  · have hpack := packChildStruct_xml tables depth _ _ _ _ _ h []
    rw [List.append_nil] at hpack
    have hall : Emits PackedOutput.buf (do
        let _ ← packChildStruct tables .xml depth { name := name } {} 1 (.cells inStruct)
        onXml .xml (store .put 1 1 1) : PackM Char Unit) ⟨⟩ text := hpack.bind_last (store_emits _ _ _ _)
    obtain ⟨out, hrun, hbuf⟩ := hall (initPackedOutput maxPackedOutAllocSz)
    exact ⟨out, hrun, hbuf, packStruct_safe hrun⟩
  · have hnul := (xmlStruct_tagged tables depth).noNul h hname
    have htake : (text ++ '\x00' :: rest).takeWhile (· ≠ '\x00') = text := by
      rw [takeWhile_stop (by decide), List.takeWhile_eq_self_iff]
      exact fun c hc => decide_eq_true (ne_of_mem_of_not_mem hc hnul)
    obtain ⟨left, -, hread⟩ := unpackChildStruct_xml tables depth _ _ _ _ _ h hname [] [] .nil
    rw [List.append_nil, nil_append] at hread
    obtain ⟨out, hrun, hbuf⟩ := hread (initPackedOutput packedOutAllocSz)
    have hunpack : unpackStruct tables .xml depth name (text ++ '\x00' :: rest) = .ok (left ++ []) out := by
      unfold unpackStruct
      rw [htake]
      exact hrun
    exact ⟨left ++ [], out, hunpack, hbuf, (unpackStruct_roomy hunpack).allSafe_iff⟩

/-! ## A struct with a form, and three without -/

/-- A string that may be missing, a number and a string; an array of strings; a name with a bracket. -/
def labelTables : Tables where
  packInstructs := [("Label_PI".toList, "str *label; double number; str name[8];".toList),
    ("Array_PI".toList, "int ssLen; str *svalue[ssLen];".toList), ("Odd_PI".toList, "str *a; str *a>b;".toList)]
  packConstants := []

def labelStruct : List Cell := [.null, .ints [-7], .strs ["<a>&".toList]]

def labelText : Text :=
  "<Label_PI>\n<number>-7</number>\n<name>&lt;a&gt;&amp;</name>\n</Label_PI>\n".toList

theorem labelStruct_form : XmlStruct labelTables 1 { name := "Label_PI".toList } {} 1 labelStruct labelText := by
  have hname : ∀ name : Text, name ∈ ["label".toList, "number".toList, "name".toList] → ItemName name := by
    intro name hmem
    simp only [List.mem_cons, List.not_mem_nil, or_false] at hmem
    rcases hmem with rfl | rfl | rfl <;> exact ⟨by decide, by decide, by decide, by decide, by decide⟩
  have hnumber := fun links item => @XmlField.numbers (XmlStruct labelTables 0) links item .double [-7]
  have hstring := fun links item => @XmlField.strs (XmlStruct labelTables 0) links item ["<a>&".toList] 8
  have hsend : ∀ s ∈ ["<a>&".toList], XmlSendable (some 8) s := by
    intro s hmem
    obtain rfl := List.mem_singleton.mp hmem
    exact ⟨by decide, by decide, by decide⟩
  have hlabel : "label".toList ∉ ["number".toList, "name".toList] := by decide
  have hsecond : "number".toList ∉ ["name".toList] := by decide
  have hitems := @XmlItems.cons labelTables _ (Links.child {} { name := "Label_PI".toList }) _
      { typeInx := .str, name := "label".toList, pointerType := .aPointer } _ _ _ _ _ _ _ _ rfl
      (hname "label".toList (by decide)) hlabel (.null (by simp)) <|
    @XmlItems.cons _ _ _ _ { typeInx := .double, name := "number".toList } _ _ _ _ _ _ _ _ rfl
      (hname "number".toList (by decide)) hsecond (hnumber _ _ rfl rfl rfl (by decide)) <|
    @XmlItems.cons _ _ _ _ { typeInx := .str, name := "name[8]".toList } _ _ _ _ _ _ _ _ rfl
      (hname "name".toList (by decide)) (by decide) (hstring _ _ rfl rfl rfl hsend) .nil
  exact ⟨_, by rfl, .succ rfl hitems .zero⟩

theorem unpackXmlStruct_packXmlStruct_label :
    (∃ out, packStruct labelTables .xml 1 "Label_PI".toList labelStruct = .ok ⟨⟩ out ∧ out.buf = labelText ∧
      AllSafe out) ∧
      (∃ left out, unpackStruct labelTables .xml 1 "Label_PI".toList (labelText ++ ['\x00']) = .ok left out ∧
        out.buf = labelStruct ∧ (AllSafe out ↔ AllFit out)) ∧
      overruns (unpackStruct labelTables .xml 1 "Label_PI".toList (labelText ++ ['\x00'])) = false :=
  have h := unpackXmlStruct_packXmlStruct labelTables 1 ⟨by decide, by decide, by decide, by decide, by decide⟩
    labelStruct_form
  ⟨h.1, h.2 [], by decide +kernel⟩

def comesBackXml (name : Text) (inStruct : List Cell) : Option (List Cell) :=
  fieldsOf (unpackStruct labelTables .xml 1 name (packedText (packStruct labelTables .xml 1 name inStruct) ++ ['\x00']))

def isX : Cell → Bool
  | .pointer [.strs [s]] => s = ['x']
  | _ => false

/-- What is packed for a struct comes back behind the end of the buffer. -/
def comesBackBehind (tables : Tables) (name : Text) (inStruct : List Cell) : Bool :=
  overruns (unpackStruct tables .xml 1 name (packedText (packStruct tables .xml 1 name inStruct) ++ ['\x00']))

/-- A null pointer in an array, a null pointer in front of an item with its name and a bracket, a string of
which the escaped copy does not fit in its buffer, and a pointer that reaches behind the output buffer. -/
theorem xml_not_kept :
    comesBackXml "Array_PI".toList [.ints [1], .pointers [none]] ≠ some [.ints [1], .pointers [none]] ∧
    comesBackXml "Odd_PI".toList [.null, .pointer [.strs [['x']]]] ≠ some [.null, .pointer [.strs [['x']]]] ∧
    isOk (packStruct labelTables .xml 1 "Label_PI".toList [.null, .ints [7], .strs ["\"\"\"\"\"\"".toList]]) = false ∧
    comesBackBehind edgeTables "Ptr".toList [.strs [[]], .strs [[]], .null] = true :=
  ⟨ne_of_any holdsNull (by decide +kernel) (by decide), ne_of_any isX (by decide +kernel) (by decide),
    by decide +kernel, by decide +kernel⟩

end Pack
