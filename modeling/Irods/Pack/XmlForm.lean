-- SUMMARY: The XML form of a struct, and that packing emits it.
import Irods.Pack.Escaping
import Irods.Pack.NativeForm

/-!
# The XML form

Every element of a field is between tags of the name of its item, and so is a struct; a null
pointer and an item without elements have no text. The names of the items of a struct are
different, so that the reader can tell from the next tag whether an item is there.
-/

namespace Pack

open CString EStateM

/-! ## The form -/

/-- A string that is escaped within its buffer and fits in its dimension. -/
structure XmlSendable (maxStrLen : Option Nat) (s : Text) : Prop where
  noNul : '\x00' ∉ s
  escapes : EscapeFits s
  fits : tooLong s.length maxStrLen = false

/-- What the pointer of an item points to. -/
inductive XmlTarget (child : Form) (links : Links) (item : PackItem) : List Cell → Text → Prop
  | strs {strings : List Text} {maxStrLen : Option Nat} (htype : item.typeInx = .str)
      (hdims : strDims item.hintDimSize = .ok (maxStrLen, strings.length))
      (hfits : ∀ s ∈ strings, XmlSendable maxStrLen s) :
      XmlTarget child links item [.strs strings] (strings.flatMap (xmlString item))
  | struct {cells : List Cell} {text : Text} (htype : item.typeInx = .struct)
      (hstruct : child item links (getNumHintElement item) cells text) :
      XmlTarget child links item cells text

/-- The fields of an item, their text, and the item with what is saved in it. -/
inductive XmlField (child : Form) (links : Links) (item : PackItem) : List Cell → Text → PackItem → Prop
  | strs {strings : List Text} {maxStrLen : Nat} (hpointer : item.pointerType = .nonPointer)
      (htype : item.typeInx = .str) (hdims : strDims item.dimSize = .ok (some maxStrLen, strings.length))
      (hfits : ∀ s ∈ strings, XmlSendable (some maxStrLen) s) :
      XmlField child links item [.strs strings] (strings.flatMap (xmlString item)) item
  | numbers (k : Number) {values : List Int} (hpointer : item.pointerType = .nonPointer)
      (htype : item.typeInx = k.typeInx) (hlen : values.length = getNumElement item)
      (hrange : ∀ x ∈ values, InRange k.size x ∧ (decimal x).length ≤ 19) :
      XmlField child links item [.ints values] (values.flatMap (xmlNumber item.name k.extLen))
        (saveNumber k item values)
  | struct {cells : List Cell} {text : Text} (hpointer : item.pointerType = .nonPointer)
      (htype : item.typeInx = .struct) (hstruct : child item links (getNumElement item) cells text) :
      XmlField child links item cells text item
  | null (hpointer : item.pointerType ≠ .nonPointer) : XmlField child links item [.null] [] item
  | pointer {target : List Cell} {text : Text} (hpointer : item.pointerType ≠ .nonPointer)
      (hdims : item.dimSize = []) (hsome : 0 < getNumHintElement item)
      (htarget : XmlTarget child links item target text) :
      XmlField child links item [.pointer target] text item
  | pointers {targets : List (List Cell × Text)} (hpointer : item.pointerType ≠ .nonPointer)
      (hdims : item.dimSize ≠ []) (hsome : 0 < getNumHintElement item) (hlen : targets.length = getNumElement item)
      (hne : targets ≠ []) (htargets : ∀ t ∈ targets, XmlTarget child links item t.1 t.2) :
      XmlField child links item [.pointers (targets.map fun t => some t.1)] (targets.flatMap Prod.snd) item

/-- The fields of the items of a struct, and the names of the items. -/
inductive XmlItems (tables : Tables) (child : Form) : Links → List PackItem → List Cell → Text → List Text → Prop
  | nil {links : Links} : XmlItems tables child links [] [] [] []
  | cons {links links' : Links} {item item' saved : PackItem} {items : List PackItem} {cells more : List Cell}
      {text behind : Text} {names : List Text} (hresolve : resolvePackedItem tables links item = .ok (item', links'))
      (hname : ItemName item'.name) (hnew : item'.name ∉ names)
      (hfield : XmlField child links' item' cells text saved)
      (hrest : XmlItems tables child (links'.next saved) items more behind names) :
      XmlItems tables child links (item :: items) (cells ++ more) (text ++ behind) (item'.name :: names)

/-- The fields of `n` structs with one instruction. -/
inductive XmlElements (tables : Tables) (child : Form) (item : PackItem) (links : Links) (packInstruct : Text) :
    Nat → List Cell → Text → Prop
  | zero : XmlElements tables child item links packInstruct 0 [] []
  | succ {n : Nat} {items : List PackItem} {cells more : List Cell} {text behind : Text} {names : List Text}
      (hparse : parsePackInstruct packInstruct = .ok items)
      (hitems : XmlItems tables child (links.child item) items cells text names)
      (hrest : XmlElements tables child item links packInstruct n more behind) :
      XmlElements tables child item links packInstruct (n + 1) (cells ++ more)
        (startTag item.name true ++ (text ++ (endTag item.name ++ behind)))

/-- The fields of structs that are nested at most `depth` deep. -/
def XmlStruct (tables : Tables) : (depth : Nat) → Form
  | 0 => fun _ _ _ _ _ => False
  | depth + 1 => fun item links n cells text =>
    if n = 0 then cells = [] ∧ text = []
    else ∃ packInstruct, matchPackInstruct tables item.name = some packInstruct ∧
      XmlElements tables (XmlStruct tables depth) item links packInstruct n cells text

/-! ## Packing -/

theorem packStrings_xml {item : PackItem} {maxStrLen : Option Nat} {strings : List Text}
    (hfits : ∀ s ∈ strings, XmlSendable maxStrLen s) :
    Emits PackedOutput.buf (packStrings .xml item maxStrLen strings) ⟨⟩ (strings.flatMap (xmlString item)) := by
  induction strings with
  | nil => exact .pure _
  | cons s strings ih =>
    have hs := hfits s List.mem_cons_self
    have hone : Emits PackedOutput.buf (packXmlString item maxStrLen s) ⟨⟩ (xmlString item s) := by
      unfold packXmlString refuse
      rw [strToXmlStr_fits hs.escapes, hs.fits]
      refine .bind_silent (.pure _) (.bind_silent (.pure _) ?_)
      exact .bind (append_emits _ _ _) (.bind (append_emits _ _ _) (append_emits _ _ _))
    exact .bind hone (ih fun s' hmem => hfits s' (List.mem_cons_of_mem s hmem))

theorem packNumbers_xml (size extLen : Nat) {n : Nat} (item : PackItem) {values : List Int} (hlen : values.length = n)
    (rest : List Cell) :
    Emits PackedOutput.buf (packNumbers size extLen .xml item n (.cells (.ints values :: rest)))
      (max 0 (values.headD 0), .cells rest) (values.flatMap (xmlNumber item.name extLen)) := by
  have hints : (InPtr.cells (.ints values :: rest)).ints n = .ok (some values, .cells rest) := if_pos hlen
  unfold packNumbers
  rw [hints]
  exact .bind_silent (.pure _) (.bind_last (packXmlNumbers_emits item extLen values) (.pure _))

section

variable {pack : ChildPacker} {form : Form} {links : Links} {item : PackItem}

variable {text : Text} {cells : List Cell} {tables : Tables}

theorem XmlTarget.kind {target : List Cell} (h : XmlTarget form links item target text) :
    item.typeInx = .str ∨ item.typeInx = .struct := by
  cases h with
  | strs htype => exact .inl htype
  | struct htype => exact .inr htype

/-- What is packed for the pointers of an item. -/
theorem packPointerItem_xml (hchild : Packs pack form) {targets : List (List Cell × Text)}
    (hsome : 0 < getNumHintElement item) (hne : targets ≠ [])
    (htargets : ∀ t ∈ targets, XmlTarget form links item t.1 t.2) :
    Emits PackedOutput.buf (packPointerItem pack .xml links item (targets.map fun t => some t.1)) item
      (targets.flatMap Prod.snd) := by
  obtain ⟨t, ht⟩ := List.exists_mem_of_ne_nil _ hne
  unfold packPointerItem
  rcases (htargets t ht).kind with htype | htype
  · simp only [htype]
    refine .bind_last (packStrPointers_emits .xml hsome hne fun (cells, text) hmem => ?_) (.pure item)
    have htarget : XmlTarget form links item cells text := htargets _ hmem
    cases htarget with
    | strs _ hdims hfits => exact ⟨_, _, rfl, hdims, packStrings_xml hfits⟩
    | struct hstruct => simp [htype] at hstruct
  · simp only [htype]
    refine .bind_last (packTargets_native fun (cells, text) hmem => ?_) (.pure item)
    have htarget : XmlTarget form links item cells text := htargets _ hmem
    cases htarget with
    | strs hstr => simp [htype] at hstr
    | struct _ hstruct =>
      have hpack := hchild _ _ _ _ _ hstruct []
      rw [List.append_nil] at hpack
      exact .bind_last hpack (.pure _)

theorem packNonpointerItem_xml (hchild : Packs pack form) {saved : PackItem}
    (hfield : XmlField form links item cells text saved) (hpointer : item.pointerType = .nonPointer)
    (rest : List Cell) :
    Emits PackedOutput.buf (packNonpointerItem pack .xml links item (.cells (cells ++ rest)))
      (saved, .cells rest) text := by
  unfold packNonpointerItem
  cases hfield with
  | @strs strings maxStrLen _ htype hdims hfits =>
    have hstrs : (InPtr.cells (.strs strings :: rest)).strs strings.length = .ok (strings, .cells rest) := if_pos rfl
    have hsaved : savedField item strings.length (.cells (.strs strings :: rest)) = .ok item :=
      if_neg fun h => by simp [htype] at h
    simp only [htype, hdims, List.singleton_append]
    refine .bind_silent (.pure _) ?_
    rw [hsaved, hstrs]
    refine .bind_silent (.pure _) (.bind_silent (.pure _) (.bind_last (packStrings_xml hfits) ?_))
    rw [InPtr.behindStrs, if_neg fun h => Option.some_ne_none _ h.2.1]
    exact .pure _
  | numbers k _ htype hlen hrange =>
    have hpack := fun size extLen => packNumbers_xml size extLen item hlen rest
    obtain ⟨typeInx, name, pointerType, intValue, strValue, dimSize, hintDimSize⟩ := item
    obtain rfl : typeInx = k.typeInx := htype
    cases k with
    | int => exact .bind_last (hpack 4 12) (.pure _)
    | int16 => exact .bind_last (hpack 2 12) (.pure _)
    | double => exact .bind_last (hpack 8 20) (.pure _)
  | struct _ htype hstruct =>
    simp only [htype]
    exact .bind_last (hchild _ _ _ _ _ hstruct rest) (.pure _)
  | null hno => exact absurd hpointer hno
  | pointer hno => exact absurd hpointer hno
  | pointers hno => exact absurd hpointer hno

theorem packItem_xml {links' : Links} {item' saved : PackItem} (hchild : Packs pack form)
    (hresolve : resolvePackedItem tables links item = .ok (item', links'))
    (hfield : XmlField form links' item' cells text saved) (rest : List Cell) :
    Emits PackedOutput.buf (packItem pack tables .xml links item (.cells (cells ++ rest)))
      (links'.next saved, .cells rest) text := by
  by_cases hpointer : item'.pointerType = .nonPointer
  · exact packItem_fields hresolve hpointer (packNonpointerItem_xml hchild hfield hpointer rest)
  cases hfield with
  | null =>
    unfold packItem
    rw [hresolve]
    refine .bind_silent (.pure _) ?_
    simp only [hpointer, if_false]
    exact .bind_silent (.pure _) (.bind_silent endItem_emits (.pure _))
  | @pointer target text _ hdims hsome htarget =>
    have hone : ∀ t ∈ [(target, text)], XmlTarget form links' item' t.1 t.2 := by
      intro t hmem
      obtain rfl := List.mem_singleton.mp hmem
      exact htarget
    have hpack := packPointerItem_xml hchild hsome (List.cons_ne_nil _ _) hone
    rw [List.flatMap_cons, List.flatMap_nil, List.append_nil] at hpack
    exact packItem_targets hresolve hpointer (targetsOf_pointer hdims target) hpack rest
  | @pointers targets _ hdims hsome hlen hne htargets =>
    have hpack := packPointerItem_xml hchild hsome hne htargets
    exact packItem_targets hresolve hpointer (targetsOf_pointers hdims hlen) hpack rest
  | strs hyes => exact absurd hyes hpointer
  | numbers _ hyes => exact absurd hyes hpointer
  | struct hyes => exact absurd hyes hpointer

theorem packItems_xml (hchild : Packs pack form) {items : List PackItem} {names : List Text}
    (h : XmlItems tables form links items cells text names) (rest : List Cell) :
    Emits PackedOutput.buf (packItems pack tables .xml links items (.cells (cells ++ rest))) (.cells rest) text := by
  induction h with
  | nil => exact .pure _
  | cons hresolve _ _ hfield _ ih =>
    rw [List.append_assoc]
    exact .bind (packItem_xml hchild hresolve hfield _) ih

theorem packElements_xml (hchild : Packs pack form) {packInstruct : Text} {n : Nat}
    (h : XmlElements tables form item links packInstruct n cells text) (rest : List Cell) :
    Emits PackedOutput.buf (packElements pack tables .xml item links packInstruct n (.cells (cells ++ rest)))
      (.cells rest) text := by
  induction h with
  | zero => exact .pure _
  | succ hparse hitems _ ih =>
    unfold packElements
    rw [hparse, List.append_assoc]
    refine .bind_silent (.pure _) (.bind (append_emits _ _ _) ?_)
    exact .bind (packItems_xml hchild hitems _) (.bind (append_emits _ _ _) ih)

end

/-- Structs are packed to their form, however deep they are nested. -/
theorem packChildStruct_xml (tables : Tables) (depth : Nat) :
    Packs (packChildStruct tables .xml depth) (XmlStruct tables depth) := by
  induction depth with
  | zero => exact fun _ _ _ _ _ h => absurd h id
  | succ depth ih =>
    intro item links n cells text h rest
    unfold XmlStruct at h
    unfold packChildStruct
    by_cases hzero : n = 0
    · rw [if_pos hzero] at h
      obtain ⟨rfl, rfl⟩ := h
      rw [if_pos hzero]
      exact .pure _
    · rw [if_neg hzero] at h
      obtain ⟨packInstruct, hmatch, helements⟩ := h
      rw [if_neg hzero, hmatch]
      exact packElements_xml ih helements rest

/-! ## The tags of a form -/

/-- The text begins with a start tag. -/
def Opens (name text : Text) : Prop := ∃ more, text = startTag name false ++ more

theorem Opens.append {name text : Text} (h : Opens name text) (rest : Text) : Opens name (text ++ rest) := by
  obtain ⟨more, rfl⟩ := h
  exact ⟨more ++ rest, List.append_assoc _ _ _⟩

theorem opens_struct (name text : Text) : Opens name (startTag name true ++ text) :=
  ⟨'\n' :: text, by simp [startTag]⟩

/-- A form of which every text is empty or begins with the tag of its item, and has no terminator. -/
structure Form.Tagged (form : Form) : Prop where
  opens {item : PackItem} {links : Links} {n : Nat} {cells : List Cell} {text : Text} :
    form item links n cells text → 0 < n → Opens item.name text
  empty {item : PackItem} {links : Links} {cells : List Cell} {text : Text} : form item links 0 cells text → text = []
  noNul {item : PackItem} {links : Links} {n : Nat} {cells : List Cell} {text : Text} :
    form item links n cells text → ItemName item.name → '\x00' ∉ text

section

variable {form : Form} {links : Links} {item : PackItem}

theorem opens_strings (item : PackItem) {strings : List Text} (hne : strings ≠ []) :
    Opens item.name (strings.flatMap (xmlString item)) := by
  obtain ⟨s, strings, rfl⟩ := List.exists_cons_of_ne_nil hne
  exact Opens.append ⟨_, rfl⟩ _

theorem strDims_pos {dims : List Nat} {maxStrLen : Option Nat} {numStr : Nat}
    (h : strDims dims = .ok (maxStrLen, numStr)) (hpos : 0 < dims.prod) : 0 < numStr := by
  unfold strDims at h
  split at h
  · cases h
    exact Nat.one_pos
  · cases h
  · rename_i last hne hlast
    cases h
    obtain ⟨front, rfl⟩ := List.getLast?_eq_some_iff.mp hlast
    rw [List.prod_append, List.prod_singleton] at hpos ⊢
    have hlastPos : 0 < last := Nat.pos_of_mul_pos_left hpos
    rw [Nat.mul_div_cancel _ hlastPos]
    exact Nat.pos_of_mul_pos_right hpos

variable {text : Text}

theorem XmlTarget.opens (hform : form.Tagged) {target : List Cell} (hsome : 0 < getNumHintElement item)
    (h : XmlTarget form links item target text) : Opens item.name text := by
  cases h with
  | strs _ hdims => exact opens_strings item (List.ne_nil_of_length_pos (strDims_pos hdims hsome))
  | struct _ hstruct => exact hform.opens hstruct hsome

/-- A field has no text, or begins with the tag of its item. -/
theorem XmlField.opens (hform : form.Tagged) {cells : List Cell} {saved : PackItem}
    (h : XmlField form links item cells text saved) : text = [] ∨ Opens item.name text := by
  cases h with
  | @strs strings =>
    cases strings with
    | nil => exact .inl rfl
    | cons s strings => exact .inr (opens_strings item (List.cons_ne_nil _ _))
  | @numbers k values =>
    cases values with
    | nil => exact .inl rfl
    | cons x values => exact .inr (Opens.append ⟨_, rfl⟩ _)
  | struct _ _ hstruct =>
    cases hnum : getNumElement item with
    | zero =>
      rw [hnum] at hstruct
      exact .inl (hform.empty hstruct)
    | succ n =>
      rw [hnum] at hstruct
      exact .inr (hform.opens hstruct (Nat.succ_pos n))
  | null => exact .inl rfl
  | pointer _ _ hsome htarget => exact .inr (htarget.opens hform hsome)
  | @pointers targets _ _ hsome _ hne htargets =>
    obtain ⟨t, targets, rfl⟩ := List.exists_cons_of_ne_nil hne
    exact .inr (((htargets t List.mem_cons_self).opens hform hsome).append _)

/-- The items of a struct have no text, or begin with the tag of one of them. -/
theorem XmlItems.opens {tables : Tables} (hform : form.Tagged) {items : List PackItem} {cells : List Cell}
    {names : List Text} (h : XmlItems tables form links items cells text names) :
    text = [] ∨ ∃ name ∈ names, ItemName name ∧ Opens name text := by
  induction h with
  | nil => exact .inl rfl
  | @cons _ _ _ item' _ _ _ _ _ behind names _ hname _ hfield _ ih =>
    rcases hfield.opens hform with rfl | hopens
    · rcases ih with rfl | ⟨name, hmem, hother, hopens⟩
      · exact .inl rfl
      · exact .inr ⟨name, List.mem_cons_of_mem _ hmem, hother, hopens⟩
    · exact .inr ⟨item'.name, List.mem_cons_self, hname, hopens.append behind⟩

/-! ## No terminator -/

variable {name : Text} {cells : List Cell}

theorem ItemName.nul_not_mem_startTag (h : ItemName name) (lf : Bool) : '\x00' ∉ startTag name lf := by
  have hnul := h.noNul
  cases lf <;> simp [startTag, hnul]

theorem ItemName.nul_not_mem_endTag (h : ItemName name) : '\x00' ∉ endTag name := by
  have hnul := h.noNul
  simp [endTag, hnul]

theorem nul_not_mem_strings (hname : ItemName item.name) {strings : List Text} {maxStrLen : Option Nat}
    (hfits : ∀ s ∈ strings, XmlSendable maxStrLen s) : '\x00' ∉ strings.flatMap (xmlString item) := by
  intro hmem
  obtain ⟨s, hs, hnul⟩ := List.mem_flatMap.mp hmem
  rcases List.mem_append.mp hnul with hstart | hnul
  · exact hname.nul_not_mem_startTag false hstart
  rcases List.mem_append.mp hnul with hvalue | hend
  · exact nul_not_mem_escaped (hfits s hs).noNul hvalue
  · exact hname.nul_not_mem_endTag hend

theorem nul_not_mem_numbers (hname : ItemName name) (extLen : Nat) (values : List Int) :
    '\x00' ∉ values.flatMap (xmlNumber name extLen) := by
  intro hmem
  obtain ⟨x, -, hnul⟩ := List.mem_flatMap.mp hmem
  rcases List.mem_append.mp hnul with hstart | hnul
  · exact hname.nul_not_mem_startTag false hstart
  rcases List.mem_append.mp hnul with hvalue | hend
  · exact not_mem_decimal (by decide) (by decide) x (List.mem_of_mem_take hvalue)
  · exact hname.nul_not_mem_endTag hend

theorem XmlTarget.noNul (hform : form.Tagged) (hname : ItemName item.name) {target : List Cell}
    (h : XmlTarget form links item target text) : '\x00' ∉ text := by
  cases h with
  | strs _ _ hfits => exact nul_not_mem_strings hname hfits
  | struct _ hstruct => exact hform.noNul hstruct hname

theorem XmlField.noNul (hform : form.Tagged) (hname : ItemName item.name) {saved : PackItem}
    (h : XmlField form links item cells text saved) : '\x00' ∉ text := by
  cases h with
  | strs _ _ _ hfits => exact nul_not_mem_strings hname hfits
  | numbers k => exact nul_not_mem_numbers hname k.extLen _
  | struct _ _ hstruct => exact hform.noNul hstruct hname
  | null => exact List.not_mem_nil
  | pointer _ _ _ htarget => exact htarget.noNul hform hname
  | pointers _ _ _ _ _ htargets =>
    intro hmem
    obtain ⟨t, ht, hnul⟩ := List.mem_flatMap.mp hmem
    exact (htargets t ht).noNul hform hname hnul

theorem XmlItems.noNul {tables : Tables} (hform : form.Tagged) {items : List PackItem} {names : List Text}
    (h : XmlItems tables form links items cells text names) : '\x00' ∉ text := by
  induction h with
  | nil => exact List.not_mem_nil
  | cons _ hname _ hfield _ ih => exact List.not_mem_append (hfield.noNul hform hname) ih

theorem XmlElements.noNul {tables : Tables} (hform : form.Tagged) (hname : ItemName item.name) {packInstruct : Text}
    {n : Nat} (h : XmlElements tables form item links packInstruct n cells text) : '\x00' ∉ text := by
  induction h with
  | zero => exact List.not_mem_nil
  | succ _ hitems _ ih =>
    exact List.not_mem_append (hname.nul_not_mem_startTag true)
      (List.not_mem_append (hitems.noNul hform) (List.not_mem_append hname.nul_not_mem_endTag ih))

end

theorem xmlStruct_tagged (tables : Tables) (depth : Nat) : (XmlStruct tables depth).Tagged := by
  induction depth with
  | zero => exact ⟨fun h => absurd h id, fun h => absurd h id, fun h => absurd h id⟩
  | succ depth ih =>
    refine ⟨fun {item links n cells text} h hpos => ?_, fun {item links cells text} h => ?_,
      fun {item links n cells text} h hname => ?_⟩
    · unfold XmlStruct at h
      rw [if_neg hpos.ne'] at h
      obtain ⟨packInstruct, -, helements⟩ := h
      cases helements with
      | zero => exact absurd hpos (Nat.lt_irrefl 0)
      | succ => exact opens_struct item.name _
    · exact h.2
    · unfold XmlStruct at h
      by_cases hzero : n = 0
      · rw [if_pos hzero] at h
        rw [h.2]
        exact List.not_mem_nil
      · rw [if_neg hzero] at h
        obtain ⟨packInstruct, -, helements⟩ := h
        exact helements.noNul ih hname

end Pack
