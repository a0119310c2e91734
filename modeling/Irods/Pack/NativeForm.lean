-- SUMMARY: The native form of a struct, and that packing emits it.
import Irods.Pack.EmptyPointers
import Irods.Pack.Room
import Irods.Pack.StringLimits

/-!
# The native form

What a struct comes to in the native protocol, item by item: the fields a value of an item
may have, the text for them, and the item with what is saved in it. A struct that is nested is in
place of its fields, and the struct of a pointer is what the pointer points to. The dimensions
of an item are those the items in front of it give.
-/

namespace Pack

open CString EStateM

/-! ## The form -/

/-- The fields of `n` structs of the type of an item, and their text. -/
abbrev Form := PackItem → Links → Nat → List Cell → Text → Prop

/-- Whatever follows the text, it is not taken for a null pointer. -/
def Unmarked (text : Text) : Prop := ¬ nullPtrPackStr <+: text ∧ ¬ text <+: nullPtrPackStr

instance (text : Text) : Decidable (Unmarked text) := inferInstanceAs (Decidable (_ ∧ _))

/-- What the pointer of an item points to. -/
inductive TargetForm (child : Form) (links : Links) (item : PackItem) : List Cell → Text → Prop
  | chars {bytes : Text} (htype : item.typeInx = .char ∨ item.typeInx = .bin)
      (hpacked : item.pointerType ≠ .noPackPointer)
      (hlen : bytes.length = getNumHintElement item * item.typeInx.size) :
      TargetForm child links item [.chars bytes] bytes
  | strs {strings : List Text} {maxStrLen : Option Nat} (htype : item.typeInx = .str)
      (hdims : strDims item.hintDimSize = .ok (maxStrLen, strings.length))
      (hfits : ∀ s ∈ strings, '\x00' ∉ s ∧ tooLong s.length maxStrLen = false) :
      TargetForm child links item [.strs strings] (strings.flatMap natString)
  | struct {cells : List Cell} {text : Text} (htype : item.typeInx = .struct)
      (hstruct : child item links (getNumHintElement item) cells text) :
      TargetForm child links item cells text

variable {child : Form} {links : Links} {item : PackItem}

theorem TargetForm.kind {target : List Cell} {text : Text} (h : TargetForm child links item target text) :
    item.typeInx = .char ∨ item.typeInx = .bin ∨ item.typeInx = .str ∨ item.typeInx = .struct := by
  cases h with
  | chars htype => exact htype.imp_right .inl
  | strs htype => exact .inr (.inr (.inl htype))
  | struct htype => exact .inr (.inr (.inr htype))

/-- The first number of an item, for dimensions. -/
def saveNumber (k : Number) (item : PackItem) (values : List Int) : PackItem :=
  match k with
  | .double => item
  | _ => { item with intValue := max 0 (values.headD 0) }

/-- The fields of an item, their text, and the item with what is saved in it. -/
inductive FieldForm (child : Form) (links : Links) (item : PackItem) : List Cell → Text → PackItem → Prop
  | chars {bytes : Text} (hpointer : item.pointerType = .nonPointer)
      (htype : item.typeInx = .char ∨ item.typeInx = .bin)
      (hlen : bytes.length = getNumElement item * item.typeInx.size) :
      FieldForm child links item [.chars bytes] bytes item
  | strs {strings : List Text} {maxStrLen : Option Nat} (hpointer : item.pointerType = .nonPointer)
      (htype : item.typeInx = .str) (hdims : strDims item.dimSize = .ok (maxStrLen, strings.length))
      (hfits : ∀ s ∈ strings, '\x00' ∉ s ∧ tooLong (s.length + 1) maxStrLen = false) :
      FieldForm child links item [.strs strings] (strings.flatMap natString) item
  | numbers (k : Number) {values : List Int} (hpointer : item.pointerType = .nonPointer)
      (htype : item.typeInx = k.typeInx) (hlen : values.length = getNumElement item)
      (hrange : ∀ x ∈ values, InRange k.size x) :
      FieldForm child links item [.ints values] (values.flatMap (bigEndian · k.size)) (saveNumber k item values)
  | struct {cells : List Cell} {text : Text} (hpointer : item.pointerType = .nonPointer)
      (htype : item.typeInx = .struct) (hstruct : child item links (getNumElement item) cells text) :
      FieldForm child links item cells text item
  | null (hpointer : item.pointerType ≠ .nonPointer) :
      FieldForm child links item [.null] (nullPtrPackStr ++ ['\x00']) item
  | pointer {target : List Cell} {text : Text} (hpointer : item.pointerType ≠ .nonPointer)
      (hdims : item.dimSize = []) (hsome : 0 < getNumHintElement item)
      (htarget : TargetForm child links item target text) (hmark : Unmarked text) :
      FieldForm child links item [.pointer target] text item
  | pointers {targets : List (List Cell × Text)} (hpointer : item.pointerType ≠ .nonPointer)
      (hdims : item.dimSize ≠ []) (hsome : 0 < getNumHintElement item) (hlen : targets.length = getNumElement item)
      (hne : targets ≠ []) (htargets : ∀ t ∈ targets, TargetForm child links item t.1 t.2 ∧ Unmarked t.2) :
      FieldForm child links item [.pointers (targets.map fun t => some t.1)] (targets.flatMap Prod.snd) item

/-- The fields of the items of a struct. -/
inductive ItemsForm (tables : Tables) (child : Form) : Links → List PackItem → List Cell → Text → Prop
  | nil {links : Links} : ItemsForm tables child links [] [] []
  | cons {links links' : Links} {item item' saved : PackItem} {items : List PackItem} {cells more : List Cell}
      {text behind : Text} (hresolve : resolvePackedItem tables links item = .ok (item', links'))
      (hfield : FieldForm child links' item' cells text saved)
      (hrest : ItemsForm tables child (links'.next saved) items more behind) :
      ItemsForm tables child links (item :: items) (cells ++ more) (text ++ behind)

/-- The fields of `n` structs with one instruction. -/
inductive ElementsForm (tables : Tables) (child : Form) (item : PackItem) (links : Links) (packInstruct : Text) :
    Nat → List Cell → Text → Prop
  | zero : ElementsForm tables child item links packInstruct 0 [] []
  | succ {n : Nat} {items : List PackItem} {cells more : List Cell} {text behind : Text}
      (hparse : parsePackInstruct packInstruct = .ok items)
      (hitems : ItemsForm tables child (links.child item) items cells text)
      (hrest : ElementsForm tables child item links packInstruct n more behind) :
      ElementsForm tables child item links packInstruct (n + 1) (cells ++ more) (text ++ behind)

/-- The fields of structs that are nested at most `depth` deep. -/
def StructForm (tables : Tables) : (depth : Nat) → Form
  | 0 => fun _ _ _ _ _ => False
  | depth + 1 => fun item links n cells text =>
    if n = 0 then cells = [] ∧ text = []
    else ∃ packInstruct, matchPackInstruct tables item.name = some packInstruct ∧
      ElementsForm tables (StructForm tables depth) item links packInstruct n cells text

/-! ## Packing -/

/-- The packer moves on behind the fields and emits their text. -/
def Packs (child : ChildPacker) (form : Form) : Prop :=
  ∀ item links n cells text, form item links n cells text →
    ∀ rest, Emits PackedOutput.buf (child item links n (.cells (cells ++ rest))) (.cells rest) text

theorem packChar_native {len : Nat} {bytes : Text} (hlen : bytes.length = len) (rest : List Cell) :
    Emits PackedOutput.buf (packChar .native item len (.cells (.chars bytes :: rest))) (.cells rest) bytes := by
  have hchars : (InPtr.cells (.chars bytes :: rest)).chars len = .ok (some bytes, .cells rest) := if_pos hlen
  unfold packChar
  rw [hchars]
  refine .bind_silent (.pure _) ?_
  by_cases hzero : len = 0
  · obtain rfl := List.length_eq_zero_iff.mp (hlen.trans hzero)
    simp only [hzero, if_true]
    exact .pure _
  · simp only [hzero, if_false]
    have hbytes : Emits PackedOutput.buf (packBytes .native item len (some bytes)) ⟨⟩ bytes := append_emits _ _ _
    exact .bind_silent (.pure _) (.bind_last hbytes (.bind_silent (.pure _) (.pure _)))

theorem packStrings_native {maxStrLen : Option Nat} {strings : List Text}
    (hfits : ∀ s ∈ strings, tooLong s.length maxStrLen = false) :
    Emits PackedOutput.buf (packStrings .native item maxStrLen strings) ⟨⟩ (strings.flatMap natString) := by
  induction strings with
  | nil => exact .pure _
  | cons s strings ih =>
    have hone : Emits PackedOutput.buf (packNatString maxStrLen s) ⟨⟩ (natString s) := by
      unfold packNatString refuse
      rw [hfits s List.mem_cons_self]
      exact .bind_silent (.pure _) (append_emits _ _ (s ++ ['\x00']))
    exact .bind hone (ih fun s' hmem => hfits s' (List.mem_cons_of_mem s hmem))

theorem packNumbers_native (size extLen : Nat) {n : Nat} (item : PackItem) {values : List Int}
    (hlen : values.length = n)
    (rest : List Cell) :
    Emits PackedOutput.buf (packNumbers size extLen .native item n (.cells (.ints values :: rest)))
      (max 0 (values.headD 0), .cells rest) (values.flatMap (bigEndian · size)) := by
  have hints : (InPtr.cells (.ints values :: rest)).ints n = .ok (some values, .cells rest) := if_pos hlen
  unfold packNumbers
  rw [hints]
  refine .bind_silent (.pure _) ?_
  by_cases hzero : n = 0
  · obtain rfl := List.length_eq_zero_iff.mp (hlen.trans hzero)
    simp only [hzero, if_true]
    exact .pure _
  · simp only [hzero, if_false]
    exact .bind_last (append_emits _ _ _) (.pure _)

section

variable {pack : ChildPacker} {form : Form} {links : Links} {item : PackItem}

variable {targets : List (List Cell × Text)} {cells : List Cell} {text : Text} {tables : Tables}

/-- A text for each pointer, one after the other. -/
theorem packTargets_native {packOne : InPtr → PackM Char Unit}
    (h : ∀ t ∈ targets, Emits PackedOutput.buf (packOne (.cells t.1)) ⟨⟩ t.2) :
    Emits PackedOutput.buf (packTargets packOne (targets.map fun t => some t.1)) ⟨⟩ (targets.flatMap Prod.snd) := by
  induction targets with
  | nil => exact .pure _
  | cons t targets ih =>
    exact .bind (h t List.mem_cons_self) (ih fun t' hmem => h t' (List.mem_cons_of_mem t hmem))

theorem packByteTargets_native (htype : item.typeInx = .char ∨ item.typeInx = .bin)
    (htargets : ∀ t ∈ targets, TargetForm form links item t.1 t.2) :
    Emits PackedOutput.buf (packTargets (fun inPtr => do
        let _ ← (if item.pointerType = .noPackPointer
          then packNopackPointer .native item (getNumHintElement item * item.typeInx.size)
          else packChar .native item (getNumHintElement item * item.typeInx.size)) inPtr)
      (targets.map fun t => some t.1)) ⟨⟩ (targets.flatMap Prod.snd) := by
  refine packTargets_native fun (cells, text) hmem => ?_
  have htarget : TargetForm form links item cells text := htargets _ hmem
  cases htarget with
  | chars _ hpacked hlen =>
    simp only [hpacked, if_false]
    exact .bind_last (packChar_native hlen []) (.pure _)
  | strs hstr => simp [hstr] at htype
  | struct hstruct => simp [hstruct] at htype

theorem packStrPointers_emits (prot : IrodsProt) (hsome : 0 < getNumHintElement item) (hne : targets ≠ [])
    (hall : ∀ t ∈ targets, ∃ strings maxStrLen, t.1 = [.strs strings] ∧
      strDims item.hintDimSize = .ok (maxStrLen, strings.length) ∧
      Emits PackedOutput.buf (packStrings prot item maxStrLen strings) ⟨⟩ t.2) :
    Emits PackedOutput.buf (packStrPointers prot item (targets.map fun t => some t.1)) ⟨⟩
      (targets.flatMap Prod.snd) := by
  obtain ⟨t, ht⟩ := List.exists_mem_of_ne_nil _ hne
  obtain ⟨strings, maxStrLen, -, hdims, -⟩ := hall t ht
  have hlast : item.hintDimSize.getLast? ≠ some 0 := by
    intro hzero
    rw [strDims, hzero] at hdims
    cases hdims
  have hcond : ¬ (item.hintDimSize ≠ [] ∧
      (getNumHintElement item = 0 ∨ item.hintDimSize.getLast? = some 0)) := fun h => h.2.elim (by omega) hlast
  unfold packStrPointers
  rw [if_neg hcond, hdims]
  refine .bind_silent (.pure _) (packTargets_native fun t hmem => ?_)
  obtain ⟨strings', maxStrLen', hcells, hdims', hpack⟩ := hall t hmem
  obtain ⟨rfl, hlen⟩ : maxStrLen = maxStrLen' ∧ strings.length = strings'.length := by
    rw [hdims] at hdims'
    simpa using hdims'
  have hstrs : (InPtr.cells [.strs strings']).strs strings.length = .ok (strings', .cells []) := if_pos hlen.symm
  rw [hcells, hstrs]
  exact .bind_silent (.pure _) hpack

theorem packStrPointers_native (htype : item.typeInx = .str) (hsome : 0 < getNumHintElement item) (hne : targets ≠ [])
    (htargets : ∀ t ∈ targets, TargetForm form links item t.1 t.2) :
    Emits PackedOutput.buf (packStrPointers .native item (targets.map fun t => some t.1)) ⟨⟩
      (targets.flatMap Prod.snd) := by
  refine packStrPointers_emits .native hsome hne fun (cells, text) hmem => ?_
  have htarget : TargetForm form links item cells text := htargets _ hmem
  cases htarget with
  | chars hchars => simp [htype] at hchars
  | strs _ hdims hfits => exact ⟨_, _, rfl, hdims, packStrings_native fun s hs => (hfits s hs).2⟩
  | struct hstruct => simp [htype] at hstruct

/-- What is packed for the pointers of an item. -/
theorem packPointerItem_native (hchild : Packs pack form) (hsome : 0 < getNumHintElement item) (hne : targets ≠ [])
    (htargets : ∀ t ∈ targets, TargetForm form links item t.1 t.2) :
    Emits PackedOutput.buf (packPointerItem pack .native links item (targets.map fun t => some t.1)) item
      (targets.flatMap Prod.snd) := by
  obtain ⟨t, ht⟩ := List.exists_mem_of_ne_nil _ hne
  unfold packPointerItem
  rcases (htargets t ht).kind with htype | htype | htype | htype
  · have hbytes := packByteTargets_native (.inl htype) htargets
    simp only [htype] at hbytes ⊢
    exact .bind_last hbytes (.pure item)
  · have hbytes := packByteTargets_native (.inr htype) htargets
    simp only [htype] at hbytes ⊢
    exact .bind_last hbytes (.pure item)
  · simp only [htype]
    exact .bind_last (packStrPointers_native htype hsome hne htargets) (.pure item)
  · simp only [htype]
    refine .bind_last (packTargets_native fun (cells, text) hmem => ?_) (.pure item)
    have htarget : TargetForm form links item cells text := htargets _ hmem
    cases htarget with
    | chars hchars => simp [htype] at hchars
    | strs hstr => simp [htype] at hstr
    | struct _ hstruct =>
      have hpack := hchild _ _ _ _ _ hstruct []
      rw [List.append_nil] at hpack
      exact .bind_last hpack (.pure _)

theorem packNonpointerItem_native (hchild : Packs pack form) {saved : PackItem}
    (hfield : FieldForm form links item cells text saved) (hpointer : item.pointerType = .nonPointer)
    (rest : List Cell) :
    Emits PackedOutput.buf (packNonpointerItem pack .native links item (.cells (cells ++ rest)))
      (saved, .cells rest) text := by
  unfold packNonpointerItem
  cases hfield with
  | chars _ htype hlen =>
    rcases htype with htype | htype
    · simp only [htype] at hlen ⊢
      exact .bind_last (packChar_native hlen rest) (.pure _)
    · simp only [htype] at hlen ⊢
      exact .bind_last (packChar_native hlen rest) (.pure _)
  | @strs strings maxStrLen _ htype hdims hfits =>
    have hstrs : (InPtr.cells (.strs strings :: rest)).strs strings.length = .ok (strings, .cells rest) := if_pos rfl
    have hsaved : savedField item strings.length (.cells (.strs strings :: rest)) = .ok item :=
      if_neg fun h => by simp [htype] at h
    simp only [htype, hdims, List.singleton_append]
    refine .bind_silent (.pure _) ?_
    rw [hsaved, hstrs]
    refine .bind_silent (.pure _) (.bind_silent (.pure _) ?_)
    have hbehind : InPtr.behindStrs .native maxStrLen strings (.cells rest) = .cells rest :=
      if_neg fun h => by cases h.1
    rw [hbehind]
    refine .bind_last (packStrings_native fun s hmem => ?_) (.pure _)
    have hfit := (hfits s hmem).2
    cases maxStrLen with
    | none => rfl
    | some maxStrLen =>
      simp only [tooLong, decide_eq_false_iff_not] at hfit ⊢
      omega
  | numbers k _ htype hlen hrange =>
    have hpack := fun size extLen => packNumbers_native size extLen item hlen rest
    obtain ⟨typeInx, name, pointerType, intValue, strValue, dimSize, hintDimSize⟩ := item
    obtain rfl : typeInx = k.typeInx := htype
    cases k with
    | int => exact .bind_last (hpack 4 12) (.pure _)
    | int16 => exact .bind_last (hpack 2 12) (.pure _)
    | double => exact .bind_last (hpack 8 20) (.pure _)
  | struct _ htype hstruct =>
    simp only [htype]
    exact .bind_last (hchild _ _ _ _ _ hstruct rest) (.pure _)
  | null hno => exact absurd hpointer hno
  | pointer hno => exact absurd hpointer hno
  | pointers hno => exact absurd hpointer hno

section Item

variable {links' : Links} {item' saved : PackItem} {prot : IrodsProt}
  (hresolve : resolvePackedItem tables links item = .ok (item', links'))

include hresolve

/-- The fields of an item that is no pointer are packed, and the item is done. -/
theorem packItem_fields {inPtr inPtr' : InPtr} (hpointer : item'.pointerType = .nonPointer)
    (hpack : Emits PackedOutput.buf (packNonpointerItem pack prot links' item' inPtr) (saved, inPtr') text) :
    Emits PackedOutput.buf (packItem pack tables prot links item inPtr) (links'.next saved, inPtr') text := by
  unfold packItem
  rw [hresolve]
  refine .bind_silent (.pure _) ?_
  simp only [hpointer, if_true]
  exact .bind_last hpack (.bind_silent endItem_emits (.pure _))

/-- What the pointers of an item point to is packed, and the item is done. -/
theorem packItem_targets {cell : Cell} {targets : List (Option (List Cell))}
    (hpointer : item'.pointerType ≠ .nonPointer)
    (htargets : targetsOf item' cell = .ok targets)
    (hpack : Emits PackedOutput.buf (packPointerItem pack prot links' item' targets) item' text) (rest : List Cell) :
    Emits PackedOutput.buf (packItem pack tables prot links item (.cells (cell :: rest)))
      (links'.next item', .cells rest) text := by
  unfold packItem
  rw [hresolve]
  refine .bind_silent (.pure _) ?_
  simp only [hpointer, if_false]
  refine .bind_silent (.pure _) ?_
  cases cell with
  | pointer | pointers =>
    dsimp only
    rw [htargets]
    exact .bind_silent (.pure _) (.bind_last hpack (.bind_silent endItem_emits (.pure _)))
  | _ => cases htargets

end Item

theorem targetsOf_pointer (hdims : item.dimSize = []) (target : List Cell) :
    targetsOf item (.pointer target) = .ok [some target] := if_pos hdims

theorem targetsOf_pointers {targets : List (List Cell × Text)} (hdims : item.dimSize ≠ [])
    (hlen : targets.length = getNumElement item) :
    targetsOf item (.pointers (targets.map fun t => some t.1)) = .ok (targets.map fun t => some t.1) :=
  if_pos ⟨hdims, by rw [List.length_map, hlen]⟩

theorem packItem_native {links' : Links} {item' saved : PackItem} (hchild : Packs pack form)
    (hresolve : resolvePackedItem tables links item = .ok (item', links'))
    (hfield : FieldForm form links' item' cells text saved) (rest : List Cell) :
    Emits PackedOutput.buf (packItem pack tables .native links item (.cells (cells ++ rest)))
      (links'.next saved, .cells rest) text := by
  by_cases hpointer : item'.pointerType = .nonPointer
  · exact packItem_fields hresolve hpointer (packNonpointerItem_native hchild hfield hpointer rest)
  cases hfield with
  | null =>
    unfold packItem
    rw [hresolve]
    refine .bind_silent (.pure _) ?_
    simp only [hpointer, if_false]
    exact .bind_silent (.pure _) (.bind_last (append_emits _ _ _) (.bind_silent endItem_emits (.pure _)))
  | @pointer target text _ hdims hsome htarget hmark =>
    have hone : ∀ t ∈ [(target, text)], TargetForm form links' item' t.1 t.2 := by
      intro t hmem
      obtain rfl := List.mem_singleton.mp hmem
      exact htarget
    have hpack := packPointerItem_native hchild hsome (List.cons_ne_nil _ _) hone
    rw [List.flatMap_cons, List.flatMap_nil, List.append_nil] at hpack
    exact packItem_targets hresolve hpointer (targetsOf_pointer hdims target) hpack rest
  | @pointers targets _ hdims hsome hlen hne htargets =>
    have hpack := packPointerItem_native hchild hsome hne fun t hmem => (htargets t hmem).1
    exact packItem_targets hresolve hpointer (targetsOf_pointers hdims hlen) hpack rest
  | chars hyes => exact absurd hyes hpointer
  | strs hyes => exact absurd hyes hpointer
  | numbers _ hyes => exact absurd hyes hpointer
  | struct hyes => exact absurd hyes hpointer

theorem packItems_native (hchild : Packs pack form) {items : List PackItem}
    (h : ItemsForm tables form links items cells text) (rest : List Cell) :
    Emits PackedOutput.buf (packItems pack tables .native links items (.cells (cells ++ rest))) (.cells rest) text := by
  induction h with
  | nil => exact .pure _
  | cons hresolve hfield _ ih =>
    rw [List.append_assoc]
    exact .bind (packItem_native hchild hresolve hfield _) ih

theorem packElements_native (hchild : Packs pack form) {packInstruct : Text} {n : Nat}
    (h : ElementsForm tables form item links packInstruct n cells text) (rest : List Cell) :
    Emits PackedOutput.buf (packElements pack tables .native item links packInstruct n (.cells (cells ++ rest)))
      (.cells rest) text := by
  induction h with
  | zero => exact .pure _
  | succ hparse hitems _ ih =>
    unfold packElements
    rw [hparse, List.append_assoc]
    refine .bind_silent (.pure _) (.bind_silent (.pure _) ?_)
    exact .bind (packItems_native hchild hitems _) (.bind_silent (.pure _) ih)

end

/-- Structs are packed to their form, however deep they are nested. -/
theorem packChildStruct_native (tables : Tables) (depth : Nat) :
    Packs (packChildStruct tables .native depth) (StructForm tables depth) := by
  induction depth with
  | zero => exact fun _ _ _ _ _ h => absurd h id
  | succ depth ih =>
    intro item links n cells text h rest
    unfold StructForm at h
    unfold packChildStruct
    by_cases hzero : n = 0
    · rw [if_pos hzero] at h
      obtain ⟨rfl, rfl⟩ := h
      rw [if_pos hzero]
      exact .pure _
    · rw [if_neg hzero] at h
      obtain ⟨packInstruct, hmatch, helements⟩ := h
      rw [if_neg hzero, hmatch]
      exact packElements_native ih helements rest

end Pack
