-- SUMMARY: When every write stays inside of the output buffer.
import Irods.Pack.Unpacking

/-!
# Room in the output buffers

Each routine reserves room with `extendPackedOutput` and moves the length on its own. All but
three agree: a string without a dimension is unpacked from XML without room for its terminator,
a pointer is aligned inside of the room for one pointer, and a group of base64 characters with
three `=` decodes to one byte that was not counted.
-/

namespace Pack

open CString EStateM
open List (length_append length_cons length_nil mem_cons suffix_refl)

/-! ## Steps -/

/-- All bytes that are written, or the length at the end of an item, are within the buffer. -/
def Step.Safe (step : Step) : Prop := step.start + step.count ≤ step.room

/-- The buffer before the step does not end where the step would write behind it. -/
def Step.Fits (step : Step) : Prop :=
  match step.op with
  | .put => True
  | .xmlStr strLen => step.len + strLen ≠ step.bufSize
  | .pointer =>
    alignAddrToBoundary step.len 8 + 8 ≤ step.bufSize ∨ step.bufSize < step.len + 8
  | .bin input len => (base64Decode len input).2.length ≤ len ∨ step.len + len ≠ step.bufSize
  | .item => True

/-- What packing writes. -/
def Op.plain (op : Op) : Prop := op = .put ∨ op = .item

/-- What unpacking writes. -/
def Op.any (_ : Op) : Prop := True

variable {α : Type}

section

variable {β : Type} {allowed : Op → Prop}

/-- The buffers made so far have room for an aligned pointer, and when all steps fit the length
is within the buffer and all writes were safe. -/
structure Roomy (out : PackedOutput α) : Prop where
  size : 16 ≤ out.bufSize
  fits : ∀ step ∈ out.trace, step.Safe → step.Fits
  safe : (∀ step ∈ out.trace, step.Fits) → out.len ≤ out.bufSize ∧ ∀ step ∈ out.trace, step.Safe

theorem Roomy.init {len : Nat} (h : 16 ≤ len) : Roomy (initPackedOutput len : PackedOutput α) :=
  ⟨h, nofun, fun _ => ⟨Nat.zero_le _, nofun⟩⟩

/-- Steps of some kinds are added to the trace, and the buffers stay roomy. -/
structure Stepwise (allowed : Op → Prop) (out out' : PackedOutput α) : Prop where
  grows : out.trace <:+ out'.trace
  ops : ∀ step ∈ out'.trace, step ∈ out.trace ∨ allowed step.op
  roomy : Roomy out → Roomy out'

theorem Stepwise.refl (out : PackedOutput α) : Stepwise allowed out out :=
  ⟨suffix_refl _, fun _ => .inl, id⟩

theorem Stepwise.trans (a b c : PackedOutput α) (hab : Stepwise allowed a b)
    (hbc : Stepwise allowed b c) : Stepwise allowed a c :=
  ⟨hab.grows.trans hbc.grows, fun step hstep => (hbc.ops step hstep).elim (hab.ops step) .inr,
    hbc.roomy ∘ hab.roomy⟩

/-! ## Reserving -/

theorem extendPackedOutput_grows (out : PackedOutput α) (extLen : Nat) :
    out.bufSize ≤ (extendPackedOutput out extLen).bufSize := by
  unfold extendPackedOutput
  dsimp only
  split
  · exact le_refl _
  · split
    · dsimp only
      omega
    · dsimp only
      omega

variable {out : PackedOutput α} {extLen boundary : Nat}

/-- What was asked for is there; a buffer that was extended has a byte to spare, and room to
align a pointer. -/
theorem extendPackedOutput_spec (hsize : 16 ≤ out.bufSize) (hlen : out.len ≤ out.bufSize) (extLen : Nat) :
    out.len + extLen ≤ (extendPackedOutput out extLen).bufSize ∧
    (out.bufSize < out.len + extLen → out.len + extLen < (extendPackedOutput out extLen).bufSize ∧
      out.len + 16 ≤ (extendPackedOutput out extLen).bufSize) := by
  have halloc : packedOutAllocSz = 16384 := rfl
  unfold extendPackedOutput
  dsimp only
  split
  · rename_i hfits
    exact ⟨hfits, fun h => absurd hfits (Nat.not_le.mpr h)⟩
  · split
    · dsimp only
      omega
    · dsimp only
      omega

theorem extendPackedOutput_fits (h : out.len + extLen ≤ out.bufSize) : extendPackedOutput out extLen = out := by
  unfold extendPackedOutput
  rw [if_pos h]

theorem extendPackedOutput_eq (out : PackedOutput α) (extLen : Nat) :
    extendPackedOutput out extLen = { out with bufSize := (extendPackedOutput out extLen).bufSize } := by
  unfold extendPackedOutput
  dsimp only
  split
  · rfl
  · split
    · rfl
    · rfl

theorem alignAddrToBoundary_spec (ptr : Nat) (hpos : 0 < boundary) :
    ptr ≤ alignAddrToBoundary ptr boundary ∧ alignAddrToBoundary ptr boundary < ptr + boundary := by
  have hmod := Nat.mod_lt ptr hpos
  unfold alignAddrToBoundary
  split
  · omega
  · omega

/-- The step of a write, and the length behind it. -/
def PackedOutput.written (out : PackedOutput α) (op : Op) (extLen boundary count len : Nat) (buf : List α) :
    PackedOutput α :=
  { out with
    buf := buf
    len := len
    bufSize := (extendPackedOutput out extLen).bufSize
    trace := ⟨op, out.len, out.bufSize, alignAddrToBoundary out.len boundary, count,
      (extendPackedOutput out extLen).bufSize⟩ :: out.trace }

theorem store_run (out : PackedOutput α) (op : Op) (extLen boundary count : Nat) :
    store op extLen boundary count out = .ok () (out.written op extLen boundary count out.len out.buf) := by
  have hbuf : (extendPackedOutput out extLen).buf = out.buf := by rw [extendPackedOutput_eq]
  have hlen : (extendPackedOutput out extLen).len = out.len := by rw [extendPackedOutput_eq]
  have hnopack : (extendPackedOutput out extLen).nopackBufArray = out.nopackBufArray := by
    rw [extendPackedOutput_eq]
  show Result.ok () (PackedOutput.mk (extendPackedOutput out extLen).buf (extendPackedOutput out extLen).len
    _ (extendPackedOutput out extLen).nopackBufArray _) = _
  rw [hbuf, hlen, hnopack]
  rfl

/-- A write that is safe exactly when it fits, and then leaves the length within the buffer. -/
theorem Stepwise.written (out : PackedOutput α) (op : Op) (extLen boundary count len : Nat) (buf : List α)
    (hallowed : allowed op) (hfits : ∀ step : Step, step.op = op → step.len = out.len → step.bufSize = out.bufSize →
      step.start = alignAddrToBoundary out.len boundary → step.count = count →
      step.room = (extendPackedOutput out extLen).bufSize → 16 ≤ out.bufSize →
      (step.Safe → step.Fits) ∧
      (step.Fits → out.len ≤ out.bufSize → len ≤ step.room ∧ step.Safe)) :
    Stepwise allowed out (out.written op extLen boundary count len buf) where
  grows := List.suffix_cons _ _
  ops step hstep := by
    obtain rfl | hstep := mem_cons.mp hstep
    · exact .inr hallowed
    · exact .inl hstep
  roomy h := by
    obtain ⟨hsafe, hlen⟩ := hfits ⟨op, out.len, out.bufSize, alignAddrToBoundary out.len boundary, count,
      (extendPackedOutput out extLen).bufSize⟩ rfl rfl rfl rfl rfl rfl h.size
    refine ⟨?_, ?_, ?_⟩
    · exact h.size.trans (extendPackedOutput_grows out extLen)
    · intro step hstep
      obtain rfl | hstep := mem_cons.mp hstep
      · exact hsafe
      · exact h.fits step hstep
    · intro hall
      obtain ⟨hin, hold⟩ := h.safe fun step hstep => hall step (List.mem_cons_of_mem _ hstep)
      obtain ⟨hroom, hstepSafe⟩ := hlen (hall _ List.mem_cons_self) hin
      refine ⟨hroom, fun step hstep => ?_⟩
      obtain rfl | hstep := mem_cons.mp hstep
      · exact hstepSafe
      · exact hold step hstep

theorem Stepwise.put (hallowed : allowed .put) (out : PackedOutput α) {count len : Nat} (buf : List α)
    (hcount : alignAddrToBoundary out.len boundary + count ≤ out.len + extLen) (hlen : len ≤ out.len + extLen) :
    Stepwise allowed out (out.written .put extLen boundary count len buf) := by
  refine Stepwise.written out _ _ _ _ _ _ hallowed
    fun step hop _ _ hstart hcount' hroom hsize => ⟨fun _ => ?_, fun _ hin => ?_⟩
  · rw [Step.Fits, hop]
    exact trivial
  · obtain ⟨hspec, -⟩ := extendPackedOutput_spec hsize hin extLen
    rw [Step.Safe, hstart, hcount', hroom]
    exact ⟨hlen.trans hspec, hcount.trans hspec⟩

theorem alignAddrToBoundary_one (ptr : Nat) : alignAddrToBoundary ptr 1 = ptr := by
  rw [alignAddrToBoundary, if_pos (Nat.mod_one ptr)]

/-- Whenever the routine ends with a value, it has only made steps. -/
abbrev Keeps (allowed : Op → Prop) (m : PackM α β) : Prop := OkRel (Stepwise allowed) m

namespace Keeps

variable {γ : Type}

theorem bind {m : PackM α β} {f : β → PackM α γ} (hm : Keeps allowed m) (hf : ∀ b, Keeps allowed (f b)) :
    Keeps allowed (m >>= f) := OkRel.bind Stepwise.trans hm hf

theorem pure (b : β) : Keeps allowed (Pure.pure b : PackM α β) := OkRel.pure Stepwise.refl b

theorem throw (stop : Stop) : Keeps allowed (MonadExcept.throw stop : PackM α β) := OkRel.throw stop

theorem get : Keeps allowed (MonadState.get : PackM α (PackedOutput α)) := OkRel.get Stepwise.refl

/-- A value that is computed apart from the buffer. -/
theorem ofExcept_bind {r : Except Stop β} {f : β → PackM α γ} (hf : ∀ b, r = .ok b → Keeps allowed (f b)) :
    Keeps allowed (ofExcept r >>= f) := by
  cases r with
  | ok b => exact hf b rfl
  | error stop =>
    intro out c out' h
    obtain ⟨b, out₁, hthrow, -⟩ := bind_ok.mp h
    exact absurd hthrow not_throw_ok

/-- A write and what goes with it, in front of the rest. -/
theorem bind_both {δ : Type} {m : PackM α γ} {f : γ → PackM α δ} {g : δ → PackM α β} (hm : Keeps allowed (m >>= f))
    (hg : ∀ d, Keeps allowed (g d)) : Keeps allowed (m >>= fun c => f c >>= g) := by
  rw [← bind_assoc]
  exact bind hm hg

theorem ite {p : Prop} [Decidable p] {m m' : PackM α β} (hm : p → Keeps allowed m) (hm' : ¬ p → Keeps allowed m') :
    Keeps allowed (if p then m else m') := by
  split
  · rename_i h
    exact hm h
  · rename_i h
    exact hm' h

end Keeps

theorem endItem_keeps (hallowed : allowed .item) : Keeps allowed (endItem : PackM α Unit) := by
  refine OkRel.modify fun out => ⟨List.suffix_cons _ _, fun step hstep => ?_, fun h => ⟨h.size, ?_, ?_⟩⟩
  · obtain rfl | hstep := mem_cons.mp hstep
    · exact .inr hallowed
    · exact .inl hstep
  · intro step hstep
    obtain rfl | hstep := mem_cons.mp hstep
    · exact fun _ => trivial
    · exact h.fits step hstep
  · intro hall
    obtain ⟨hin, hold⟩ := h.safe fun step hstep => hall step (List.mem_cons_of_mem _ hstep)
    refine ⟨hin, fun step hstep => ?_⟩
    obtain rfl | hstep := mem_cons.mp hstep
    · exact hin
    · exact hold step hstep

end

/-! ## Packing -/

theorem append_run (out : PackedOutput Char) (extLen count : Nat) (text : Text) :
    append extLen count text out =
      .ok () (out.written .put extLen 1 count (out.len + text.length) (out.buf ++ text)) :=
  bind_run (store_run out .put extLen 1 count)

variable {extLen : Nat}

theorem append_keeps {count : Nat} {text : Text} (hcount : count ≤ extLen) (htext : text.length ≤ extLen) :
    Keeps Op.plain (append extLen count text) := by
  intro out u out' h
  rw [append_run] at h
  cases h
  refine Stepwise.put (.inl rfl) out _ ?_ (Nat.add_le_add_left htext _)
  rw [alignAddrToBoundary_one]
  exact Nat.add_le_add_left hcount _

theorem packXmlTag_keeps {tag name : Text} (h : tag.length ≤ name.length + 4) : Keeps Op.plain (packXmlTag tag name) :=
  append_keeps (Nat.succ_le_succ h) (Nat.le_succ_of_le h)

theorem packStartTag_keeps (item : PackItem) (lf : Bool) : Keeps Op.plain (packStartTag item lf) := by
  refine packXmlTag_keeps ?_
  cases lf
  · simp only [startTag, length_cons, length_append, length_nil, Bool.false_eq_true, if_false]
    omega
  · simp only [startTag, length_cons, length_append, length_nil, if_true]
    omega

theorem packEndTag_keeps (item : PackItem) : Keeps Op.plain (packEndTag item) := by
  refine packXmlTag_keeps ?_
  simp only [endTag, length_cons, length_append, length_nil]
  omega

theorem length_base64Encode : ∀ bytes : Text, (base64Encode bytes).length ≤ 2 * bytes.length + 2
  | [] => Nat.zero_le _
  | [_] => by simp [base64Encode]
  | [_, _] => by simp [base64Encode]
  | _ :: _ :: _ :: rest => by
    have ih := length_base64Encode rest
    simp only [base64Encode, length_cons]
    omega

variable {inPtr inPtr' : InPtr}

theorem chars_length {len : Nat} {bytes : Text} (h : inPtr.chars len = .ok (some bytes, inPtr')) :
    bytes.length = len := by
  unfold InPtr.chars at h
  split at h
  · cases h
  · split at h
    · rename_i hlen
      cases h
      exact hlen
    · cases h
  · cases h

variable {numElement : Nat}

theorem ints_length {values : List Int} (h : inPtr.ints numElement = .ok (some values, inPtr')) :
    values.length = numElement := by
  unfold InPtr.ints at h
  split at h
  · cases h
  · split at h
    · rename_i hlen
      cases h
      exact hlen
    · cases h
  · cases h

variable (prot : IrodsProt) (item : PackItem) (maxStrLen : Option Nat)

theorem packBytes_keeps (len : Nat) {bytes : Option Text}
    (h : ∀ b, bytes = some b → b.length = len) : Keeps Op.plain (packBytes prot item len bytes) := by
  refine Keeps.ite (fun _ => ?_) (fun _ => ?_)
  · cases bytes with
    | none => exact append_keeps (by omega) (by rw [List.length_replicate]; omega)
    | some b =>
      have hlen := h b rfl
      have henc := length_base64Encode b
      exact append_keeps (by omega) (by omega)
  · cases bytes with
    | none => exact append_keeps (le_refl _) (List.length_replicate).le
    | some b => exact append_keeps (le_refl _) (h b rfl).le

theorem onXml_keeps {pack : PackM Char Unit} (h : Keeps Op.plain pack) : Keeps Op.plain (onXml prot pack) := by
  cases prot with
  | xml => exact h
  | native => exact Keeps.pure ()

theorem packChar_keeps (len : Nat) (inPtr : InPtr) : Keeps Op.plain (packChar prot item len inPtr) := by
  refine Keeps.ofExcept_bind fun ⟨bytes, inPtr'⟩ hchars => ?_
  have hbytes : ∀ b, bytes = some b → b.length = len := by
    rintro b rfl
    exact chars_length hchars
  refine Keeps.ite (fun _ => Keeps.pure _) (fun _ => ?_)
  refine Keeps.bind (onXml_keeps prot (packStartTag_keeps item false)) fun _ => ?_
  refine Keeps.bind (packBytes_keeps prot item len hbytes) fun _ => ?_
  exact Keeps.bind (onXml_keeps prot (packEndTag_keeps item)) fun _ => Keeps.pure _

theorem refuse_keeps (failed : Bool) (status : Int) : Keeps Op.plain (refuse failed status : PackM Char Unit) :=
  Keeps.ite (fun _ => Keeps.throw _) (fun _ => Keeps.pure _)

theorem packString_keeps (s : Text) : Keeps Op.plain (packString prot item maxStrLen s) := by
  cases prot with
  | native =>
    refine Keeps.bind (refuse_keeps _ _) fun _ => append_keeps (le_refl _) ?_
    rw [length_append]
    exact le_refl _
  | xml =>
    refine Keeps.ofExcept_bind fun xmlStr _ => Keeps.bind (refuse_keeps _ _) fun _ => ?_
    refine Keeps.bind (packStartTag_keeps item false) fun _ => ?_
    exact Keeps.bind (append_keeps (le_refl _) (Nat.le_succ _)) fun _ => packEndTag_keeps item

theorem packStrings_keeps (strings : List Text) : Keeps Op.plain (packStrings prot item maxStrLen strings) := by
  induction strings with
  | nil => exact Keeps.pure ()
  | cons s ss ih => exact Keeps.bind (packString_keeps prot item maxStrLen s) fun _ => ih

theorem packNullString_keeps : Keeps Op.plain packNullString :=
  append_keeps (le_refl _) (by rw [length_append]; exact le_refl _)

theorem packXmlNumbers_keeps (h : 0 < extLen) (values : List Int) :
    Keeps Op.plain (packXmlNumbers item extLen values) := by
  induction values with
  | nil => exact Keeps.pure ()
  | cons x xs ih =>
    have hlen := List.length_take_le (extLen - 1) (decimal x)
    refine Keeps.bind (packStartTag_keeps item false) fun _ => ?_
    refine Keeps.bind (append_keeps (by omega) (by omega)) fun _ => ?_
    exact Keeps.bind (packEndTag_keeps item) fun _ => ih

theorem packNumbers_keeps (size : Nat) (hext : 0 < extLen) (prot : IrodsProt) (item : PackItem) (numElement : Nat)
    (inPtr : InPtr) : Keeps Op.plain (packNumbers size extLen prot item numElement inPtr) := by
  refine Keeps.ofExcept_bind fun ⟨values, inPtr'⟩ hints => ?_
  cases prot with
  | xml =>
    cases values with
    | none => exact Keeps.pure _
    | some values => exact Keeps.bind (packXmlNumbers_keeps item hext values) fun _ => Keeps.pure _
  | native =>
    cases values with
    | none =>
      refine Keeps.ite (fun _ => Keeps.pure _) (fun _ => ?_)
      exact Keeps.bind (append_keeps (le_refl _) (List.length_replicate).le) fun _ => Keeps.pure _
    | some values =>
      refine Keeps.ite (fun _ => Keeps.pure _) (fun _ => ?_)
      refine Keeps.bind (append_keeps (le_refl _) ?_) fun _ => Keeps.pure _
      rw [flatMap_bigEndian_length, ints_length hints]

theorem packNopackPointer_keeps (len : Nat) (inPtr : InPtr) :
    Keeps Op.plain (packNopackPointer prot item len inPtr) := by
  refine Keeps.ofExcept_bind fun ⟨bytes, inPtr'⟩ _ => Keeps.bind Keeps.get fun out => ?_
  refine Keeps.bind (OkRel.modify fun _ => ⟨suffix_refl _, fun _ => .inl,
    fun h => ⟨h.size, h.fits, h.safe⟩⟩) fun _ => ?_
  exact Keeps.bind (packNumbers_keeps 4 (by decide) prot item 1 _) fun _ => Keeps.pure _

theorem packTargets_keeps {pack : InPtr → PackM Char Unit} (h : ∀ inPtr, Keeps Op.plain (pack inPtr))
    (targets : List (Option (List Cell))) : Keeps Op.plain (packTargets pack targets) := by
  induction targets with
  | nil => exact Keeps.pure ()
  | cons target targets ih => exact Keeps.bind (h _) fun _ => ih

section

variable {child : ChildPacker}

theorem packNonpointerItem_keeps (hchild : ∀ item links n inPtr, Keeps Op.plain (child item links n inPtr))
    (prot : IrodsProt) (links : Links) (item : PackItem) (inPtr : InPtr) :
    Keeps Op.plain (packNonpointerItem child prot links item inPtr) := by
  unfold packNonpointerItem
  split
  case h_1 | h_2 => exact Keeps.bind (packChar_keeps _ _ _ _) fun _ => Keeps.pure _
  case h_3 | h_4 =>
    refine Keeps.ofExcept_bind fun ⟨maxStrLen, numStr⟩ _ => Keeps.ofExcept_bind fun saved _ => ?_
    refine Keeps.ofExcept_bind fun ⟨strings, inPtr'⟩ _ => ?_
    exact Keeps.bind (packStrings_keeps _ _ _ _) fun _ => Keeps.pure _
  case h_5 | h_6 | h_7 => exact Keeps.bind (packNumbers_keeps _ (by decide) _ _ _ _) fun _ => Keeps.pure _
  case h_8 => exact Keeps.bind (hchild _ _ _ _) fun _ => Keeps.pure _
  case h_9 | h_10 => exact Keeps.throw _

theorem packStrPointers_keeps (prot : IrodsProt) (item : PackItem) (targets : List (Option (List Cell))) :
    Keeps Op.plain (packStrPointers prot item targets) := by
  refine Keeps.ite (fun _ => Keeps.pure _) (fun _ => ?_)
  refine Keeps.ofExcept_bind fun ⟨maxStrLen, numStr⟩ _ => packTargets_keeps (fun inPtr => ?_) targets
  exact Keeps.ofExcept_bind fun ⟨strings, inPtr'⟩ _ => packStrings_keeps _ _ _ _

theorem packPointerItem_keeps (hchild : ∀ item links n inPtr, Keeps Op.plain (child item links n inPtr))
    (prot : IrodsProt) (links : Links) (item : PackItem) (targets : List (Option (List Cell))) :
    Keeps Op.plain (packPointerItem child prot links item targets) := by
  unfold packPointerItem
  split
  case h_1 | h_2 =>
    refine Keeps.bind (packTargets_keeps (fun inPtr => ?_) targets) fun _ => Keeps.pure _
    refine Keeps.bind ?_ fun _ => Keeps.pure _
    split
    · exact packNopackPointer_keeps _ _ _ _
    · exact packChar_keeps _ _ _ _
  case h_3 => exact Keeps.bind (packStrPointers_keeps _ _ _) fun _ => Keeps.pure _
  case h_4 =>
    exact Keeps.ofExcept_bind fun saved _ => Keeps.bind (packStrPointers_keeps _ _ _) fun _ => Keeps.pure _
  case h_5 | h_6 | h_7 =>
    refine Keeps.bind (packTargets_keeps (fun inPtr => ?_) targets) fun _ => Keeps.pure _
    exact Keeps.bind (packNumbers_keeps _ (by decide) _ _ _ _) fun _ => Keeps.pure _
  case h_8 =>
    refine Keeps.bind (packTargets_keeps (fun inPtr => ?_) targets) fun _ => Keeps.pure _
    exact Keeps.bind (hchild _ _ _ _) fun _ => Keeps.pure _
  case h_9 | h_10 => exact Keeps.throw _

theorem packItem_keeps (hchild : ∀ item links n inPtr, Keeps Op.plain (child item links n inPtr)) (tables : Tables)
    (prot : IrodsProt) (links : Links) (item : PackItem) (inPtr : InPtr) :
    Keeps Op.plain (packItem child tables prot links item inPtr) := by
  refine Keeps.ofExcept_bind fun ⟨item, links⟩ _ => Keeps.ite (fun _ => ?_) (fun _ => ?_)
  · refine Keeps.bind (packNonpointerItem_keeps hchild _ _ _ _) fun ⟨item, inPtr⟩ => ?_
    exact Keeps.bind (endItem_keeps (.inr rfl)) fun _ => Keeps.pure _
  · refine Keeps.ofExcept_bind fun ⟨cell, inPtr⟩ _ => ?_
    dsimp only
    split
    · split
      · refine Keeps.bind packNullString_keeps fun _ => ?_
        exact Keeps.bind (endItem_keeps (.inr rfl)) fun _ => Keeps.pure _
      · exact Keeps.bind (endItem_keeps (.inr rfl)) fun _ => Keeps.pure _
    · refine Keeps.ofExcept_bind fun targets _ => ?_
      refine Keeps.bind (packPointerItem_keeps hchild _ _ _ _) fun item => ?_
      exact Keeps.bind (endItem_keeps (.inr rfl)) fun _ => Keeps.pure _

theorem packItems_keeps (hchild : ∀ item links n inPtr, Keeps Op.plain (child item links n inPtr)) (tables : Tables)
    (prot : IrodsProt) : ∀ (items : List PackItem) (links : Links) (inPtr : InPtr),
    Keeps Op.plain (packItems child tables prot links items inPtr) := by
  intro items
  induction items with
  | nil => exact fun _ _ => Keeps.pure _
  | cons item items ih =>
    intro links inPtr
    exact Keeps.bind (packItem_keeps hchild _ _ _ _ _) fun ⟨links, inPtr⟩ => ih links inPtr

theorem packElements_keeps (hchild : ∀ item links n inPtr, Keeps Op.plain (child item links n inPtr)) (tables : Tables)
    (prot : IrodsProt) (item : PackItem) (links : Links) (packInstruct : Text) :
    ∀ (numElement : Nat) (inPtr : InPtr),
    Keeps Op.plain (packElements child tables prot item links packInstruct numElement inPtr) := by
  intro numElement
  induction numElement with
  | zero => exact fun _ => Keeps.pure _
  | succ n ih =>
    intro inPtr
    refine Keeps.ofExcept_bind fun items _ => ?_
    refine Keeps.bind (onXml_keeps prot (packStartTag_keeps item true)) fun _ => ?_
    refine Keeps.bind (packItems_keeps hchild _ _ _ _ _) fun inPtr => ?_
    exact Keeps.bind (onXml_keeps prot (packEndTag_keeps item)) fun _ => ih inPtr

end

theorem packChildStruct_keeps (tables : Tables) (prot : IrodsProt) : ∀ (depth : Nat) (item : PackItem)
    (links : Links) (numElement : Nat) (inPtr : InPtr),
    Keeps Op.plain (packChildStruct tables prot depth item links numElement inPtr) := by
  intro depth
  induction depth with
  | zero => exact fun _ _ _ _ => Keeps.throw _
  | succ depth ih =>
    intro item links numElement inPtr
    refine Keeps.ite (fun _ => Keeps.pure _) (fun _ => ?_)
    split
    · exact Keeps.throw _
    · exact packElements_keeps ih _ _ _ _ _ _ _

/-! ## Unpacking -/

variable {op : Op} {boundary count len strLen size : Nat} {prot : IrodsProt} {item : PackItem} {inPtr : Text}
  {taken : Taken} {β : Type}

theorem store_addCell_keeps {cell : Cell} {newLen : Nat → Nat} (h : ∀ out : PackedOutput Cell,
      Stepwise Op.any out (out.written op extLen boundary count (newLen out.len) (out.buf ++ [cell]))) :
    Keeps Op.any (store op extLen boundary count >>= fun _ => addCell cell newLen) := by
  intro out u out' hrun
  rw [bind_run (store_run out op extLen boundary count)] at hrun
  cases hrun
  exact h out

theorem store_addLen_keeps (h : ∀ out : PackedOutput Cell,
      Stepwise Op.any out (out.written op extLen boundary count (out.len + len) out.buf)) :
    Keeps Op.any (store op extLen boundary count >>= fun _ => addLen len) := by
  intro out u out' hrun
  rw [bind_run (store_run out op extLen boundary count)] at hrun
  cases hrun
  exact h out

theorem addCell_keeps (cell : Cell) : Keeps Op.any (addCell cell id) :=
  OkRel.modify fun _ => ⟨suffix_refl _, fun _ => .inl, fun h => ⟨h.size, h.fits, h.safe⟩⟩

variable (out : PackedOutput Cell)

theorem Stepwise.xmlStr (strLen : Nat) (buf : List Cell) :
    Stepwise Op.any out (out.written (.xmlStr strLen) strLen 1 (strLen + 1) (out.len + (strLen + 1)) buf) := by
  refine Stepwise.written out _ _ _ _ _ _ trivial fun step hop hlen hbuf hstart hcount hroom hsize => ⟨?_, ?_⟩
  · intro hsafe
    rw [Step.Safe, hstart, hcount, hroom, alignAddrToBoundary_one] at hsafe
    rw [Step.Fits, hop]
    rw [hlen, hbuf]
    intro hend
    rw [extendPackedOutput_fits hend.le] at hsafe
    omega
  · intro hfits hin
    rw [Step.Fits, hop] at hfits
    obtain ⟨-, hextended⟩ := extendPackedOutput_spec hsize hin strLen
    have hgrows := extendPackedOutput_grows out strLen
    have hroomy : out.len + (strLen + 1) ≤ step.room := by
      obtain hle | hgt := Nat.lt_or_ge out.bufSize (out.len + strLen)
      · omega
      · omega
    refine ⟨hroomy, ?_⟩
    rw [Step.Safe, hstart, hcount, alignAddrToBoundary_one]
    exact hroomy

theorem Stepwise.pointer (buf : List Cell) :
    Stepwise Op.any out (out.written .pointer 8 8 8 (alignAddrToBoundary out.len 8 + 8) buf) := by
  refine Stepwise.written out _ _ _ _ _ _ trivial fun step hop hlen hbuf hstart hcount hroom hsize => ⟨?_, ?_⟩
  · intro hsafe
    rw [Step.Safe, hstart, hcount, hroom] at hsafe
    rw [Step.Fits, hop]
    rw [hlen, hbuf]
    obtain hlt | hge := Nat.lt_or_ge out.bufSize (out.len + 8)
    · exact .inr hlt
    · rw [extendPackedOutput_fits hge] at hsafe
      exact .inl hsafe
  · intro hfits hin
    rw [Step.Fits, hop] at hfits
    rw [hlen, hbuf] at hfits
    obtain ⟨-, hextended⟩ := extendPackedOutput_spec hsize hin 8
    have hgrows := extendPackedOutput_grows out 8
    have halign := (alignAddrToBoundary_spec out.len (by decide : 0 < 8)).2
    have hroomy : alignAddrToBoundary out.len 8 + 8 ≤ step.room := by
      rw [hroom]
      obtain hle | hgt := hfits
      · exact hle.trans hgrows
      · omega
    refine ⟨hroomy, ?_⟩
    rw [Step.Safe, hstart, hcount]
    exact hroomy

theorem length_decodeGroup (t g : Nat) : (decodeGroup t g).length ≤ max 1 g := by
  simp only [decodeGroup, length_cons, length_append]
  split
  · split
    · simp only [length_cons, length_nil]
      omega
    · simp only [length_cons, length_nil]
      omega
  · rw [if_neg (by omega), length_nil]
    omega

theorem length_base64DecodeFrom (outlen : Nat) : ∀ (input : Text) (t y g : Nat) (out : Text),
    out.length ≤ outlen + 1 → (base64DecodeFrom outlen t y g out input).2.length ≤ outlen + 1 := by
  intro input
  induction input with
  | nil =>
    intro t y g out h
    unfold base64DecodeFrom
    split
    · exact h
    · exact h
  | cons c cs ih =>
    intro t y g out h
    have hgroup (t g : Nat) (hle : ¬ out.length + g > outlen) :
        (out ++ decodeGroup t g).length ≤ outlen + 1 := by
      have := length_decodeGroup t g
      rw [length_append]
      omega
    unfold base64DecodeFrom
    dsimp only
    split
    · split
      · exact h
      · split
        · split
          · exact h
          · rename_i hle
            exact ih _ _ _ _ (hgroup _ _ hle)
        · exact ih _ _ _ _ h
    · split
      · exact ih _ _ _ _ h
      · split
        · exact h
        · split
          · split
            · exact h
            · rename_i hle
              exact ih _ _ _ _ (hgroup _ _ hle)
          · exact ih _ _ _ _ h

theorem Stepwise.bin (input : Text) (len : Nat) (buf : List Cell) :
    Stepwise Op.any out (out.written (.bin input len) len 1 (base64Decode len input).2.length (out.len + len) buf) := by
  have hdecoded : (base64Decode len input).2.length ≤ len + 1 :=
    length_base64DecodeFrom len input 0 0 3 [] (Nat.zero_le _)
  refine Stepwise.written out _ _ _ _ _ _ trivial fun step hop hlen hbuf hstart hcount hroom hsize => ⟨?_, ?_⟩
  · intro hsafe
    rw [Step.Safe, hstart, hcount, hroom, alignAddrToBoundary_one] at hsafe
    rw [Step.Fits, hop]
    rw [hlen, hbuf]
    by_contra hnot
    rw [not_or, not_not] at hnot
    rw [extendPackedOutput_fits hnot.2.le] at hsafe
    omega
  · intro hfits hin
    rw [Step.Fits, hop] at hfits
    obtain ⟨hreserved, hextended⟩ := extendPackedOutput_spec hsize hin len
    have hgrows := extendPackedOutput_grows out len
    rw [Step.Safe, hstart, hcount, alignAddrToBoundary_one, hroom]
    refine ⟨hreserved, ?_⟩
    obtain hle | hne := hfits
    · omega
    · obtain hlt | hge := Nat.lt_or_ge out.bufSize (out.len + len)
      · omega
      · omega

theorem unpackCharToOutPtr_count (h : unpackCharToOutPtr prot item len inPtr = .ok taken) :
    taken.op = .put ∧ taken.count ≤ len ∨
      ∃ input, taken.op = .bin input len ∧ taken.count = (base64Decode len input).2.length := by
  unfold unpackCharToOutPtr at h
  cases prot with
  | native =>
    dsimp only at h
    split at h
    · cases h
    · cases h
      exact .inl ⟨rfl, le_refl _⟩
  | xml =>
    dsimp only at h
    split at h
    · cases h
    · split at h
      · cases h
        exact .inr ⟨_, rfl, rfl⟩
      · split at h
        · cases h
          exact .inl ⟨rfl, Nat.zero_le _⟩
        · rename_i hle
          cases h
          exact .inl ⟨rfl, Nat.not_lt.mp hle⟩

theorem unpackChar_keeps (prot : IrodsProt) (item : PackItem) (len : Nat) (inPtr : Text) :
    Keeps Op.any (unpackChar prot item len inPtr) := by
  refine Keeps.ite (fun _ => ?_) (fun _ => ?_)
  · exact Keeps.bind (addCell_keeps _) fun _ => Keeps.pure _
  · refine Keeps.ofExcept_bind fun taken htaken => ?_
    have hstore : Keeps Op.any (store taken.op len 1 taken.count >>= fun _ => addCell taken.cell (· + len)) := by
      refine store_addCell_keeps fun out => ?_
      obtain ⟨hop, hcount⟩ | ⟨input, hop, hcount⟩ := unpackCharToOutPtr_count htaken
      · rw [hop]
        refine Stepwise.put trivial out _ ?_ (le_refl _)
        rw [alignAddrToBoundary_one]
        exact Nat.add_le_add_left hcount _
      · rw [hop, hcount]
        exact Stepwise.bin out input len _
    exact Keeps.bind_both hstore fun _ => Keeps.pure _

theorem Keeps.refuse_bind {failed : Bool} {status : Int} {m : PUnit → PackM α β}
    (h : failed = false → Keeps Op.any (m ⟨⟩)) : Keeps Op.any (refuse failed status >>= m) := by
  cases failed with
  | false => exact h rfl
  | true =>
    intro out b out' hrun
    obtain ⟨u, out₁, hthrow, -⟩ := bind_ok.mp hrun
    exact absurd hthrow not_throw_ok

theorem lt_of_not_tooLong {maxStrLen : Nat} (h : tooLong strLen (some maxStrLen) = false) : strLen < maxStrLen := by
  rw [tooLong, decide_eq_false_iff_not] at h
  exact Nat.not_le.mp h

theorem unpackNatString_keeps (maxStrLen : Option Nat) (inPtr : Text) :
    Keeps Op.any (unpackNatString maxStrLen inPtr) := by
  refine Keeps.ofExcept_bind fun ⟨s, inPtr'⟩ _ => Keeps.refuse_bind fun hfits => ?_
  have hlen : s.length + 1 ≤ maxStrLen.getD (s.length + 1) := by
    cases maxStrLen with
    | none => exact le_refl _
    | some maxStrLen => exact (lt_of_not_tooLong hfits).le
  refine Keeps.bind_both (store_addLen_keeps fun out => ?_) fun _ => Keeps.pure _
  refine Stepwise.put trivial out _ ?_ (le_refl _)
  rw [alignAddrToBoundary_one]
  exact Nat.add_le_add_left hlen _

theorem storeXmlString_keeps {maxStrLen : Option Nat} (h : tooLong strLen maxStrLen = false) :
    Keeps Op.any (storeXmlString strLen maxStrLen) := by
  cases maxStrLen with
  | none => exact store_addLen_keeps fun out => Stepwise.xmlStr out strLen _
  | some maxStrLen =>
    refine store_addLen_keeps fun out => Stepwise.put trivial out _ ?_ (le_refl _)
    rw [alignAddrToBoundary_one]
    exact Nat.add_le_add_left (lt_of_not_tooLong h) _

theorem unpackString_keeps (prot : IrodsProt) (item : PackItem) (maxStrLen : Option Nat) (inPtr : Text) :
    Keeps Op.any (unpackString prot item maxStrLen inPtr) := by
  cases prot with
  | native => exact unpackNatString_keeps maxStrLen inPtr
  | xml =>
    show Keeps Op.any (unpackXmlString item maxStrLen inPtr)
    unfold unpackXmlString
    split
    · exact Keeps.throw _
    · refine Keeps.refuse_bind fun hfits => ?_
      exact Keeps.bind (storeXmlString_keeps hfits) fun _ => Keeps.pure _

theorem unpackStrings_keeps (prot : IrodsProt) (item : PackItem) (maxStrLen : Option Nat) :
    ∀ (numStr : Nat) (inPtr : Text), Keeps Op.any (unpackStrings prot item maxStrLen numStr inPtr) := by
  intro numStr
  induction numStr with
  | zero => exact fun _ => Keeps.pure _
  | succ n ih =>
    intro inPtr
    refine Keeps.bind (unpackString_keeps _ _ _ _) fun ⟨s, inPtr⟩ => ?_
    exact Keeps.bind (ih inPtr) fun ⟨strings, inPtr⟩ => Keeps.pure _

theorem length_xmlNumbers (read : Text → Int) (name : Text) : ∀ (numElement : Nat) (inPtr : Text),
    (xmlNumbers read name numElement inPtr).1.length ≤ numElement := by
  intro numElement
  induction numElement with
  | zero => exact fun _ => le_refl _
  | succ n ih =>
    intro inPtr
    unfold xmlNumbers
    split
    · exact Nat.zero_le _
    · split
      · exact Nat.zero_le _
      · exact Nat.succ_le_succ (ih _)

theorem unpackNumbersToOutPtr_count {read : Text → Int}
    (h : unpackNumbersToOutPtr size read prot item numElement inPtr = .ok taken) :
    taken.op = .put ∧ taken.count ≤ size * numElement := by
  unfold unpackNumbersToOutPtr at h
  cases prot with
  | native =>
    dsimp only at h
    split at h
    · cases h
    · cases h
      exact ⟨rfl, le_refl _⟩
  | xml =>
    have hlen := length_xmlNumbers read item.name numElement inPtr
    dsimp only at h
    split at h
    · cases h
      exact ⟨rfl, le_refl _⟩
    · cases h
      exact ⟨rfl, Nat.mul_le_mul_left _ hlen⟩

theorem unpackNumbers_keeps (hsize : 0 < size) (read : Text → Int) (prot : IrodsProt) (item : PackItem)
    (numElement : Nat) (inPtr : Text) : Keeps Op.any (unpackNumbers size read prot item numElement inPtr) := by
  refine Keeps.ite (fun _ => ?_) (fun _ => ?_)
  · exact Keeps.bind (addCell_keeps _) fun _ => Keeps.pure _
  · refine Keeps.ofExcept_bind fun taken htaken => ?_
    obtain ⟨hop, hcount⟩ := unpackNumbersToOutPtr_count htaken
    refine Keeps.bind_both (store_addCell_keeps fun out => ?_) fun _ => Keeps.pure _
    have halign := (alignAddrToBoundary_spec out.len hsize).2
    rw [hop]
    refine Stepwise.put trivial out _ ?_ ?_
    · rw [Nat.mul_succ]
      omega
    · rw [Nat.mul_succ]
      omega

theorem addPointerToPackedOut_keeps (cell : Cell) : Keeps Op.any (addPointerToPackedOut cell) :=
  store_addCell_keeps fun out => Stepwise.pointer out _

/-- A buffer of its own, whose writes are added to those of the buffer around it. -/
theorem inSubOutput_keeps {bufSize : Nat} (hsize : 16 ≤ bufSize) {unpack : PackM Cell β} (h : Keeps Op.any unpack) :
    Keeps Op.any (inSubOutput bufSize unpack) := by
  intro out result out' hrun
  rw [inSubOutput, get_bind] at hrun
  obtain ⟨u, sub, hset, hrun⟩ := bind_ok.mp hrun
  obtain rfl := set_ok.mp hset
  obtain ⟨b, sub', hunpack, hrun⟩ := bind_ok.mp hrun
  rw [get_bind] at hrun
  obtain ⟨u', out₁, hset, hrun⟩ := bind_ok.mp hrun
  obtain rfl := set_ok.mp hset
  obtain ⟨-, rfl⟩ := pure_ok.mp hrun
  have hsub := h.apply hunpack
  refine ⟨hsub.grows, hsub.ops, fun hroomy => ?_⟩
  have hroomy' := hsub.roomy ⟨hsize, hroomy.fits, fun hall => ⟨Nat.zero_le _, (hroomy.safe hall).2⟩⟩
  refine ⟨hroomy.size, hroomy'.fits, fun hall => ⟨?_, (hroomy'.safe hall).2⟩⟩
  exact (hroomy.safe fun step hstep => hall step (hsub.grows.subset hstep)).1

theorem unpackTargets_keeps {unpack : Text → PackM Cell (List Cell × Text)} (h : ∀ inPtr, Keeps Op.any (unpack inPtr)) :
    ∀ (numPointer : Nat) (inPtr : Text), Keeps Op.any (unpackTargets unpack numPointer inPtr) := by
  intro numPointer
  induction numPointer with
  | zero => exact fun _ => Keeps.pure _
  | succ n ih =>
    intro inPtr
    refine Keeps.bind (h inPtr) fun ⟨target, inPtr⟩ => ?_
    exact Keeps.bind (ih inPtr) fun ⟨targets, inPtr⟩ => Keeps.pure _

theorem unpackCharTarget_keeps (prot : IrodsProt) (item : PackItem) (len : Nat) (inPtr : Text) :
    Keeps Op.any (unpackCharTarget prot item len inPtr) := by
  refine Keeps.ite (fun _ => Keeps.throw _) (fun _ => ?_)
  refine Keeps.ofExcept_bind fun taken _ => Keeps.ite (fun _ => Keeps.throw _) (fun _ => ?_)
  exact Keeps.refuse_bind fun _ => Keeps.pure _

section

variable {child : ChildUnpacker}

theorem unpackNonpointerItem_keeps (hchild : ∀ item links n inPtr, Keeps Op.any (child item links n inPtr))
    (prot : IrodsProt) (links : Links) (item : PackItem) (inPtr : Text) :
    Keeps Op.any (unpackNonpointerItem child prot links item inPtr) := by
  unfold unpackNonpointerItem
  split
  case h_1 | h_2 => exact Keeps.bind (unpackChar_keeps _ _ _ _) fun _ => Keeps.pure _
  case h_3 | h_4 =>
    refine Keeps.ofExcept_bind fun ⟨maxStrLen, numStr⟩ _ => ?_
    refine Keeps.bind (unpackStrings_keeps _ _ _ _ _) fun ⟨strings, inPtr⟩ => ?_
    exact Keeps.bind (addCell_keeps _) fun _ => Keeps.pure _
  case h_5 | h_6 | h_7 => exact Keeps.bind (unpackNumbers_keeps (by decide) _ _ _ _ _) fun _ => Keeps.pure _
  case h_8 => exact Keeps.bind (hchild _ _ _ _) fun _ => Keeps.pure _
  case h_9 | h_10 => exact Keeps.throw _

theorem unpackTarget_keeps (hchild : ∀ item links n inPtr, Keeps Op.any (child item links n inPtr)) (prot : IrodsProt)
    (links : Links) (hnum : 0 < getNumHintElement item) (inPtr : Text) :
    Keeps Op.any (unpackTarget child prot links item inPtr) := by
  unfold unpackTarget
  split
  case h_1 | h_2 => exact unpackCharTarget_keeps _ _ _ _
  case h_3 | h_4 =>
    exact Keeps.ofExcept_bind fun ⟨maxStrLen, numStr⟩ _ => Keeps.ofExcept_bind fun _ _ => Keeps.pure _
  case h_5 | h_6 | h_7 => exact Keeps.ofExcept_bind fun _ _ => Keeps.pure _
  case h_8 =>
    have hsize : 16 ≤ getNumHintElement item * subStructAllocSz := by
      unfold subStructAllocSz
      omega
    exact Keeps.bind (inSubOutput_keeps hsize (hchild _ _ _ _)) fun _ => Keeps.pure _
  case h_9 | h_10 => exact Keeps.throw _

theorem unpackNumbersBlock_keeps (size : Nat) (read : Text → Int) (prot : IrodsProt) (item : PackItem)
    (inPtr : Text) : Keeps Op.any (unpackNumbersBlock size read prot item inPtr) :=
  Keeps.ofExcept_bind fun _ _ => Keeps.bind (Keeps.ite (fun _ => Keeps.throw _) fun _ => Keeps.pure _) fun _ =>
    Keeps.pure _

theorem unpackArrayTarget_keeps (hchild : ∀ item links n inPtr, Keeps Op.any (child item links n inPtr))
    (prot : IrodsProt) (links : Links) (hnum : 0 < getNumHintElement item) (inPtr : Text) :
    Keeps Op.any (unpackArrayTarget child prot links item inPtr) := by
  unfold unpackArrayTarget
  split
  case h_1 | h_2 | h_3 => exact unpackNumbersBlock_keeps _ _ _ _ _
  case h_4 => exact unpackTarget_keeps hchild prot links hnum inPtr

theorem unpackNullString_some (h : unpackNullString prot item inPtr = .ok none) : noElement item = false := by
  unfold unpackNullString at h
  cases prot with
  | native =>
    dsimp only at h
    split at h
    · cases h
    · split at h
      · cases h
      · split at h
        · cases h
        · rename_i hsome
          exact Bool.eq_false_iff.mpr hsome
  | xml =>
    dsimp only at h
    split at h
    · cases h
    · split at h
      · split at h
        · split at h
          all_goals cases h
        · cases h
      · rename_i hsome
        exact Bool.eq_false_iff.mpr hsome

theorem pos_of_noElement (h : noElement item = false) : 0 < getNumHintElement item := by
  rw [noElement, decide_eq_false_iff_not, not_or] at h
  exact Nat.pos_of_ne_zero h.1

theorem unpackPointerItem_keeps (hchild : ∀ item links n inPtr, Keeps Op.any (child item links n inPtr))
    (prot : IrodsProt) (links : Links) (item : PackItem) (inPtr : Text) :
    Keeps Op.any (unpackPointerItem child prot links item inPtr) := by
  refine Keeps.ofExcept_bind fun null hnull => ?_
  cases null with
  | some inPtr' => exact Keeps.bind (addPointerToPackedOut_keeps _) fun _ => Keeps.pure _
  | none =>
    have hnum := pos_of_noElement (unpackNullString_some hnull)
    refine Keeps.ite (fun _ => ?_) (fun _ => ?_)
    · refine Keeps.bind (unpackTarget_keeps hchild prot links hnum inPtr) fun ⟨target, inPtr⟩ => ?_
      exact Keeps.bind (addPointerToPackedOut_keeps _) fun _ => Keeps.pure _
    · refine Keeps.bind (unpackTargets_keeps (unpackArrayTarget_keeps hchild prot links hnum) _ inPtr) ?_
      exact fun ⟨targets, inPtr⟩ => Keeps.bind (addPointerToPackedOut_keeps _) fun _ => Keeps.pure _

theorem unpackItems_keeps (hchild : ∀ item links n inPtr, Keeps Op.any (child item links n inPtr)) (tables : Tables)
    (prot : IrodsProt) : ∀ (items : List PackItem) (links : Links) (inPtr : Text),
    Keeps Op.any (unpackItems child tables prot links items inPtr) := by
  intro items
  induction items with
  | nil => exact fun _ _ => Keeps.pure _
  | cons item items ih =>
    intro links inPtr
    refine Keeps.bind ?_ fun ⟨links, inPtr⟩ => ih links inPtr
    refine Keeps.ofExcept_bind fun ⟨item, links⟩ _ => Keeps.bind ?_ fun ⟨item, inPtr⟩ => ?_
    · split
      · exact unpackNonpointerItem_keeps hchild _ _ _ _
      · exact unpackPointerItem_keeps hchild _ _ _ _
    · exact Keeps.bind (endItem_keeps trivial) fun _ => Keeps.pure _

theorem unpackElements_keeps (hchild : ∀ item links n inPtr, Keeps Op.any (child item links n inPtr))
    (tables : Tables) (prot : IrodsProt) (item : PackItem) (links : Links) (packInstruct : Text) :
    ∀ (numElement : Nat) (inPtr : Text),
    Keeps Op.any (unpackElements child tables prot item links packInstruct numElement inPtr) := by
  intro numElement
  induction numElement with
  | zero => exact fun _ => Keeps.pure _
  | succ n ih =>
    intro inPtr
    refine Keeps.ofExcept_bind fun items _ => ?_
    cases prot with
    | native => exact Keeps.bind (unpackItems_keeps hchild _ _ _ _ _) fun inPtr => ih inPtr
    | xml =>
      dsimp only
      split
      · exact Keeps.refuse_bind fun _ => Keeps.bind (addPointerToPackedOut_keeps _) fun _ => ih inPtr
      · refine Keeps.bind (unpackItems_keeps hchild _ _ _ _ _) fun inPtr => ?_
        split
        · exact Keeps.throw _
        · exact ih _

end

theorem unpackChildStruct_keeps (tables : Tables) (prot : IrodsProt) : ∀ (depth : Nat) (item : PackItem)
    (links : Links) (numElement : Nat) (inPtr : Text),
    Keeps Op.any (unpackChildStruct tables prot depth item links numElement inPtr) := by
  intro depth
  induction depth with
  | zero => exact fun _ _ _ _ => Keeps.throw _
  | succ depth ih =>
    intro item links numElement inPtr
    refine Keeps.ite (fun _ => Keeps.pure _) (fun _ => ?_)
    split
    · exact Keeps.throw _
    · exact unpackElements_keeps ih _ _ _ _ _ _ _

/-! ## Whole runs -/

/-- Every step of the run that has filled the buffers was safe: no write behind the end of its
buffer, and no item that ended behind it. -/
def AllSafe {α : Type} (out : PackedOutput α) : Prop := ∀ step ∈ out.trace, step.Safe

def AllFit {α : Type} (out : PackedOutput α) : Prop := ∀ step ∈ out.trace, step.Fits

theorem Roomy.allSafe_iff {out : PackedOutput α} (h : Roomy out) : AllSafe out ↔ AllFit out :=
  ⟨fun hsafe step hstep => h.fits step hstep (hsafe step hstep), fun hfit => (h.safe hfit).2⟩

variable {tables : Tables} {depth : Nat} {packInstName : Text}

theorem packStruct_roomy {inStruct : List Cell} {out : PackedOutput Char}
    (h : packStruct tables prot depth packInstName inStruct = .ok () out) : Roomy out ∧ AllFit out := by
  have hkeeps : Keeps Op.plain (do
      let _ ← packChildStruct tables prot depth { name := packInstName } {} 1 (.cells inStruct)
      onXml prot (store .put 1 1 1)) := by
    refine Keeps.bind (packChildStruct_keeps _ _ _ _ _ _ _) fun _ => onXml_keeps prot ?_
    intro out u out' hrun
    rw [store_run] at hrun
    cases hrun
    refine Stepwise.put (.inl rfl) out _ ?_ (Nat.le_succ _)
    rw [alignAddrToBoundary_one]
  have hstepwise := hkeeps.apply h
  refine ⟨hstepwise.roomy (Roomy.init (by decide)), fun step hstep => ?_⟩
  obtain hold | hput | hitem := hstepwise.ops step hstep
  · exact absurd hold List.not_mem_nil
  · rw [Step.Fits, hput]
    exact trivial
  · rw [Step.Fits, hitem]
    exact trivial

theorem packStruct_safe {inStruct : List Cell} {out : PackedOutput Char}
    (h : packStruct tables prot depth packInstName inStruct = .ok () out) : AllSafe out := by
  obtain ⟨hroomy, hfit⟩ := packStruct_roomy h
  exact hroomy.allSafe_iff.mpr hfit

theorem unpackStruct_roomy {inPackedStr rest : Text} {out : PackedOutput Cell}
    (h : unpackStruct tables prot depth packInstName inPackedStr = .ok rest out) : Roomy out :=
  ((unpackChildStruct_keeps tables prot depth _ _ _ _).apply h).roomy (Roomy.init (by decide))

/-- Packing writes within its buffer in every run; unpacking does so in the runs in which no
string without a dimension, no pointer and no group of base64 ends at the end of the buffer. -/
theorem packStruct_unpackStruct_safe (tables : Tables) (prot : IrodsProt) (depth : Nat) (packInstName : Text) :
    (∀ (inStruct : List Cell) (out : PackedOutput Char),
      packStruct tables prot depth packInstName inStruct = .ok () out → AllSafe out) ∧
    (∀ (inPackedStr rest : Text) (out : PackedOutput Cell),
      unpackStruct tables prot depth packInstName inPackedStr = .ok rest out → (AllSafe out ↔ AllFit out)) := by
  exact ⟨fun inStruct out h => packStruct_safe h, fun inPackedStr rest out h => (unpackStruct_roomy h).allSafe_iff⟩

/-! ## At the end of a buffer -/

instance (step : Step) : Decidable step.Safe := inferInstanceAs (Decidable (_ ≤ _))

instance {α : Type} (out : PackedOutput α) : Decidable (AllSafe out) :=
  inferInstanceAs (Decidable (∀ step ∈ out.trace, step.Safe))

/-- The run ends with a value, and not all of its steps were safe. -/
def overruns {α β : Type} : Result Stop (PackedOutput α) β → Bool
  | .ok _ out => ¬ AllSafe out
  | .error _ _ => false

theorem overruns_iff {r : Result Stop (PackedOutput α) β} :
    overruns r = true ↔ ∃ b out, r = .ok b out ∧ ¬ AllSafe out := by
  cases r <;> simp [overruns]

/-- Structs with fixed strings that bring the length close to the end of the buffer. -/
def edgeTables : Tables where
  packInstructs := [("Ptr".toList, "str a[40001]; str b[16376]; str *p;".toList),
    ("Str".toList, "str a[16381]; str b;".toList), ("Bin".toList, "str a[16381]; bin b[3];".toList)]
  packConstants := []

theorem packStruct_unpackStruct_safe_edge :
    (∃ out, packStruct edgeTables .xml 1 "Str".toList [.strs [[]], .strs ["ab".toList]] = .ok () out ∧
      AllSafe out) ∧
    (∃ rest out, unpackStruct edgeTables .xml 1 "Str".toList "<Str>\n<a></a>\n<b>ab</b>\n</Str>\n".toList =
      .ok rest out ∧ (AllSafe out ↔ AllFit out)) := by
  constructor
  · obtain ⟨_, out, h⟩ := isOk_iff.mp (show isOk (packStruct edgeTables .xml 1 "Str".toList
      [.strs [[]], .strs ["ab".toList]]) = true by decide +kernel)
    exact ⟨out, h, (packStruct_unpackStruct_safe edgeTables .xml 1 _).1 _ _ h⟩
  · obtain ⟨rest, out, h⟩ := isOk_iff.mp (show isOk (unpackStruct edgeTables .xml 1 "Str".toList
      "<Str>\n<a></a>\n<b>ab</b>\n</Str>\n".toList) = true by decide +kernel)
    exact ⟨rest, out, h, (packStruct_unpackStruct_safe edgeTables .xml 1 _).2 _ _ _ h⟩

/-- A pointer of which the alignment reaches over the end, a terminator behind the end, and a
decoded byte that was not counted. -/
theorem unpackStruct_overruns :
    (∃ rest out, unpackStruct edgeTables .native 1 "Ptr".toList "\x00\x00%@#ANULLSTR$%\x00".toList =
      .ok rest out ∧ ¬ AllSafe out) ∧
    (∃ rest out, unpackStruct edgeTables .xml 1 "Str".toList "<Str>\n<a></a>\n<b>abc</b>\n</Str>\n".toList =
      .ok rest out ∧ ¬ AllSafe out) ∧
    (∃ rest out, unpackStruct edgeTables .xml 1 "Bin".toList "<Bin>\n<a></a>\n<b>AAAAA===</b>\n</Bin>\n".toList =
      .ok rest out ∧ ¬ AllSafe out) :=
  ⟨overruns_iff.mp (by decide +kernel), overruns_iff.mp (by decide +kernel), overruns_iff.mp (by decide +kernel)⟩

end Pack
