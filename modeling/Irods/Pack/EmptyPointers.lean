-- SUMMARY: Empty and null pointers in the native form.
import Irods.Pack.NumberPointers
import Irods.Pack.Missing

/-!
# Empty and null pointers

A null pointer is packed as a marker, and a pointer without elements as nothing. The reader looks
for the marker before it looks at the dimensions, so that the marker of the item that follows
is taken for one of an empty pointer. The index of a buffer that is not packed is not read
for an empty pointer either.
-/

namespace Pack

open CString EStateM

variable {α : Type}

/-! ## What is packed -/

/-- The bytes are queued, and the index of each pointer is packed. -/
def Indexed (item : PackItem) : Prop :=
  item.pointerType = .noPackPointer ∧ (item.typeInx = .char ∨ item.typeInx = .bin)

instance (item : PackItem) : Decidable (Indexed item) := inferInstanceAs (Decidable (_ ∧ _))

theorem ofExcept_adds {β : Type} (r : Except Stop β) : Adds (PackedOutput.buf (α := α)) 0 (ofExcept r) := by
  cases r with
  | ok b => exact .pure b
  | error stop => exact .throw stop

variable (size extLen : Nat) (item : PackItem) (inPtr : InPtr)

theorem packChar_adds_zero : Adds PackedOutput.buf 0 (packChar .native item 0 inPtr) :=
  .bind_silent (ofExcept_adds _) fun (_, inPtr) => .pure inPtr

theorem packNumbers_adds_zero : Adds PackedOutput.buf 0 (packNumbers size extLen .native item 0 inPtr) := by
  refine .bind_silent (ofExcept_adds _) fun (values, inPtr) => ?_
  cases values with
  | none => exact .pure _
  | some values => exact .pure _

/-- The index takes four bytes, however many there are behind the pointer. -/
theorem packNopackPointer_adds (len : Nat) (inPtr : InPtr) :
    Adds PackedOutput.buf 4 (packNopackPointer .native item len inPtr) := by
  have hget : Adds PackedOutput.buf 0 (get : PackM Char (PackedOutput Char)) :=
    OkRel.get fun _ => ⟨[], rfl, (List.append_nil _).symm⟩
  have hint : ∀ x : Int, Adds PackedOutput.buf 4 (packInt .native item 1 (.cells [.ints [x]])) := by
    intro x
    have hints : (InPtr.cells [.ints [x]]).ints 1 = .ok (some [x], .cells []) := rfl
    obtain ⟨first, hemits⟩ := packNumbers_emits .int item .native Nat.one_pos hints
    exact Adds.of_emits hemits
  refine .bind_silent (ofExcept_adds _) fun (bytes, inPtr) => .bind_silent hget fun out => ?_
  exact .bind_silent (OkRel.modify fun _ => ⟨[], rfl, (List.append_nil _).symm⟩) fun _ =>
    .bind_last (hint _) fun _ => .pure inPtr

variable {targets : List (Option (List Cell))} {item : PackItem}

variable {n : Nat} {cell : Cell}

theorem packTargets_adds (pack : InPtr → PackM Char Unit)
    (h : targets = [] ∨ ∀ inPtr, Adds PackedOutput.buf n (pack inPtr)) :
    Adds PackedOutput.buf (n * targets.length) (packTargets pack targets) := by
  induction targets with
  | nil => exact .pure _
  | cons target targets ih =>
    have hpack := h.resolve_left (List.cons_ne_nil _ _)
    have hboth := (hpack (.ofTarget target)).bind fun _ => ih (.inr hpack)
    rwa [Nat.add_comm, ← Nat.mul_succ] at hboth

/-- The strings of an item without elements. -/
theorem packStrPointers_adds (h : targets = [] ∨ getNumHintElement item = 0) :
    Adds PackedOutput.buf 0 (packStrPointers .native item targets) := by
  refine .ite (fun _ => .pure _) fun hsome => .bind_silent (ofExcept_adds _) fun (maxStrLen, numStr) => ?_
  have hdims : getNumHintElement item = 0 → item.hintDimSize ≠ [] := by
    intro hzero hnil
    simp [getNumHintElement, hnil] at hzero
  obtain rfl := h.resolve_right fun hzero => hsome ⟨hdims hzero, .inl hzero⟩
  exact .pure _

variable (tables : Tables) (depth : Nat) (links : Links)

theorem packChildStruct_adds (item : PackItem) (links : Links) (inPtr : InPtr) :
    Adds PackedOutput.buf 0 (packChildStruct tables .native depth item links 0 inPtr) := by
  cases depth with
  | zero => exact .throw _
  | succ depth => exact .pure inPtr

theorem targetsOf_length (h : targetsOf item cell = .ok targets) : targets.length = getNumElement item := by
  unfold targetsOf at h
  split at h
  · split_ifs at h with hdims
    cases h
    simp [getNumElement, hdims]
  · split_ifs at h with hlen
    cases h
    exact hlen.2
  · cases h

theorem noElement_iff :
    noElement item = true ↔ getNumHintElement item = 0 ∨ item.dimSize ≠ [] ∧ getNumElement item = 0 := by
  simp [noElement]

/-- What packs nothing for no elements packs nothing for the pointers of an item without. -/
theorem packTargets_silent {β : Type} (pack : Nat → InPtr → PackM Char β)
    (hpack : ∀ inPtr, Adds PackedOutput.buf 0 (pack 0 inPtr)) (h : targets = [] ∨ n = 0) :
    Adds PackedOutput.buf 0 (packTargets (fun inPtr => do let _ ← pack n inPtr) targets) := by
  have hsilent : targets = [] ∨ ∀ inPtr, Adds PackedOutput.buf 0 (do let _ ← pack n inPtr) := by
    refine h.imp_right fun hzero inPtr => ?_
    subst hzero
    exact .bind_last (hpack inPtr) fun _ => .pure _
  have hadds := packTargets_adds _ hsilent
  rwa [Nat.zero_mul] at hadds

/-- Bytes of an item without elements, and their indices. -/
theorem packByteTargets_adds (htype : item.typeInx = .char ∨ item.typeInx = .bin)
    (hnone : targets = [] ∨ getNumHintElement item = 0) (hlength : targets.length = getNumElement item) :
    Adds PackedOutput.buf (if Indexed item then 4 * getNumElement item else 0)
      (packTargets (fun inPtr => do
        let _ ← (if item.pointerType = .noPackPointer
          then packNopackPointer .native item (getNumHintElement item * item.typeInx.size)
          else packChar .native item (getNumHintElement item * item.typeInx.size)) inPtr) targets) := by
  by_cases hqueued : item.pointerType = .noPackPointer
  · simp only [hqueued, if_true, if_pos (show Indexed item from ⟨hqueued, htype⟩), ← hlength]
    exact packTargets_adds _ (.inr fun inPtr => .bind_last (packNopackPointer_adds item _ inPtr) fun _ => .pure _)
  · simp only [hqueued, if_false, if_neg (show ¬ Indexed item from fun h => hqueued h.1)]
    have hchars : ∀ inPtr, Adds PackedOutput.buf 0 (packChar .native item (0 * item.typeInx.size) inPtr) := by
      intro inPtr
      rw [Nat.zero_mul]
      exact packChar_adds_zero item inPtr
    exact packTargets_silent (fun n => packChar .native item (n * item.typeInx.size)) hchars hnone

/-- How much is packed for a pointer without elements that is not null. -/
theorem packPointerItem_adds (hempty : noElement item = true) (hlength : targets.length = getNumElement item) :
    Adds PackedOutput.buf (if Indexed item then 4 * getNumElement item else 0)
      (packPointerItem (packChildStruct tables .native depth) .native links item targets) := by
  have hnone : targets = [] ∨ getNumHintElement item = 0 := by
    rcases noElement_iff.mp hempty with hzero | ⟨-, hzero⟩
    · exact .inr hzero
    · exact .inl (List.length_eq_zero_iff.mp (hlength.trans hzero))
  have hother : ¬ (item.typeInx = .char ∨ item.typeInx = .bin) →
      (if Indexed item then 4 * getNumElement item else 0) = 0 := fun h => if_neg fun hindexed => h hindexed.2
  have hnumbers := fun size extLen => packTargets_silent _ (packNumbers_adds_zero size extLen item) hnone
  unfold packPointerItem
  cases htype : item.typeInx with
  | char =>
    have hbytes := packByteTargets_adds (.inl htype) hnone hlength
    rw [htype] at hbytes
    exact .bind_last hbytes fun _ => .pure item
  | bin =>
    have hbytes := packByteTargets_adds (.inr htype) hnone hlength
    rw [htype] at hbytes
    exact .bind_last hbytes fun _ => .pure item
  | str =>
    rw [hother (by simp [htype])]
    exact .bind_last (packStrPointers_adds hnone) fun _ => .pure item
  | piStr =>
    rw [hother (by simp [htype])]
    exact .bind_silent (ofExcept_adds _) fun saved => .bind_last (packStrPointers_adds hnone) fun _ => .pure saved
  | int =>
    rw [hother (by simp [htype])]
    exact .bind_last (hnumbers 4 12) fun _ => .pure item
  | int16 =>
    rw [hother (by simp [htype])]
    exact .bind_last (hnumbers 2 12) fun _ => .pure item
  | double =>
    rw [hother (by simp [htype])]
    exact .bind_last (hnumbers 8 20) fun _ => .pure item
  | struct =>
    rw [hother (by simp [htype])]
    have hchild := packTargets_silent _ (packChildStruct_adds tables depth item links) hnone
    exact .bind_last hchild fun _ => .pure item
  | dependent =>
    rw [hother (by simp [htype])]
    exact .throw _
  | intDependent =>
    rw [hother (by simp [htype])]
    exact .throw _

/-- An item with a pointer, which is null or without elements. -/
structure EmptyPointer (item : PackItem) (cell : Cell) : Prop where
  pointer : item.pointerType ≠ .nonPointer
  empty : cell = .null ∨ noElement item = true

/-- A pointer without elements that is not null. -/
theorem packTargetsOf_adds (cell : Cell) (inPtr : InPtr) (hempty : noElement item = true) :
    Adds PackedOutput.buf (if Indexed item then 4 * getNumElement item else 0) (do
      let targets ← ofExcept (targetsOf item cell)
      let item ← packPointerItem (packChildStruct tables .native depth) .native links item targets
      endItem
      return (links.next item, inPtr)) := by
  intro out b out' hrun
  obtain ⟨targets, out₁, htargets, hrun⟩ := bind_ok.mp hrun
  cases hof : targetsOf item cell with
  | error stop =>
    rw [hof] at htargets
    exact absurd htargets not_throw_ok
  | ok targets' =>
    rw [hof] at htargets
    obtain ⟨rfl, rfl⟩ := pure_ok.mp htargets
    have hpack := packPointerItem_adds tables depth links hempty (targetsOf_length hof)
    exact hpack.bind_last (fun item => .bind_silent (.of_emits endItem_emits) fun _ => .pure _) _ _ _ hrun

/-- What is packed for the pointer: the marker for a null pointer, and for one without
elements its indices, if there are any. -/
theorem packItem_text {tables : Tables} {depth : Nat} {links links' : Links} {item' : PackItem}
    (hresolve : resolvePackedItem tables links item = .ok (item', links')) {inPtr inPtr' : InPtr}
    (hcell : inPtr.pointer = .ok (cell, inPtr')) (h : EmptyPointer item' cell) {out out' : PackedOutput Char}
    {r : Links × InPtr}
    (hpack : packItem (packChildStruct tables .native depth) tables .native links item inPtr out = .ok r out') :
    ∃ text, out'.buf = out.buf ++ text ∧
      (cell = .null ∧ text = nullPtrPackStr ++ ['\x00'] ∨
        noElement item' = true ∧ cell ≠ .null ∧
        text.length = if Indexed item' then 4 * getNumElement item' else 0) := by
  unfold packItem at hpack
  simp only [hresolve, hcell] at hpack
  obtain ⟨⟨item₁, links₁⟩, out₁, hpure, hpack⟩ := bind_ok.mp hpack
  obtain ⟨heq, rfl⟩ := pure_ok.mp hpure
  obtain ⟨rfl, rfl⟩ := Prod.mk.inj heq
  simp only [if_neg h.pointer] at hpack
  obtain ⟨⟨cell₁, inPtr₁⟩, out₂, hpure, hpack⟩ := bind_ok.mp hpack
  obtain ⟨heq, rfl⟩ := pure_ok.mp hpure
  obtain ⟨rfl, rfl⟩ := Prod.mk.inj heq
  cases cell with
  | null =>
    have hemits : Emits PackedOutput.buf packNullString ⟨⟩ (nullPtrPackStr ++ ['\x00']) := append_emits _ _ _
    have hall := hemits.bind_last (f := fun _ => do
      endItem
      return (links'.next item', inPtr')) (.bind_silent endItem_emits (.pure _))
    obtain ⟨out₃, hrun, hbuf⟩ := hall out
    obtain ⟨-, rfl⟩ := Result.ok.inj (hpack.symm.trans hrun)
    exact ⟨_, hbuf, .inl ⟨rfl, rfl⟩⟩
  | _ =>
    have hempty := h.empty.resolve_left nofun
    obtain ⟨text, hlen, hbuf⟩ := packTargetsOf_adds tables depth links' _ inPtr' hempty _ _ _ hpack
    exact ⟨text, hbuf, .inr ⟨hempty, nofun, hlen⟩⟩

/-! ## Where reading goes on -/

theorem unpackNullString_marker (item : PackItem) (rest : Text) :
    unpackNullString .native item (nullPtrPackStr ++ ['\x00'] ++ rest) = .ok (some rest) := by
  rfl

/-- Behind an item without elements the input goes on where it is, unless it looks like a marker there,
or ends in one. A text of another length than the marker is not skipped. -/
theorem unpackNullString_empty (hempty : noElement item = true) (text : Text) {rest : Text}
    (hlen : text.length ≠ nullPtrPackStr.length + 1) :
    unpackNullString .native item (text ++ rest) = .ok (some rest) ↔
      text = [] ∧ ¬ nullPtrPackStr ++ ['\x00'] <+: rest ∧ ¬ rest <+: nullPtrPackStr := by
  simp only [unpackNullString, List.isPrefixOf_iff_prefix, hempty, if_true]
  by_cases hmarker : nullPtrPackStr ++ ['\x00'] <+: text ++ rest
  · rw [if_pos hmarker, Except.ok.injEq, Option.some.injEq]
    constructor
    · intro hdrop
      have hlength := congrArg List.length hdrop
      have hfits := hmarker.length_le
      simp only [List.length_drop, List.length_append, List.length_singleton] at hlength hfits
      omega
    · rintro ⟨rfl, hno, -⟩
      exact absurd hmarker hno
  · rw [if_neg hmarker]
    by_cases hend : text ++ rest <+: nullPtrPackStr
    · rw [if_pos hend]
      refine ⟨by simp, ?_⟩
      rintro ⟨rfl, -, hno⟩
      exact absurd hend hno
    · rw [if_neg hend, Except.ok.injEq, Option.some.injEq, List.append_left_eq_self]
      refine ⟨?_, And.left⟩
      rintro rfl
      exact ⟨rfl, hmarker, hend⟩

variable {tables : Tables} {links links' : Links} {item' : PackItem}

variable {s : Text}

/-- Unpacking an item ends where its null check does. -/
theorem unpackItem_null (hresolve : resolvePackedItem tables links item = .ok (item', links'))
    (hpointer : item'.pointerType ≠ .nonPointer) {inPtr : Text}
    (hnull : unpackNullString .native item' s = .ok (some inPtr)) (child : ChildUnpacker) :
    Emits PackedOutput.buf (unpackItem child tables .native links item s) (links'.next item', inPtr) [.null] := by
  unfold unpackItem
  rw [hresolve]
  refine .bind_silent (.pure _) ?_
  simp only [if_neg hpointer]
  exact .bind_last (unpackPointerItem_null hnull child links') (.bind_silent endItem_emits (.pure _))

theorem unpackItem_undefined (hresolve : resolvePackedItem tables links item = .ok (item', links'))
    (hpointer : item'.pointerType ≠ .nonPointer) {stop : Stop}
    (hnull : unpackNullString .native item' s = .error stop) (child : ChildUnpacker) :
    Stops (unpackItem child tables .native links item s) stop := by
  have hitem : Stops (unpackPointerItem child .native links' item' s) stop := by
    unfold unpackPointerItem
    rw [hnull]
    exact (Stops.throw stop).bind _
  unfold unpackItem
  rw [hresolve]
  refine .bind_right PackedOutput.buf (.pure _) ?_
  simp only [if_neg hpointer]
  exact hitem.bind _

/-- An item without elements is read up to `rest` exactly when its null check goes on there. -/
theorem unpackItem_ends_iff (hresolve : resolvePackedItem tables links item = .ok (item', links'))
    (hpointer : item'.pointerType ≠ .nonPointer) (hempty : noElement item' = true) (child : ChildUnpacker)
    (s rest : Text) (out : PackedOutput Cell) :
    (∃ l out', unpackItem child tables .native links item s out = .ok (l, rest) out') ↔
      unpackNullString .native item' s = .ok (some rest) := by
  constructor
  · rintro ⟨l, out', hrun⟩
    cases hnull : unpackNullString .native item' s with
    | error stop =>
      obtain ⟨out₁, hstop⟩ := unpackItem_undefined hresolve hpointer hnull child out
      cases hrun.symm.trans hstop
    | ok null =>
      cases null with
      | some inPtr =>
        obtain ⟨out₁, hrun', -⟩ := unpackItem_null hresolve hpointer hnull child out
        obtain ⟨heq, -⟩ := Result.ok.inj (hrun.symm.trans hrun')
        rw [(Prod.mk.inj heq).2]
      | none =>
        simp only [unpackNullString, hempty, if_true] at hnull
        split_ifs at hnull <;> cases hnull
  · intro hnull
    obtain ⟨out', hrun, -⟩ := unpackItem_null hresolve hpointer hnull child out
    exact ⟨_, out', hrun⟩

/-- The reader goes on behind the item: a null pointer has its marker, and one without
elements nothing, so that what follows must not look like a marker, nor end in one. -/
def KeepsAligned (item : PackItem) (cell : Cell) (rest : Text) : Prop :=
  cell = .null ∨
    (Indexed item → getNumElement item = 0) ∧ ¬ nullPtrPackStr ++ ['\x00'] <+: rest ∧ ¬ rest <+: nullPtrPackStr

/-- Whatever follows a pointer that is null or without elements, the reader goes on where packing it
ended if and only if it is null, or no index is packed for it and no marker follows. -/
theorem unpackItem_aligned_iff (tables : Tables) (depth : Nat) {links links' readLinks readLinks' : Links}
    {item item' : PackItem} (hpacked : resolvePackedItem tables links item = .ok (item', links'))
    (hread : resolvePackedItem tables readLinks item = .ok (item', readLinks')) {inPtr inPtr' : InPtr} {cell : Cell}
    (hcell : inPtr.pointer = .ok (cell, inPtr')) (h : EmptyPointer item' cell) {out out' : PackedOutput Char}
    {r : Links × InPtr}
    (hpack : packItem (packChildStruct tables .native depth) tables .native links item inPtr out = .ok r out')
    (rest : Text) (unpacked : PackedOutput Cell) :
    ∃ text, out'.buf = out.buf ++ text ∧
      ((∃ l unpacked', unpackItem (unpackChildStruct tables .native depth) tables .native readLinks item
          (text ++ rest) unpacked = .ok (l, rest) unpacked') ↔ KeepsAligned item' cell rest) := by
  obtain ⟨text, hbuf, ⟨hnull, rfl⟩ | ⟨hempty, hne, hlen⟩⟩ := packItem_text hpacked hcell h hpack
  · refine ⟨_, hbuf, fun _ => .inl hnull, fun _ => ?_⟩
    obtain ⟨unpacked', hrun, -⟩ :=
      unpackItem_null hread h.pointer (unpackNullString_marker item' rest)
        (unpackChildStruct tables .native depth) unpacked
    exact ⟨_, unpacked', hrun⟩
  · refine ⟨text, hbuf, ?_⟩
    have hlength : text.length ≠ nullPtrPackStr.length + 1 := by
      have hmarker : nullPtrPackStr.length + 1 = 14 := by decide
      rw [hlen, hmarker]
      split_ifs <;> omega
    have htext : text = [] ↔ (Indexed item' → getNumElement item' = 0) := by
      rw [← List.length_eq_zero_iff, hlen]
      split_ifs with hindexed
      · simp [hindexed]
      · simp [hindexed]
    rw [unpackItem_ends_iff hread h.pointer hempty, unpackNullString_empty hempty text hlength, htext]
    exact ⟨.inr, fun hkeeps => hkeeps.resolve_left hne⟩

/-! ## An empty pointer in front of a null one -/

/-- A message of which nothing is deleted: an array of strings, one of numbers and a string. -/
def xmsgTables : Tables where
  packInstructs := [("SendXmsgInfo_PI".toList, ("int msgNumber; str msgType[HEADER_TYPE_LEN]; int numRcv; int flag; " ++
    "str *msg; int numDel; str *delAddress[numDel]; int *delPort(numDel); str *miscInfo;").toList)]
  packConstants := [("HEADER_TYPE_LEN".toList, 128)]

/-- The array of numbers is empty and the string behind it null. -/
def xmsgInfo : List Cell :=
  [.ints [1], .strs ["m".toList], .ints [1], .ints [0], .pointer [.strs ["x".toList]], .ints [0], .null,
    .pointer [.ints []], .null]

def delPort : PackItem := { typeInx := .int, name := "delPort(numDel)".toList, pointerType := .aPointer }

/-- The items in front of `delPort`, as far as it depends on them. -/
def delPortLinks : Links := { prev := [{ typeInx := .int, name := "numDel".toList, intValue := 0 }] }

def delPortItem : PackItem := { delPort with name := "delPort".toList, hintDimSize := [0] }

theorem delPort_resolved : resolvePackedItem xmsgTables delPortLinks delPort = .ok (delPortItem, delPortLinks) := rfl

theorem delPort_empty : EmptyPointer delPortItem (.pointer [.ints []]) := ⟨nofun, .inr rfl⟩

theorem delPort_packed (out : PackedOutput Char) : ∃ out',
    packItem (packChildStruct xmsgTables .native 1) xmsgTables .native delPortLinks delPort
    (.cells [.pointer [.ints []]])
      out = .ok (delPortLinks.next delPortItem, .cells []) out' ∧ out'.buf = out.buf :=
  ⟨_, rfl, rfl⟩

/-- In front of a number the empty array keeps the stream aligned. -/
theorem unpackItem_aligned_iff_sample : ∃ r out', packItem (packChildStruct xmsgTables .native 1) xmsgTables .native
      delPortLinks delPort (.cells [.pointer [.ints []]]) { bufSize := 16 } = .ok r out' ∧
    ∃ text, out'.buf = ([] : Text) ++ text ∧
      ((∃ l unpacked', unpackItem (unpackChildStruct xmsgTables .native 1) xmsgTables .native delPortLinks delPort
          (text ++ bigEndian 7 4) { bufSize := 16 } = .ok (l, bigEndian 7 4) unpacked') ↔
        KeepsAligned delPortItem (.pointer [.ints []]) (bigEndian 7 4)) := by
  obtain ⟨out', hpack, -⟩ := delPort_packed { bufSize := 16 }
  exact ⟨_, out', hpack, unpackItem_aligned_iff xmsgTables 1 delPort_resolved delPort_resolved rfl delPort_empty hpack
    (bigEndian 7 4) { bufSize := 16 }⟩

/-- The string of the last field. -/
def lastString : EStateM.Result Stop (PackedOutput Cell) Text → Option Text
  | .ok _ out =>
    match out.buf.getLast? with
    | some (.pointer [.strs [s]]) => some s
    | _ => none
  | .error _ _ => none

def packedText : EStateM.Result Stop (PackedOutput Char) Unit → Text
  | .ok _ out => out.buf
  | .error _ _ => []

/-- Nothing is packed for the empty array, but the reader takes the marker of the null string
for it, and then the bytes behind the struct for that string. -/
theorem null_behind_empty_misread :
    (∃ out', packItem (packChildStruct xmsgTables .native 1) xmsgTables .native delPortLinks delPort
        (.cells [.pointer [.ints []]]) { bufSize := 16 } = .ok (delPortLinks.next delPortItem, .cells []) out' ∧
      out'.buf = [] ∧
      ¬ ∃ l unpacked', unpackItem (unpackChildStruct xmsgTables .native 1) xmsgTables .native delPortLinks delPort
          ([] ++ (nullPtrPackStr ++ ['\x00'])) { bufSize := 16 } = .ok (l, nullPtrPackStr ++ ['\x00']) unpacked') ∧
      lastString (unpackStruct xmsgTables .native 1 "SendXmsgInfo_PI".toList
        (packedText (packStruct xmsgTables .native 1 "SendXmsgInfo_PI".toList xmsgInfo) ++ "z\x00".toList)) =
          some "z".toList := by
  refine ⟨?_, by decide +kernel⟩
  obtain ⟨out', hpack, hbuf⟩ := delPort_packed { bufSize := 16 }
  refine ⟨out', hpack, hbuf, ?_⟩
  rw [unpackItem_ends_iff delPort_resolved delPort_empty.pointer rfl,
    unpackNullString_empty rfl [] (by decide)]
  exact fun h => h.2.1 (List.prefix_refl _)

end Pack
