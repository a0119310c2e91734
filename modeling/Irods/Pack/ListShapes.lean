-- SUMMARY: What unpackStruct builds for a length and its arrays.
import Irods.Pack.Missing
import Irods.Pack.NumberPointers

/-!
# Lists on the wire

The instruction of a list has its length first. The arrays name it as a dimension, in brackets for an array
of pointers and in parentheses for what a single pointer points to.
-/

namespace Pack

open CString EStateM

/-! ## Names with dimensions -/

/-- No dimension begins or ends in the text. -/
def Unbracketed (s : Text) : Prop := ∀ c ∈ s, c ≠ '[' ∧ c ≠ ']' ∧ c ≠ '(' ∧ c ≠ ')'

instance (s : Text) : Decidable (Unbracketed s) := inferInstanceAs (Decidable (∀ c ∈ s, _))

section Dimensions

variable {resolve : Text → Int} {s key : Text} {n : Nat} {dims hints : List Nat}

theorem scanDims_base (h : Unbracketed s) (rest : Text) :
    scanDims resolve .none [] dims hints (s ++ rest) = scanDims resolve .none [] dims hints rest := by
  induction s with
  | nil => rfl
  | cons c s ih =>
    obtain ⟨h₁, h₂, h₃, h₄⟩ := h c List.mem_cons_self
    rw [List.cons_append, scanDims]
    simp only [h₁, h₂, h₃, h₄, if_false, ne_eq, not_true_eq_false]
    exact ih fun d hd => h d (List.mem_cons_of_mem _ hd)

theorem scanDims_key {opened : Open} (hopened : opened ≠ .none) (h : Unbracketed s) (buf rest : Text) :
    scanDims resolve opened buf dims hints (s ++ rest) = scanDims resolve opened (buf ++ s) dims hints rest := by
  induction s generalizing buf with
  | nil => rw [List.append_nil, List.nil_append]
  | cons c s ih =>
    obtain ⟨h₁, h₂, h₃, h₄⟩ := h c List.mem_cons_self
    rw [List.cons_append, scanDims]
    simp only [h₁, h₂, h₃, h₄, if_false, ne_eq, hopened, not_false_eq_true, if_true]
    rw [ih (fun d hd => h d (List.mem_cons_of_mem _ hd)), List.append_assoc]
    rfl

variable (hkey : Unbracketed key) (hne : key ≠ []) (hn : resolve key = n)
include hkey hne hn

theorem scanDims_dim (hroom : dims.length < maxPackDim) (rest : Text) :
    scanDims resolve .none [] dims hints ('[' :: (key ++ ']' :: rest)) =
      scanDims resolve .none [] (dims ++ [n]) hints rest := by
  have hnat : ¬ (n : Int) < 0 := Int.not_lt.mpr (Int.natCast_nonneg n)
  rw [scanDims]
  simp only [if_true, ne_eq, not_true_eq_false, false_or, ge_iff_le, Nat.not_le.mpr hroom, if_false]
  rw [scanDims_key (by decide : Open.brack ≠ .none) hkey, scanDims]
  simp [hne, hn, hnat]

theorem scanDims_hint (hroom : hints.length < maxPackDim) (rest : Text) :
    scanDims resolve .none [] dims hints ('(' :: (key ++ ')' :: rest)) =
      scanDims resolve .none [] dims (hints ++ [n]) rest := by
  have hnat : ¬ (n : Int) < 0 := Int.not_lt.mpr (Int.natCast_nonneg n)
  rw [scanDims]
  simp only [if_true, ne_eq, not_true_eq_false, false_or, ge_iff_le, Nat.not_le.mpr hroom, if_false]
  rw [scanDims_key (by decide : Open.praren ≠ .none) hkey, scanDims]
  simp [hne, hn, hnat]

end Dimensions

/-- The dimensions that are found behind the name. -/
theorem resolvePackedItem_dims {tables : Tables} {links : Links} {item : PackItem} {base d : Text}
    {dims hints : List Nat}
    (htype : item.typeInx ≠ .dependent ∧ item.typeInx ≠ .intDependent) (hname : item.name = base ++ d)
    (hbase : Unbracketed base) (hd : ∀ c ∈ d.head?, c = '[' ∨ c = '(')
    (hdims : scanDims (resolveIntInItem tables links) .none [] [] [] d = .ok (dims, hints)) :
    resolvePackedItem tables links item =
      .ok ({ item with name := base, dimSize := dims, hintDimSize := hints }, links) := by
  have hdependent : iparseDependent tables links item = .ok (item, links) := by
    unfold iparseDependent
    split
    · exact absurd ‹_› htype.1
    · exact absurd ‹_› htype.2
    · rfl
  have hall : ∀ c ∈ base, decide (c ≠ '[' ∧ c ≠ '(') = true := fun c hc =>
    decide_eq_true ⟨(hbase c hc).1, (hbase c hc).2.2.1⟩
  have hcut : (base ++ d).takeWhile (fun c => c ≠ '[' ∧ c ≠ '(') = base := by
    rw [List.takeWhile_append_of_pos hall]
    cases d with
    | nil => exact List.append_nil _
    | cons c d =>
      have hc := hd c rfl
      rw [List.takeWhile_cons_of_neg, List.append_nil]
      obtain rfl | rfl := hc <;> decide
  simp only [resolvePackedItem, resolveDepInArray, hdependent, hname, scanDims_base hbase,
    hdims, hcut, bind, Except.bind]

/-! ## Counts -/

/-- The count that is found for a dimension: 0 where the field is negative or was not set. -/
def countOf : Cell → Nat
  | .ints [x] => x.toNat
  | _ => 0

section Found

variable {tables : Tables} {links : Links} {key : Text}

theorem resolveIntInItem_next (hkey : ¬ key.all Char.isDigit) {item : PackItem} (hname : item.name = key)
    (htype : item.typeInx = .int) : resolveIntInItem tables (links.next item) key = item.intValue := by
  have hfind : (links.next item).chain.find? (fun item => item.name = key ∧ item.typeInx = .int) = some item := by
    simp [Links.chain, Links.next, hname, htype]
  rw [resolveIntInItem, if_neg hkey, hfind]

theorem resolveIntInItem_skip {item : PackItem} (hname : item.name ≠ key) (hprev : links.prev ≠ []) :
    resolveIntInItem tables (links.next item) key = resolveIntInItem tables links key := by
  simp [resolveIntInItem, Links.chain, Links.next, hname, hprev]

end Found

theorem parseXmlValue_suffix (name inPtr : Text) : (parseXmlValue name inPtr).2 <:+ inPtr := by
  unfold parseXmlValue
  split
  · exact List.suffix_refl _
  · dsimp only
    split <;> exact List.drop_suffix _ _

section Numbers

variable {read : Text → Int} {name inPtr : Text} {size n : Nat} {prot : IrodsProt} {item : PackItem}

/-- All numbers are there, or the status is negative. -/
theorem xmlNumbers_outcome (read : Text → Int) (name : Text) (n : Nat) (inPtr : Text) :
    ((xmlNumbers read name n inPtr).2.1 = none ∧ (xmlNumbers read name n inPtr).1.length = n ∨
      ∃ status < 0, (xmlNumbers read name n inPtr).2.1 = some status) ∧
        (xmlNumbers read name n inPtr).2.2 <:+ inPtr := by
  induction n generalizing inPtr with
  | zero => exact ⟨.inl ⟨rfl, rfl⟩, List.suffix_refl _⟩
  | succ n ih =>
    have hvalue := parseXmlValue_suffix name inPtr
    unfold xmlNumbers
    split
    · rename_i rest h
      rw [h] at hvalue
      exact ⟨.inr ⟨_, by decide, rfl⟩, hvalue⟩
    · rename_i strLen endTagLen value h
      rw [h] at hvalue
      split
      · exact ⟨.inr ⟨_, by decide, rfl⟩, hvalue⟩
      · obtain ⟨hout, hrest⟩ := ih (value.drop (strLen + endTagLen))
        refine ⟨?_, hrest.trans ((List.drop_suffix _ _).trans hvalue)⟩
        obtain ⟨hnone, hlen⟩ | hfailed := hout
        · exact .inl ⟨hnone, congrArg (· + 1) hlen⟩
        · exact .inr hfailed

theorem length_nativeNumbers (size n : Nat) (inPtr : Text) : (nativeNumbers size n inPtr).length = n := by
  induction n generalizing inPtr with
  | zero => rfl
  | succ n ih => exact congrArg (· + 1) (ih _)

theorem unpackNumbersToOutPtr_outcome {taken : Taken}
    (h : unpackNumbersToOutPtr size read prot item n inPtr = .ok taken) :
    ((∃ values, values.length = n ∧ taken.cell = .ints values ∧ taken.status = values.headD 0) ∨
      taken.cell = .unset ∧ taken.status < 0) ∧ taken.inPtr <:+ inPtr := by
  cases prot with
  | native =>
    unfold unpackNumbersToOutPtr at h
    dsimp only at h
    split at h
    · cases h
    · cases h
      exact ⟨.inl ⟨_, length_nativeNumbers size n inPtr, rfl, rfl⟩, List.drop_suffix _ _⟩
  | xml =>
    obtain ⟨hout, hrest⟩ := xmlNumbers_outcome read item.name n inPtr
    unfold unpackNumbersToOutPtr at h
    dsimp only at h
    obtain ⟨hnone, hlen⟩ | ⟨status, hneg, hfailed⟩ := hout
    · rw [hnone] at h
      cases h
      exact ⟨.inl ⟨_, hlen, rfl, rfl⟩, hrest⟩
    · rw [hfailed] at h
      cases h
      exact ⟨.inr ⟨rfl, hneg⟩, hrest⟩

theorem ofExcept_yields {α β : Type} (r : Except Stop β) :
    Yields (PackedOutput.buf (α := α)) (fun b added => added = [] ∧ r = .ok b) (ofExcept r) := by
  cases r with
  | ok b => exact .pure ⟨rfl, rfl⟩
  | error stop => exact .throw stop

end Numbers

section Items

variable {tables : Tables} {prot : IrodsProt} {links : Links} {name base key : Text} {n : Nat}

/-- The length of a list is kept for the dimensions behind it. -/
theorem unpackItem_count (child : ChildUnpacker) (hname : Unbracketed name) (inPtr : Text) :
    Yields PackedOutput.buf
      (fun r cells => ∃ cell, cells = [cell] ∧
        r.1 = links.next { typeInx := .int, name := name, intValue := countOf cell } ∧ r.2 <:+ inPtr)
      (unpackItem child tables prot links { typeInx := .int, name := name } inPtr) := by
  have hresolve : resolvePackedItem tables links { typeInx := .int, name := name } =
      .ok ({ typeInx := .int, name := name }, links) :=
    resolvePackedItem_dims ⟨nofun, nofun⟩ (List.append_nil name).symm hname nofun rfl
  have hint : Yields PackedOutput.buf
      (fun r cells => ∃ cell, cells = [cell] ∧ r.1 = (countOf cell : Int) ∧ r.2 <:+ inPtr)
      (unpackInt prot { typeInx := .int, name := name } 1 inPtr) := by
    refine .bind_silent (ofExcept_yields _) fun taken htaken => ?_
    obtain ⟨hcell, hrest⟩ := unpackNumbersToOutPtr_outcome htaken
    refine .emits_bind (store_emits _ _ _ _) (.emits_bind (addCell_emits _ _) (.pure ⟨taken.cell, rfl, ?_, hrest⟩))
    obtain ⟨values, hlen, hints, hstatus⟩ | ⟨hunset, hneg⟩ := hcell
    · obtain ⟨x, rfl⟩ := List.length_eq_one_iff.mp hlen
      rw [hints, hstatus]
      simp [countOf]
      omega
    · rw [hunset]
      simp [countOf]
      omega
  unfold unpackItem
  rw [hresolve]
  refine .emits_bind (.pure _) ?_
  refine .bind (P := fun r cells => ∃ cell, cells = [cell] ∧
    r.1 = { typeInx := .int, name := name, intValue := countOf cell } ∧ r.2 <:+ inPtr) ?_ ?_
  · refine .bind hint fun r cells h => ?_
    obtain ⟨cell, rfl, hcount, hrest⟩ := h
    exact .pure ⟨cell, rfl, by rw [hcount], hrest⟩
  · rintro ⟨item, rest⟩ cells ⟨cell, rfl, rfl, hrest⟩
    exact .emits_bind endItem_emits (.pure ⟨cell, rfl, rfl, hrest⟩)

end Items

/-! ## Arrays -/

/-- A pointer to `n` numbers, of which one may be missing, or a null pointer. -/
inductive NumbersAt (n : Nat) : Cell → Prop where
  | null : NumbersAt n .null
  | unset : NumbersAt n (.pointer [.unset])
  | ints {values : List Int} (h : values.length = n) : NumbersAt n (.pointer [.ints values])

/-- A pointer to an array of `n` strings, or a null pointer. -/
inductive StringsAt (n : Nat) : Cell → Prop where
  | null : StringsAt n .null
  | strs {strings : List Text} (h : strings.length = n) :
      StringsAt n (.pointers (strings.map fun s => some [.strs [s]]))

/-- A pointer to a block of `n` strings of less than `size` characters, or a null pointer. -/
inductive BlockAt (n size : Nat) : Cell → Prop where
  | null : BlockAt n size .null
  | strs {strings : List Text} (h : strings.length = n) (hstrings : ∀ s ∈ strings, '\x00' ∉ s ∧ s.length < size) :
      BlockAt n size (.pointer [.strs strings])

theorem except_bind_ok {ε α β : Type} {r : Except ε α} {f : α → Except ε β} {b : β} :
    (r >>= f) = .ok b ↔ ∃ a, r = .ok a ∧ f a = .ok b := by
  constructor
  · intro h
    cases r with
    | ok a => exact ⟨a, rfl, h⟩
    | error e => cases h
  · rintro ⟨a, rfl, h⟩
    exact h

section Strings

variable {prot : IrodsProt} {item : PackItem} {maxStrLen : Option Nat} {inPtr rest s : Text}
    {strings : List Text} {n : Nat}

/-- A string that comes through is ended and shorter than its size. -/
theorem unpackStringToOutPtr_outcome (h : unpackStringToOutPtr prot item maxStrLen inPtr = .ok (s, rest))
    (hinPtr : prot = .xml → '\x00' ∉ inPtr) :
    ('\x00' ∉ s ∧ ∀ m ∈ maxStrLen, s.length < m) ∧ (prot = .xml → '\x00' ∉ rest) := by
  have hfits : ¬ tooLong s.length maxStrLen = true → ∀ m ∈ maxStrLen, s.length < m := by
    rintro hfits m rfl
    simpa [tooLong] using hfits
  cases prot with
  | native =>
    obtain ⟨⟨s', rest'⟩, hstring, h⟩ := except_bind_ok.mp h
    unfold cString at hstring
    dsimp only at hstring h
    split at hstring
    · cases hstring
    · cases hstring
      split at h
      · cases h
      · rename_i hlong
        cases h
        exact ⟨⟨fun hmem => by simpa using List.mem_takeWhile_imp hmem, hfits hlong⟩, nofun⟩
  | xml =>
    have hinPtr := hinPtr rfl
    unfold unpackStringToOutPtr at h
    dsimp only at h
    have hsuffix := parseXmlValue_suffix item.name inPtr
    split at h
    · cases h
    · rename_i origStrLen endTagLen value hvalue
      rw [hvalue] at hsuffix
      split at h
      · cases h
      · rename_i hlong
        cases h
        refine ⟨⟨nul_not_mem_xmlStrToStrFrom (fun hmem => ?_) 0, hfits hlong⟩, fun _ hmem => ?_⟩
        · exact hinPtr (hsuffix.subset (List.mem_of_mem_take hmem))
        · exact hinPtr (hsuffix.subset (List.mem_of_mem_drop hmem))

theorem unpackStringsToOutPtr_outcome (h : unpackStringsToOutPtr prot item maxStrLen n inPtr = .ok (strings, rest)) :
    strings.length = n ∧ ((prot = .xml → '\x00' ∉ inPtr) →
      ∀ s ∈ strings, '\x00' ∉ s ∧ ∀ m ∈ maxStrLen, s.length < m) := by
  induction n generalizing inPtr strings with
  | zero =>
    cases h
    exact ⟨rfl, nofun⟩
  | succ n ih =>
    obtain ⟨⟨s, inPtr₁⟩, hone, h⟩ := except_bind_ok.mp h
    obtain ⟨⟨ss, rest'⟩, hmore, h⟩ := except_bind_ok.mp h
    cases h
    obtain ⟨hlen, hall⟩ := ih hmore
    refine ⟨congrArg (· + 1) hlen, fun hinPtr => ?_⟩
    obtain ⟨hs, hrest⟩ := unpackStringToOutPtr_outcome hone hinPtr
    exact List.forall_mem_cons.mpr ⟨hs, hall hrest⟩

end Strings

section Pointers

variable {tables : Tables} {child : ChildUnpacker} {prot : IrodsProt} {links : Links}
    {item item' : PackItem} {inPtr : Text}
  {P : Cell → Prop}

/-- What holds of a null pointer and of all pointers that are made. -/
theorem unpackPointerItem_yields (htype : item.typeInx ≠ .piStr) (hnull : P .null)
    (hsingle : item.dimSize = [] → Yields PackedOutput.buf (fun r added => added = [] ∧ P (.pointer r.1))
      (unpackTarget child prot links item inPtr))
    (harray : item.dimSize ≠ [] → Yields PackedOutput.buf (fun r added => added = [] ∧ P (.pointers r.1))
      (unpackTargets (unpackArrayTarget child prot links item) (getNumElement item) inPtr)) :
    Yields PackedOutput.buf (fun r cells => ∃ cell, cells = [cell] ∧ P cell ∧ r.1 = item)
      (unpackPointerItem child prot links item inPtr) := by
  refine .bind_silent (ofExcept_yields _) fun null _ => ?_
  cases null with
  | some rest => exact .emits_bind (addPointerToPackedOut_emits _) (.pure ⟨_, rfl, hnull, rfl⟩)
  | none =>
    dsimp only
    split
    · rename_i hdims
      refine .bind_silent (p := fun r => P (.pointer r.1)) (hsingle hdims) fun r hP => ?_
      refine .emits_bind (addPointerToPackedOut_emits _) ?_
      split
      · exact absurd ‹_› htype
      · exact .pure ⟨_, rfl, hP, rfl⟩
    · rename_i hdims
      refine .bind_silent (p := fun r => P (.pointers r.1)) (harray hdims) fun r hP => ?_
      exact .emits_bind (addPointerToPackedOut_emits _) (.pure ⟨_, rfl, hP, rfl⟩)

theorem unpackItem_pointer (hresolve : resolvePackedItem tables links item = .ok (item', links))
    (hpointer : item'.pointerType ≠ .nonPointer)
    (hyields : Yields PackedOutput.buf (fun r cells => ∃ cell, cells = [cell] ∧ P cell ∧ r.1 = item')
      (unpackPointerItem child prot links item' inPtr)) :
    Yields PackedOutput.buf (fun r cells => ∃ cell, cells = [cell] ∧ P cell ∧ r.1 = links.next item')
      (unpackItem child tables prot links item inPtr) := by
  unfold unpackItem
  rw [hresolve]
  refine .emits_bind (.pure _) ?_
  dsimp only
  rw [if_neg hpointer]
  refine hyields.bind ?_
  rintro ⟨saved, rest⟩ cells ⟨cell, rfl, hP, rfl⟩
  exact .emits_bind endItem_emits (.pure ⟨cell, rfl, hP, rfl⟩)

end Pointers

section Fields

variable {tables : Tables} {prot : IrodsProt} {links : Links} {base key key' : Text} {n size : Nat}
  (hbase : Unbracketed base) (hkey : Unbracketed key) (hne : key ≠ []) (hn : resolveIntInItem tables links key = n)
include hbase hkey hne hn

variable (child : ChildUnpacker) (inPtr : Text)

/-- `int *base(key)` -/
theorem unpackItem_numbers : Yields PackedOutput.buf (fun r cells => ∃ cell, cells = [cell] ∧ NumbersAt n cell ∧
        ∃ item, item.name = base ∧ r.1 = links.next item)
      (unpackItem child tables prot links
        { typeInx := .int, name := base ++ '(' :: (key ++ [')']), pointerType := .aPointer } inPtr) := by
  have hresolve := @resolvePackedItem_dims tables links
    { typeInx := .int, name := base ++ '(' :: (key ++ [')']), pointerType := .aPointer }
    base _ [] [n] ⟨nofun, nofun⟩ rfl hbase (by simp) (scanDims_hint hkey hne hn (by decide) [])
  refine (unpackItem_pointer (P := NumbersAt n) hresolve nofun
    (unpackPointerItem_yields nofun .null (fun _ => ?_) fun h => absurd rfl h)).mono ?_
  · refine .bind_silent (ofExcept_yields _) fun taken htaken => ?_
    obtain ⟨hcell, -⟩ := unpackNumbersToOutPtr_outcome htaken
    obtain ⟨values, hlen, hints, -⟩ | ⟨hunset, -⟩ := hcell
    · exact .pure ⟨rfl, by rw [hints]; exact .ints (by simpa [getNumHintElement] using hlen)⟩
    · exact .pure ⟨rfl, by rw [hunset]; exact .unset⟩
  · rintro r cells ⟨cell, hcells, hnumbers, hr⟩
    exact ⟨cell, hcells, hnumbers, _, rfl, hr⟩

/-- `str *base[key]` -/
theorem unpackItem_strings : Yields PackedOutput.buf (fun r cells => ∃ cell, cells = [cell] ∧ StringsAt n cell ∧
        ∃ item, item.name = base ∧ r.1 = links.next item)
      (unpackItem child tables prot links
        { typeInx := .str, name := base ++ '[' :: (key ++ [']']), pointerType := .aPointer } inPtr) := by
  have hresolve := @resolvePackedItem_dims tables links
    { typeInx := .str, name := base ++ '[' :: (key ++ [']']), pointerType := .aPointer }
    base _ [n] [] ⟨nofun, nofun⟩ rfl hbase (by simp) (scanDims_dim hkey hne hn (by decide) [])
  have hone (item : PackItem) (htype : item.typeInx = .str) (hhints : item.hintDimSize = []) (inPtr : Text) :
      Yields PackedOutput.buf (fun r added => added = [] ∧ ∃ s, r.1 = [.strs [s]])
        (unpackArrayTarget child prot links item inPtr) := by
    simp only [unpackArrayTarget, unpackTarget, htype, hhints]
    refine .emits_bind (.pure _) (.bind_silent (ofExcept_yields _) fun r hr => ?_)
    obtain ⟨s, hs⟩ := List.length_eq_one_iff.mp (unpackStringsToOutPtr_outcome hr).1
    exact .pure ⟨rfl, s, by rw [hs]⟩
  have hall (item : PackItem) (htype : item.typeInx = .str) (hhints : item.hintDimSize = []) (m : Nat) (inPtr : Text) :
      Yields PackedOutput.buf
        (fun r added => added = [] ∧
          ∃ strings : List Text, strings.length = m ∧ r.1 = strings.map fun s => some [.strs [s]])
        (unpackTargets (unpackArrayTarget child prot links item) m inPtr) := by
    induction m generalizing inPtr with
    | zero => exact .pure ⟨rfl, [], rfl, rfl⟩
    | succ m ih =>
      refine .bind_silent (hone item htype hhints inPtr) fun ⟨target, rest⟩ ⟨s, hs⟩ => ?_
      refine .bind_silent (ih rest) fun ⟨targets, rest'⟩ ⟨strings, hlen, htargets⟩ => ?_
      obtain rfl := hs
      obtain rfl := htargets
      exact .pure ⟨rfl, s :: strings, congrArg (· + 1) hlen, rfl⟩
  refine (unpackItem_pointer (P := StringsAt n) hresolve nofun
    (unpackPointerItem_yields nofun .null nofun fun _ => ?_)).mono ?_
  · refine (hall _ rfl rfl _ inPtr).mono ?_
    rintro ⟨targets, rest⟩ added ⟨hadded, strings, hlen, rfl⟩
    exact ⟨hadded, .strs (by simpa [getNumElement] using hlen)⟩
  · rintro r cells ⟨cell, hcells, hstrings, hr⟩
    exact ⟨cell, hcells, hstrings, _, rfl, hr⟩

/-- `str *base(key)(key')` -/
theorem unpackItem_block (hkey' : Unbracketed key') (hne' : key' ≠ [])
    (hsize : resolveIntInItem tables links key' = size)
    (child : ChildUnpacker) {inPtr : Text} (hinPtr : prot = .xml → '\x00' ∉ inPtr) :
    Yields PackedOutput.buf (fun r cells => ∃ cell, cells = [cell] ∧ BlockAt n size cell ∧
        ∃ item, item.name = base ∧ r.1 = links.next item)
      (unpackItem child tables prot links
        { typeInx := .str, name := base ++ '(' :: (key ++ ')' :: '(' :: (key' ++ [')'])), pointerType := .aPointer }
        inPtr) := by
  have hdims := (@scanDims_hint _ _ _ [] [] hkey hne hn (by decide) ('(' :: (key' ++ [')']))).trans
    (@scanDims_hint _ _ _ [] [n] hkey' hne' hsize (show 1 < maxPackDim by decide) [])
  have hresolve := @resolvePackedItem_dims tables links
    { typeInx := .str, name := base ++ '(' :: (key ++ ')' :: '(' :: (key' ++ [')'])), pointerType := .aPointer }
    base _ [] [n, size] ⟨nofun, nofun⟩ rfl hbase (by simp) hdims
  refine (unpackItem_pointer (P := BlockAt n size) hresolve nofun
    (unpackPointerItem_yields nofun .null (fun _ => ?_) fun h => absurd rfl h)).mono ?_
  · refine .bind_silent (ofExcept_yields _) fun r hr => ?_
    cases size with
    | zero => cases hr
    | succ size =>
      cases hr
      refine .bind_silent (ofExcept_yields _) fun r hr => ?_
      obtain ⟨hlen, hall⟩ := unpackStringsToOutPtr_outcome hr
      refine .pure ⟨rfl, .strs ?_ fun s hs => ?_⟩
      · simpa using hlen
      · obtain ⟨hnul, hfits⟩ := hall hinPtr s hs
        exact ⟨hnul, hfits _ rfl⟩
  · rintro r cells ⟨cell, hcells, hblock, hr⟩
    exact ⟨cell, hcells, hblock, _, rfl, hr⟩

end Fields

/-! ## Structs -/

/-- What holds of the fields of the items holds of the struct. -/
theorem unpackStruct_fields {tables : Tables} {prot : IrodsProt} {depth : Nat}
    {packInstName packInstruct inPackedStr rest : Text} {out : PackedOutput Cell}
    {items : List PackItem} {P : List Cell → Prop}
    (htable : matchPackInstruct tables packInstName = some packInstruct)
    (hparse : parsePackInstruct packInstruct = .ok items)
    (hrun : unpackStruct tables prot depth packInstName inPackedStr = .ok rest out)
    (hitems : ∀ child inPtr, (prot = .xml → '\x00' ∉ inPtr) → Yields PackedOutput.buf (fun _ cells => P cells)
      (unpackItems child tables prot (Links.child {} { name := packInstName }) items inPtr)) : P out.buf := by
  have hone (child : ChildUnpacker) (inPtr : Text) (hinPtr : prot = .xml → '\x00' ∉ inPtr) :
      Yields PackedOutput.buf (fun _ cells => P cells)
        (unpackElements child tables prot { name := packInstName } {} packInstruct 1 inPtr) := by
    unfold unpackElements
    rw [hparse]
    refine .emits_bind (.pure _) ?_
    cases prot with
    | native => exact (hitems child inPtr hinPtr).bind fun _ _ hP => .pure (by rwa [List.append_nil])
    | xml =>
      dsimp only
      split
      · exact fun _ _ _ h => absurd (bind_ok.mp h) fun ⟨_, _, hthrow, _⟩ => not_throw_ok hthrow
      · refine (hitems child _ fun _ hmem => hinPtr rfl (List.mem_of_mem_drop hmem)).bind fun inPtr' _ hP => ?_
        split
        · exact .throw _
        · exact .pure (by rwa [List.append_nil])
  have hstruct (inPtr : Text) (hinPtr : prot = .xml → '\x00' ∉ inPtr) :
      Yields PackedOutput.buf (fun _ cells => P cells)
        (unpackChildStruct tables prot depth { name := packInstName } {} 1 inPtr) := by
    cases depth with
    | zero => exact .throw _
    | succ depth =>
      simp only [unpackChildStruct, htable, one_ne_zero, if_false]
      exact hone _ inPtr hinPtr
  obtain ⟨cells, hbuf, hP⟩ := hstruct _ (fun hxml hmem => by
    subst hxml
    simpa using List.mem_takeWhile_imp hmem) _ _ _ hrun
  rw [hbuf]
  exact hP

end Pack
