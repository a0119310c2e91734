-- SUMMARY: Pointers to numbers, and which of them come back.
import Irods.Pack.Numbers

/-!
# Pointers to numbers

What is packed for the pointers of an item has to be taken from the stream as it is, and
the numbers have to be those that were packed. A single pointer asks for as many numbers
as were packed. A pointer of an array asks for as many as its block has bytes, and the
block does not hold them.
-/

namespace Pack

open CString EStateM

/-! ## The types of numbers -/

inductive Number where
  | int
  | int16
  | double
  deriving DecidableEq

namespace Number

def typeInx : Number → PackTypeInx
  | int => .int
  | int16 => .int16
  | double => .double

def size : Number → Nat
  | int => 4
  | int16 => 2
  | double => 8

/-- The room for its decimal. -/
def extLen : Number → Nat
  | double => 20
  | _ => 12

/-- How its decimal is read. -/
def read : Number → Text → Int
  | int => atoi
  | int16 => fun s => (atoi s).bmod (2 ^ 16)
  | double => strtoll

variable {k : Number}

theorem size_lt (k : Number) {n : Nat} (hn : 0 < n) : n < n * k.size := by
  cases k <;> simp only [size] <;> omega

theorem extLen_le (k : Number) : k.extLen ≤ NAME_LEN := by
  cases k <;> decide

/-- A decimal is read back, unless it was cut. -/
theorem read_printed {x : Int} (h : InRange k.size x) :
    k.read (printed k.extLen x) = x ↔ (k = .double → -(10 ^ 18 : Int) < x) := by
  have hlo := h.1
  have hhi := h.2
  cases k with
  | int =>
    simp only [size] at hlo hhi
    have hprinted : printed 12 x = decimal x := printed_decimal (k := 10) (by decide) (by omega) (by omega)
    have hread : atoi (decimal x) = x := atoi_decimal_int (by unfold intBound; omega) (by unfold intBound; omega)
    simp only [read, extLen, hprinted, hread, true_iff]
    exact nofun
  | int16 =>
    simp only [size] at hlo hhi
    have hprinted : printed 12 x = decimal x := printed_decimal (k := 10) (by decide) (by omega) (by omega)
    have hread : atoi (decimal x) = x := atoi_decimal_int (by unfold intBound; omega) (by unfold intBound; omega)
    have hshort : x.bmod (2 ^ 16) = x := Int.bmod_eq_of_le_mul_two (by omega) (by omega)
    simp only [read, extLen, hprinted, hread, hshort, true_iff]
    exact nofun
  | double =>
    simp only [read, extLen, forall_const]
    exact strtoll_printed h

end Number

/-! ## What is packed -/

variable {k : Number} {item : PackItem} {targets : List (Option (List Int))}

/-- The numbers behind a pointer, on the wire. -/
def numbersText (k : Number) (name : Text) : IrodsProt → Option (List Int) → Nat → Text
  | .native, none,        n => List.replicate (k.size * n) '\x00'
  | .native, some values, _ => values.flatMap (bigEndian · k.size)
  | .xml, none, _ => []
  | .xml, some values, _ => values.flatMap (xmlNumber name k.extLen)

/-- The numbers behind each pointer of an item of the type `k`. -/
structure NumberPointers (k : Number) (item : PackItem) (targets : List (Option (List Int))) : Prop where
  typeInx : item.typeInx = k.typeInx
  name : item.name.length < maxPiLen
  pointers : targets.length = getNumElement item
  pointers_pos : 0 < getNumElement item
  elements_pos : 0 < getNumHintElement item
  /-- A single pointer that is null is not packed as one. -/
  single : item.dimSize = [] → none ∉ targets
  values : ∀ values, some values ∈ targets →
    values.length = getNumHintElement item ∧ ∀ x ∈ values, InRange k.size x

def intsTarget (target : Option (List Int)) : Option (List Cell) := target.map fun values => [.ints values]

variable {n : Nat}

theorem ofTarget_ints (target : Option (List Int)) (h : ∀ values, target = some values → values.length = n) :
    ∃ inPtr, (InPtr.ofTarget (intsTarget target)).ints n = .ok (target, inPtr) := by
  cases target with
  | none => exact ⟨_, rfl⟩
  | some values => exact ⟨_, if_pos (h values rfl)⟩

theorem packNumbers_emits (k : Number) (item : PackItem) (prot : IrodsProt) (hn : 0 < n) {inPtr inPtr' : InPtr}
    {target : Option (List Int)} (h : inPtr.ints n = .ok (target, inPtr')) :
    ∃ first, Emits PackedOutput.buf (packNumbers k.size k.extLen prot item n inPtr) (first, inPtr')
      (numbersText k item.name prot target n) := by
  unfold packNumbers
  rw [h]
  have hne : ¬ n = 0 := by omega
  cases prot with
  | native =>
    cases target with
    | none =>
      refine ⟨0, .bind_silent (.pure _) ?_⟩
      simp only [if_neg hne]
      exact .bind_last (append_emits _ _ _) (.pure _)
    | some values =>
      refine ⟨max 0 (values.headD 0), .bind_silent (.pure _) ?_⟩
      simp only [if_neg hne]
      exact .bind_last (append_emits _ _ _) (.pure _)
  | xml =>
    cases target with
    | none => exact ⟨0, .bind_silent (.pure _) (.pure _)⟩
    | some values =>
      exact ⟨max 0 (values.headD 0), .bind_silent (.pure _)
        (.bind_last (packXmlNumbers_emits item k.extLen values) (.pure _))⟩

/-- The item's stream: what is behind its pointers, one after the other. -/
def pointersText (k : Number) (item : PackItem) (prot : IrodsProt) (targets : List (Option (List Int))) : Text :=
  targets.flatMap fun target => numbersText k item.name prot target (getNumHintElement item)

theorem packTargets_emits (prot : IrodsProt) (h : NumberPointers k item targets) :
    Emits PackedOutput.buf (packTargets (fun inPtr => do
        let _ ← packNumbers k.size k.extLen prot item (getNumHintElement item) inPtr) (targets.map intsTarget))
      ⟨⟩ (pointersText k item prot targets) := by
  have hvalues : ∀ values, some values ∈ targets → values.length = getNumHintElement item :=
    fun values hmem => (h.values values hmem).1
  have hpos := h.elements_pos
  clear h
  induction targets with
  | nil => exact .pure _
  | cons target targets ih =>
    obtain ⟨inPtr, hints⟩ := ofTarget_ints target fun values htarget => hvalues values (by simp [htarget])
    obtain ⟨first, hnumbers⟩ := packNumbers_emits k item prot hpos hints
    exact .bind (.bind_last hnumbers (.pure _)) (ih fun values hmem => hvalues values (by simp [hmem]))

theorem packPointerItem_emits (child : ChildPacker) (prot : IrodsProt) (links : Links)
    (h : NumberPointers k item targets) :
    Emits PackedOutput.buf (packPointerItem child prot links item (targets.map intsTarget)) item
      (pointersText k item prot targets) := by
  unfold packPointerItem
  have hpack := packTargets_emits prot h
  rw [h.typeInx]
  cases k <;> exact .bind_last hpack (.pure item)

/-! ## What is taken from the stream -/

theorem addPointerToPackedOut_emits (cell : Cell) :
    Emits PackedOutput.buf (addPointerToPackedOut cell) ⟨⟩ [cell] :=
  .bind_silent (store_emits _ _ _ _) (.modify fun _ => rfl)

theorem NumberPointers.noElement (h : NumberPointers k item targets) : Pack.noElement item = false := by
  have hpointers := h.pointers_pos
  have helements := h.elements_pos
  simp only [Pack.noElement, decide_eq_false_iff_not]
  omega

theorem NumberPointers.unpackTarget (h : NumberPointers k item targets) (child : ChildUnpacker) (prot : IrodsProt)
    (links : Links) (inPtr : Text) : Pack.unpackTarget child prot links item inPtr =
      unpackNumbersTarget (unpackNumbersToOutPtr k.size k.read prot item (getNumHintElement item)) inPtr := by
  unfold Pack.unpackTarget
  rw [h.typeInx]
  cases k <;> rfl

theorem NumberPointers.unpackArrayTarget (h : NumberPointers k item targets) (child : ChildUnpacker)
    (prot : IrodsProt) (links : Links) (inPtr : Text) :
    Pack.unpackArrayTarget child prot links item inPtr = unpackNumbersBlock k.size k.read prot item inPtr := by
  unfold Pack.unpackArrayTarget
  rw [h.typeInx]
  cases k <;> rfl

/-- The block of a pointer in an array is too small for what is asked for. -/
theorem unpackNumbersBlock_fails {prot : IrodsProt} (hpos : 0 < getNumHintElement item) (inPtr : Text)
    (out out' : PackedOutput Cell) (r : List Cell × Text) :
    ¬ unpackNumbersBlock k.size k.read prot item inPtr out = .ok r out' := by
  intro hrun
  obtain ⟨taken, out₁, htaken, -⟩ := bind_ok.mp hrun
  have herror : ∃ stop, unpackNumbersToBlock k.size k.read prot item (getNumHintElement item)
      (getNumHintElement item * k.size) inPtr = .error stop := by
    unfold unpackNumbersToBlock
    rw [if_neg (Nat.not_le.mpr (k.size_lt hpos))]
    cases prot with
    | native => exact ⟨_, rfl⟩
    | xml =>
      dsimp only
      split <;> exact ⟨_, rfl⟩
  obtain ⟨stop, herror⟩ := herror
  rw [herror] at htaken
  exact not_throw_ok htaken

/-- The number that is taken for a number that was sent. -/
def Number.back (k : Number) : IrodsProt → Int → Int
  | .native, x => x
  | .xml, x => k.read (printed k.extLen x)

theorem tagFits_of_lt {name : Text} (h : name.length < maxPiLen) : TagFits name := by
  unfold maxPiLen at h
  unfold TagFits MAX_NAME_LEN MAX_PATH_ALLOWED
  omega

theorem unpackNumbersToOutPtr_text (item : PackItem) (prot : IrodsProt) {values : List Int}
    (hname : item.name.length < maxPiLen)
    (hvalues : ∀ x ∈ values, InRange k.size x) (rest : Text) : ∃ status,
      unpackNumbersToOutPtr k.size k.read prot item values.length
        (numbersText k item.name prot (some values) values.length ++ rest) =
      .ok ⟨status, .ints (values.map (k.back prot)), .put, k.size * values.length, rest⟩ := by
  cases prot with
  | native =>
    have hlen := flatMap_bigEndian_length k.size values
    have hroom : ¬ (values.flatMap (bigEndian · k.size) ++ rest).length < k.size * values.length := by
      rw [List.length_append, hlen]
      omega
    have hdrop : (values.flatMap (bigEndian · k.size) ++ rest).drop (k.size * values.length) = rest :=
      List.drop_left' hlen
    have hback : values.map (k.back .native) = values := List.map_id' values
    refine ⟨values.headD 0, ?_⟩
    simp only [unpackNumbersToOutPtr, numbersText, if_neg hroom, nativeNumbers_bigEndian hvalues, hdrop, hback]
  | xml =>
    have hread := @xmlNumbers_xmlNumber item.name k.extLen k.read (tagFits_of_lt hname) k.extLen_le values rest
    refine ⟨(values.map (k.back .xml)).headD 0, ?_⟩
    simp only [unpackNumbersToOutPtr, numbersText, hread]
    rfl

/-! ## Items -/

/-- The field of an item with what its pointers point to. -/
def pointerCell (item : PackItem) (targets : List (Option (List Int))) : Cell :=
  match item.dimSize, targets with
  | [], [some values] => .pointer [.ints values]
  | _, _ => .pointers (targets.map intsTarget)

/-- What is packed behind the pointers is taken from in front of `rest`, all of it and
nothing else, and gives the pointers and the numbers that were packed. -/
def ReadsBack (prot : IrodsProt) (item : PackItem) (targets : List (Option (List Int))) (rest : Text) : Prop :=
  ∃ text,
    (∀ child links,
      Emits PackedOutput.buf (packPointerItem child prot links item (targets.map intsTarget)) item text) ∧
    ∀ child links, Emits PackedOutput.buf (unpackPointerItem child prot links item (text ++ rest)) (item, rest)
      [pointerCell item targets]

/-- The pointer is a single one. Its bytes, with what follows them, are not taken for a null
pointer and do not end while they are compared with one; its decimals were not cut. -/
def Sendable (k : Number) (prot : IrodsProt) (item : PackItem) (targets : List (Option (List Int))) (rest : Text) :
    Prop :=
  item.dimSize = [] ∧ ∀ values, some values ∈ targets →
    match prot with
    | .native =>
      let text := values.flatMap (bigEndian · k.size) ++ rest
      ¬ nullPtrPackStr ++ ['\x00'] <+: text ∧ ¬ text <+: nullPtrPackStr
    | .xml => k = .double → ∀ x ∈ values, -(10 ^ 18 : Int) < x

theorem NumberPointers.single_targets (h : NumberPointers k item targets) (hdim : item.dimSize = []) :
    ∃ values, targets = [some values] := by
  have hlen : targets.length = 1 := by rw [h.pointers, getNumElement, hdim, List.prod_nil]
  obtain ⟨target, rfl⟩ := List.length_eq_one_iff.mp hlen
  cases target with
  | none => exact absurd (List.mem_singleton_self none) (h.single hdim)
  | some values => exact ⟨values, rfl⟩

variable {prot : IrodsProt} {rest : Text}

variable {values : List Int} {s : Text}

theorem unpackNullString_number (h : NumberPointers k item [some values]) (rest : Text) :
    unpackNullString prot item (numbersText k item.name prot (some values) (getNumHintElement item) ++ rest) =
        .ok none ↔
      (prot = .native → ¬ nullPtrPackStr ++ ['\x00'] <+: values.flatMap (bigEndian · k.size) ++ rest ∧
        ¬ values.flatMap (bigEndian · k.size) ++ rest <+: nullPtrPackStr) := by
  have hnoElement := h.noElement
  have hlen := (h.values values (by simp)).1
  cases prot with
  | native =>
    simp only [unpackNullString, numbersText, hnoElement, List.isPrefixOf_iff_prefix, forall_const]
    split
    case isTrue hnull => simp [hnull]
    case isFalse hnull =>
      split
      case isTrue hends => simp [hends]
      case isFalse hends => simp [hnull, hends]
  | xml =>
    have hne : values ≠ [] := by
      rintro rfl
      exact absurd h.elements_pos (by rw [← hlen]; decide)
    obtain ⟨x, xs, rfl⟩ := List.exists_cons_of_ne_nil hne
    have hstart := parseStartTag_startTag item.name (printed k.extLen x ++ (endTag item.name ++
      (xs.flatMap (xmlNumber item.name k.extLen) ++ rest))) false NoTag.nil
    rw [List.nil_append] at hstart
    simp only [unpackNullString, numbersText, List.flatMap_cons, xmlNumber, List.append_assoc, hstart, hnoElement]
    simp

/-- A single pointer that is not taken for a null pointer. -/
theorem unpackPointerItem_single (h : NumberPointers k item [some values]) (hdim : item.dimSize = [])
    (hnull : unpackNullString prot item
      (numbersText k item.name prot (some values) (getNumHintElement item) ++ rest) = .ok none)
    (child : ChildUnpacker) (links : Links) :
    Emits PackedOutput.buf (unpackPointerItem child prot links item
        (numbersText k item.name prot (some values) (getNumHintElement item) ++ rest))
      (item, rest) [.pointer [.ints (values.map (k.back prot))]] := by
  obtain ⟨hlen, hrange⟩ := h.values values (by simp)
  obtain ⟨status, htaken⟩ := unpackNumbersToOutPtr_text item prot h.name hrange rest
  rw [hlen] at htaken
  unfold unpackPointerItem
  rw [hnull]
  refine .bind_silent (.pure none) ?_
  simp only [hdim, if_true, h.unpackTarget, unpackNumbersTarget, htaken]
  refine .bind_silent (.bind_silent (.pure _) (.pure _)) ?_
  refine .bind_last (addPointerToPackedOut_emits _) ?_
  rw [h.typeInx]
  cases k <;> exact .pure _

/-- What is taken for a null pointer. -/
theorem unpackPointerItem_null {inPtr : Text} (hnull : unpackNullString prot item s = .ok (some inPtr))
    (child : ChildUnpacker) (links : Links) :
    Emits PackedOutput.buf (unpackPointerItem child prot links item s) (item, inPtr) [.null] := by
  unfold unpackPointerItem
  rw [hnull]
  refine .bind_silent (.pure (some inPtr)) ?_
  exact .bind_last (addPointerToPackedOut_emits .null) (.pure _)

theorem unpackPointerItem_array (h : NumberPointers k item targets) (hdim : item.dimSize ≠ [])
    (hnull : unpackNullString prot item s = .ok none) (child : ChildUnpacker) (links : Links)
    (out out' : PackedOutput Cell) (r : PackItem × Text) :
    ¬ unpackPointerItem child prot links item s out = .ok r out' := by
  intro hrun
  unfold unpackPointerItem at hrun
  rw [hnull] at hrun
  obtain ⟨null, out₁, hpure, hrun⟩ := bind_ok.mp hrun
  obtain ⟨rfl, rfl⟩ := pure_ok.mp hpure
  simp only [if_neg hdim] at hrun
  obtain ⟨⟨targets', inPtr⟩, out₂, htargets, -⟩ := bind_ok.mp hrun
  cases hnum : getNumElement item with
  | zero => exact absurd h.pointers_pos (by omega)
  | succ n =>
    rw [hnum, unpackTargets] at htargets
    obtain ⟨target, out₃, htarget, -⟩ := bind_ok.mp htargets
    rw [h.unpackArrayTarget] at htarget
    exact unpackNumbersBlock_fails h.elements_pos s _ _ _ htarget

theorem pointerCell_ne_null (item : PackItem) (targets : List (Option (List Int))) :
    [Cell.null] ≠ [pointerCell item targets] := by
  unfold pointerCell
  split <;> simp

/-- The pointer that comes back from a stream, whatever it is. -/
theorem sendable_of_emits (h : NumberPointers k item targets) {child : ChildUnpacker} {links : Links}
    (hemits : Emits PackedOutput.buf (unpackPointerItem child prot links item
      (pointersText k item prot targets ++ rest)) (item, rest) [pointerCell item targets]) :
    Sendable k prot item targets rest := by
  let out : PackedOutput Cell := initPackedOutput 0
  cases hnull : unpackNullString prot item (pointersText k item prot targets ++ rest) with
  | error stop =>
    unfold unpackPointerItem at hemits
    rw [hnull] at hemits
    exact absurd hemits (Emits.not_bind (fun _ _ _ => not_throw_ok) out)
  | ok null =>
    cases null with
    | some inPtr =>
      have hcell := unpackPointerItem_null hnull child links
      exact absurd (hcell.unique hemits out).2 (pointerCell_ne_null item targets)
    | none =>
      by_cases hdim : item.dimSize = []
      · obtain ⟨values, rfl⟩ := h.single_targets hdim
        simp only [pointersText, List.flatMap_cons, List.flatMap_nil, List.append_nil] at hnull hemits
        have hcell := (unpackPointerItem_single h hdim hnull child links).unique hemits out
        have hback : values.map (k.back prot) = values.map id := by
          simpa [pointerCell, hdim] using hcell.2
        refine ⟨hdim, ?_⟩
        intro values' hmem
        obtain rfl : values' = values := by simpa using hmem
        have hstream := (unpackNullString_number h rest).mp hnull
        cases prot with
        | native => exact hstream rfl
        | xml =>
          intro hdouble x hx
          have hread : k.back .xml x = x := List.map_inj_left.mp hback x hx
          exact (Number.read_printed ((h.values values' (by simp)).2 x hx)).mp hread hdouble
      · obtain ⟨out', hrun, -⟩ := hemits out
        exact absurd hrun (unpackPointerItem_array h hdim hnull child links _ _ _)

theorem ReadsBack.sendable (h : NumberPointers k item targets) (hback : ReadsBack prot item targets rest) :
    Sendable k prot item targets rest := by
  obtain ⟨text, hpack, hunpack⟩ := hback
  let child : ChildPacker := fun _ _ _ _ => throw .depth
  let child' : ChildUnpacker := fun _ _ _ _ => throw .depth
  obtain rfl := ((packPointerItem_emits child prot {} h).unique (hpack child {}) (initPackedOutput 0)).2
  exact sendable_of_emits h (hunpack child' {})

theorem Sendable.readsBack (h : NumberPointers k item targets) (hsend : Sendable k prot item targets rest) :
    ReadsBack prot item targets rest := by
  obtain ⟨hdim, hvalues⟩ := hsend
  obtain ⟨values, rfl⟩ := h.single_targets hdim
  refine ⟨_, fun child links => packPointerItem_emits child prot links h, fun child links => ?_⟩
  have hsend := hvalues values (by simp)
  have hnull : unpackNullString prot item
      (numbersText k item.name prot (some values) (getNumHintElement item) ++ rest) = .ok none := by
    rw [unpackNullString_number h rest]
    rintro rfl
    exact hsend
  have hback : values.map (k.back prot) = values := by
    refine (List.map_congr_left (g := id) fun x hx => ?_).trans (List.map_id values)
    cases prot with
    | native => rfl
    | xml =>
      refine (Number.read_printed ((h.values values (by simp)).2 x hx)).mpr fun hdouble => ?_
      exact hsend hdouble x hx
  have hemits := unpackPointerItem_single h hdim hnull child links
  rw [hback] at hemits
  simpa only [pointersText, List.flatMap_cons, List.flatMap_nil, List.append_nil, pointerCell, hdim] using hemits

/-- Exactly the single pointers come back, but for numbers that read as a null pointer and
decimals that were cut. -/
theorem numbers_read_back (h : NumberPointers k item targets) (prot : IrodsProt) (rest : Text) :
    ReadsBack prot item targets rest ↔ Sendable k prot item targets rest :=
  ⟨fun hback => hback.sendable h, fun hsend => hsend.readsBack h⟩

/-- `int *x(2)` with two numbers, and another item behind it. -/
theorem numbers_read_back_pair :
    ReadsBack .native { typeInx := .int, name := "x".toList, pointerType := .aPointer, hintDimSize := [2] }
      [some [7, -1]] "abc".toList := by
  refine (numbers_read_back (k := .int) ⟨rfl, by decide, rfl, by decide, by decide, by decide, ?_⟩ .native _).mpr
    ⟨rfl, ?_⟩
  · intro values hmem
    obtain rfl : values = [7, -1] := by simpa using hmem
    exact ⟨rfl, by decide⟩
  · intro values hmem
    obtain rfl : values = [7, -1] := by simpa using hmem
    decide

/-- `int *x[1]`, and three numbers behind it: four are asked for. -/
theorem array_not_read_back :
    ¬ ReadsBack .native { typeInx := .int, name := "x".toList, pointerType := .aPointer, dimSize := [1] }
      [some [7]] (List.replicate 12 '\x00') := by
  intro hback
  have h : NumberPointers .int { typeInx := .int, name := "x".toList, pointerType := .aPointer, dimSize := [1] }
      [some [7]] := by
    refine ⟨rfl, by decide, rfl, by decide, by decide, nofun, ?_⟩
    intro values hmem
    obtain rfl : values = [7] := by simpa using hmem
    exact ⟨rfl, by decide⟩
  exact absurd (hback.sendable h).1 (by decide)

end Pack
