-- SUMMARY: Numbers on the wire: big-endian bytes and decimal text.
import Mathlib.Tactic.Linarith
import Mathlib.Tactic.Ring
import Irods.Base.Emits
import Irods.Pack.XmlText

/-!
# Numbers on the wire

A number of `size` bytes is sent as its bytes, the most significant first, or in decimal
between the tags of its item. The decimal is printed into a buffer of fixed size, and is cut
where it does not fit.
-/

namespace Pack

open CString EStateM
open List (append_assoc append_nil flatMap_cons length_cons mem_cons_self)

/-! ## Bytes -/

/-- A number that the C type of this size holds. -/
def InRange (size : Nat) (x : Int) : Prop := -(256 ^ size : Int) ≤ 2 * x ∧ 2 * x < 256 ^ size

instance (size : Nat) (x : Int) : Decidable (InRange size x) := inferInstanceAs (Decidable (_ ∧ _))

theorem emod_digit (x : Int) {m : Int} (hm : 0 < m) : (x / m) % 256 * m + x % m = x % (m * 256) := by
  have hx : x = x % m + m * (x / m) := (Int.emod_add_mul_ediv x m).symm
  have hq : x / m = (x / m) % 256 + 256 * (x / m / 256) := (Int.emod_add_mul_ediv (x / m) 256).symm
  have hr₀ := Int.emod_nonneg x (Int.ne_of_gt hm)
  have hr := Int.emod_lt_of_pos x hm
  have hd₀ := Int.emod_nonneg (x / m) (by decide : (256 : Int) ≠ 0)
  have hd := Int.emod_lt_of_pos (x / m) (by decide : (0 : Int) < 256)
  generalize x % m = r at *
  generalize (x / m) % 256 = d at *
  generalize x / m / 256 = k at *
  have hsplit : x = (d * m + r) + m * 256 * k := by
    rw [hx, hq]
    ring
  rw [hsplit, Int.add_mul_emod_self_left, Int.emod_eq_of_lt]
  · exact Int.add_nonneg (Int.mul_nonneg hd₀ hm.le) hr₀
  · nlinarith

theorem toNat_byte {n : Nat} (h : n < 256) : (Char.ofNat n).toNat = n := by
  have hvalid : n.isValidChar := .inl (by omega)
  rw [Char.ofNat, dif_pos hvalid]
  rfl

theorem foldl_bigEndian (x : Int) (size n : Nat) :
    (bigEndian x size).foldl (fun n c => n * 256 + c.toNat) n = n * 256 ^ size + (x % 256 ^ size).toNat := by
  induction size generalizing n with
  | zero => simp [bigEndian]
  | succ size ih =>
    have hm : (0 : Int) < 256 ^ size := Int.pow_pos (by decide)
    have hd₀ := Int.emod_nonneg (x / 256 ^ size) (by decide : (256 : Int) ≠ 0)
    have hchar : (Char.ofNat (x / 256 ^ size % 256).toNat).toNat = (x / 256 ^ size % 256).toNat :=
      toNat_byte (by omega)
    have hsplit : (x % 256 ^ (size + 1)).toNat =
        (x / 256 ^ size % 256).toNat * 256 ^ size + (x % 256 ^ size).toNat := by
      rw [Int.pow_succ, ← emod_digit x hm, Int.toNat_add (Int.mul_nonneg hd₀ hm.le) (Int.emod_nonneg x hm.ne'),
        Int.toNat_mul hd₀ hm.le]
      rfl
    rw [bigEndian, List.foldl_cons, ih, hchar, hsplit]
    ring

variable {size : Nat}

/-- A number in range is read back from its bytes. -/
theorem fromBigEndian_bigEndian {x : Int} (h : InRange size x) : fromBigEndian (bigEndian x size) = x := by
  have hpow : ((256 ^ size : Nat) : Int) = 256 ^ size := by push_cast; rfl
  have hm : (256 ^ size : Int) ≠ 0 := (Int.pow_pos (by decide)).ne'
  unfold fromBigEndian
  simp only [foldl_bigEndian, bigEndian_length, Nat.zero_mul, Nat.zero_add]
  rw [Int.toNat_of_nonneg (Int.emod_nonneg x hm), ← hpow, Int.emod_bmod]
  have hle := h.1
  have hlt := h.2
  exact Int.bmod_eq_of_le_mul_two (by omega) (by omega)

theorem nativeNumbers_bigEndian {values : List Int} (h : ∀ x ∈ values, InRange size x) (R : Text) :
    nativeNumbers size values.length (values.flatMap (bigEndian · size) ++ R) = values := by
  induction values with
  | nil => rfl
  | cons x values ih =>
    have htake : (bigEndian x size ++ (values.flatMap (bigEndian · size) ++ R)).take size = bigEndian x size :=
      List.take_left' (bigEndian_length x size)
    have hdrop : (bigEndian x size ++ (values.flatMap (bigEndian · size) ++ R)).drop size =
        values.flatMap (bigEndian · size) ++ R :=
      List.drop_left' (bigEndian_length x size)
    rw [flatMap_cons, append_assoc, length_cons, nativeNumbers, htake, hdrop,
      fromBigEndian_bigEndian (h x mem_cons_self), ih fun y hy => h y (List.mem_cons_of_mem x hy)]

/-! ## Decimals -/

/-- What `snprintf` prints into `extLen` bytes. -/
def printed (extLen : Nat) (x : Int) : Text := (decimal x).take (extLen - 1)

/-- A decimal has digits, and perhaps a sign. -/
theorem not_mem_decimal {c : Char} (hdigit : c.isDigit = false) (hsign : c ≠ '-') (x : Int) : c ∉ decimal x := by
  have hdigits : c ∉ Nat.toDigits 10 x.natAbs := fun hmem =>
    absurd (Nat.isDigit_of_mem_toDigits (by decide) (by decide) hmem) (by simp [hdigit])
  unfold decimal
  split
  · exact List.not_mem_cons_of_ne_of_not_mem hsign hdigits
  · exact hdigits

theorem noTag_decimal (x : Int) : NoTag (decimal x) := not_mem_decimal (by decide) (by decide) x

theorem noTag_printed (extLen : Nat) (x : Int) : NoTag (printed extLen x) :=
  fun hmem => noTag_decimal x (List.mem_of_mem_take hmem)

variable {x : Int}

theorem printed_decimal {k : Nat} (hk : 0 < k) (hlo : -(10 ^ k : Int) < x) (hhi : x < 10 ^ (k + 1)) :
    printed (k + 2) x = decimal x :=
  List.take_of_length_le ((length_decimal_le_iff hk).mpr ⟨hlo, hhi⟩)

theorem unsignedValue_of_head {s : Text} (h : s.head? ≠ some '0') : unsignedValue s = digitsValue s := by
  unfold unsignedValue
  split
  · exact absurd rfl h
  · rfl

theorem digitsValue_toDigits (n : Nat) : digitsValue (Nat.toDigits 10 n) = n := by
  have hdigits := takeWhile_digits (allDigits_decimal n).digit stopsDigits_nil
  rw [append_nil, decimal_natCast] at hdigits
  rw [digitsValue, digits, hdigits, ← decimal_natCast, ofDigitChars_decimal]

theorem unsignedValue_toDigits (n : Nat) : unsignedValue (Nat.toDigits 10 n) = n := by
  cases n with
  | zero => rfl
  | succ n => rw [unsignedValue_of_head (head_toDigits (Nat.succ_pos n)), digitsValue_toDigits]

/-- Any printed `long long` is read back. -/
theorem strtoll_decimal (hlo : -(longBound : Int) ≤ x) (hhi : x < longBound) : strtoll (decimal x) = x := by
  have hspace : isspace '-' = false := by decide
  by_cases hneg : x < 0
  · rw [decimal, if_pos hneg, strtoll, List.dropWhile_cons_of_neg (by simp [hspace])]
    simp only [unsignedValue_toDigits]
    omega
  · have hdecimal : decimal x = decimal x.natAbs := by
      rw [decimal, if_neg hneg, decimal_natCast]
    have hdigits := allDigits_decimal x.natAbs
    have hdrop := hdigits.dropWhile_isspace (s := [])
    rw [append_nil] at hdrop
    rw [hdecimal, strtoll, hdrop]
    split
    · rename_i cs heq
      exact absurd (hdigits.digit '-' (heq ▸ mem_cons_self)) (by decide)
    · rename_i cs heq
      exact absurd (hdigits.digit '+' (heq ▸ mem_cons_self)) (by decide)
    · rw [decimal_natCast, unsignedValue_toDigits]
      omega

/-- A number that was cut is not read back. -/
theorem strtoll_cut (h : x ≤ -(10 ^ 18 : Int)) : strtoll (printed 20 x) ≠ x := by
  have hneg : x < 0 := by omega
  have hspace : isspace '-' = false := by decide
  have hcut : printed 20 x = '-' :: (Nat.toDigits 10 x.natAbs).take 18 := by
    rw [printed, decimal, if_pos hneg]
    rfl
  have hhead : ((Nat.toDigits 10 x.natAbs).take 18).head? ≠ some '0' := by
    rw [List.head?_take]
    exact head_toDigits (by omega)
  have hlt := digitsValue_lt ((Nat.toDigits 10 x.natAbs).take 18)
  have hlen : 10 ^ ((Nat.toDigits 10 x.natAbs).take 18).length ≤ 10 ^ 18 :=
    Nat.pow_le_pow_right (by decide) (List.length_take_le _ _)
  rw [hcut, strtoll, List.dropWhile_cons_of_neg (by simp [hspace])]
  simp only [unsignedValue_of_head hhead]
  omega

/-! ## Numbers in XML -/

/-- A number between its tags. -/
def xmlNumber (name : Text) (extLen : Nat) (x : Int) : Text :=
  startTag name false ++ (printed extLen x ++ endTag name)

theorem store_emits {α : Type} (op : Op) (extLen boundary count : Nat) :
    Emits (PackedOutput.buf (α := α)) (store op extLen boundary count) ⟨⟩ [] := by
  refine .modify fun out => ?_
  unfold extendPackedOutput
  dsimp only
  split
  · exact (append_nil _).symm
  · split <;> exact (append_nil _).symm

theorem append_emits (extLen count : Nat) (text : Text) :
    Emits PackedOutput.buf (append extLen count text) ⟨⟩ text :=
  .bind_silent (store_emits _ _ _ _) (.modify fun _ => rfl)

variable (item : PackItem) (extLen : Nat) (values : List Int)

theorem packXmlNumbers_emits :
    Emits PackedOutput.buf (packXmlNumbers item extLen values) ⟨⟩ (values.flatMap (xmlNumber item.name extLen)) := by
  induction values with
  | nil => exact .pure _
  | cons x values ih =>
    have hnumber : Emits PackedOutput.buf (packXmlNumbers item extLen (x :: values)) ⟨⟩
        (startTag item.name false ++ (printed extLen x ++ (endTag item.name ++
          values.flatMap (xmlNumber item.name extLen)))) :=
      .bind (append_emits _ _ _) (.bind (append_emits _ _ _) (.bind (append_emits _ _ _) ih))
    refine hnumber.congr ?_
    rw [flatMap_cons, xmlNumber]
    simp only [append_assoc]

theorem xmlNumbers_xmlNumber {name : Text} {extLen : Nat} {read : Text → Int} (hname : TagFits name)
    (hlen : extLen ≤ NAME_LEN) (values : List Int) (R : Text) :
    xmlNumbers read name values.length (values.flatMap (xmlNumber name extLen) ++ R) =
      (values.map fun x => read (printed extLen x), none, R) := by
  induction values with
  | nil => rfl
  | cons x values ih =>
    have hparse := parseXmlValue_value hname NoTag.nil (noTag_printed extLen x)
      (values.flatMap (xmlNumber name extLen) ++ R)
    have hfits : ¬ (printed extLen x).length ≥ NAME_LEN := by
      have htake : (printed extLen x).length ≤ extLen - 1 := List.length_take_le _ _
      have hpos : 0 < NAME_LEN := by decide
      omega
    rw [List.nil_append] at hparse
    rw [length_cons, xmlNumbers, flatMap_cons, xmlNumber]
    simp only [append_assoc, hparse, if_neg hfits, List.take_left, List.map_cons]
    rw [← List.drop_drop, List.drop_left, List.drop_left, ih]

/-! ## Doubles in XML -/

theorem strtoll_printed (h : InRange 8 x) : strtoll (printed 20 x) = x ↔ -(10 ^ 18 : Int) < x := by
  have hhi := h.2
  constructor
  · intro hread
    by_contra hcut
    exact strtoll_cut (by omega) hread
  · intro hfits
    rw [printed_decimal (k := 18) (by decide) hfits (by omega)]
    exact strtoll_decimal (by unfold longBound; omega) (by unfold longBound; omega)

/-- The doubles of a field between their tags; the pointer is moved on behind them. -/
theorem packDouble_xml_emits (more : List Cell) :
    ∃ first, Emits PackedOutput.buf (packDouble .xml item values.length (.cells (.ints values :: more)))
      (first, .cells more) (values.flatMap (xmlNumber item.name 20)) := by
  have hints : InPtr.ints values.length (.cells (.ints values :: more)) = .ok (some values, .cells more) := if_pos rfl
  refine ⟨max 0 (values.headD 0), ?_⟩
  unfold packDouble packNumbers
  rw [hints]
  exact .bind_silent (.pure _) (.bind_last (packXmlNumbers_emits item 20 values) (.pure _))

variable {item : PackItem}

/-- The reader takes as many doubles as it is asked for, each from a tag pair of its own. -/
theorem unpackDoubleToOutPtr_xml (hname : TagFits item.name) (taken : List Int) (R : Text) :
    ∃ status, unpackDoubleToOutPtr .xml item taken.length (taken.flatMap (xmlNumber item.name 20) ++ R) =
      .ok ⟨status, .ints (taken.map fun x => strtoll (printed 20 x)), .put, 8 * taken.length, R⟩ := by
  have hread := @xmlNumbers_xmlNumber item.name 20 strtoll hname (by decide) taken R
  refine ⟨(taken.map fun x => strtoll (printed 20 x)).headD 0, ?_⟩
  simp only [unpackDoubleToOutPtr, unpackNumbersToOutPtr, hread]

/-- However many of the packed doubles are read, they are those that were packed, and what is
left is the text of the others. -/
def DoublesSurvive (item : PackItem) (values : List Int) : Prop :=
  ∀ (taken left : List Int) (more : List Cell) (R : Text), values = taken ++ left → ∃ text behind,
    (∃ first, Emits PackedOutput.buf (packDouble .xml item values.length (.cells (.ints values :: more)))
      (first, .cells more) text) ∧
    (∃ first, Emits PackedOutput.buf (packDouble .xml item left.length (.cells (.ints left :: more)))
      (first, .cells more) behind) ∧
    ∃ status, unpackDoubleToOutPtr .xml item taken.length (text ++ R) =
      .ok ⟨status, .ints taken, .put, 8 * taken.length, behind ++ R⟩

theorem DoublesSurvive.read_printed {values : List Int} (h : DoublesSurvive item values) (hname : TagFits item.name) :
    ∀ x ∈ values, strtoll (printed 20 x) = x := by
  obtain ⟨text, behind, ⟨_, htext⟩, -, status, hread⟩ := h values [] [] [] (append_nil _).symm
  obtain ⟨_, hpack⟩ := packDouble_xml_emits item values []
  obtain rfl := (hpack.unique htext (initPackedOutput 0)).2
  obtain ⟨status', hread'⟩ := unpackDoubleToOutPtr_xml hname values []
  rw [hread'] at hread
  have hback : values.map (fun x => strtoll (printed 20 x)) = values.map id := by
    injection hread with hread
    injection hread with _ hcell
    injection hcell with hcell
    rw [hcell, List.map_id]
  exact fun x hx => List.map_inj_left.mp hback x hx

/-- Twenty bytes do not hold a sign, nineteen digits and the terminator. -/
theorem doubles_survive_iff {item : PackItem} {values : List Int} (hname : item.name.length < maxPiLen)
    (hvalues : ∀ x ∈ values, InRange 8 x) :
    DoublesSurvive item values ↔ ∀ x ∈ values, -(10 ^ 18 : Int) < x := by
  have hfits : TagFits item.name := by
    unfold maxPiLen at hname
    unfold TagFits MAX_NAME_LEN MAX_PATH_ALLOWED
    omega
  constructor
  · intro hsurvive x hx
    exact (strtoll_printed (hvalues x hx)).mp (hsurvive.read_printed hfits x hx)
  · intro hlow taken left more R hsplit
    have hback : taken.map (fun x => strtoll (printed 20 x)) = taken := by
      refine (List.map_congr_left (g := id) fun x hx => ?_).trans (List.map_id taken)
      have hmem : x ∈ values := hsplit ▸ List.mem_append_left left hx
      exact (strtoll_printed (hvalues x hmem)).mpr (hlow x hmem)
    obtain ⟨status, hread⟩ := unpackDoubleToOutPtr_xml hfits taken (left.flatMap (xmlNumber item.name 20) ++ R)
    refine ⟨_, _, packDouble_xml_emits item values more, packDouble_xml_emits item left more, status, ?_⟩
    rw [hsplit, List.flatMap_append, append_assoc, hread, hback]

theorem doubles_survive_iff_pair : DoublesSurvive { typeInx := .double, name := "size".toList } [2 ^ 63 - 1, -5] :=
  (doubles_survive_iff (by decide) (by decide)).mpr (by decide)

/-- The last digit of the largest number that is cut is lost. -/
theorem double_cut : ¬ DoublesSurvive { typeInx := .double, name := "size".toList } [-(10 ^ 18)] := fun hsurvive =>
  strtoll_cut (le_refl _) (hsurvive.read_printed (by unfold TagFits; decide) _ mem_cons_self)

end Pack
