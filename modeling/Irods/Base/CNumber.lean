-- SUMMARY: Numbers in C strings: decimal printing, atol and atoi.
import Mathlib.Data.List.TakeWhile
import Mathlib.Tactic.IntervalCases
import Irods.Base.CInt
import Irods.Base.CString

/-!
# Numbers in C strings

`long` is taken as 64 bits wide. `atol` stops at the largest and the smallest `long`.
-/

/-- The value a `long` holds after an operation with the mathematical result `x`. -/
def int64 (x : Int) : Int := x.bmod (2 ^ 64)

/-- The largest value of a `long`, plus one. -/
def longBound : Nat := 9223372036854775808

theorem int64_eq_self {x : Int} (hlo : -(longBound : Int) ≤ x) (hhi : x < longBound) : int64 x = x := by
  unfold longBound at hlo hhi
  apply Int.bmod_eq_of_le <;> omega

namespace CString

/-- `isspace` of the C locale. -/
def isspace (c : Char) : Bool :=
  c = ' ' || c = '\t' || c = '\n' || c = '\x0b' || c = '\x0c' || c = '\r'

/-- What `%d`, `%i` and `%lld` print. -/
def decimal (x : Int) : Text :=
  if x < 0 then '-' :: Nat.toDigits 10 x.natAbs else Nat.toDigits 10 x.natAbs

/-- The digits a text begins with. -/
def digits (s : Text) : Text := s.takeWhile Char.isDigit

def digitsValue (s : Text) : Nat := Nat.ofDigitChars 10 (digits s) 0

def atol (s : Text) : Int :=
  match s.dropWhile isspace with
  | '-' :: cs => max (-(longBound : Int)) (-(digitsValue cs : Int))
  | '+' :: cs => min (longBound - 1) (digitsValue cs : Int)
  | cs => min (longBound - 1) (digitsValue cs : Int)

/-- The `long` read, as an `int`. -/
def atoi (s : Text) : Int := int32 (atol s)

/-! ## Reading digits -/

/-- A text of at least one digit. -/
structure AllDigits (s : Text) : Prop where
  ne_nil : s ≠ []
  digit : ∀ c ∈ s, c.isDigit

/-- The text does not go on with a digit. -/
def StopsDigits (s : Text) : Prop := ∀ c ∈ s.head?, c.isDigit = false

theorem stopsDigits_nil : StopsDigits [] := nofun

theorem stopsDigits_cons {c : Char} {s : Text} (h : c.isDigit = false) : StopsDigits (c :: s) := by
  intro d hd
  obtain rfl : c = d := by simpa using hd
  exact h

variable {ds s : Text}

theorem takeWhile_digits (hds : ∀ c ∈ ds, c.isDigit) (hs : StopsDigits s) :
    (ds ++ s).takeWhile Char.isDigit = ds := by
  rw [List.takeWhile_append_of_pos hds]
  cases s with
  | nil => simp
  | cons c s => simp [hs c (by simp)]

theorem dropWhile_digits (hds : ∀ c ∈ ds, c.isDigit) (hs : StopsDigits s) :
    (ds ++ s).dropWhile Char.isDigit = s := by
  rw [List.dropWhile_append_of_pos hds]
  cases s with
  | nil => rfl
  | cons c s => simp [hs c (by simp)]

theorem not_isspace_of_isDigit {c : Char} (h : c.isDigit) : isspace c = false := by
  simp only [isspace, Bool.or_eq_false_iff, decide_eq_false_iff_not]
  refine ⟨⟨⟨⟨⟨?_, ?_⟩, ?_⟩, ?_⟩, ?_⟩, ?_⟩ <;> rintro rfl <;> exact absurd h (by decide)

/-- A text that begins with a digit has no blanks to skip. -/
theorem AllDigits.dropWhile_isspace (h : AllDigits ds) : (ds ++ s).dropWhile isspace = ds ++ s := by
  obtain ⟨c, cs, rfl⟩ := List.exists_cons_of_ne_nil h.ne_nil
  simp [not_isspace_of_isDigit (h.digit c (by simp))]

theorem atol_digits (h : AllDigits ds) (hs : StopsDigits s) (hbound : Nat.ofDigitChars 10 ds 0 < longBound) :
    atol (ds ++ s) = Nat.ofDigitChars 10 ds 0 := by
  have hvalue : digitsValue (ds ++ s) = Nat.ofDigitChars 10 ds 0 := by
    rw [digitsValue, digits, takeWhile_digits h.digit hs]
  unfold atol
  rw [h.dropWhile_isspace]
  split
  · rename_i cs heq
    obtain ⟨c, cs', rfl⟩ := List.exists_cons_of_ne_nil h.ne_nil
    obtain ⟨rfl, -⟩ : c = '-' ∧ _ := List.cons_eq_cons.mp heq
    exact absurd (h.digit '-' (by simp)) (by decide)
  · rename_i cs heq
    obtain ⟨c, cs', rfl⟩ := List.exists_cons_of_ne_nil h.ne_nil
    obtain ⟨rfl, -⟩ : c = '+' ∧ _ := List.cons_eq_cons.mp heq
    exact absurd (h.digit '+' (by simp)) (by decide)
  · omega

theorem atol_bounds (s : Text) : -(longBound : Int) ≤ atol s ∧ atol s < longBound := by
  unfold atol longBound
  split <;> omega

/-! ## Printed numbers -/

theorem decimal_natCast (n : Nat) : decimal n = Nat.toDigits 10 n := by
  have hnot : ¬ (n : Int) < 0 := by omega
  rw [decimal, if_neg hnot, Int.natAbs_natCast]

theorem allDigits_decimal (n : Nat) : AllDigits (decimal n) := by
  exact ⟨Nat.toDigits_ne_nil, fun c hc => Nat.isDigit_of_mem_toDigits (by decide) (by decide) hc⟩

theorem ofDigitChars_decimal (n : Nat) : Nat.ofDigitChars 10 (decimal n) 0 = n := by
  exact Nat.ofDigitChars_ten_toDigits

variable {n : Nat} {x : Int}

theorem atol_decimal (hs : StopsDigits s) (hbound : n < longBound) : atol (decimal n ++ s) = n := by
  rw [atol_digits (allDigits_decimal n) hs (by rwa [ofDigitChars_decimal]), ofDigitChars_decimal]

theorem atoi_decimal (hs : StopsDigits s) (hbound : n < intBound) : atoi (decimal n ++ s) = n := by
  have hlong : intBound < longBound := by decide
  rw [atoi, atol_decimal hs (Nat.lt_trans hbound hlong)]
  exact int32_eq_self (by omega) (by omega)

/-- Any printed `long` is read back. -/
theorem atol_decimal_int (hlo : -(longBound : Int) ≤ x) (hhi : x < longBound) : atol (decimal x) = x := by
  by_cases hneg : x < 0
  · have hdecimal : decimal x = '-' :: decimal x.natAbs := by rw [decimal, if_pos hneg, decimal_natCast]
    have hvalue : digitsValue (decimal x.natAbs) = x.natAbs := by
      have htake := takeWhile_digits (allDigits_decimal x.natAbs).digit stopsDigits_nil
      rw [List.append_nil] at htake
      rw [digitsValue, digits, htake, ofDigitChars_decimal]
    have hspace : isspace '-' = false := by decide
    rw [hdecimal, atol, List.dropWhile_cons_of_neg (by simp [hspace])]
    simp only [hvalue]
    omega
  · obtain ⟨n, rfl⟩ := Int.eq_ofNat_of_zero_le (Int.not_lt.mp hneg)
    have h := atol_decimal (n := n) stopsDigits_nil (by omega)
    rwa [List.append_nil] at h

theorem length_decimal_le_iff {k : Nat} (hk : 0 < k) :
    (decimal x).length ≤ k + 1 ↔ -(10 ^ k : Int) < x ∧ x < 10 ^ (k + 1) := by
  have hpow : ((10 ^ k : Nat) : Int) = 10 ^ k := by push_cast; rfl
  have hpow' : ((10 ^ (k + 1) : Nat) : Int) = 10 ^ (k + 1) := by push_cast; rfl
  rw [← hpow, ← hpow', decimal]
  split
  case isTrue hneg =>
    rw [List.length_cons, Nat.add_le_add_iff_right, Nat.length_toDigits_le_iff (by decide) hk]
    omega
  case isFalse hnonneg =>
    rw [Nat.length_toDigits_le_iff (by decide) (Nat.succ_pos k)]
    omega

theorem length_decimal_int (hlo : -(intBound : Int) ≤ x) (hhi : x < intBound) : (decimal x).length ≤ 11 := by
  unfold intBound at hlo hhi
  exact (length_decimal_le_iff (k := 10) (by decide)).mpr ⟨by omega, by omega⟩

theorem atoi_decimal_int (hlo : -(intBound : Int) ≤ x) (hhi : x < intBound) : atoi (decimal x) = x := by
  have hbounds : intBound ≤ longBound := by decide
  rw [atoi, atol_decimal_int (by omega) (by omega)]
  exact int32_eq_self hlo hhi

/-- A printed number does not begin with 0, unless it is 0. -/
theorem head_toDigits (h : 0 < n) : (Nat.toDigits 10 n).head? ≠ some '0' := by
  induction n using Nat.strongRecOn with
  | ind n ih =>
    by_cases hlt : n < 10
    · interval_cases n <;> decide
    · have hdiv : 0 < n / 10 := Nat.div_pos (by omega) (by decide)
      rw [Nat.toDigits_of_base_le (by decide) (by omega), List.head?_append_of_ne_nil _ Nat.toDigits_ne_nil]
      exact ih (n / 10) (by omega) hdiv

theorem ofDigitChars_lt {l : Text} (h : ∀ c ∈ l, c.isDigit) (init : Nat) :
    Nat.ofDigitChars 10 l init < 10 ^ l.length * (init + 1) := by
  induction l generalizing init with
  | nil => simp
  | cons c l ih =>
    have hc : c.toNat - '0'.toNat ≤ 9 := by
      have hdigit := (Char.isDigit_iff_toNat.mp (h c List.mem_cons_self)).2
      have hnine : '9'.toNat = '0'.toNat + 9 := by decide
      omega
    rw [Nat.ofDigitChars_cons]
    refine Nat.lt_of_lt_of_le (ih (fun d hd => h d (List.mem_cons_of_mem c hd)) _) ?_
    rw [List.length_cons, Nat.pow_succ, Nat.mul_assoc]
    exact Nat.mul_le_mul_left _ (by omega)

theorem digitsValue_lt (s : Text) : digitsValue s < 10 ^ s.length := by
  have h := ofDigitChars_lt (l := digits s) (fun c hc => List.mem_takeWhile_imp hc) 0
  refine Nat.lt_of_lt_of_le h ?_
  rw [Nat.mul_one]
  exact Nat.pow_le_pow_right (by decide) (List.takeWhile_sublist _).length_le

/-! ## Texts a pattern does not reach into -/

/-- The first occurrence of a pattern in a text with a part that shares no character with it. -/
theorem strstr_append_off {pat : Text} (hne : pat ≠ []) (ds R : Text) (hds : ds ≠ [])
    (hoff : ∀ c ∈ ds, c ∉ pat) (A : Text) :
    strstr pat (A ++ ds ++ R) =
      (strstr pat A).or ((strstr pat R).map (· + (A.length + ds.length))) := by
  obtain ⟨d, ds, rfl⟩ := List.exists_cons_of_ne_nil hds
  rw [List.append_assoc, List.cons_append, strstr_sep (hoff d (by simp)) hne A]
  have hrest : strstr pat (ds ++ R) = (strstr pat R).map (· + ds.length) := by
    clear hds
    induction ds with
    | nil => simp
    | cons e ds ih =>
      have hsep := strstr_sep (c := e) (R := ds ++ R) (hoff e (by simp)) hne []
      rw [List.nil_append] at hsep
      rw [List.cons_append, hsep, ih fun c hc => hoff c (by
        rcases List.mem_cons.mp hc with rfl | hc
        · simp
        · simp [hc])]
      have hnil : strstr pat [] = none := by simp [strstr, hne]
      rw [hnil, Option.none_or, Option.map_map]
      congr 1
  rw [hrest, Option.map_map]
  congr 2
  funext n
  simp only [Function.comp_apply, List.length_cons]
  omega

end CString
