-- SUMMARY: Delay strings with a count: a rule is repeated as often as it says.
import Irods.Core.RepeatTime

/-!
# Counted repeats

A directive with a count is rewritten with one repeat less and, from the first time on,
with the count it began with. No pattern of the cascade reaches into a number, so the
rewritten string is found again as the same directive.
-/

namespace RepeatTime

open CString
open Option (map_some none_or some_or)

inductive Counted where
  | repeatTimes
  | doubleTimes
  | repeatUntilSuccess
  | doubleUntilSuccess
  deriving DecidableEq

namespace Counted

def dir : Counted → String
  | .repeatTimes => "REPEAT "
  | .doubleTimes => "DOUBLE "
  | .repeatUntilSuccess => "REPEAT UNTIL SUCCESS OR "
  | .doubleUntilSuccess => "DOUBLE UNTIL SUCCESS OR "

def factor : Counted → Nat
  | .repeatTimes | .repeatUntilSuccess => 1
  | .doubleTimes | .doubleUntilSuccess => 2

/-- The status while there are repeats left. -/
def again : Counted → Int
  | .repeatTimes | .doubleTimes => 3
  | .repeatUntilSuccess | .doubleUntilSuccess => 4

end Counted

/-- What follows the count: nothing but the unit, or also the count at the beginning. -/
inductive Rest where
  | times
  | original (m : Nat)

namespace Rest

def text : Rest → Text
  | .times => " TIMES".toList
  | .original m => " TIMES. ORIGINAL TIMES=".toList ++ decimal m

theorem text_original (m : Nat) : (original m).text = " TIMES. ORIGINAL TIMES=".toList ++ decimal m := rfl

/-- What a count of `n` is rewritten with. -/
def next (n : Nat) : Rest → Rest
  | .times => .original n
  | .original m => .original m

end Rest

/-- The delay string of a directive with a count. -/
def Counted.delayStr (d : Counted) (k : Nat) (u : Char) (n : Nat) (r : Rest) : Text :=
  decimal k ++ u :: ' ' :: (d.dir.toList ++ decimal n ++ r.text)

/-! ## Patterns in texts with numbers -/

/-- A pattern that is in none of the fixed parts is not in the directive. -/
theorem strstr_counted {pat A : Text} (hpat : Pattern pat) (hA : strstr pat A = none)
    (htimes : strstr pat " TIMES".toList = none)
    (horiginal : strstr pat " TIMES. ORIGINAL TIMES=".toList = none) (n : Nat) (r : Rest) :
    strstr pat (A ++ decimal n ++ r.text) = none := by
  have hrest : strstr pat r.text = none := by
    cases r with
    | times => exact htimes
    | original m =>
      have hnil : strstr pat [] = none := by simp [strstr, hpat.1]
      have h := strstr_decimal hpat " TIMES. ORIGINAL TIMES=".toList [] m
      rw [List.append_nil, horiginal, hnil] at h
      exact h
  rw [strstr_decimal hpat, hA, hrest]
  rfl

theorem occurs_original (r : Rest) :
    occurs "ORIGINAL TIMES".toList r.text.tail = match r with | .times => false | .original _ => true := by
  cases r with
  | times => decide
  | original m =>
    have hinfix : ∀ A B C D : Text, B <:+: (' ' :: (A ++ B ++ C) ++ D).tail :=
      fun A B C D => ⟨A, C ++ D, by simp⟩
    have h := hinfix "TIMES. ".toList "ORIGINAL TIMES".toList ['='] (decimal m)
    exact occurs_iff.mpr h

namespace Call

variable {c : Call}

/-- The branch of the cascade for a directive with a count. -/
theorem directive_counted (d : Counted) {n : Nat} {r : Rest}
    (ht : c.t = d.dir.toList ++ decimal n ++ r.text) {answer : Answer}
    (hcounted : c.counted d.dir d.factor d.again = some answer) : c.directive = some answer := by
  have habsent : ∀ pat : String, Pattern pat.toList → strstr pat.toList d.dir.toList = none →
      strstr pat.toList " TIMES".toList = none →
      strstr pat.toList " TIMES. ORIGINAL TIMES=".toList = none → strstr pat.toList c.t = none := by
    intro pat hpat hdir htimes horiginal
    rw [ht]
    exact strstr_counted hpat hdir htimes horiginal n r
  cases d with
  | repeatUntilSuccess =>
    have h₁ := habsent "REPEAT UNTIL SUCCESS OR UNTIL " (by decide) (by decide) (by decide) (by decide)
    have h₂ := habsent "DOUBLE UNTIL SUCCESS OR UNTIL " (by decide) (by decide) (by decide) (by decide)
    rw [directive, repeatUntil_eq_none h₁, doubleUntilSuccessOrUntil_eq_none h₂, none_or, none_or,
      show c.counted "REPEAT UNTIL SUCCESS OR " 1 4 = _ from hcounted, some_or]
  | doubleUntilSuccess =>
    have h₁ := habsent "REPEAT UNTIL SUCCESS OR UNTIL " (by decide) (by decide) (by decide) (by decide)
    have h₂ := habsent "DOUBLE UNTIL SUCCESS OR UNTIL " (by decide) (by decide) (by decide) (by decide)
    have h₃ := habsent "REPEAT UNTIL SUCCESS OR " (by decide) (by decide) (by decide) (by decide)
    rw [directive, repeatUntil_eq_none h₁, doubleUntilSuccessOrUntil_eq_none h₂, counted_eq_none h₃, none_or, none_or,
      none_or, show c.counted "DOUBLE UNTIL SUCCESS OR " 2 4 = _ from hcounted, some_or]
  | repeatTimes =>
    have hsuccess : ∀ pat ∈ untilSuccess, Pattern pat.toList ∧ strstr pat.toList "REPEAT ".toList = none ∧
        strstr pat.toList " TIMES".toList = none ∧
        strstr pat.toList " TIMES. ORIGINAL TIMES=".toList = none := by decide
    have h₁ := habsent "REPEAT UNTIL " (by decide) (by decide) (by decide) (by decide)
    have h₂ := habsent "DOUBLE UNTIL " (by decide) (by decide) (by decide) (by decide)
    rw [directive_eq_until fun pat hpat => (hsuccess pat hpat).elim fun hp h => habsent pat hp h.1 h.2.1 h.2.2,
      repeatUntil_eq_none h₁, doubleUntil_eq_none h₂, none_or, none_or,
      show c.counted "REPEAT " 1 3 = _ from hcounted, some_or]
  | doubleTimes =>
    have hsuccess : ∀ pat ∈ untilSuccess, Pattern pat.toList ∧ strstr pat.toList "DOUBLE ".toList = none ∧
        strstr pat.toList " TIMES".toList = none ∧
        strstr pat.toList " TIMES. ORIGINAL TIMES=".toList = none := by decide
    have h₁ := habsent "REPEAT UNTIL " (by decide) (by decide) (by decide) (by decide)
    have h₂ := habsent "DOUBLE UNTIL " (by decide) (by decide) (by decide) (by decide)
    have h₃ := habsent "REPEAT " (by decide) (by decide) (by decide) (by decide)
    rw [directive_eq_until fun pat hpat => (hsuccess pat hpat).elim fun hp h => habsent pat hp h.1 h.2.1 h.2.2,
      repeatUntil_eq_none h₁, doubleUntil_eq_none h₂, counted_eq_none h₃, none_or, none_or, none_or]
    exact hcounted

end Call

/-! ## One evaluation -/

namespace Rest

theorem text_eq_cons (r : Rest) : r.text = ' ' :: r.text.tail := by
  cases r <;> rfl

theorem stopsDigits (r : Rest) : StopsDigits r.text := by
  rw [r.text_eq_cons]
  exact stopsDigits_cons (by decide)

/-- The count at the beginning is an `int`. -/
def Small : Rest → Prop
  | .times => True
  | .original m => m < intBound

end Rest

variable {n : Nat} {r : Rest}

theorem length_decimal_le (hn : n < intBound) : (decimal n).length ≤ 10 := by
  rw [decimal_natCast, Nat.length_toDigits_le_iff (by decide) (by decide)]
  exact Nat.lt_trans hn (by decide)

theorem Rest.length_text_le (hr : r.Small) : r.text.length ≤ 33 := by
  cases r with
  | times => decide
  | original m =>
    have hliteral : " TIMES. ORIGINAL TIMES=".toList.length = 23 := by decide
    have hm := length_decimal_le hr
    rw [text_original, List.length_append]
    omega

theorem Counted.dir_blank (d : Counted) (s : Text) :
    (d.dir.toList ++ s).dropWhile isspace = d.dir.toList ++ s := by
  cases d <;> rfl

theorem Call.counted_eq (d : Counted) (hpos : 0 < n) (hn : n < intBound) (hr : r.Small) {c : Call}
    (hc : c.t = d.dir.toList ++ decimal n ++ r.text) :
    c.counted d.dir d.factor d.again = some (some
      (if n ≤ 1 then 2 else d.again,
        c.interval d.factor ++ d.dir.toList ++ decimal ((n - 1 : Nat) : Int) ++ (r.next n).text,
        decimal c.next)) := by
  have hfollowing : ∃ p, c.following d.dir = some (p, decimal n ++ r.text) := by
    rw [following, hc, List.append_assoc, strstr_prefix, map_some, Nat.zero_add, List.drop_left]
    exact ⟨_, congrArg (fun s => some (_, s)) (allDigits_decimal n).dropWhile_isspace⟩
  obtain ⟨p, hfollowing⟩ := hfollowing
  have hlength : (decimal n ++ r.text).length < tstrSize := by
    have h₁ := length_decimal_le hn
    have h₂ := Rest.length_text_le hr
    rw [List.length_append]
    unfold tstrSize
    omega
  have hatoi : atoi (decimal n) = n := by
    have h := atoi_decimal (n := n) stopsDigits_nil hn
    rwa [List.append_nil] at h
  have hpred : int32 ((n : Int) - 1) = ((n - 1 : Nat) : Int) := by
    rw [int32_eq_self (by unfold intBound at *; omega) (by omega)]
    omega
  have hsucc : int32 (((n - 1 : Nat) : Int) + 1) = n := by
    rw [int32_eq_self (by unfold intBound at *; omega) (by omega)]
    omega
  have hstatus : (((n - 1 : Nat) : Int) ≤ 0) ↔ n ≤ 1 := by omega
  rw [counted, hfollowing, map_some]
  simp only [digits, takeWhile_digits (allDigits_decimal n).digit r.stopsDigits,
    dropWhile_digits (allDigits_decimal n).digit r.stopsDigits]
  have htail := r.text_eq_cons
  have horiginal := occurs_original r
  have hnext : ∀ A : Text, (if occurs "ORIGINAL TIMES".toList r.text.tail then A ++ [' '] ++ r.text.tail
      else A ++ " TIMES. ORIGINAL TIMES=".toList ++ decimal n) = A ++ (r.next n).text := by
    intro A
    cases r with
    | times =>
      rw [horiginal, if_neg Bool.false_ne_true, Rest.next, Rest.text_original, List.append_assoc]
    | original m =>
      rw [horiginal, if_pos rfl, Rest.next, List.append_assoc]
      exact congrArg (A ++ ·) htail.symm
  rw [htail] at hlength ⊢
  simp only [if_pos hlength, hatoi, hpred, hsucc, hstatus]
  rw [hnext]

/-- One evaluation of a delay string with a count. -/
theorem getNextRepeatTime_counted (d : Counted) (e : Eval) {k : Nat} {u : Char} {w : Int}
    (hu : unitSeconds u = some w) (hpos : 0 < n) (hn : n < intBound) (hr : r.Small) (hk : k * w < longBound)
    (hsum : k * w + atol e.currTime < longBound) (nextTime : Text) :
    getNextRepeatTime e.mktime e.currTime (d.delayStr k u n r) nextTime =
      some (if n ≤ 1 then 2 else d.again,
        decimal (int64 (k * d.factor)) ++ u :: ' ' ::
          (d.dir.toList ++ decimal ((n - 1 : Nat) : Int) ++ (r.next n).text),
        decimal (k * w + atol e.currTime)) := by
  have hw := one_le_of_unitSeconds hu
  have hklong : k < longBound := by
    have hle : (k : Int) * 1 ≤ k * w := Int.mul_le_mul_of_nonneg_left hw (by omega)
    omega
  have hnonneg : 0 ≤ (k : Int) * w := Int.mul_nonneg (by omega) (by omega)
  have hatol : atol (decimal k) = k := by
    have h := atol_decimal (n := k) stopsDigits_nil hklong
    rwa [List.append_nil] at h
  have hnext : (callOn e (decimal k) u [' '] (d.dir.toList ++ decimal n ++ r.text)).next =
      k * w + atol e.currTime := by
    have hlo := (atol_bounds e.currTime).1
    rw [Call.next, Call.dt_callOn e _ _ hatol hu hk]
    show int64 (k * w + atol e.currTime) = k * w + atol e.currTime
    exact int64_eq_self (by omega) hsum
  have hdigit : ∀ ever : String, (∀ c ∈ ever.toList, c.isDigit = false) →
      d.dir.toList ++ decimal n ++ r.text ≠ ever.toList := by
    intro ever hever heq
    obtain ⟨c, hc⟩ := List.exists_mem_of_ne_nil _ (allDigits_decimal n).ne_nil
    have hin : c ∈ ever.toList := by
      rw [← heq]
      simp [hc]
    have := hever c hin
    rw [(allDigits_decimal n).digit c hc] at this
    cases this
  have hne : d.dir.toList ++ decimal n ++ r.text ≠ [] := by
    rw [r.text_eq_cons]
    simp
  have hcounted := Call.counted_eq d hpos hn hr
    (c := callOn e (decimal k) u [' '] (d.dir.toList ++ decimal n ++ r.text)) rfl
  have hrun := getNextRepeatTime_callOn e (allDigits_decimal k) (not_isDigit_of_unitSeconds hu) (by decide)
    (by rw [List.append_assoc]; exact d.dir_blank _) ⟨hne, hdigit _ (by decide), hdigit _ (by decide)⟩
    (Call.directive_counted d rfl hcounted) nextTime
  refine hrun.trans ?_
  rw [hnext]
  simp [Call.interval, callOn, hatol]

/-! ## All evaluations -/

/-- The intervals and the times they lead to fit in 64 bits. -/
def Fits (k f : Nat) (w : Int) (es : List Eval) : Prop :=
  ∀ j e, es[j]? = some e → k * f ^ j * w < longBound ∧ k * f ^ j * w + atol e.currTime < longBound

theorem natCast_mul_pow (k f j : Nat) : ((k * f : Nat) : Int) * f ^ j = k * f ^ (j + 1) := by
  rw [Int.natCast_mul, Int.mul_assoc, Int.pow_succ, Int.mul_comm (f : Int)]

variable {w : Int}

theorem Fits.tail {k f : Nat} {e : Eval} {es : List Eval} (h : Fits k f w (e :: es)) : Fits (k * f) f w es := by
  intro j e' hj
  rw [natCast_mul_pow]
  exact h (j + 1) e' hj

theorem calls_counted (d : Counted) {u : Char} (hu : unitSeconds u = some w) :
    ∀ {es : List Eval} {k : Nat} {r : Rest}, es.length < intBound → r.Small → Fits k d.factor w es →
      calls (d.delayStr k u es.length r) es = some (es.mapIdx fun j e =>
        (if j + 1 < es.length then d.again else 2, decimal (k * d.factor ^ j * w + atol e.currTime))) := by
  intro es
  induction es with
  | nil => exact fun _ _ _ => rfl
  | cons e es ih =>
    intro k r hn hr hfits
    obtain ⟨hk, hsum⟩ := hfits 0 e rfl
    rw [Int.pow_zero, Int.mul_one] at hk hsum
    rw [calls, getNextRepeatTime_counted d e hu (by simp) hn hr hk hsum [], Option.bind_some, List.mapIdx_cons]
    cases es with
    | nil => simp [calls]
    | cons e' es =>
      have htail := hfits.tail
      obtain ⟨hk', -⟩ := htail 0 e' rfl
      have hsmall : (r.next (e :: e' :: es).length).Small := by
        cases r with
        | times => exact hn
        | original m => exact hr
      have hrest := ih (r := r.next (e :: e' :: es).length) (Nat.lt_of_succ_lt hn) hsmall htail
      have hint : int64 (k * d.factor) = ((k * d.factor : Nat) : Int) := by
        have hw := one_le_of_unitSeconds hu
        have hle : ((k * d.factor : Nat) : Int) * 1 ≤ (k * d.factor : Nat) * w :=
          Int.mul_le_mul_of_nonneg_left hw (by omega)
        rw [Int.pow_zero, Int.mul_one] at hk'
        exact int64_eq_self (by omega) (by omega)
      have hcount : (e :: e' :: es).length - 1 = (e' :: es).length := rfl
      rw [hint, hcount]
      rw [Counted.delayStr] at hrest
      simp only [hrest, map_some]
      have hstatus : (if (e :: e' :: es).length ≤ 1 then 2 else d.again) =
          if 0 + 1 < (e :: e' :: es).length then d.again else 2 := by simp
      have hrepeats : ∀ j, (j + 1 < (e' :: es).length) = (j + 1 + 1 < (e :: e' :: es).length) := by simp
      simp only [hstatus, hrepeats, natCast_mul_pow, Int.pow_zero, Int.mul_one]

/-- A rule is repeated as often as its delay string says: `n - 1` times again and then no
more, each interval, with `DOUBLE` twice the one before, counted from the time of the call. -/
theorem repeats_counted (d : Counted) {k n : Nat} {u : Char} {w : Int} {es : List Eval}
    (hu : unitSeconds u = some w) (hlength : es.length = n) (hn : n < intBound)
    (hfits : Fits k d.factor w es) :
    calls (decimal k ++ u :: ' ' :: (d.dir.toList ++ decimal n ++ " TIMES".toList)) es =
      some (es.mapIdx fun j e =>
        (if j + 1 < n then d.again else 2, decimal (k * d.factor ^ j * w + atol e.currTime))) := by
  subst hlength
  exact calls_counted (r := .times) d hu hn trivial hfits

/-- Evaluations at these times; no time format is read. -/
def evalsAt (ts : List String) : List Eval := ts.map fun t => ⟨fun _ => 0, t.toList⟩

theorem repeats_counted_thrice :
    calls "2h DOUBLE UNTIL SUCCESS OR 3 TIMES".toList (evalsAt ["1000", "8200", "30000"]) =
      some [(4, "8200".toList), (4, "22600".toList), (2, "58800".toList)] :=
  repeats_counted (n := 3) (k := 2) .doubleUntilSuccess (u := 'h') rfl rfl (by decide) (by
    intro j e hj
    match j, hj with
    | 0, rfl => decide
    | 1, rfl => decide
    | 2, rfl => decide)

/-- The interval fits, the time it leads to does not. -/
theorem next_time_wraps :
    (9223372036854775807 : Int) * 1 < longBound ∧
      calls "9223372036854775807s REPEAT 1 TIMES".toList (evalsAt ["1"]) =
        some [(2, "-9223372036854775808".toList)] ∧
      "-9223372036854775808".toList ≠ decimal (9223372036854775807 * 1 + atol "1".toList) := by
  decide +kernel

end RepeatTime
