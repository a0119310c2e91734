-- SUMMARY: Delay strings with a deadline, and when it stays the same.
import Irods.Base.Machine
import Irods.Core.RepeatTime

/-!
# Deadlines

A deadline is read again from the delay string at every evaluation. A relative time is then
counted from a later time, except after `DOUBLE UNTIL`, which writes the absolute time back.
Two directives print the rewritten string over the text they copy the deadline from.
-/

namespace RepeatTime

open CString
open Nat (ofDigitChars)
open List (all_cons all_nil append_nil length_append)
open Option (bind_some isSome_iff_exists map_some none_or some_or)

/-- A directive with a deadline. -/
inductive Until where
  | repeatUntil
  | doubleUntil
  | repeatUntilSuccessOrUntil
  | doubleUntilSuccessOrUntil
  | doubleUntilSuccessUpto
  deriving DecidableEq

def Until.dir : Until → String
  | .repeatUntil => "REPEAT UNTIL "
  | .doubleUntil => "DOUBLE UNTIL "
  | .repeatUntilSuccessOrUntil => "REPEAT UNTIL SUCCESS OR UNTIL "
  | .doubleUntilSuccessOrUntil => "DOUBLE UNTIL SUCCESS OR UNTIL "
  | .doubleUntilSuccessUpto => "DOUBLE UNTIL SUCCESS UPTO "

/-- The time that a deadline stands for at an evaluation, with numbers that fit the types
they are computed in. -/
inductive Denotes (e : Eval) : Text → Int → Prop where
  | absolute (ds : Text) (hds : AllDigits ds) (hlong : ofDigitChars 10 ds 0 < longBound) :
    Denotes e ds (ofDigitChars 10 ds 0)
  | relative (ds : Text) (u : Char) (w : Int) (hds : AllDigits ds) (hu : unitSeconds u = some w)
    (hint : ofDigitChars 10 ds 0 * w < intBound)
    (hlong : ofDigitChars 10 ds 0 * w + atol e.currTime < longBound) :
    Denotes e (ds ++ [u]) (ofDigitChars 10 ds 0 * w + atol e.currTime)
  | calendar (s : Text) (hfour : 4 ≤ s.length) (hlength : s.length ≤ 19) (hnot : isInteger s = false)
    (hfull : isFullDate (s ++ fullDate.drop s.length))
    (hint : -(intBound : Int) ≤ e.mktime (fields (s ++ fullDate.drop s.length)) ∧
      e.mktime (fields (s ++ fullDate.drop s.length)) < intBound) :
    Denotes e s (e.mktime (fields (s ++ fullDate.drop s.length)))

/-- A delay string, taken apart. -/
structure Delay where
  interval : Text
  unit : Char
  blanks : Text
  deadline : Text
  deriving DecidableEq

namespace Delay

def text (D : Until) (x : Delay) : Text :=
  x.interval ++ x.unit :: (x.blanks ++ (D.dir.toList ++ x.deadline))

def value (x : Delay) : Nat := ofDigitChars 10 x.interval 0

end Delay

/-- The characters of times, none of which is in a directive. -/
def isTimeChar (c : Char) : Bool := c.isDigit || ['s', 'm', 'h', 'd', 'y', '-', '.', ':'].contains c

structure Delay.WellFormed (x : Delay) : Prop where
  interval : AllDigits x.interval
  unit : (unitSeconds x.unit).isSome
  blanks : ∀ c ∈ x.blanks, isspace c
  deadline : x.deadline ≠ [] ∧ ∀ c ∈ x.deadline, isTimeChar c

/-- The interval doubled and the next time fit in 64 bits. -/
structure Delay.Fits (x : Delay) (e : Eval) : Prop where
  double : x.value * 2 < longBound
  seconds : ∀ w, unitSeconds x.unit = some w →
    x.value * w < longBound ∧ x.value * w + atol e.currTime < longBound

/-- The string that is printed over the deadline it copies does not reach into it; where it
is printed twice, it does not stop short of it either. -/
def Delay.PrintsOver (x : Delay) : Until → Prop
  | .doubleUntilSuccessOrUntil =>
    (decimal ((x.value * 2 : Nat) : Int)).length + 1 ≤ x.interval.length + x.blanks.length
  | .doubleUntilSuccessUpto =>
    (decimal ((x.value * 2 : Nat) : Int)).length + 1 = x.interval.length + x.blanks.length
  | _ => True

/-- The deadline in the string stands for `T` at this evaluation. -/
def KeepsDeadline (D : Until) (T : Int) (delayStr : Text) (e : Eval) : Prop :=
  ∀ x : Delay, x.WellFormed → delayStr = x.text D →
    Denotes e x.deadline T ∧ x.deadline.length < 199 ∧ x.Fits e ∧ x.PrintsOver D

/-- One evaluation, with its status and next time. -/
def evaluations : Machine Text Eval (Int × Text) where
  step delayStr e :=
    (getNextRepeatTime e.mktime e.currTime delayStr []).map fun (status, delayStr, nextTime) =>
      (delayStr, (status, nextTime))

/-- What an evaluation gives when the deadline is `T`: no repeat after it, or with `UPTO` no
interval doubled once it has passed, and the same directive with the same deadline. -/
structure Honours (D : Until) (T : Int) (d : Text) (x : Delay) (e : Eval) (status : Int) (delayStr : Text)
    (nextTime : Int) : Prop where
  again : D ≠ .doubleUntilSuccessUpto → status ≠ 2 → nextTime ≤ T
  upto : D = .doubleUntilSuccessUpto → T ≤ atol e.currTime →
    ∃ x' : Delay, delayStr = x'.text D ∧ x'.value = x.value
  same : ∃ x' : Delay, delayStr = x'.text D ∧ x'.WellFormed ∧ x'.unit = x.unit ∧
    (x'.deadline = d ∨ x'.deadline = decimal T)

/-! ## Reading a deadline -/

variable {ds s : Text}

theorem isInteger_of_allDigits (h : AllDigits ds) : isInteger ds = true :=
  List.all_eq_true.mpr h.digit

variable {c : Call}

theorem Denotes.absolute_deadline (hds : AllDigits ds) (hlength : ds.length < 199) : c.deadline ds = some ds := by
  have hinteger := isInteger_of_allDigits hds
  have hsize : ds.length < tstrSize := Nat.lt_trans hlength (by decide)
  rw [Call.deadline, if_pos hsize, convertDateFormat, if_pos hlength, checkDateFormat, if_pos hinteger]
  simp [hinteger]

variable {u : Char} {w : Int}

theorem not_contains_relative {c : Char} (hds : AllDigits ds) (hu : unitSeconds u = some w) (hc : c.isDigit = false)
    (hunit : unitSeconds c = none) : (ds ++ [u]).contains c = false := by
  rw [Bool.eq_false_iff, ne_eq, List.contains_iff_mem, List.mem_append, List.mem_singleton]
  rintro (hmem | rfl)
  · rw [hds.digit c hmem] at hc
    cases hc
  · rw [hu] at hunit
    cases hunit

theorem Denotes.relative_deadline (hds : AllDigits ds) (hu : unitSeconds u = some w)
    (hint : ofDigitChars 10 ds 0 * w < intBound)
    (hlong : ofDigitChars 10 ds 0 * w + atol c.currTime < longBound) (hlength : (ds ++ [u]).length < 199) :
    c.deadline (ds ++ [u]) = some (decimal (ofDigitChars 10 ds 0 * w + atol c.currTime)) := by
  have hsize : (ds ++ [u]).length < tstrSize := Nat.lt_trans hlength (by decide)
  have hinteger : isInteger (ds ++ [u]) = false := by
    rw [isInteger, List.all_append, all_cons, not_isDigit_of_unitSeconds hu]
    simp
  have hnone : ∀ c, c.isDigit = false → unitSeconds c = none → (ds ++ [u]).contains c = false :=
    fun c hc hunit => not_contains_relative hds hu hc hunit
  have hv : 0 ≤ (ofDigitChars 10 ds 0 : Int) * w ∧ (ofDigitChars 10 ds 0 : Int) ≤ ofDigitChars 10 ds 0 * w := by
    have hw := one_le_of_unitSeconds hu
    have hle : (ofDigitChars 10 ds 0 : Int) * 1 ≤ ofDigitChars 10 ds 0 * w :=
      Int.mul_le_mul_of_nonneg_left hw (by omega)
    exact ⟨Int.mul_nonneg (by omega) (by omega), by omega⟩
  have hbound : (intBound : Int) < longBound := by decide
  have hatoi : atoi ds = ofDigitChars 10 ds 0 := by
    have h := atol_digits (s := []) hds stopsDigits_nil (by omega)
    rw [append_nil] at h
    rw [atoi, h]
    exact int32_eq_self (by omega) (by omega)
  have hatol : atol (decimal (ofDigitChars 10 ds 0 * w)) = ofDigitChars 10 ds 0 * w :=
    atol_decimal_int (by omega) (by omega)
  have hlo := (atol_bounds c.currTime).1
  rw [Call.deadline, if_pos hsize, convertDateFormat, if_pos hlength, checkDateFormat, hinteger,
    if_neg Bool.false_ne_true, List.getLast?_concat, List.dropLast_concat, hatoi,
    hnone '-' (by decide) (by decide), hnone ':' (by decide) (by decide)]
  simp only [bind_some, hu]
  rw [int32_eq_self (by omega) hint]
  simp only [map_some, ne_eq, not_true_eq_false, if_false, Bool.not_false, Bool.and_self, if_true, hatol]
  rw [int64_eq_self (by omega) hlong]

/-- A full date has nothing but digits and separators. -/
theorem isFullDate_chars (hlength : s.length = 19) (h : isFullDate s) :
    ∀ c ∈ s, c.isDigit ∨ c = '-' ∨ c = '.' ∨ c = ':' := by
  match s, hlength with
  | [c₀, c₁, c₂, c₃, c₄, c₅, c₆, c₇, c₈, c₉, d₀, d₁, d₂, d₃, d₄, d₅, d₆, d₇, d₈], _ =>
    simp only [isFullDate, all_cons, all_nil, List.getElem?_cons_zero, List.getElem?_cons_succ,
      Option.getD_some, Bool.and_eq_true, decide_eq_true_eq, Option.some.injEq] at h
    obtain ⟨⟨⟨⟨⟨⟨h₀, h₁, h₂, h₃, h₅, h₆, h₈, h₉, k₁, k₂, k₄, k₅, k₇, k₈, -⟩, rfl⟩, rfl⟩, rfl⟩, rfl⟩, rfl⟩ := h
    simp only [List.forall_mem_cons, List.not_mem_nil, false_implies, implies_true, and_true, h₀, h₁, h₂, h₃,
      h₅, h₆, h₈, h₉, k₁, k₂, k₄, k₅, k₇, k₈, true_or, or_true]

theorem length_fullDate : fullDate.length = 19 := by decide

/-- The places of a full date that are filled in begin where the given ones end. -/
theorem filled_length (hlength : s.length ≤ 19) : (s ++ fullDate.drop s.length).length = 19 := by
  rw [length_append, List.length_drop, length_fullDate]
  omega

theorem Denotes.calendar_deadline (hfour : 4 ≤ s.length) (hlength : s.length ≤ 19) (hnot : isInteger s = false)
    (hfull : isFullDate (s ++ fullDate.drop s.length))
    (hint : -(intBound : Int) ≤ c.mktime (fields (s ++ fullDate.drop s.length)) ∧
      c.mktime (fields (s ++ fullDate.drop s.length)) < intBound) :
    c.deadline s = some (decimal (c.mktime (fields (s ++ fullDate.drop s.length)))) := by
  have hfilled := filled_length hlength
  have hchars := isFullDate_chars hfilled hfull
  have hget : ∀ i < s.length, (s ++ fullDate.drop s.length)[i]? = s[i]? :=
    fun i hi => List.getElem?_append_left hi
  have hdigits : [0, 1, 2, 3].all (fun i => (s[i]?.getD '\x00').isDigit) = true := by
    have h := hfull
    simp only [isFullDate, all_cons, Bool.and_eq_true] at h
    simp only [all_cons, all_nil, Bool.and_true, Bool.and_eq_true]
    rw [hget 0 (by omega), hget 1 (by omega), hget 2 (by omega), hget 3 (by omega)] at h
    exact ⟨h.1.1.1.1.1.1, h.1.1.1.1.1.2.1, h.1.1.1.1.1.2.2.1, h.1.1.1.1.1.2.2.2.1⟩
  have hdash : '-' ∈ s := by
    have hfive : 4 < s.length := by
      refine Nat.lt_of_le_of_ne hfour fun hlen => ?_
      match s, hlen with
      | [c₀, c₁, c₂, c₃], _ =>
        simp only [all_cons, all_nil, Bool.and_true, List.getElem?_cons_zero,
          List.getElem?_cons_succ, Option.getD_some] at hdigits
        simp only [isInteger, all_cons, all_nil, Bool.and_true, hdigits] at hnot
        cases hnot
    have h := hfull
    simp only [isFullDate, Bool.and_eq_true, decide_eq_true_eq] at h
    rw [hget 4 hfive] at h
    exact List.mem_of_getElem? h.1.1.1.1.2
  have hunit : s.getLast?.bind unitSeconds = none := by
    rw [Option.bind_eq_none_iff]
    intro d hd
    have hmem : d ∈ s ++ fullDate.drop s.length := List.mem_append_left _ (List.mem_of_getLast? hd)
    cases hsome : unitSeconds d with
    | none => rfl
    | some w =>
      have hdigit := not_isDigit_of_unitSeconds hsome
      rcases hchars d hmem with h | rfl | rfl | rfl
      · rw [hdigit] at h
        cases h
      all_goals cases hsome
  have hfrom : fromFullDate c.mktime (s ++ fullDate.drop s.length) =
      some (0, decimal (c.mktime (fields (s ++ fullDate.drop s.length)))) := by
    have hshort : (s ++ fullDate.drop s.length).length < TIME_LEN := by
      rw [hfilled]
      decide
    rw [fromFullDate, if_pos hfull, localToUnixTime, if_pos hshort, int32_eq_self hint.1 hint.2]
    rfl
  have hcheck : checkDateFormat c.mktime s = fromFullDate c.mktime (s ++ fullDate.drop s.length) := by
    rw [checkDateFormat, hnot, if_neg Bool.false_ne_true, hunit]
    simp only [hdigits, if_true]
    split
    · rfl
    · have hnil : fullDate.drop s.length = [] := by
        apply List.drop_eq_nil_of_le
        rw [length_fullDate]
        omega
      rw [hnil, append_nil]
  have hsize : s.length < 199 ∧ s.length < tstrSize := ⟨by omega, by unfold tstrSize; omega⟩
  rw [Call.deadline, if_pos hsize.2, convertDateFormat, if_pos hsize.1, hcheck, hfrom]
  simp [hdash]

variable {d : Text} {e : Eval}

/-- What the code makes of a deadline, and that it stands for the same time. -/
theorem Denotes.deadline_eq {T : Int} (hmktime : c.mktime = e.mktime) (hcurr : c.currTime = e.currTime)
    (h : Denotes e d T) (hlength : d.length < 199) :
    ∃ tstr, c.deadline d = some tstr ∧ atol tstr = T ∧ (tstr = d ∨ tstr = decimal T) := by
  have hbound : (intBound : Int) < longBound := by decide
  cases h with
  | absolute ds hds hlong =>
    have hatol := atol_digits (s := []) hds stopsDigits_nil hlong
    rw [append_nil] at hatol
    exact ⟨_, Denotes.absolute_deadline hds hlength, hatol, .inl rfl⟩
  | relative ds u w hds hu hint hlong =>
    rw [← hcurr] at hlong ⊢
    have hw := one_le_of_unitSeconds hu
    have hnonneg : 0 ≤ (ofDigitChars 10 ds 0 : Int) * w := Int.mul_nonneg (by omega) (by omega)
    have hlo := (atol_bounds c.currTime).1
    exact ⟨_, Denotes.relative_deadline hds hu hint hlong hlength, atol_decimal_int (by omega) hlong, .inr rfl⟩
  | calendar s hfour hlen hnot hfull hint =>
    rw [← hmktime] at hint ⊢
    exact ⟨_, Denotes.calendar_deadline hfour hlen hnot hfull hint,
      atol_decimal_int (by omega) (by omega), .inr rfl⟩

/-! ## One evaluation -/

/-- A pattern of the cascade: it has characters, and none of a time. -/
def UntilPattern (pat : Text) : Prop := pat ≠ [] ∧ ∀ c ∈ pat, isTimeChar c = false

instance (pat : Text) : Decidable (UntilPattern pat) := inferInstanceAs (Decidable (_ ∧ _))

/-- A pattern is in the directive or not at all. -/
theorem strstr_until {pat : Text} (hpat : UntilPattern pat) (hd : d ≠ [] ∧ ∀ c ∈ d, isTimeChar c) (A : Text) :
    strstr pat (A ++ d) = strstr pat A := by
  have hnil : strstr pat [] = none := by simp [strstr, hpat.1]
  have h := strstr_append_off hpat.1 d [] hd.1 (fun c hc hmem => by
    have hc := hd.2 c hc
    rw [hpat.2 c hmem] at hc
    cases hc) A
  rw [append_nil, hnil, Option.map_none, Option.or_none] at h
  exact h

theorem not_isspace_of_isTimeChar {c : Char} (h : isTimeChar c) : isspace c = false := by
  rw [isTimeChar, Bool.or_eq_true] at h
  rcases h with h | h
  · exact not_isspace_of_isDigit h
  · simp only [List.contains_iff_mem, List.mem_cons, List.not_mem_nil, or_false] at h
    rcases h with rfl | rfl | rfl | rfl | rfl | rfl | rfl | rfl <;> decide

variable {D : Until} {f : Int} {x : Delay}

namespace Delay

variable {T : Int}

/-- The call on a delay string. -/
def call (D : Until) (x : Delay) (e : Eval) : Call :=
  callOn e x.interval x.unit x.blanks (D.dir.toList ++ x.deadline)

theorem absent (hwf : x.WellFormed) {pat : String} (hpat : UntilPattern pat.toList)
    (hdir : strstr pat.toList D.dir.toList = none) : strstr pat.toList (x.call D e).t = none :=
  (strstr_until hpat hwf.deadline _).trans hdir

/-- Where the deadline is, and that the directive is found in front of it. -/
theorem following_call (hwf : x.WellFormed) :
    (x.call D e).following D.dir =
      some (x.interval.length + 1 + x.blanks.length + D.dir.toList.length, x.deadline) := by
  obtain ⟨c, cs, hcons⟩ := List.exists_cons_of_ne_nil hwf.deadline.1
  have hspace : isspace c = false := not_isspace_of_isTimeChar (hwf.deadline.2 c (by simp [hcons]))
  have hdrop : x.deadline.dropWhile isspace = x.deadline := by
    rw [hcons, List.dropWhile_cons_of_neg (by simp [hspace])]
  have htake : x.deadline.takeWhile isspace = [] := by
    rw [hcons, List.takeWhile_cons_of_neg (by simp [hspace])]
  show (strstr D.dir.toList (D.dir.toList ++ x.deadline)).map _ = _
  have hdir := strstr_prefix D.dir.toList x.deadline
  rw [hdir, map_some]
  simp only [call, callOn, Nat.add_zero, Nat.zero_add, List.drop_left, hdrop, htake, List.length_nil]

theorem drop_text (D : Until) (x : Delay) :
    (x.text D).drop (x.interval.length + 1 + x.blanks.length + D.dir.toList.length) = x.deadline := by
  have happend : x.text D = (x.interval ++ [x.unit] ++ x.blanks ++ D.dir.toList) ++ x.deadline := by
    simp [text]
  rw [happend]
  exact List.drop_left' (by simp only [length_append, List.length_singleton])

theorem atol_interval (hwf : x.WellFormed) (hfits : x.Fits e) : atol x.interval = x.value := by
  have h := atol_digits (s := []) hwf.interval stopsDigits_nil (by
    have := hfits.double
    unfold value at this
    omega)
  rwa [append_nil] at h

/-- The next time is one interval later. -/
theorem next_call (hwf : x.WellFormed) (hfits : x.Fits e) :
    ∃ w, unitSeconds x.unit = some w ∧ (x.call D e).next = x.value * w + atol e.currTime ∧
      0 ≤ x.value * w := by
  obtain ⟨w, hu⟩ := isSome_iff_exists.mp hwf.unit
  obtain ⟨hk, hsum⟩ := hfits.seconds w hu
  have hnonneg : 0 ≤ (x.value : Int) * w := Int.mul_nonneg (by omega) (by have := one_le_of_unitSeconds hu; omega)
  refine ⟨w, hu, ?_, hnonneg⟩
  have hlo := (atol_bounds e.currTime).1
  rw [call, Call.next, Call.dt_callOn e _ _ (atol_interval hwf hfits) hu hk]
  show int64 (x.value * w + atol e.currTime) = x.value * w + atol e.currTime
  exact int64_eq_self (by omega) hsum

/-- The string with the interval taken `factor` times. -/
def times (x : Delay) (factor : Nat) (d : Text) : Delay :=
  ⟨decimal ((x.value * factor : Nat) : Int), x.unit, [' '], d⟩

theorem interval_call (hwf : x.WellFormed) (hfits : x.Fits e) {factor : Nat} (hfactor : factor ≤ 2) (hf : f = factor)
    (d : Text) : (x.call D e).interval f ++ D.dir.toList ++ d = (x.times factor d).text D := by
  subst hf
  have hint : int64 ((x.call D e).it * factor) = ((x.value * factor : Nat) : Int) := by
    have hle : x.value * factor ≤ x.value * 2 := Nat.mul_le_mul_left _ hfactor
    have hdouble := hfits.double
    show int64 (atol x.interval * factor) = _
    rw [atol_interval hwf hfits, ← Int.natCast_mul]
    exact int64_eq_self (by omega) (by omega)
  rw [Call.interval, hint]
  simp [text, times, call, callOn]

theorem times_wellFormed (hwf : x.WellFormed) (factor : Nat) (hd : d ≠ [] ∧ ∀ c ∈ d, isTimeChar c) :
    (x.times factor d).WellFormed :=
  ⟨allDigits_decimal _, hwf.unit, by simp [times, isspace], hd⟩

end Delay

/-- The branch of the cascade for a directive with a deadline. -/
def Until.branch (D : Until) (c : Call) : Option Answer :=
  match D with
  | .repeatUntil => c.repeatUntil D.dir 0
  | .doubleUntil => c.doubleUntil
  | .repeatUntilSuccessOrUntil => c.repeatUntil D.dir 1
  | .doubleUntilSuccessOrUntil => c.doubleUntilSuccessOrUntil
  | .doubleUntilSuccessUpto => c.doubleUntilSuccessUpto

theorem Delay.directive_call {answer : Answer} (hwf : x.WellFormed) (hbranch : D.branch (x.call D e) = some answer) :
    (x.call D e).directive = some answer := by
  have habsent : ∀ pat : String, UntilPattern pat.toList → strstr pat.toList D.dir.toList = none →
      strstr pat.toList (x.call D e).t = none := fun pat hpat hdir => absent hwf hpat hdir
  cases D with
  | repeatUntilSuccessOrUntil =>
    rw [Call.directive, show (x.call _ e).repeatUntil "REPEAT UNTIL SUCCESS OR UNTIL " 1 = _ from hbranch, some_or]
  | doubleUntilSuccessOrUntil =>
    have h₁ := habsent "REPEAT UNTIL SUCCESS OR UNTIL " (by decide) (by decide)
    rw [Call.directive, Call.repeatUntil_eq_none h₁, none_or,
      show (x.call _ e).doubleUntilSuccessOrUntil = _ from hbranch, some_or]
  | doubleUntilSuccessUpto =>
    have h₁ := habsent "REPEAT UNTIL SUCCESS OR UNTIL " (by decide) (by decide)
    have h₂ := habsent "DOUBLE UNTIL SUCCESS OR UNTIL " (by decide) (by decide)
    have h₃ := habsent "REPEAT UNTIL SUCCESS OR " (by decide) (by decide)
    have h₄ := habsent "DOUBLE UNTIL SUCCESS OR " (by decide) (by decide)
    simp only [Call.directive, Call.repeatUntil_eq_none h₁, Call.doubleUntilSuccessOrUntil_eq_none h₂,
      Call.counted_eq_none h₃, Call.counted_eq_none h₄, none_or]
    rw [show (x.call _ e).doubleUntilSuccessUpto = _ from hbranch, some_or]
  | repeatUntil =>
    have hsuccess : ∀ pat ∈ Call.untilSuccess, UntilPattern pat.toList ∧
        strstr pat.toList "REPEAT UNTIL ".toList = none := by decide
    rw [Call.directive_eq_until fun pat hpat => habsent pat (hsuccess pat hpat).1 (hsuccess pat hpat).2,
      show (x.call _ e).repeatUntil "REPEAT UNTIL " 0 = _ from hbranch, some_or]
  | doubleUntil =>
    have hsuccess : ∀ pat ∈ Call.untilSuccess, UntilPattern pat.toList ∧
        strstr pat.toList "DOUBLE UNTIL ".toList = none := by decide
    have h₁ := habsent "REPEAT UNTIL " (by decide) (by decide)
    rw [Call.directive_eq_until fun pat hpat => habsent pat (hsuccess pat hpat).1 (hsuccess pat hpat).2,
      Call.repeatUntil_eq_none h₁, none_or, show (x.call _ e).doubleUntil = _ from hbranch, some_or]

theorem isTimeChar_decimal (z : Int) : decimal z ≠ [] ∧ ∀ c ∈ decimal z, isTimeChar c := by
  have hdigits : ∀ c ∈ Nat.toDigits 10 z.natAbs, isTimeChar c := fun c hc => by
    rw [isTimeChar, Nat.isDigit_of_mem_toDigits (by decide) (by decide) hc, Bool.true_or]
  rw [decimal]
  split
  · refine ⟨List.cons_ne_nil _ _, List.forall_mem_cons.mpr ⟨by decide, hdigits⟩⟩
  · exact ⟨Nat.toDigits_ne_nil, hdigits⟩

theorem length_decimal_mono {m n : Nat} (h : m ≤ n) : (decimal (m : Int)).length ≤ (decimal (n : Int)).length := by
  rw [decimal_natCast, decimal_natCast]
  have hpos : 0 < (Nat.toDigits 10 n).length := Nat.length_toDigits_pos
  rw [Nat.length_toDigits_le_iff (by decide) hpos]
  have hn := (Nat.length_toDigits_le_iff (n := n) (by decide) hpos).mp le_rfl
  exact h.trans_lt hn

namespace Delay

variable {T : Int}

theorem value_times_one (x : Delay) (d : Text) : (x.times 1 d).value = x.value := by
  rw [times, value, ofDigitChars_decimal, Nat.mul_one]

/-- A delay string with a deadline is evaluated by the branch of its directive. -/
theorem evaluate_branch (hwf : x.WellFormed) {answer : Answer}
    (hbranch : D.branch (x.call D e) = some answer) :
    getNextRepeatTime e.mktime e.currTime (x.text D) [] = answer := by
  obtain ⟨w, hu⟩ := isSome_iff_exists.mp hwf.unit
  have hletter : ∀ s : Text, (D.dir.toList ++ s).dropWhile isspace = D.dir.toList ++ s := by
    intro s
    cases D <;> rfl
  have hever : ∀ ever : String, (∀ c ∈ ever.toList, isTimeChar c = false) →
      D.dir.toList ++ x.deadline ≠ ever.toList := by
    intro ever hever heq
    obtain ⟨c, hc⟩ := List.exists_mem_of_ne_nil _ hwf.deadline.1
    have hin : c ∈ ever.toList := by
      rw [← heq]
      exact List.mem_append_right _ hc
    have hnot := hever c hin
    rw [hwf.deadline.2 c hc] at hnot
    cases hnot
  have hne : D.dir.toList ++ x.deadline ≠ [] := fun h => hwf.deadline.1 (List.append_eq_nil_iff.mp h).2
  exact getNextRepeatTime_callOn e hwf.interval (not_isDigit_of_unitSeconds hu) hwf.blanks (hletter _)
    ⟨hne, hever _ (by decide), hever _ (by decide)⟩ (directive_call hwf hbranch) []

variable {factor : Nat}

/-- Where the string that is printed ends, against where the deadline begins. -/
theorem length_printed (hwf : x.WellFormed) (hfits : x.Fits e) (hfactor : factor ≤ 2) (hf : f = factor) :
    ((x.call D e).interval f ++ D.dir.toList).length =
      (decimal ((x.value * factor : Nat) : Int)).length + 2 + D.dir.toList.length := by
  have h := congrArg List.length (interval_call (D := D) hwf hfits hfactor hf [])
  rw [append_nil] at h
  rw [h]
  simp only [text, times, length_append, List.length_cons, List.length_nil]
  omega

theorem length_text (D : Until) (x : Delay) :
    (x.text D).length = x.interval.length + 1 + x.blanks.length + D.dir.toList.length + x.deadline.length := by
  simp only [text, length_append, List.length_cons]
  omega

/-- What is printed up to the text of the deadline and then copies it. -/
theorem printOver_eq (hwf : x.WellFormed) (hfits : x.Fits e) (hfactor : factor ≤ 2) (hf : f = factor) {buf : Text}
    {p : Nat} (hdrop : buf.drop p = x.deadline) (hp : p ≤ buf.length)
    (hlen : ((x.call D e).interval f ++ D.dir.toList).length ≤ p) :
    Call.printOver buf ((x.call D e).interval f ++ D.dir.toList) p =
      some ((x.times factor x.deadline).text D) := by
  rw [Call.printOver, if_pos ⟨hlen, hp⟩, hdrop, interval_call hwf hfits hfactor hf]

variable {tstr : Text}

theorem evaluate_repeat {again : Int} (hwf : x.WellFormed) (hbranch : ∀ c, D.branch c = c.repeatUntil D.dir again)
    (hnot : D ≠ .doubleUntilSuccessUpto) (hdeadline : (x.call D e).deadline x.deadline = some tstr)
    (hatol : atol tstr = T) (hd : x.deadline = d ∨ x.deadline = decimal T) :
    ∃ status delayStr nextTime,
      getNextRepeatTime e.mktime e.currTime (x.text D) [] = some (status, delayStr, decimal nextTime) ∧
      Honours D T d x e status delayStr nextTime := by
  refine ⟨if T < (x.call D e).next then 2 else again, x.text D, (x.call D e).next,
    evaluate_branch hwf ?_, ?_, fun h => absurd h hnot, ⟨x, rfl, hwf, rfl, hd⟩⟩
  · rw [hbranch, Call.repeatUntil, following_call hwf, map_some]
    simp only [hdeadline, map_some, hatol]
    rfl
  · intro _ hstatus
    split at hstatus
    · exact absurd rfl hstatus
    · omega

/-- The string is written anew, with the absolute time. -/
theorem evaluate_doubleUntil (hwf : x.WellFormed) (hfits : x.Fits e)
    (hdeadline : (x.call .doubleUntil e).deadline x.deadline = some tstr) (hatol : atol tstr = T)
    (htstr : tstr = x.deadline ∨ tstr = decimal T) (hd : x.deadline = d ∨ x.deadline = decimal T) :
    ∃ status delayStr nextTime,
      getNextRepeatTime e.mktime e.currTime (x.text .doubleUntil) [] =
        some (status, delayStr, decimal nextTime) ∧
      Honours .doubleUntil T d x e status delayStr nextTime := by
  have hchars : tstr ≠ [] ∧ ∀ c ∈ tstr, isTimeChar c := by
    rcases htstr with rfl | rfl
    · exact hwf.deadline
    · exact isTimeChar_decimal T
  have hkept : tstr = d ∨ tstr = decimal T := by
    rcases htstr with rfl | rfl
    · exact hd
    · exact .inr rfl
  refine ⟨if T < (x.call .doubleUntil e).next then 2 else 3, (x.times 2 tstr).text .doubleUntil,
    (x.call .doubleUntil e).next, evaluate_branch hwf ?_, ?_, nofun,
    ⟨x.times 2 tstr, rfl, times_wellFormed hwf 2 hchars, rfl, hkept⟩⟩
  · have hfollowing : (x.call .doubleUntil e).following "DOUBLE UNTIL " = _ := following_call hwf
    have hprinted : (x.call .doubleUntil e).interval 2 ++ "DOUBLE UNTIL ".toList ++ tstr =
        (x.times 2 tstr).text .doubleUntil := interval_call hwf hfits le_rfl rfl tstr
    rw [Until.branch, Call.doubleUntil, hfollowing, map_some]
    simp only [hdeadline, map_some, hatol, hprinted]
  · intro _ hstatus
    split at hstatus
    · exact absurd rfl hstatus
    · omega

/-- The string is printed over the text of the deadline, which it does not reach. -/
theorem evaluate_doubleUntilSuccessOrUntil (hwf : x.WellFormed) (hfits : x.Fits e)
    (hprints : x.PrintsOver .doubleUntilSuccessOrUntil)
    (hdeadline : (x.call .doubleUntilSuccessOrUntil e).deadline x.deadline = some tstr) (hatol : atol tstr = T)
    (hd : x.deadline = d ∨ x.deadline = decimal T) :
    ∃ status delayStr nextTime,
      getNextRepeatTime e.mktime e.currTime (x.text .doubleUntilSuccessOrUntil) [] =
        some (status, delayStr, decimal nextTime) ∧
      Honours .doubleUntilSuccessOrUntil T d x e status delayStr nextTime := by
  refine ⟨if T < (x.call .doubleUntilSuccessOrUntil e).next then 2 else 4,
    (x.times 2 x.deadline).text .doubleUntilSuccessOrUntil,
    (x.call .doubleUntilSuccessOrUntil e).next, evaluate_branch hwf ?_, ?_, nofun,
    ⟨x.times 2 x.deadline, rfl, times_wellFormed hwf 2 hwf.deadline, rfl, hd⟩⟩
  · have hfollowing : (x.call .doubleUntilSuccessOrUntil e).following "DOUBLE UNTIL SUCCESS OR UNTIL " = _ :=
      following_call hwf
    have hlen := length_printed (D := .doubleUntilSuccessOrUntil) (f := 2) hwf hfits le_rfl rfl
    have htext := length_text .doubleUntilSuccessOrUntil x
    have hover := printOver_eq (D := .doubleUntilSuccessOrUntil) (f := 2) hwf hfits le_rfl rfl
      (drop_text .doubleUntilSuccessOrUntil x) (by omega) (by simp only [PrintsOver] at hprints; omega)
    rw [Until.branch, Call.doubleUntilSuccessOrUntil, hfollowing, map_some]
    simp only [hdeadline, bind_some, hatol]
    exact congrArg (fun r => some (Option.map _ r)) hover
  · intro _ hstatus
    split at hstatus
    · exact absurd rfl hstatus
    · omega

/-- The string is printed twice, both times up to the text of the deadline. -/
theorem evaluate_doubleUntilSuccessUpto (hwf : x.WellFormed) (hfits : x.Fits e)
    (hprints : x.PrintsOver .doubleUntilSuccessUpto)
    (hdeadline : (x.call .doubleUntilSuccessUpto e).deadline x.deadline = some tstr) (hatol : atol tstr = T)
    (hd : x.deadline = d ∨ x.deadline = decimal T) :
    ∃ status delayStr nextTime,
      getNextRepeatTime e.mktime e.currTime (x.text .doubleUntilSuccessUpto) [] =
        some (status, delayStr, decimal nextTime) ∧
      Honours .doubleUntilSuccessUpto T d x e status delayStr nextTime := by
  obtain ⟨w, -, hnext, hnonneg⟩ := next_call (D := .doubleUntilSuccessUpto) hwf hfits
  obtain ⟨factor, f, hf, hfactor, hlate, hchoice⟩ : ∃ (factor : Nat) (f : Int), f = factor ∧ factor ≤ 2 ∧
      (T ≤ atol e.currTime → factor = 1) ∧
      (if T > (x.call .doubleUntilSuccessUpto e).next then (2 : Int) else 1) = f := by
    split
    · exact ⟨2, 2, rfl, Nat.le_refl 2, fun h => absurd h (by omega), rfl⟩
    · exact ⟨1, 1, rfl, by decide, fun _ => rfl, rfl⟩
  refine ⟨4, (x.times factor x.deadline).text .doubleUntilSuccessUpto, (x.call .doubleUntilSuccessUpto e).next,
    evaluate_branch hwf ?_, fun h => absurd rfl h, fun _ hpassed => ?_,
    ⟨x.times factor x.deadline, rfl, times_wellFormed hwf factor hwf.deadline, rfl, hd⟩⟩
  · have hfollowing : (x.call .doubleUntilSuccessUpto e).following "DOUBLE UNTIL SUCCESS UPTO " = _ :=
      following_call hwf
    have htext := length_text .doubleUntilSuccessUpto x
    -- the first time the string is doubled
    have hfirst := length_printed (D := .doubleUntilSuccessUpto) (f := 2) hwf hfits le_rfl rfl
    have hsecond := length_printed (D := .doubleUntilSuccessUpto) hwf hfits hfactor hf
    have hshorter : (decimal ((x.value * factor : Nat) : Int)).length ≤
        (decimal ((x.value * 2 : Nat) : Int)).length :=
      length_decimal_mono (Nat.mul_le_mul_left _ hfactor)
    simp only [PrintsOver] at hprints
    have hover₁ := printOver_eq (D := .doubleUntilSuccessUpto) (f := 2) hwf hfits le_rfl rfl
      (drop_text .doubleUntilSuccessUpto x) (by omega) (by omega)
    have hprinted := interval_call (D := .doubleUntilSuccessUpto) (f := 2) hwf hfits le_rfl rfl x.deadline
    have hdrop : ((x.times 2 x.deadline).text .doubleUntilSuccessUpto).drop (x.interval.length + 1 +
        x.blanks.length + Until.doubleUntilSuccessUpto.dir.toList.length) = x.deadline := by
      rw [← hprinted]
      exact List.drop_left' (by omega)
    have hover₂ := printOver_eq (D := .doubleUntilSuccessUpto) hwf hfits hfactor hf hdrop
      (by rw [← hprinted, length_append]; omega) (by omega)
    rw [Until.branch, Call.doubleUntilSuccessUpto, hfollowing, map_some]
    simp only [hdeadline, bind_some, hatol, hchoice]
    refine congrArg some ?_
    refine (congrArg (fun r => Option.bind r _) hover₁).trans ?_
    exact congrArg (Option.map _) hover₂
  · obtain rfl := hlate hpassed
    exact ⟨x.times 1 x.deadline, rfl, value_times_one x _⟩

/-- Every evaluation that keeps the deadline honours it. -/
theorem evaluate (hwf : x.WellFormed) (hdenotes : Denotes e x.deadline T) (hlength : x.deadline.length < 199)
    (hfits : x.Fits e) (hprints : x.PrintsOver D) (hd : x.deadline = d ∨ x.deadline = decimal T) :
    ∃ status delayStr nextTime,
      getNextRepeatTime e.mktime e.currTime (x.text D) [] = some (status, delayStr, decimal nextTime) ∧
      Honours D T d x e status delayStr nextTime := by
  obtain ⟨tstr, hdeadline, hatol, htstr⟩ := hdenotes.deadline_eq (c := x.call D e) rfl rfl hlength
  cases D with
  | repeatUntil => exact evaluate_repeat hwf (fun _ => rfl) nofun hdeadline hatol hd
  | repeatUntilSuccessOrUntil => exact evaluate_repeat hwf (fun _ => rfl) nofun hdeadline hatol hd
  | doubleUntil => exact evaluate_doubleUntil hwf hfits hdeadline hatol htstr hd
  | doubleUntilSuccessOrUntil =>
    exact evaluate_doubleUntilSuccessOrUntil hwf hfits hprints hdeadline hatol hd
  | doubleUntilSuccessUpto => exact evaluate_doubleUntilSuccessUpto hwf hfits hprints hdeadline hatol hd

/-! ## All evaluations -/

/-- A run that keeps the deadline goes on, with the directive and the deadline it had. -/
theorem run_kept {es : List Eval} (hwf : x.WellFormed) (hd : x.deadline = d ∨ x.deadline = decimal T)
    (hkeeps : evaluations.Guarded (KeepsDeadline D T) (x.text D) es) :
    ∃ (y : Delay) (outs : List (Int × Text)), evaluations.run (x.text D) es = some (y.text D, outs) ∧ y.WellFormed ∧
      (y.deadline = d ∨ y.deadline = decimal T) := by
  induction es generalizing x with
  | nil => exact ⟨x, [], rfl, hwf, hd⟩
  | cons e es ih =>
    obtain ⟨hfirst, hrest⟩ := hkeeps
    obtain ⟨hdenotes, hlength, hfits, hprints⟩ := hfirst x hwf rfl
    obtain ⟨status, delayStr, nextTime, hrun, honours⟩ := evaluate hwf hdenotes hlength hfits hprints hd
    obtain ⟨x', rfl, hwf', -, hd'⟩ := honours.same
    have hstep : evaluations.step (x.text D) e = some (x'.text D, (status, decimal nextTime)) := by
      show (getNextRepeatTime e.mktime e.currTime (x.text D) []).map _ = _
      rw [hrun]
      rfl
    obtain ⟨y, outs, hruns, hy⟩ := ih hwf' hd' (hrest _ _ hstep)
    refine ⟨y, (status, decimal nextTime) :: outs, ?_, hy⟩
    exact Machine.run_cons_eq_some.mpr ⟨_, _, _, hstep, hruns, rfl⟩

/-- Every evaluation of a run that keeps its first deadline honours that deadline. -/
theorem deadline_kept {es : List Eval} (hwf : x.WellFormed)
    (hkeeps : evaluations.Guarded (KeepsDeadline D T) (x.text D) (es ++ [e])) :
    ∃ (y : Delay) (outs : List (Int × Text)) (status : Int) (delayStr : Text) (nextTime : Int),
      evaluations.run (x.text D) es = some (y.text D, outs) ∧
      getNextRepeatTime e.mktime e.currTime (y.text D) [] = some (status, delayStr, decimal nextTime) ∧
      Honours D T x.deadline y e status delayStr nextTime := by
  obtain ⟨y, outs, hrun, hwf', hd⟩ := run_kept hwf (.inl rfl) hkeeps.append_left
  obtain ⟨hlast, -⟩ := hkeeps.append_right hrun
  obtain ⟨hdenotes, hlength, hfits, hprints⟩ := hlast y hwf' rfl
  obtain ⟨status, delayStr, nextTime, hstep, honours⟩ := evaluate hwf' hdenotes hlength hfits hprints hd
  exact ⟨y, outs, status, delayStr, nextTime, hrun, hstep, honours⟩

/-- A delay string is taken apart in one way. -/
theorem text_inj {y : Delay} (hx : x.WellFormed) (hy : y.WellFormed) (h : x.text D = y.text D) : x = y := by
  have hdigits : ∀ z : Delay, z.WellFormed → (z.text D).takeWhile Char.isDigit = z.interval := by
    intro z hz
    obtain ⟨w, hu⟩ := isSome_iff_exists.mp hz.unit
    exact takeWhile_digits hz.interval.digit (stopsDigits_cons (not_isDigit_of_unitSeconds hu))
  have hblanks : ∀ z : Delay, z.WellFormed →
      (z.blanks ++ (D.dir.toList ++ z.deadline)).takeWhile isspace = z.blanks := by
    intro z hz
    rw [List.takeWhile_append_of_pos hz.blanks]
    cases D <;> exact append_nil _
  have hinterval : x.interval = y.interval := by rw [← hdigits x hx, ← hdigits y hy, h]
  simp only [text, hinterval, List.append_cancel_left_eq, List.cons.injEq] at h
  obtain ⟨hunit, hrest⟩ := h
  have hblank : x.blanks = y.blanks := by rw [← hblanks x hx, ← hblanks y hy, hrest]
  cases x
  cases y
  simp_all

/-- An evaluation at a time, without a clock. -/
def evalAt (currTime : String) : Eval := ⟨fun _ => 0, currTime.toList⟩

/-- `4s DOUBLE UNTIL 20s`, and what is left of it after an evaluation at 100. -/
def doubleUntil20s : Delay := ⟨['4'], 's', [' '], ['2', '0', 's']⟩

def doubleUntil120 : Delay := ⟨['8'], 's', [' '], ['1', '2', '0']⟩

theorem doubleUntil20s_wellFormed : doubleUntil20s.WellFormed :=
  ⟨⟨nofun, by decide⟩, rfl, by decide, nofun, by decide⟩

theorem doubleUntil120_wellFormed : doubleUntil120.WellFormed :=
  ⟨⟨nofun, by decide⟩, rfl, by decide, nofun, by decide⟩

theorem deadline_kept_twice :
    ∃ (y : Delay) (outs : List (Int × Text)) (status : Int) (delayStr : Text) (nextTime : Int),
      evaluations.run (doubleUntil20s.text .doubleUntil) [evalAt "100"] = some (y.text .doubleUntil, outs) ∧
      getNextRepeatTime (evalAt "104").mktime (evalAt "104").currTime (y.text .doubleUntil) [] =
        some (status, delayStr, decimal nextTime) ∧
      Honours .doubleUntil 120 doubleUntil20s.deadline y (evalAt "104") status delayStr nextTime := by
  have hfirst : evaluations.step (doubleUntil20s.text .doubleUntil) (evalAt "100") =
      some (doubleUntil120.text .doubleUntil, (3, "104".toList)) := by decide +kernel
  have hsecond : evaluations.step (doubleUntil120.text .doubleUntil) (evalAt "104") =
      some ("16s DOUBLE UNTIL 120".toList, (3, "112".toList)) := by decide +kernel
  refine deadline_kept doubleUntil20s_wellFormed (.cons (fun z hz heq => ?_) hfirst
    (.cons (fun z hz heq => ?_) hsecond trivial))
  · obtain rfl := text_inj doubleUntil20s_wellFormed hz heq
    refine ⟨.relative ['2', '0'] 's' 1 ⟨nofun, by decide⟩ rfl (by decide) (by decide), by decide,
      ⟨by decide, fun w hw => ?_⟩, trivial⟩
    obtain rfl := Option.some.inj hw
    decide
  · obtain rfl := text_inj doubleUntil120_wellFormed hz heq
    refine ⟨.absolute ['1', '2', '0'] ⟨nofun, by decide⟩ (by decide), by decide,
      ⟨by decide, fun w hw => ?_⟩, trivial⟩
    obtain rfl := Option.some.inj hw
    decide

/-- A relative deadline is counted from the later time; a string printed over the deadline
it copies loses it when the interval gains a digit, with `UPTO` also after the deadline. -/
theorem deadlines_move :
    (Denotes (evalAt "0") "20m".toList 1200 ∧
      evaluations.run "5m REPEAT UNTIL 20m".toList [evalAt "0", evalAt "1200"] =
        some ("5m REPEAT UNTIL 20m".toList, [(0, "300".toList), (0, "1500".toList)])) ∧
    evaluations.run "5s DOUBLE UNTIL SUCCESS OR UNTIL 1000".toList [evalAt "0"] = none ∧
    evaluations.run "8s DOUBLE UNTIL SUCCESS UPTO 1000".toList [evalAt "2000"] = none := by
  refine ⟨⟨.relative ['2', '0'] 'm' 60 ⟨nofun, by decide⟩ rfl (by decide) (by decide), ?_⟩, ?_, ?_⟩
  · decide +kernel
  · decide +kernel
  · decide +kernel

end Delay

end RepeatTime
