-- SUMMARY: When a delayed rule runs again.
import Irods.Base.CNumber

/-!
# Repeat times

A delay string is an interval, a unit letter and a directive. `getNextRepeatTime` finds the
directive by a cascade of `strstr`, sets the next time and rewrites the string.

A result `none` is undefined behaviour: a text too long for `tstr`, a position past the
end of a string, or a `sprintf` that overwrites its own argument before it copies it. The
size of the caller's buffer for the delay string is not modelled. `mktime` is the one of
the C library, for a broken-down local time.
-/

namespace RepeatTime

open CString

def DATE_FORMAT_ERR : Int := -1100000

def TIME_LEN : Nat := 32

/-- The size of `tstr`. -/
def tstrSize : Nat := 200

/-! ## Time formats -/

/-- A broken-down time; the year counts from 0, the month from 1. -/
structure Tm where
  sec : Int
  min : Int
  hour : Int
  mday : Int
  mon : Int
  year : Int
  deriving DecidableEq

/-- The fields of a full date. -/
def fields (s : Text) : Tm :=
  let field (i n : Nat) : Int := atoi ((s.drop i).take n)
  { sec := field 17 2, min := field 14 2, hour := field 11 2, mday := field 8 2, mon := field 5 2,
    year := field 0 4 }

/-- `sizeof (newTime) == 64` is false, so the time is printed as an `int`. -/
def localToUnixTime (mktime : Tm → Int) (localTime : Text) : Option Text :=
  if localTime.length < TIME_LEN then some (decimal (int32 (mktime (fields localTime)))) else none

def isInteger (s : Text) : Bool := s.all Char.isDigit

/-- The seconds of an incremental time in a unit. -/
def unitSeconds : Char → Option Int
  | 's' => some 1
  | 'm' => some 60
  | 'h' => some 3600
  | 'd' => some (3600 * 24)
  | 'y' => some (3600 * 24 * 365)
  | _ => none

/-- A place of a time `dd.hh:mm:ss`. -/
inductive Place where
  | digit (weight : Nat)
  | sep (c : Char)

/-- From the end of the time. -/
def places : List Place :=
  [.digit 1, .digit 10, .sep ':', .digit 60, .digit (10 * 60), .sep ':', .digit 3600, .digit (10 * 3600),
    .sep '.', .digit (24 * 3600), .digit (10 * 24 * 3600)]

/-- One round of the loop over the time, read backwards; the last place is not passed. -/
def offsetRound : List Place → Text → Int → Option (Int × Text)
  | _, [], offset => some (offset, [])
  | [], r, offset => some (offset, r)
  | [.digit w], c :: r, offset =>
    if c.isDigit then some (offset + w * ((c.toNat : Int) - 48), c :: r) else none
  | .digit w :: ps, c :: r, offset =>
    if c.isDigit then offsetRound ps r (offset + w * ((c.toNat : Int) - 48)) else none
  | .sep d :: ps, c :: r, offset => if c = d then offsetRound ps r offset else none

/-- The rounds; a time that has 19 characters at most takes two. -/
def offsetRounds : Nat → Text → Int → Option Int
  | 0, _, _ => none
  | _ + 1, [], offset => some offset
  | fuel + 1, c :: r, offset =>
    match offsetRound places (c :: r) offset with
    | none => none
    | some (offset, r) => offsetRounds fuel r offset

def fullDate : Text := "0000-00-00.00:00:00".toList

/-- The places of a full date, digits and separators. -/
def isFullDate (s : Text) : Bool :=
  [0, 1, 2, 3, 5, 6, 8, 9, 11, 12, 14, 15, 17, 18].all (fun i => (s[i]?.getD '\x00').isDigit) &&
    s[4]? = some '-' && s[7]? = some '-' && s[10]? = some '.' && s[13]? = some ':' && s[16]? = some ':'

def fromFullDate (mktime : Tm → Int) (s : Text) : Option (Int × Text) :=
  if isFullDate s then (localToUnixTime mktime s).map fun outUnixTime => (0, outUnixTime)
  else some (DATE_FORMAT_ERR, s)

/-- The status and the time; the offsets are `int`s. -/
def checkDateFormat (mktime : Tm → Int) (s : Text) : Option (Int × Text) :=
  if isInteger s then some (0, s)
  else
    match s.getLast?.bind unitSeconds with
    | some seconds => some (0, decimal (int32 (atoi s.dropLast * seconds)))
    | none =>
      if s.length < 19 then
        if [0, 1, 2, 3].all (fun i => (s[i]?.getD '\x00').isDigit) then
          -- start with year, fill in the rest
          fromFullDate mktime (s ++ fullDate.drop s.length)
        else
          match offsetRounds 20 s.reverse 0 with
          | some offset => some (0, decimal (int32 offset))
          | none => some (DATE_FORMAT_ERR, s)
      else fromFullDate mktime s

/-- The status and the time in seconds; on an error the text stays. -/
def convertDateFormat (mktime : Tm → Int) (s currTime : Text) : Option (Int × Text) :=
  if s.length < 199 then
    (checkDateFormat mktime s).map fun (i, tstr) =>
      if i ≠ 0 then (i, s)
      else if !isInteger s && !s.contains '-' && !s.contains ':' then
        (0, decimal (int64 (atol tstr + atol currTime)))
      else (0, tstr)
  else none

/-! ## Directives -/

/-- A call, with its delay string taken apart. -/
structure Call where
  mktime : Tm → Int
  currTime : Text
  delayStr : Text
  /-- The interval and the unit letter. -/
  it : Int
  u : Char
  /-- The directive, and where it begins. -/
  t : Text
  start : Nat

/-- The status, the delay string and the next time. -/
abbrev Answer := Option (Int × Text × Text)

namespace Call

/-- The interval in seconds. -/
def dt (c : Call) : Int :=
  match c.u with
  | 'm' => int64 (c.it * 60)
  | 'h' => int64 (c.it * 3600)
  | 'd' => int64 (c.it * 3600 * 24)
  | 'y' => int64 (c.it * 3600 * 24 * 365)
  | _ => c.it

def next (c : Call) : Int := int64 (c.dt + atol c.currTime)

/-- `"%lld%c "`, with the interval times `factor`. -/
def interval (c : Call) (factor : Int) : Text := decimal (int64 (c.it * factor)) ++ [c.u, ' ']

/-- What follows the first `dir`, and where in the delay string. -/
def following (c : Call) (dir : String) : Option (Nat × Text) :=
  (strstr dir.toList c.t).map fun n =>
    let s := c.t.drop (n + dir.toList.length)
    (c.start + n + dir.toList.length + (s.takeWhile isspace).length, s.dropWhile isspace)

/-- The deadline in seconds: `tstr` after `convertDateFormat`. -/
def deadline (c : Call) (s : Text) : Option Text :=
  if s.length < tstrSize then (convertDateFormat c.mktime s c.currTime).map Prod.snd else none

/-- Prints `pre` and then the text at position `p` of the buffer printed into, which is gone
when `pre` reaches over it. -/
def printOver (buf : Text) (pre : Text) (p : Nat) : Option Text :=
  if pre.length ≤ p ∧ p ≤ buf.length then some (pre ++ buf.drop p) else none

/-- `REPEAT UNTIL` and `REPEAT UNTIL SUCCESS OR UNTIL`. -/
def repeatUntil (c : Call) (dir : String) (again : Int) : Option Answer :=
  (c.following dir).map fun (_, s) =>
    (c.deadline s).map fun tstr =>
      (if atol tstr < c.next then 2 else again, c.delayStr, decimal c.next)

def doubleUntilSuccessOrUntil (c : Call) : Option Answer :=
  (c.following "DOUBLE UNTIL SUCCESS OR UNTIL ").map fun (p, s) =>
    (c.deadline s).bind fun tstr =>
      (printOver c.delayStr (c.interval 2 ++ "DOUBLE UNTIL SUCCESS OR UNTIL ".toList) p).map fun delayStr =>
        (if atol tstr < c.next then 2 else 4, delayStr, decimal c.next)

def doubleUntil (c : Call) : Option Answer :=
  (c.following "DOUBLE UNTIL ").map fun (_, s) =>
    (c.deadline s).map fun tstr =>
      (if atol tstr < c.next then 2 else 3, c.interval 2 ++ "DOUBLE UNTIL ".toList ++ tstr, decimal c.next)

/-- The delay string is printed twice, the second time from what the first has left. -/
def doubleUntilSuccessUpto (c : Call) : Option Answer :=
  (c.following "DOUBLE UNTIL SUCCESS UPTO ").map fun (p, s) =>
    (c.deadline s).bind fun tstr =>
      (printOver c.delayStr (c.interval 2 ++ "DOUBLE UNTIL SUCCESS UPTO ".toList) p).bind fun delayStr =>
        (printOver delayStr (c.interval (if atol tstr > c.next then 2 else 1) ++
          "DOUBLE UNTIL SUCCESS UPTO ".toList) p).map fun delayStr =>
          (4, delayStr, decimal c.next)

/-- The directives with a count: `n` repeats, and how often they were to be repeated. -/
def counted (c : Call) (dir : String) (factor again : Int) : Option Answer :=
  (c.following dir).map fun (_, s) =>
    match s.dropWhile Char.isDigit with
    | [] => none
    | _ :: s₁ =>
      if s.length < tstrSize then
        let n := int32 (atoi (digits s) - 1)
        let delayStr :=
          if occurs "ORIGINAL TIMES".toList s₁ then
            c.interval factor ++ dir.toList ++ decimal n ++ [' '] ++ s₁
          else
            c.interval factor ++ dir.toList ++ decimal n ++ " TIMES. ORIGINAL TIMES=".toList ++
              decimal (int32 (n + 1))
        some (if n ≤ 0 then 2 else again, delayStr, decimal c.next)
      else none

def repeatUntilSuccess (c : Call) : Option Answer :=
  if occurs "REPEAT UNTIL SUCCESS".toList c.t then some (some (1, c.delayStr, decimal c.next)) else none

def doubleUntilSuccess (c : Call) : Option Answer :=
  if occurs "DOUBLE UNTIL SUCCESS".toList c.t then
    some (some (4, c.interval 2 ++ "DOUBLE UNTIL SUCCESS".toList, decimal c.next))
  else none

/-- The first directive that occurs. -/
def directive (c : Call) : Option Answer :=
  (c.repeatUntil "REPEAT UNTIL SUCCESS OR UNTIL " 1).or <|
  c.doubleUntilSuccessOrUntil.or <|
  (c.counted "REPEAT UNTIL SUCCESS OR " 1 4).or <|
  (c.counted "DOUBLE UNTIL SUCCESS OR " 2 4).or <|
  c.doubleUntilSuccessUpto.or <|
  c.repeatUntilSuccess.or <|
  c.doubleUntilSuccess.or <|
  (c.repeatUntil "REPEAT UNTIL " 0).or <|
  c.doubleUntil.or <|
  (c.counted "REPEAT " 1 3).or <|
  c.counted "DOUBLE " 2 3

end Call

/-- The status, the delay string and the next time; `nextTime` is what the caller has there. -/
def getNextRepeatTime (mktime : Tm → Int) (currTime delayStr nextTime : Text) : Answer :=
  match delayStr.dropWhile Char.isDigit with
  | [] => none
  | u :: t =>
    let blanks := t.takeWhile isspace
    let c : Call :=
      { mktime := mktime, currTime := currTime, delayStr := delayStr, it := atol (digits delayStr), u := u,
        t := t.dropWhile isspace, start := (digits delayStr).length + 1 + blanks.length }
    if c.t = [] ∨ c.t = "REPEAT FOR EVER".toList then some (0, delayStr, decimal c.next)
    else if c.t = "DOUBLE FOR EVER".toList then
      some (3, c.interval 2 ++ "DOUBLE FOR EVER".toList, decimal c.next)
    else
      match c.directive with
      | some answer => answer
      | none => some (0, delayStr, nextTime)

/-- One evaluation: the time, and the clock of the C library at that time. -/
structure Eval where
  mktime : Tm → Int
  currTime : Text

/-- Evaluations one after another, each on the delay string that the last one has left; the
statuses and the next times. -/
def calls : Text → List Eval → Option (List (Int × Text))
  | _, [] => some []
  | delayStr, e :: es =>
    (getNextRepeatTime e.mktime e.currTime delayStr []).bind fun (status, delayStr, nextTime) =>
      (calls delayStr es).map fun rest => (status, nextTime) :: rest

/-! ## Taking a delay string apart -/

/-- The call on an interval, a unit letter, blanks and a directive. -/
def callOn (e : Eval) (ds : Text) (u : Char) (blanks t : Text) : Call where
  mktime := e.mktime
  currTime := e.currTime
  delayStr := ds ++ u :: (blanks ++ t)
  it := atol ds
  u := u
  t := t
  start := ds.length + 1 + blanks.length

variable {u : Char} {w : Int}

theorem getNextRepeatTime_callOn (e : Eval) {ds blanks t : Text} {answer : Answer} (hds : AllDigits ds)
    (hu : u.isDigit = false) (hblanks : ∀ c ∈ blanks, isspace c) (hblank : t.dropWhile isspace = t)
    (hever : t ≠ [] ∧ t ≠ "REPEAT FOR EVER".toList ∧ t ≠ "DOUBLE FOR EVER".toList)
    (hanswer : (callOn e ds u blanks t).directive = some answer) (nextTime : Text) :
    getNextRepeatTime e.mktime e.currTime (ds ++ u :: (blanks ++ t)) nextTime = answer := by
  have hstops : StopsDigits (u :: (blanks ++ t)) := stopsDigits_cons hu
  have hdigits : digits (ds ++ u :: (blanks ++ t)) = ds := takeWhile_digits hds.digit hstops
  have hrest : (ds ++ u :: (blanks ++ t)).dropWhile Char.isDigit = u :: (blanks ++ t) :=
    dropWhile_digits hds.digit hstops
  have htake : t.takeWhile isspace = [] := by
    have h := List.takeWhile_append_dropWhile (p := isspace) (l := t)
    rw [hblank] at h
    simpa using h
  have hdrop : (blanks ++ t).dropWhile isspace = t := by rw [List.dropWhile_append_of_pos hblanks, hblank]
  have hskip : (blanks ++ t).takeWhile isspace = blanks := by
    rw [List.takeWhile_append_of_pos hblanks, htake, List.append_nil]
  unfold getNextRepeatTime
  simp only [hrest, hdigits, hdrop, hskip]
  rw [if_neg (not_or.mpr ⟨hever.1, hever.2.1⟩), if_neg hever.2.2]
  have hcall : (⟨e.mktime, e.currTime, ds ++ u :: (blanks ++ t), atol ds, u, t,
      ds.length + 1 + blanks.length⟩ : Call) = callOn e ds u blanks t := rfl
  rw [hcall, hanswer]

theorem one_le_of_unitSeconds (hu : unitSeconds u = some w) : 1 ≤ w := by
  unfold unitSeconds at hu
  split at hu <;> cases hu <;> decide

theorem not_isDigit_of_unitSeconds (hu : unitSeconds u = some w) : u.isDigit = false := by
  unfold unitSeconds at hu
  split at hu <;> cases hu <;> decide

theorem Call.dt_callOn (e : Eval) {ds : Text} {k : Nat} (blanks t : Text) (hds : atol ds = k)
    (hu : unitSeconds u = some w) (hfits : k * w < longBound) : (callOn e ds u blanks t).dt = k * w := by
  have hid : ∀ x : Int, 0 ≤ x → x < longBound → int64 x = x := fun x h₀ h =>
    int64_eq_self (Int.le_trans (by decide) h₀) h
  unfold unitSeconds at hu
  split at hu <;> unfold Call.dt <;> simp only [callOn, hds]
  case h_1 =>
    obtain rfl := Option.some.inj hu
    exact (Int.mul_one _).symm
  case h_2 =>
    obtain rfl := Option.some.inj hu
    exact hid (k * 60) (by omega) hfits
  case h_3 =>
    obtain rfl := Option.some.inj hu
    exact hid (k * 3600) (by omega) hfits
  case h_4 =>
    obtain rfl := Option.some.inj hu
    rw [← Int.mul_assoc] at hfits ⊢
    exact hid (k * 3600 * 24) (by omega) hfits
  case h_5 =>
    obtain rfl := Option.some.inj hu
    rw [← Int.mul_assoc, ← Int.mul_assoc] at hfits ⊢
    exact hid (k * 3600 * 24 * 365) (by omega) hfits
  case h_6 => cases hu

/-! ## Patterns in texts with numbers -/

/-- A pattern of the cascade: it has characters, and no digit. -/
def Pattern (pat : Text) : Prop := pat ≠ [] ∧ ∀ c ∈ pat, c.isDigit = false

instance (pat : Text) : Decidable (Pattern pat) := inferInstanceAs (Decidable (_ ∧ _))

theorem strstr_decimal {pat : Text} (hpat : Pattern pat) (A R : Text) (n : Nat) :
    strstr pat (A ++ decimal n ++ R) =
      (strstr pat A).or ((strstr pat R).map (· + (A.length + (decimal n).length))) := by
  refine strstr_append_off hpat.1 (decimal n) R (allDigits_decimal n).ne_nil (fun c hc hmem => ?_) A
  have hdigit := (allDigits_decimal n).digit c hc
  rw [hpat.2 c hmem] at hdigit
  cases hdigit

namespace Call

variable {c : Call} {dir : String}

theorem following_eq_none (h : strstr dir.toList c.t = none) : c.following dir = none := by
  rw [following, h]
  rfl

theorem repeatUntil_eq_none (h : strstr dir.toList c.t = none) (again : Int) :
    c.repeatUntil dir again = none := by
  rw [repeatUntil, following_eq_none h]
  rfl

theorem counted_eq_none (h : strstr dir.toList c.t = none) (factor again : Int) :
    c.counted dir factor again = none := by
  rw [counted, following_eq_none h]
  rfl

theorem doubleUntilSuccessOrUntil_eq_none (h : strstr "DOUBLE UNTIL SUCCESS OR UNTIL ".toList c.t = none) :
    c.doubleUntilSuccessOrUntil = none := by
  rw [doubleUntilSuccessOrUntil, following_eq_none h]
  rfl

theorem doubleUntil_eq_none (h : strstr "DOUBLE UNTIL ".toList c.t = none) : c.doubleUntil = none := by
  rw [doubleUntil, following_eq_none h]
  rfl

theorem doubleUntilSuccessUpto_eq_none (h : strstr "DOUBLE UNTIL SUCCESS UPTO ".toList c.t = none) :
    c.doubleUntilSuccessUpto = none := by
  rw [doubleUntilSuccessUpto, following_eq_none h]
  rfl

theorem repeatUntilSuccess_eq_none (h : strstr "REPEAT UNTIL SUCCESS".toList c.t = none) :
    c.repeatUntilSuccess = none := by
  rw [repeatUntilSuccess, occurs, h]
  rfl

theorem doubleUntilSuccess_eq_none (h : strstr "DOUBLE UNTIL SUCCESS".toList c.t = none) :
    c.doubleUntilSuccess = none := by
  rw [doubleUntilSuccess, occurs, h]
  rfl

/-- The directives that end with the first success. -/
def untilSuccess : List String :=
  ["REPEAT UNTIL SUCCESS OR UNTIL ", "DOUBLE UNTIL SUCCESS OR UNTIL ", "REPEAT UNTIL SUCCESS OR ",
    "DOUBLE UNTIL SUCCESS OR ", "DOUBLE UNTIL SUCCESS UPTO ", "REPEAT UNTIL SUCCESS", "DOUBLE UNTIL SUCCESS"]

/-- Where none of these occurs, the others are left. -/
theorem directive_eq_until (h : ∀ dir ∈ untilSuccess, strstr dir.toList c.t = none) :
    c.directive = (c.repeatUntil "REPEAT UNTIL " 0).or
      (c.doubleUntil.or ((c.counted "REPEAT " 1 3).or (c.counted "DOUBLE " 2 3))) := by
  simp only [untilSuccess, List.forall_mem_cons] at h
  obtain ⟨h₁, h₂, h₃, h₄, h₅, h₆, h₇, -⟩ := h
  simp only [directive, repeatUntil_eq_none h₁, doubleUntilSuccessOrUntil_eq_none h₂, counted_eq_none h₃,
    counted_eq_none h₄, doubleUntilSuccessUpto_eq_none h₅, repeatUntilSuccess_eq_none h₆,
    doubleUntilSuccess_eq_none h₇, Option.none_or]

end Call

end RepeatTime
