-- SUMMARY: When the rule function split returns the fields of a string.
import Irods.Base.CString
import Mathlib.Data.List.TakeWhile

/-!
# Splitting a string

`smsi_split` goes over the string twice with the same steps: once to count the fields, once to put a
terminator behind each and to copy it. A run of delimiters is skipped, and the step of the loop then goes
over the first character of the next field as well. That character is not looked at, so the loops do not
notice that a field has begun as long as they have seen delimiters only.
-/

namespace Split

open List (append_assoc append_nil cons_append dropWhile_cons_of_neg drop_left length_append length_cons
  length_eq_zero_iff mem_append mem_cons)
open Nat (add_assoc le_zero zero_le)

variable {delim buf pre s r f : Text} {c : Char} {fuel count : Nat}

/-! ## The code -/

/-- Whether `strchr` finds the character; it finds the terminator of every string. -/
def strchr (s : Text) (c : Char) : Bool := s.contains c || c == '\x00'

/-- The list that `newCollRes` allocates, with the elements that were set so far. -/
structure Coll where
  count : Nat
  subtrees : List Text
  deriving DecidableEq

/-- `coll->subtrees[j++] = ..`; behind the last element is undefined. -/
def Coll.push (coll : Coll) (t : Text) : Option Coll :=
  if coll.subtrees.length < coll.count then some { coll with subtrees := coll.subtrees ++ [t] } else none

/-- The string that starts at the position. -/
def stringAt (buf : Text) (i : Nat) : Text := (buf.drop i).takeWhile (· ≠ '\x00')

/-- The inner loop, over a run of delimiters. -/
def skipDelims (delim buf : Text) (i : Nat) : Nat := i + ((buf.drop i).takeWhile (strchr delim)).length

def countLoop (delim buf : Text) : Nat → Nat → Bool → Nat → Bool × Nat
  | 0, _, trim, count => (trim, count)
  | fuel + 1, i, trim, count =>
    if i < buf.length then
      if strchr delim (buf.getD i '\x00') then
        let i := skipDelims delim buf (i + 1)
        countLoop delim buf fuel (i + 1) trim (if !trim && i < buf.length then count + 1 else count)
      else countLoop delim buf fuel (i + 1) false count
    else (trim, count)

/-- The last field has no delimiter behind it. -/
def lastCount (out : Bool × Nat) : Nat :=
  let (trim, count) := out
  if trim then count else count + 1

def countFields (delim buf : Text) : Nat := lastCount (countLoop delim buf buf.length 0 true 0)

def cutLoop (delim : Text) : Nat → Text → Nat → Bool → Nat → Coll → Option (Text × Nat × Coll)
  | 0, buf, _, _, bufStart, coll => some (buf, bufStart, coll)
  | fuel + 1, buf, i, trim, bufStart, coll =>
    if i < buf.length then
      if strchr delim (buf.getD i '\x00') then do
        let buf := buf.set i '\x00'
        let coll ← (if trim then some coll else coll.push (stringAt buf bufStart))
        let i := skipDelims delim buf (i + 1)
        cutLoop delim fuel buf (i + 1) trim i coll
      else cutLoop delim fuel buf (i + 1) false bufStart coll
    else some (buf, bufStart, coll)

def lastField (out : Text × Nat × Coll) : Option Coll :=
  let (buf, bufStart, coll) := out
  if coll.subtrees.length ≠ coll.count then coll.push (stringAt buf bufStart) else some coll

def smsiSplit (s delim : Text) : Option Coll :=
  (cutLoop delim s.length s 0 true 0 ⟨countFields delim s, []⟩).bind lastField

/-! ## Fields -/

/-- The maximal non-empty runs of characters that are no delimiters. -/
def fields (delim s : Text) : List Text := (s.splitOnP delim.contains).filter (· ≠ [])

/-- Delimiters, then a field of one character. -/
def LosesField (delim s : Text) : Prop :=
  ∃ ds c r, s = ds ++ c :: r ∧ ds ≠ [] ∧ (∀ d ∈ ds, delim.contains d = true) ∧ delim.contains c = false ∧
    ∀ d, r.head? = some d → delim.contains d = true

theorem fields_nil (delim : Text) : fields delim [] = [] := rfl

theorem fields_delim (hc : delim.contains c = true) (r : Text) : fields delim (c :: r) = fields delim r := by
  rw [fields, List.splitOnP_cons_eq_if_modifyHead, if_pos hc]
  rfl

/-- A run of other characters, up to the end or a delimiter. -/
theorem fields_run {t u : Text} (hne : t ≠ []) (ht : ∀ d ∈ t, delim.contains d = false)
    (hu : ∀ d, u.head? = some d → delim.contains d = true) : fields delim (t ++ u) = t :: fields delim u := by
  cases u with
  | nil => simp [fields, List.splitOnP_eq_singleton ht, hne]
  | cons d u =>
    have hd := hu d rfl
    rw [fields_delim hd, fields, List.splitOnP_append_cons_of_forall_mem ht d hd,
      List.filter_cons_of_pos (by simp [hne])]
    rfl

theorem fields_field (hc : delim.contains c = false) (r : Text) :
    fields delim (c :: r) =
      (c :: r.takeWhile fun d => !delim.contains d) :: fields delim (r.dropWhile fun d => !delim.contains d) := by
  have hrun (d : Char) (hd : d ∈ c :: r.takeWhile fun d => !delim.contains d) : delim.contains d = false := by
    rw [mem_cons] at hd
    rcases hd with rfl | hd
    · exact hc
    · simpa using List.all_eq_true.mp List.all_takeWhile d hd
  have hrest (d : Char) (hd : (r.dropWhile fun d => !delim.contains d).head? = some d) : delim.contains d = true := by
    have := List.head?_dropWhile_not (fun d => !delim.contains d) r
    rw [hd] at this
    simpa using this
  rw [← fields_run (List.cons_ne_nil _ _) hrun hrest, cons_append, List.takeWhile_append_dropWhile]

/-- A run of delimiters, up to the end or the next field. -/
theorem exists_run (delim r : Text) : ∃ ds rest, r = ds ++ rest ∧ (∀ d ∈ ds, delim.contains d = true) ∧
    (rest = [] ∨ ∃ x y, rest = x :: y ∧ delim.contains x = false) := by
  refine ⟨r.takeWhile delim.contains, r.dropWhile delim.contains, List.takeWhile_append_dropWhile.symm,
    fun d hd => List.all_eq_true.mp List.all_takeWhile d hd, ?_⟩
  cases hrest : r.dropWhile delim.contains with
  | nil => exact .inl rfl
  | cons x y =>
    have hx := List.head?_dropWhile_not delim.contains r
    rw [hrest] at hx
    exact .inr ⟨x, y, rfl, hx⟩

theorem fields_delims {ds : Text} (hds : ∀ d ∈ ds, delim.contains d = true) (r : Text) :
    fields delim (ds ++ r) = fields delim r := by
  induction ds with
  | nil => rfl
  | cons d ds ih =>
    rw [List.forall_mem_cons] at hds
    rw [cons_append, fields_delim hds.1, ih hds.2]

/-- The rest of the field that is being read, and the fields behind it. -/
theorem length_fields_cons (hc : delim.contains c = false) (r : Text) :
    (fields delim (c :: r)).length = (fields delim (r.dropWhile fun d => !delim.contains d)).length + 1 := by
  rw [fields_field hc, length_cons]

theorem length_fields_le (c : Char) (r : Text) : (fields delim r).length ≤ (fields delim (c :: r)).length := by
  by_cases hc : delim.contains c = true
  · rw [fields_delim hc]
  · rw [Bool.not_eq_true] at hc
    rw [length_fields_cons hc]
    cases r with
    | nil => exact zero_le _
    | cons d r =>
      by_cases hd : delim.contains d = true
      · rw [dropWhile_cons_of_neg (by simpa using hd)]
        exact Nat.le_succ _
      · rw [Bool.not_eq_true] at hd
        rw [length_fields_cons hd, List.dropWhile_cons_of_pos (by simpa using hd)]

/-! ## The loops -/

theorem strchr_eq (hc : c ≠ '\x00') : strchr delim c = delim.contains c := by
  simp [strchr, hc]

variable {ds rest : Text} {i : Nat}

/-- The inner loop goes over the delimiters. -/
theorem skipDelims_run (pre : Text) (hds : ∀ d ∈ ds, delim.contains d = true)
    (hrest : rest = [] ∨ ∃ x y, rest = x :: y ∧ delim.contains x = false) (hnul : '\x00' ∉ rest) :
    skipDelims delim (pre ++ ds ++ rest) pre.length = (pre ++ ds).length := by
  have hall : ∀ d ∈ ds, strchr delim d = true := fun d hd => by rw [strchr, hds d hd, Bool.true_or]
  have hstop : rest.takeWhile (strchr delim) = [] := by
    rcases hrest with rfl | ⟨x, y, rfl, hx⟩
    · rfl
    · rw [mem_cons, not_or] at hnul
      rw [List.takeWhile_cons_of_neg (by rw [strchr_eq (Ne.symm hnul.1), hx]; exact Bool.false_ne_true)]
  rw [skipDelims, append_assoc, drop_left, List.takeWhile_append_of_pos hall, hstop, append_nil,
    length_append]

theorem getD_at (pre : Text) (c : Char) (r : Text) : (pre ++ c :: r).getD pre.length '\x00' = c := by simp

theorem countLoop_end (hi : buf.length ≤ i) (fuel : Nat) (trim : Bool) (count : Nat) :
    countLoop delim buf fuel i trim count = (trim, count) := by
  cases fuel with
  | zero => rfl
  | succ fuel => rw [countLoop, if_neg (Nat.not_lt.mpr hi)]

theorem cutLoop_end (hi : buf.length ≤ i) (fuel : Nat) (trim : Bool) (bufStart : Nat) (coll : Coll) :
    cutLoop delim fuel buf i trim bufStart coll = some (buf, bufStart, coll) := by
  cases fuel with
  | zero => rfl
  | succ fuel => rw [cutLoop, if_neg (Nat.not_lt.mpr hi)]

theorem countLoop_field (hc : delim.contains c = false) (hnul : c ≠ '\x00') (trim : Bool) :
    countLoop delim (pre ++ c :: r) (fuel + 1) pre.length trim count =
      countLoop delim (pre ++ [c] ++ r) fuel (pre ++ [c]).length false count := by
  rw [countLoop, if_pos (by simp), getD_at, strchr_eq hnul, if_neg (Bool.eq_false_iff.mp hc)]
  simp

/-- One step over a run of delimiters, and over the character behind it. -/
theorem countLoop_delims (hc : delim.contains c = true) (hds : ∀ d ∈ ds, delim.contains d = true)
    (hrest : rest = [] ∨ ∃ x y, rest = x :: y ∧ delim.contains x = false) (hnul : '\x00' ∉ rest) (trim : Bool) :
    countLoop delim (pre ++ c :: ds ++ rest) (fuel + 1) pre.length trim count =
      countLoop delim (pre ++ c :: ds ++ rest) fuel ((pre ++ c :: ds).length + 1) trim
        (if !trim && rest ≠ [] then count + 1 else count) := by
  have hskip := skipDelims_run (pre ++ [c]) hds hrest hnul
  have hbuf : pre ++ c :: ds ++ rest = pre ++ [c] ++ ds ++ rest := by simp
  have hlen : (pre ++ [c]).length = pre.length + 1 := by simp
  have hlt : (pre ++ [c] ++ ds).length < (pre ++ [c] ++ ds ++ rest).length ↔ rest ≠ [] := by
    have hwhole : (pre ++ [c] ++ ds ++ rest).length = (pre ++ [c] ++ ds).length + rest.length := length_append
    rw [hwhole, ne_eq, ← length_eq_zero_iff]
    omega
  have hat : (pre ++ [c] ++ ds ++ rest).getD pre.length '\x00' = c := by simp
  rw [hlen] at hskip
  rw [hbuf, countLoop, if_pos (by simp), hat, strchr, hc, Bool.true_or, if_pos rfl]
  simp only [hskip, hlt]
  simp

/-- Within a field: that field and those behind it are counted. -/
theorem countLoop_inside : ∀ (fuel : Nat) (pre r : Text) (count : Nat), r.length ≤ fuel → '\x00' ∉ r →
    countLoop delim (pre ++ r) fuel pre.length false count =
      (false, count + (fields delim (r.dropWhile fun d => !delim.contains d)).length) := by
  intro fuel
  induction fuel with
  | zero =>
    intro pre r count hfuel _
    obtain rfl := length_eq_zero_iff.mp (le_zero.mp hfuel)
    rfl
  | succ fuel ih =>
  intro pre r count hfuel hnul
  cases r with
  | nil => rw [countLoop_end (by simp)]; rfl
  | cons c r =>
    simp only [length_cons] at hfuel
    rw [mem_cons, not_or] at hnul
    by_cases hc : delim.contains c = true
    · obtain ⟨ds, rest, rfl, hds, hrest⟩ := exists_run delim r
      rw [mem_append, not_or] at hnul
      have hstep := @countLoop_delims delim pre c fuel count ds rest hc hds hrest hnul.2.2 false
      rw [dropWhile_cons_of_neg (by simpa using hc), fields_delim hc, fields_delims hds]
      rw [append_assoc, cons_append] at hstep
      rw [hstep]
      rcases hrest with rfl | ⟨x, y, rfl, hx⟩
      · rw [countLoop_end (by simp)]
        rfl
      · have hnext := ih (pre ++ c :: ds ++ [x]) y (count + 1) (by simp at hfuel; omega)
          fun h => hnul.2.2 (List.mem_cons_of_mem _ h)
        have hbuf : pre ++ c :: ds ++ [x] ++ y = pre ++ c :: (ds ++ x :: y) := by simp
        have hlen : (pre ++ c :: ds ++ [x]).length = (pre ++ c :: ds).length + 1 := by simp [add_assoc]
        rw [hbuf, hlen] at hnext
        rw [if_pos (by simp), hnext, length_fields_cons hx, add_assoc, Nat.add_comm 1]
    · rw [Bool.not_eq_true] at hc
      rw [countLoop_field hc (Ne.symm hnul.1), ih _ r count (by omega) hnul.2,
        List.dropWhile_cons_of_pos (by simpa using hc)]

/-! ## Cutting -/

theorem stringAt_field (hf : '\x00' ∉ f) (pre rest : Text) : stringAt (pre ++ f ++ '\x00' :: rest) pre.length = f := by
  rw [stringAt, append_assoc, drop_left, CString.takeWhile_stop (by simp), List.takeWhile_eq_self_iff]
  intro c hc
  simpa using fun h : c = '\x00' => hf (h ▸ hc)

theorem stringAt_last (hf : '\x00' ∉ f) (pre : Text) : stringAt (pre ++ f) pre.length = f := by
  rw [stringAt, drop_left, List.takeWhile_eq_self_iff]
  intro c hc
  simpa using fun h : c = '\x00' => hf (h ▸ hc)

variable {filled : List Text}

theorem Coll.push_eq (h : filled.length < count) (t : Text) :
    (Coll.mk count filled).push t = some ⟨count, filled ++ [t]⟩ := if_pos h

theorem cutLoop_field (hc : delim.contains c = false) (hnul : c ≠ '\x00') (trim : Bool) (coll : Coll) :
    cutLoop delim (fuel + 1) (pre ++ f ++ c :: r) (pre ++ f).length trim pre.length coll =
      cutLoop delim fuel (pre ++ (f ++ [c]) ++ r) (pre ++ (f ++ [c])).length false pre.length coll := by
  have hat : (pre ++ f ++ c :: r).getD (pre ++ f).length '\x00' = c := getD_at _ _ _
  rw [cutLoop, if_pos (by simp), hat, strchr_eq hnul, if_neg (Bool.eq_false_iff.mp hc)]
  simp [add_assoc]

/-- One step over a run of delimiters: the field in front of it is cut off. -/
theorem cutLoop_delims (hc : delim.contains c = true) (hds : ∀ d ∈ ds, delim.contains d = true)
    (hrest : rest = [] ∨ ∃ x y, rest = x :: y ∧ delim.contains x = false) (hnul : '\x00' ∉ f ++ rest) {trim : Bool}
    (hroom : trim = false → filled.length < count) :
    cutLoop delim (fuel + 1) (pre ++ f ++ c :: (ds ++ rest)) (pre ++ f).length trim pre.length ⟨count, filled⟩ =
      cutLoop delim fuel (pre ++ f ++ '\x00' :: ds ++ rest) ((pre ++ f ++ '\x00' :: ds).length + 1) trim
        (pre ++ f ++ '\x00' :: ds).length ⟨count, filled ++ if trim then [] else [f]⟩ := by
  rw [mem_append, not_or] at hnul
  have hat : (pre ++ f ++ c :: (ds ++ rest)).getD (pre ++ f).length '\x00' = c := getD_at _ _ _
  have hset : (pre ++ f ++ c :: (ds ++ rest)).set (pre ++ f).length '\x00' = pre ++ f ++ '\x00' :: (ds ++ rest) := by
    simp
  have hpush : (if trim then some (Coll.mk count filled) else (Coll.mk count filled).push f) =
      some ⟨count, filled ++ if trim then [] else [f]⟩ := by
    cases trim with
    | true => simp
    | false => exact Coll.push_eq (hroom rfl) f
  have hskip := skipDelims_run (pre ++ f ++ ['\x00']) hds hrest hnul.2
  have hbuf : pre ++ f ++ ['\x00'] ++ ds ++ rest = pre ++ f ++ '\x00' :: (ds ++ rest) := by simp
  have hlen : (pre ++ f ++ ['\x00']).length = (pre ++ f).length + 1 := by simp; omega
  rw [hbuf, hlen] at hskip
  rw [cutLoop, if_pos (by simp), hat, strchr, hc, Bool.true_or, if_pos rfl]
  simp only [hset, stringAt_field hnul.1, hpush, hskip, Option.bind_eq_bind, Option.bind_some]
  simp [add_assoc]

/-- Within a field: that field and those behind it are cut off. -/
theorem cutLoop_inside : ∀ (fuel : Nat) (pre f r : Text) (filled : List Text), r.length ≤ fuel → '\x00' ∉ f ++ r →
    filled.length + 1 + (fields delim (r.dropWhile fun d => !delim.contains d)).length = count →
    (cutLoop delim fuel (pre ++ f ++ r) (pre ++ f).length false pre.length ⟨count, filled⟩).bind lastField =
      some ⟨count, filled ++ (f ++ r.takeWhile fun d => !delim.contains d) ::
        fields delim (r.dropWhile fun d => !delim.contains d)⟩ := by
  -- the last field has no delimiter behind it
  have hlast (fuel : Nat) (pre f : Text) (filled : List Text) (hnul : '\x00' ∉ f ++ [])
      (hcount : filled.length + 1 = count) :
      (cutLoop delim fuel (pre ++ f ++ []) (pre ++ f).length false pre.length ⟨count, filled⟩).bind lastField =
        some ⟨count, filled ++ [f]⟩ := by
    rw [append_nil] at hnul
    rw [cutLoop_end (by simp), append_nil, Option.bind_some, lastField, if_pos (by simp; omega), stringAt_last hnul,
      Coll.push_eq (by omega)]
  intro fuel
  induction fuel with
  | zero =>
    intro pre f r filled hfuel hnul hcount
    obtain rfl := length_eq_zero_iff.mp (le_zero.mp hfuel)
    simpa [fields_nil] using hlast 0 pre f filled hnul hcount
  | succ fuel ih =>
  intro pre f r filled hfuel hnul hcount
  cases r with
  | nil => simpa [fields_nil] using hlast (fuel + 1) pre f filled hnul hcount
  | cons c r =>
    simp only [length_cons] at hfuel
    simp only [mem_append, mem_cons, not_or] at hnul
    by_cases hc : delim.contains c = true
    · obtain ⟨ds, rest, rfl, hds, hrest⟩ := exists_run delim r
      rw [mem_append, not_or] at hnul
      rw [dropWhile_cons_of_neg (by simpa using hc), fields_delim hc, fields_delims hds] at hcount ⊢
      rw [List.takeWhile_cons_of_neg (by simpa using hc), append_nil]
      rw [cutLoop_delims hc hds hrest (by simp [hnul.1, hnul.2.2.2]) fun _ => by omega]
      rcases hrest with rfl | ⟨x, y, rfl, hx⟩
      · rw [cutLoop_end (by simp), Option.bind_some, lastField, if_neg (by simpa [fields_nil] using hcount)]
        rfl
      · rw [length_fields_cons hx] at hcount
        have hnext := ih (pre ++ f ++ '\x00' :: ds) [x] y (filled ++ [f]) (by simp at hfuel; omega)
          (by simpa using hnul.2.2.2) (by rw [length_append, List.length_singleton]; omega)
        have hbuf : pre ++ f ++ '\x00' :: ds ++ [x] ++ y = pre ++ f ++ '\x00' :: ds ++ x :: y := by simp
        have hlen : (pre ++ f ++ '\x00' :: ds ++ [x]).length = (pre ++ f ++ '\x00' :: ds).length + 1 := by
          simp [add_assoc]
        rw [hbuf, hlen] at hnext
        simp only [Bool.false_eq_true, if_false]
        rw [hnext, fields_field hx, append_assoc]
        rfl
    · rw [Bool.not_eq_true] at hc
      rw [List.dropWhile_cons_of_pos (by simpa using hc)] at hcount ⊢
      rw [List.takeWhile_cons_of_pos (by simpa using hc), cutLoop_field hc (Ne.symm hnul.2.1),
        ih pre (f ++ [c]) r filled (by omega) (by simp [hnul]) hcount]
      simp

/-! ## Before the first field was noticed -/

/-- From here on the loops return `outs`, both on the string and on what the second one has made of it. -/
structure Continues (delim : Text) (fuel : Nat) (before pre f r : Text) (outs : List Text) : Prop where
  counted : lastCount (countLoop delim (before ++ r) fuel before.length true 0) = outs.length
  cut : (cutLoop delim fuel (pre ++ f ++ r) (pre ++ f).length true pre.length ⟨outs.length, []⟩).bind lastField =
    some ⟨outs.length, outs⟩

theorem continues_end (delim : Text) (fuel : Nat) (before pre f : Text) : Continues delim fuel before pre f [] [] := by
  refine ⟨?_, ?_⟩
  · rw [countLoop_end (by simp)]
    rfl
  · rw [cutLoop_end (by simp)]
    rfl

/-- A field is noticed at a character that is looked at. -/
theorem continues_field (hc : delim.contains c = false) (hfuel : r.length ≤ fuel) (hnul : '\x00' ∉ f ++ c :: r)
    (before pre : Text) : Continues delim (fuel + 1) before pre f (c :: r)
      ((f ++ c :: r.takeWhile fun d => !delim.contains d) :: fields delim
        (r.dropWhile fun d => !delim.contains d)) := by
  have hnul' := hnul
  simp only [mem_append, mem_cons, not_or] at hnul
  refine ⟨?_, ?_⟩
  · rw [countLoop_field hc (Ne.symm hnul.2.1), countLoop_inside fuel _ r 0 hfuel hnul.2.2]
    simp [lastCount]
  · rw [cutLoop_field hc (Ne.symm hnul.2.1), cutLoop_inside fuel pre (f ++ [c]) r [] hfuel (by simpa using hnul')]
    · simp
    · simp [Nat.add_comm]

theorem continues_delims_end (hc : delim.contains c = true) (hds : ∀ d ∈ ds, delim.contains d = true)
    (hnul : '\x00' ∉ f) (before pre : Text) : Continues delim (fuel + 1) before pre f (c :: ds) [] := by
  refine ⟨?_, ?_⟩
  · have hstep := @countLoop_delims delim before c fuel 0 ds [] hc hds (.inl rfl) (by simp) true
    rw [append_nil] at hstep
    rw [hstep, countLoop_end (by simp)]
    rfl
  · have hstep := @cutLoop_delims delim pre f c fuel 0 ds [] [] hc hds (.inl rfl) (by simpa using hnul) true (by simp)
    rw [append_nil, append_nil] at hstep
    rw [List.length_nil, hstep, cutLoop_end (by simp)]
    rfl

/-- Behind a run of delimiters the loops are at the second character of the next field. -/
theorem continues_delims {y : Text} {x : Char} {outs : List Text} (hc : delim.contains c = true)
    (hds : ∀ d ∈ ds, delim.contains d = true) (hx : delim.contains x = false) (hnul : '\x00' ∉ f ++ x :: y)
    (h : ∀ before pre, Continues delim fuel before pre [x] y outs) (before pre : Text) :
    Continues delim (fuel + 1) before pre f (c :: (ds ++ x :: y)) outs := by
  have hrest : (x :: y : Text) = [] ∨ ∃ x' y', (x :: y : Text) = x' :: y' ∧
    delim.contains x' = false := .inr ⟨x, y, rfl, hx⟩
  refine ⟨?_, ?_⟩
  · have hnext := (h (before ++ c :: ds ++ [x]) []).counted
    have hstep := @countLoop_delims delim before c fuel 0 ds (x :: y) hc hds hrest
      (fun hmem => hnul (List.mem_append_right _ hmem)) true
    have hlen : (before ++ c :: ds ++ [x]).length = (before ++ c :: ds).length + 1 := by simp [add_assoc]
    have hbuf : before ++ c :: ds ++ [x] ++ y = before ++ c :: ds ++ x :: y := by simp
    rw [hlen, hbuf] at hnext
    rw [← hnext, show before ++ c :: (ds ++ x :: y) = before ++ c :: ds ++ x :: y by simp, hstep]
    rfl
  · have hnext := (h [] (pre ++ f ++ '\x00' :: ds)).cut
    have hlen : (pre ++ f ++ '\x00' :: ds ++ [x]).length = (pre ++ f ++ '\x00' :: ds).length + 1 := by simp [add_assoc]
    have hbuf : pre ++ f ++ '\x00' :: ds ++ [x] ++ y = pre ++ f ++ '\x00' :: ds ++ x :: y := by simp
    rw [hlen, hbuf] at hnext
    have hstep := @cutLoop_delims delim pre f c fuel outs.length ds (x :: y) [] hc hds hrest hnul true nofun
    rw [← hnext, hstep]
    simp

/-- All elements are set, but fields of one character may be missing. -/
theorem exists_continues : ∀ (fuel : Nat) (f r : Text), r.length ≤ fuel → '\x00' ∉ f ++ r →
    ∃ outs, outs.length ≤ (fields delim r).length ∧ ∀ before pre, Continues delim fuel before pre f r outs := by
  intro fuel
  induction fuel with
  | zero =>
    intro f r hfuel _
    obtain rfl := length_eq_zero_iff.mp (le_zero.mp hfuel)
    exact ⟨[], zero_le _, fun before pre => continues_end delim 0 before pre f⟩
  | succ fuel ih =>
  intro f r hfuel hnul
  cases r with
  | nil => exact ⟨[], zero_le _, fun before pre => continues_end delim _ before pre f⟩
  | cons c r =>
    simp only [length_cons] at hfuel
    by_cases hc : delim.contains c = true
    · obtain ⟨ds, rest, rfl, hds, rfl | ⟨x, y, rfl, hx⟩⟩ := exists_run delim r
      · rw [append_nil]
        exact ⟨[], zero_le _, continues_delims_end hc hds fun hmem => hnul (List.mem_append_left _ hmem)⟩
      · simp only [mem_append, mem_cons, not_or] at hnul
        obtain ⟨outs, hle, houts⟩ := ih [x] y (by simp at hfuel; omega) (by simp [hnul])
        rw [fields_delim hc, fields_delims hds]
        exact ⟨outs, hle.trans (length_fields_le x y), continues_delims hc hds hx (by simp [hnul]) houts⟩
    · rw [Bool.not_eq_true] at hc
      refine ⟨_, ?_, continues_field hc (by omega) hnul⟩
      rw [length_fields_cons hc, length_cons]

/-! ## The list of fields -/

theorem Continues.smsiSplit {outs : List Text} (h : Continues delim s.length [] [] [] s outs) :
    smsiSplit s delim = some ⟨outs.length, outs⟩ := by
  have hcount : countFields delim s = outs.length := h.counted
  rw [Split.smsiSplit, hcount]
  exact h.cut

/-- What is behind the delimiters in front. -/
theorem losesField_iff (hds : ∀ d ∈ ds, delim.contains d = true)
    (hrest : rest = [] ∨ ∃ x y, rest = x :: y ∧ delim.contains x = false) :
    LosesField delim (ds ++ rest) ↔
      ds ≠ [] ∧ ∃ x y, rest = x :: y ∧ ∀ d, y.head? = some d → delim.contains d = true := by
  have hdrop (ds rest : Text) (hds : ∀ d ∈ ds, delim.contains d = true)
      (hrest : rest = [] ∨ ∃ x y, rest = x :: y ∧ delim.contains x = false) :
      (ds ++ rest).takeWhile delim.contains = ds ∧ (ds ++ rest).dropWhile delim.contains = rest := by
    rw [List.takeWhile_append_of_pos hds, List.dropWhile_append_of_pos hds]
    rcases hrest with rfl | ⟨x, y, rfl, hx⟩
    · simp
    · rw [List.takeWhile_cons_of_neg (by simpa using hx), dropWhile_cons_of_neg (by simpa using hx)]
      simp
  obtain ⟨htake, hrest'⟩ := hdrop ds rest hds hrest
  constructor
  · rintro ⟨ds', c, r, heq, hne, hds', hc, hhead⟩
    obtain ⟨htake', hrest''⟩ := hdrop ds' (c :: r) hds' (.inr ⟨c, r, rfl, hc⟩)
    rw [heq, htake'] at htake
    rw [heq, hrest''] at hrest'
    exact ⟨htake ▸ hne, c, r, hrest'.symm, hhead⟩
  · rintro ⟨hne, x, y, rfl, hhead⟩
    rcases hrest with hnil | ⟨x', y', hcons, hx⟩
    · cases hnil
    · cases hcons
      exact ⟨ds, x, y, rfl, hne, hds, hx, hhead⟩

/-- `split` returns the fields, in order and with every element of the list set, unless the string starts with
delimiters and a field of one character. -/
theorem smsiSplit_fields_iff (hs : '\x00' ∉ s) (delim : Text) :
    smsiSplit s delim = some ⟨(fields delim s).length, fields delim s⟩ ↔ ¬ LosesField delim s := by
  obtain ⟨ds, rest, rfl, hds, hrest⟩ := exists_run delim s
  rw [losesField_iff hds hrest, fields_delims hds]
  cases ds with
  | nil =>
    simp only [ne_eq, not_true_eq_false, false_and, not_false_eq_true, iff_true]
    rcases hrest with rfl | ⟨x, y, rfl, hx⟩
    · exact (continues_end delim _ [] [] []).smsiSplit
    · rw [fields_field hx]
      exact (continues_field hx le_rfl hs [] []).smsiSplit
  | cons c ds =>
    rw [List.forall_mem_cons] at hds
    simp only [cons_append, mem_cons, mem_append, not_or] at hs ⊢
    rcases hrest with rfl | ⟨x, y, rfl, hx⟩
    · simp only [append_nil, reduceCtorEq, false_and, exists_false, and_false, not_false_eq_true, iff_true]
      exact (continues_delims_end hds.1 hds.2 (by simp) [] []).smsiSplit
    · have hfuel : (c :: (ds ++ x :: y)).length = (ds.length + y.length + 1) + 1 := by simp; omega
      by_cases hlost : ∀ d, y.head? = some d → delim.contains d = true
      · refine iff_of_false (fun hall => ?_) fun h => h ⟨List.cons_ne_nil _ _, x, y, rfl, hlost⟩
        -- the first field is not there
        obtain ⟨outs, hle, houts⟩ := exists_continues (ds.length + y.length + 1) [x] y (by omega)
          (by simp [hs])
        have hsplit := continues_delims (f := []) hds.1 hds.2 hx (by simp [hs]) houts [] []
        rw [← hfuel] at hsplit
        rw [hsplit.smsiSplit, Option.some.injEq, Coll.mk.injEq] at hall
        have hbehind : y.dropWhile (fun d => !delim.contains d) = y := by
          cases y with
          | nil => rfl
          | cons d y => rw [dropWhile_cons_of_neg (by simpa using hlost d rfl)]
        have hlen := length_fields_cons hx y
        rw [hbehind] at hlen
        omega
      · have hnot : ¬ (c :: ds ≠ [] ∧ ∃ x' y', x :: y = x' :: y' ∧ ∀ d, y'.head? = some d →
            delim.contains d = true) := by
          rintro ⟨-, x', y', heq, hhead⟩
          cases heq
          exact hlost hhead
        refine iff_of_true ?_ hnot
        push Not at hlost
        obtain ⟨d, hd, hdelim⟩ := hlost
        obtain ⟨z, rfl⟩ : ∃ z, y = d :: z := by
          cases y with
          | nil => cases hd
          | cons e z =>
            cases hd
            exact ⟨z, rfl⟩
        rw [ne_eq, Bool.not_eq_true] at hdelim
        have hlen : z.length ≤ ds.length + (d :: z).length := by simp; omega
        have hfield := continues_field (f := [x]) hdelim hlen
          (by simp only [mem_cons, not_or] at hs; simp [hs])
        have hsplit := continues_delims (f := []) hds.1 hds.2 hx (by simp only [mem_cons, not_or] at hs; simp [hs])
          hfield [] []
        rw [← hfuel] at hsplit
        rw [fields_field hx, List.takeWhile_cons_of_pos (by simpa using hdelim),
          List.dropWhile_cons_of_pos (by simpa using hdelim)]
        exact hsplit.smsiSplit

theorem smsiSplit_fields_words :
    smsiSplit " true,false ".toList ", ".toList = some ⟨2, ["true".toList, "false".toList]⟩ := by
  refine ((smsiSplit_fields_iff (by decide) _).mpr ?_).trans (by decide)
  rw [show " true,false ".toList = [' '] ++ "true,false ".toList by decide,
    losesField_iff (by decide) (.inr ⟨'t', "rue,false ".toList, by decide, by decide⟩)]
  rintro ⟨-, x, y, heq, hhead⟩
  cases heq
  exact absurd (hhead 'r' (by decide)) (by decide)

theorem smsiSplit_loses : smsiSplit ",a,b".toList ",".toList = some ⟨0, []⟩ ∧
    smsiSplit ",a,b".toList ",".toList ≠
      some ⟨(fields ",".toList ",a,b".toList).length, fields ",".toList ",a,b".toList⟩ := by decide

end Split
