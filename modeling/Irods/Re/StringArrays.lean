-- SUMMARY: When the copies of a list of strings stay in their array.
import Irods.Re.Conversion
import Mathlib.Data.List.MinMax
import Mathlib.Data.Rat.Defs

/-!
# Lists in parameters

The array of a list of strings has room for the longest string without its end. A string
of that length therefore ends where the next one starts, and the end of the last one lies
behind the array.
-/

namespace Re.Conversion

open Variables
open List (append_assoc drop_drop length_append length_cons length_drop length_map length_take mem_cons_of_mem
  mem_cons_self nil_append)

/-! ## Strings and integers of a list -/

/-- The text of a value that holds a C string. -/
def textOf (res : Res) : Option Text := res.text.filter fun s => decide ('\x00' ∉ s)

/-- The integer that a value of type integer holds. -/
def intOf (res : Res) : Option Int :=
  match res.dval with
  | .finite q => if q.den = 1 ∧ Double.inInt q.num then some q.num else none
  | _ => none

/-- The string of an element as `newStringRes` makes it. -/
def stringElem (e : Res) : Option Text :=
  match e.exprType with
  | some .string => (textOf e).filter fun s => decide (e.ival = s.length ∧ s.length < intBound)
  | _ => none

def intElem (e : Res) : Option Int :=
  match e.exprType with
  | some .int => intOf e
  | _ => none

/-- The elements one by one, if each of them is what is asked for. -/
def elems {α : Type} (f : Res → Option α) : List Res → Option (List α)
  | [] => some []
  | e :: es => match f e, elems f es with
    | some a, some l => some (a :: l)
    | _, _ => none

theorem elems_forall₂ {α : Type} {f : Res → Option α} {es : List Res} {l : List α} (h : elems f es = some l) :
    List.Forall₂ (fun e a => f e = some a) es l := by
  induction es generalizing l with
  | nil =>
    obtain rfl := Option.some.inj h
    exact .nil
  | cons e es ih =>
    rw [elems] at h
    split at h
    · rename_i a l' ha hl
      obtain rfl := Option.some.inj h
      exact .cons ha (ih hl)
    · cases h

variable {res : Res}

variable {s : Text} {n : Int}

theorem textOf_eq (h : textOf res = some s) : res.text = some s ∧ '\x00' ∉ s := by
  obtain ⟨htext, hend⟩ := Option.filter_eq_some_iff.mp h
  exact ⟨htext, of_decide_eq_true hend⟩

theorem intOf_eq (h : intOf res = some n) : res.dval = .ofInt n ∧ Double.inInt n = true := by
  unfold intOf at h
  cases hd : res.dval with
  | finite q =>
    simp only [hd] at h
    split at h
    · rename_i hq
      obtain rfl := Option.some.inj h
      exact ⟨by rw [Double.ofInt, Rat.coe_int_num_of_den_eq_one hq.1], hq.2⟩
    · cases h
  | infinite negative => simp [hd] at h
  | nan => simp [hd] at h

theorem intOf_ofInt (h : res.dval = .ofInt n) (hn : Double.inInt n = true) : intOf res = some n := by
  unfold intOf
  rw [h]
  show (if _ ∧ _ then some (n : Rat).num else _) = _
  rw [if_pos ⟨Rat.den_intCast n, by rw [Rat.num_intCast]; exact hn⟩, Rat.num_intCast]

theorem stringElem_eq {e : Res} (h : stringElem e = some s) :
    e.text = some s ∧ '\x00' ∉ s ∧ e.ival = s.length ∧ s.length < intBound := by
  unfold stringElem at h
  split at h
  · obtain ⟨htext, hlen⟩ := Option.filter_eq_some_iff.mp h
    obtain ⟨htext, hend⟩ := textOf_eq htext
    exact ⟨htext, hend, of_decide_eq_true hlen⟩
  · cases h

/-! ## What an array shows -/

/-- The length of the longest string. -/
def longest (l : List Text) : Nat := (l.map List.length).foldr max 0

/-- Every copy stays in the array: the last string is shorter than the longest one. -/
def Fits (l : List Text) : Prop :=
  ∀ last ∈ l.getLast?, last.length < longest l ∧ longest l * (l.length - 1) < intBound

instance (l : List Text) : Decidable (Fits l) := by
  unfold Fits
  cases l.getLast? with
  | none => exact .isTrue fun _ h => nomatch h
  | some last => exact decidable_of_iff (last.length < longest l ∧ longest l * (l.length - 1) < intBound) (by simp)

/-- A string of the greatest length runs on into the next one. -/
def runOn (maxlen : Nat) : List Text → List Text
  | [] => []
  | s :: l => (if s.length = maxlen then s ++ (runOn maxlen l).headD [] else s) :: runOn maxlen l

theorem length_runOn (maxlen : Nat) (l : List Text) : (runOn maxlen l).length = l.length := by
  induction l with
  | nil => rfl
  | cons s l ih => rw [runOn, length_cons, length_cons, ih]

theorem length_le_longest {l : List Text} (h : s ∈ l) : s.length ≤ longest l := by
  induction l with
  | nil => cases h
  | cons t l ih =>
    obtain rfl | h := List.mem_cons.mp h
    · exact le_max_left _ _
    · exact le_trans (ih h) (le_max_right _ _)

/-! ## One copy -/

/-- The bytes of a C string. -/
def bytes (s : Text) : List (Option Char) := (s ++ ['\x00']).map some

theorem length_bytes (s : Text) : (bytes s).length = s.length + 1 := by
  rw [bytes, length_map, length_append, List.length_singleton]

variable {dest : List (Option Char)} {src : Text}

theorem strcpy_eq {offset : Nat} (h : offset + src.length < dest.length) :
    strcpy dest offset src = .ok (dest.take offset ++ bytes src ++ dest.drop (offset + src.length + 1)) :=
  if_pos ⟨Int.natCast_nonneg offset, h⟩

theorem strcpy_ok {dest' : List (Option Char)} {offset : Int} (h : strcpy dest offset src = .ok dest') :
    0 ≤ offset ∧ offset.toNat + src.length < dest.length := by
  unfold strcpy at h
  split at h
  · assumption
  · cases h

theorem readStr_bytes (h : '\x00' ∉ s) (mem : List (Option Char)) : readStr (bytes s ++ mem) = .ok s := by
  induction s with
  | nil => rfl
  | cons c s ih =>
    have hc : c ≠ '\x00' := fun hc => h (hc ▸ mem_cons_self)
    have hrest := ih fun hmem => h (mem_cons_of_mem _ hmem)
    show (if c = '\x00' then _ else (readStr (bytes s ++ mem)).map (c :: ·)) = _
    rw [if_neg hc, hrest]
    rfl

theorem readStr_some (h : '\x00' ∉ s) (mem : List (Option Char)) :
    readStr (s.map some ++ mem) = (readStr mem).map (s ++ ·) := by
  induction s with
  | nil =>
    rw [List.map_nil, nil_append]
    cases readStr mem <;> rfl
  | cons c s ih =>
    have hc : c ≠ '\x00' := fun hc => h (hc ▸ mem_cons_self)
    have hrest := ih fun hmem => h (mem_cons_of_mem _ hmem)
    show (if c = '\x00' then _ else (readStr (s.map some ++ mem)).map (c :: ·)) = _
    rw [if_neg hc, hrest]
    cases readStr mem <;> rfl

/-! ## All copies -/

/-- The nodes hold the strings. -/
abbrev Hold (es : List Res) (l : List Text) : Prop := List.Forall₂ (fun e s => stringElem e = some s) es l

theorem maxStrLen_eq {es : List Res} {l : List Text} (h : Hold es l) : maxStrLen es = longest l := by
  have hfold : ∀ {es : List Res} {l : List Text}, Hold es l → ∀ maxlen : Nat,
      es.foldl (fun (maxlen : Int) e => if maxlen < e.ival then e.ival else maxlen) maxlen =
        (max maxlen (longest l) : Nat) := by
    intro es l h
    induction h with
    | nil => exact fun maxlen => congrArg Nat.cast (Nat.max_zero maxlen).symm
    | @cons e s es l he _ ih =>
      intro maxlen
      have hstep : (if (maxlen : Int) < e.ival then e.ival else maxlen) = (max maxlen s.length : Nat) := by
        rw [(stringElem_eq he).2.2.1]
        split <;> omega
      rw [List.foldl_cons, hstep, ih, Nat.max_assoc]
      rfl
  rw [maxStrLen, show (0 : Int) = (0 : Nat) from rfl, hfold h 0, Nat.zero_max]

theorem lt_intBound_of_int32 {x : Nat} (hx : x < 2 * intBound) (h : 0 ≤ int32 x) : x < intBound := by
  unfold int32 intBound at *
  by_contra hge
  have hmod : (x : Int).bmod (2 ^ 32) = x - 2 ^ 32 := by
    rw [Int.bmod_def]
    omega
  omega

theorem ok_bind {α β : Type} (a : α) (f : α → Except Failure β) : (Except.ok a >>= f) = f a := rfl

section Copies

variable {m : Nat}

theorem copyStrings_cons {e : Res} (htext : e.text = some s) (es : List Res) (value : List (Option Char)) (i : Int) :
    copyStrings m value i (e :: es) =
      strcpy value (int32 (m * i)) s >>= fun value => copyStrings m value (i + 1) es := by
  rw [copyStrings, htext]
  exact ok_bind s _

/-- The copy of one string, with what it leaves of the rest of the array. -/
theorem strcpy_next {done rest : List (Option Char)} {i : Nat} (hdone : done.length = m * i)
    (hroom : s.length < rest.length) (hoffset : m * i < intBound) :
    strcpy (done ++ rest) (int32 (m * i)) s = .ok (done ++ (bytes s ++ rest.drop (s.length + 1))) := by
  rw [← Int.natCast_mul, int32_natCast hoffset, ← hdone,
    strcpy_eq (by rw [length_append]; omega), List.take_left, append_assoc, Nat.add_assoc,
    List.drop_append, List.drop_eq_nil_of_le (Nat.le_add_right _ _), nil_append, Nat.add_sub_cancel_left]

variable {es : List Res} {l : List Text}

/-- What lies in front of the copies stays, and each place shows its string with what it runs on into. -/
theorem copyStrings_shows (h : Hold es l) :
    ∀ (i : Nat) (done rest : List (Option Char)), (∀ s ∈ l, s.length ≤ m) →
      (∀ last ∈ l.getLast?, last.length < m ∧ m * (i + (l.length - 1)) < intBound) →
      done.length = m * i → rest.length = m * l.length →
      ∃ cells, copyStrings m (done ++ rest) i es = .ok (done ++ cells) ∧
        ∀ j s, (runOn m l)[j]? = some s → readStr (cells.drop (m * j)) = .ok s := by
  induction h with
  | nil => exact fun _ _ _ _ _ _ _ => ⟨_, rfl, fun j s hj => by cases hj⟩
  | @cons e s es l he hes ih =>
    intro i done rest hle hlast hdone hrest
    obtain ⟨htext, hend, -, -⟩ := stringElem_eq he
    obtain ⟨last, hget⟩ : ∃ last, (s :: l).getLast? = some last := ⟨_, List.getLast?_eq_some_getLast (by simp)⟩
    obtain ⟨hshort, hbound⟩ := hlast last hget
    have hrest' : rest.length = m * l.length + m := hrest
    have hi : m * (i + 1) = m * i + m := Nat.mul_succ m i
    have hoffset : m * i < intBound :=
      lt_of_le_of_lt (Nat.mul_le_mul_left m (Nat.le_add_right i _)) hbound
    have hsm : s.length ≤ m := hle s mem_cons_self
    have hlast' : ∀ last ∈ l.getLast?, last.length < m ∧ m * (i + 1 + (l.length - 1)) < intBound := by
      intro last' hget'
      cases l with
      | nil => cases hget'
      | cons t l =>
        obtain rfl := Option.some.inj (hget.symm.trans hget')
        refine ⟨hshort, ?_⟩
        rw [show i + 1 + ((t :: l).length - 1) = i + ((s :: t :: l).length - 1) by simp; omega]
        exact hbound
    have hrun (value : List (Option Char)) (hcpy : strcpy (done ++ rest) (int32 (m * i)) s = .ok value) :
        copyStrings m (done ++ rest) i (e :: es) = copyStrings m value ((i + 1 : Nat) : Int) es := by
      rw [copyStrings_cons htext, hcpy, ok_bind]
      rfl
    by_cases hfull : s.length = m
    · -- the end of the string is the first byte of the next place
      have hl : l ≠ [] := by
        rintro rfl
        obtain rfl : s = last := Option.some.inj hget
        exact absurd hfull hshort.ne
      have hroom : s.length < rest.length := by
        have := Nat.le_mul_of_pos_right m (List.length_pos_iff.mpr hl)
        omega
      obtain ⟨cells, hcells, hshows⟩ := ih (i + 1) (done ++ s.map some)
        (some '\x00' :: rest.drop (s.length + 1)) (fun t ht => hle t (mem_cons_of_mem _ ht)) hlast'
        (by rw [length_append, length_map]; omega) (by rw [length_cons, length_drop]; omega)
      refine ⟨s.map some ++ cells, ?_, ?_⟩
      · have hbytes : done ++ (bytes s ++ rest.drop (s.length + 1)) =
            done ++ s.map some ++ some '\x00' :: rest.drop (s.length + 1) := by
          rw [bytes, List.map_append, append_assoc, append_assoc]
          rfl
        rw [hrun _ (strcpy_next hdone hroom hoffset), hbytes, hcells, append_assoc]
      · intro j t hj
        cases j with
        | zero =>
          obtain ⟨r, l', hl'⟩ : ∃ r l', runOn m l = r :: l' := by
            cases l with
            | nil => exact absurd rfl hl
            | cons t l => exact ⟨_, _, rfl⟩
          have hnext := hshows 0 r (by rw [hl']; rfl)
          rw [runOn, if_pos hfull, hl'] at hj
          obtain rfl := Option.some.inj hj
          rw [Nat.mul_zero, List.drop_zero] at hnext ⊢
          rw [readStr_some hend, hnext]
          rfl
        | succ j =>
          rw [Nat.mul_succ, Nat.add_comm, ← drop_drop, List.drop_left' (by rw [length_map, hfull])]
          exact hshows j t hj
    · have hroom : s.length < rest.length := by omega
      obtain ⟨cells, hcells, hshows⟩ := ih (i + 1)
        (done ++ (bytes s ++ (rest.drop (s.length + 1)).take (m - (s.length + 1)))) (rest.drop m)
        (fun t ht => hle t (mem_cons_of_mem _ ht)) hlast'
        (by rw [length_append, length_append, length_bytes, length_take, length_drop]; omega)
        (by rw [length_drop]; omega)
      refine ⟨bytes s ++ (rest.drop (s.length + 1)).take (m - (s.length + 1)) ++ cells, ?_, ?_⟩
      · have hcut : rest.drop (s.length + 1) =
            (rest.drop (s.length + 1)).take (m - (s.length + 1)) ++ rest.drop m := by
          conv_lhs => rw [← List.take_append_drop (m - (s.length + 1)) (rest.drop (s.length + 1))]
          rw [drop_drop, show s.length + 1 + (m - (s.length + 1)) = m by omega]
        have hbytes : done ++ (bytes s ++ rest.drop (s.length + 1)) =
            done ++ (bytes s ++ (rest.drop (s.length + 1)).take (m - (s.length + 1))) ++ rest.drop m := by
          conv_lhs => rw [hcut]
          rw [append_assoc, append_assoc]
        rw [hrun _ (strcpy_next hdone hroom hoffset), hbytes, hcells, append_assoc]
      · intro j t hj
        cases j with
        | zero =>
          rw [runOn, if_neg hfull] at hj
          obtain rfl := Option.some.inj hj
          rw [Nat.mul_zero, List.drop_zero, append_assoc]
          exact readStr_bytes hend _
        | succ j =>
          rw [Nat.mul_succ, Nat.add_comm, ← drop_drop, List.drop_left' (by
            rw [length_append, length_bytes, length_take, length_drop]
            omega)]
          exact hshows j t hj

/-- No copy beyond the array: what that says about the strings. -/
theorem copyStrings_fits (hm : m < intBound) (h : Hold es l) :
    ∀ {i : Nat} {value value' : List (Option Char)}, value.length = m * (i + l.length) → m * i < 2 * intBound →
      copyStrings m value i es = .ok value' →
      ∀ last ∈ l.getLast?, last.length < m ∧ m * (i + (l.length - 1)) < intBound := by
  induction h with
  | nil => exact fun _ _ _ _ hlast => nomatch hlast
  | @cons e s es l he hes ih =>
    intro i value value' hlen hi hrun last hlast
    rw [copyStrings_cons (stringElem_eq he).1] at hrun
    cases hcpy : strcpy value (int32 (m * i)) s with
    | error f =>
      rw [hcpy] at hrun
      cases hrun
    | ok value₁ =>
      rw [hcpy] at hrun
      obtain ⟨hnonneg, hroom⟩ := strcpy_ok hcpy
      rw [← Int.natCast_mul] at hnonneg hroom hcpy
      have hoffset := lt_intBound_of_int32 hi hnonneg
      rw [int32_natCast hoffset] at hroom hcpy
      rw [Int.toNat_natCast] at hroom
      have hi' : m * (i + 1) = m * i + m := Nat.mul_succ m i
      cases l with
      | nil =>
        obtain rfl : s = last := Option.some.inj hlast
        rw [List.length_singleton] at hlen
        exact ⟨by omega, hoffset⟩
      | cons t l =>
        rw [strcpy_eq hroom] at hcpy
        obtain rfl := Except.ok.inj hcpy
        have := ih (i := i + 1) (by
          rw [length_append, length_append, length_take, length_bytes, length_drop, hlen,
            show i + 1 + (t :: l).length = i + (s :: t :: l).length by simp; omega]
          omega) (by omega) hrun last hlast
        rw [show i + ((s :: t :: l).length - 1) = i + 1 + ((t :: l).length - 1) by simp; omega]
        exact this

end Copies

/-! ## The array of a list -/

variable {l : List Text}

variable {es : List Res}

theorem longest_lt (h : Hold es l) : longest l < intBound := by
  induction h with
  | nil => decide
  | cons he _ ih => exact max_lt (stringElem_eq he).2.2.2 ih

theorem block_length (h : Hold es l) :
    (List.replicate (maxStrLen es * (es.length : Int)).toNat (none : Option Char)).length = longest l * l.length := by
  rw [List.length_replicate, maxStrLen_eq h, h.length_eq, ← Int.natCast_mul, Int.toNat_natCast]

/-- What a list that fits shows: each string, with what it runs on into. -/
theorem strArrayOf_shows (h : Hold res.subtrees l) (hfits : Fits l) :
    ∃ value, strArrayOf res = .ok (.strArray l.length (longest l) value) ∧
      ∀ (j : Nat) (s : Text), (runOn (longest l) l)[j]? = some s →
        readStrAt value (int32 ((j : Int) * (longest l : Int))) = .ok s := by
  obtain ⟨cells, hcells, hshows⟩ := copyStrings_shows h 0 []
    (List.replicate (maxStrLen res.subtrees * res.degree).toNat none) (fun s hs => length_le_longest hs)
    (fun last hlast => by rw [Nat.zero_add]; exact hfits last hlast) rfl (block_length h)
  refine ⟨cells, ?_, ?_⟩
  · rw [strArrayOf, maxStrLen_eq h] at *
    rw [nil_append, nil_append] at hcells
    show (copyStrings _ _ ((0 : Nat) : Int) _ >>= fun value => Except.ok (Struct.strArray _ _ value)) = _
    rw [hcells, ok_bind, Res.degree, h.length_eq]
  · intro j s hj
    have hlt : j < l.length := by
      rw [← length_runOn (longest l)]
      exact (List.getElem?_eq_some_iff.mp hj).1
    obtain ⟨last, hlast⟩ : ∃ last, l.getLast? = some last := ⟨_, List.getLast?_eq_some_getLast (by
      rintro rfl
      cases hlt)⟩
    have hoffset : longest l * j < intBound :=
      lt_of_le_of_lt (Nat.mul_le_mul_left _ (by omega)) (hfits last hlast).2
    rw [← Int.natCast_mul, Nat.mul_comm, int32_natCast hoffset, readStrAt, if_pos (Int.natCast_nonneg _),
      Int.toNat_natCast]
    exact hshows j s hj

/-- A list that does not fit is copied beyond its array. -/
theorem strArrayOf_fits (h : Hold res.subtrees l) {st : Struct} (hrun : strArrayOf res = .ok st) : Fits l := by
  have hlt := longest_lt h
  rw [strArrayOf, maxStrLen_eq h] at hrun
  cases hcopy : copyStrings (longest l) (List.replicate (((longest l : Nat) : Int) * res.degree).toNat none) 0
      res.subtrees with
  | error f =>
    rw [hcopy] at hrun
    cases hrun
  | ok value =>
    have hlen := block_length h
    rw [maxStrLen_eq h] at hlen
    intro last hlast
    have := copyStrings_fits hlt h (i := 0) (by rw [Nat.zero_add]; exact hlen) (by omega) hcopy last hlast
    rwa [Nat.zero_add] at this

end Re.Conversion
