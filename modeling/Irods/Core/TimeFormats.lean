-- SUMMARY: The dates that checkDateFormat reads as documented.
import Irods.Core.Deadline

/-!
# Relative times

A time is a number with a unit letter, fields `dd.hh:mm:ss` without some of the first ones, an integer or a
calendar time. The fields are read backwards in rounds; a round ends at the first digit of the days and
leaves it for the next one.
-/

namespace RepeatTime

open CString
open List (all_eq_true append_assoc append_nil cons_append length_append length_cons length_drop length_map
  length_reverse map_cons map_nil mem_cons nil_append not_mem_nil reverse_cons)

/-! ## Formats -/

/-- The units and their seconds. -/
def units : List (Char × Nat) := [('s', 1), ('m', 60), ('h', 3600), ('d', 86400), ('y', 31536000)]

/-- The number that a text of digits stands for. -/
abbrev numeral (ds : Text) : Nat := Nat.ofDigitChars 10 ds 0

/-- A number with a unit letter. -/
structure UnitForm (s ds : Text) (u : Char) (w : Nat) : Prop where
  text : s = ds ++ [u]
  digits : AllDigits ds
  unit : (u, w) ∈ units

/-- The first field of a time has one digit or two. -/
structure FirstField (f : Text) : Prop where
  digits : AllDigits f
  length : f.length ≤ 2

structure Field (f : Text) : Prop where
  digits : AllDigits f
  length : f.length = 2

/-- `[[[dd.]hh:]mm:]ss`, with the sum of the fields in seconds. -/
inductive FieldForm : Text → Nat → Prop where
  | ss {s : Text} (hs : FirstField s) : FieldForm s (numeral s)
  | mm {m s : Text} (hm : FirstField m) (hs : Field s) : FieldForm (m ++ ':' :: s) (60 * numeral m + numeral s)
  | hh {h m s : Text} (hh : FirstField h) (hm : Field m) (hs : Field s) :
      FieldForm (h ++ ':' :: (m ++ ':' :: s)) (3600 * numeral h + 60 * numeral m + numeral s)
  | dd {d h m s : Text} (hd : FirstField d) (hh : Field h) (hm : Field m) (hs : Field s) :
      FieldForm (d ++ '.' :: (h ++ ':' :: (m ++ ':' :: s)))
        (86400 * numeral d + 3600 * numeral h + 60 * numeral m + numeral s)

/-- A full date, or the beginning of one from the year on. -/
structure CalendarForm (s : Text) : Prop where
  year : 4 ≤ s.length
  length : s.length ≤ 19
  date : isFullDate (s ++ fullDate.drop s.length)

/-- The text becomes a number of seconds. -/
def Becomes (mktime : Tm → Int) (s : Text) (x : Nat) : Prop :=
  ∃ r, checkDateFormat mktime s = some (0, r) ∧ AllDigits r ∧ numeral r = x

def Refused (mktime : Tm → Int) (s : Text) : Prop := ∃ r, checkDateFormat mktime s = some (DATE_FORMAT_ERR, r)

/-- What the documentation says of a text. -/
structure Documented (mktime : Tm → Int) (s : Text) : Prop where
  unit : ∀ ds u w, UnitForm s ds u w → numeral ds * w < longBound → Becomes mktime s (numeral ds * w)
  fields : ∀ x, FieldForm s x → Becomes mktime s x
  other : (∀ ds u w, ¬ UnitForm s ds u w) → (∀ x, ¬ FieldForm s x) → ¬ AllDigits s → ¬ CalendarForm s → Refused mktime s

/-! ## Shapes -/

/-- A text with its digits all alike. -/
def shapeOf (s : Text) : Text := s.map fun c => if c.isDigit then '0' else c

/-- All that two rounds over the fields can pass. -/
def longest : Text := "00:00:000.00:00:00".toList

/-- The text is a last part of it. -/
def Passes (s : Text) : Prop := shapeOf s <:+ longest

namespace Place

def shape : Place → Char
  | .digit _ => '0'
  | .sep c => c

/-- The character is one for the place. -/
def Admits (p : Place) (c : Char) : Prop := shapeOf [c] = [p.shape]

end Place

variable {c : Char}

theorem shapeOf_digit : shapeOf [c] = ['0'] ↔ c.isDigit = true := by
  simp only [shapeOf, map_cons, map_nil, List.cons.injEq, and_true]
  split
  · rename_i h
    exact iff_of_true rfl h
  · rename_i h
    refine iff_of_false (fun heq => h ?_) h
    rw [heq]
    decide

variable {d : Char} {r s : Text}

theorem shapeOf_sep (hd : d.isDigit = false) : shapeOf [c] = [d] ↔ c = d := by
  simp only [shapeOf, map_cons, map_nil, List.cons.injEq, and_true]
  split
  · rename_i h
    constructor
    · rintro rfl
      exact absurd hd (by decide)
    · rintro rfl
      rw [hd] at h
      cases h
  · exact Iff.rfl

/-- What the digits at the places are worth. -/
def worth : List Place → Text → Int
  | .digit w :: ps, c :: r => w * ((c.toNat : Int) - 48) + worth ps r
  | .sep _ :: ps, _ :: r => worth ps r
  | _, _ => 0

/-- The text goes along the places as far as both last. -/
def Along : List Place → Text → Prop
  | p :: ps, c :: r => p.Admits c ∧ Along ps r
  | _, _ => True

variable (v : Nat) (p : Place) (ps : List Place)

theorem worth_nil : worth ps [] = 0 := by
  unfold worth
  split <;> first | rfl | contradiction

theorem along_nil : Along ps [] := by
  cases ps <;> trivial

theorem offsetRound_digit (c : Char) (r : Text) (offset : Int) : offsetRound (.digit v :: p :: ps) (c :: r) offset =
      if c.isDigit then offsetRound (p :: ps) r (offset + v * ((c.toNat : Int) - 48)) else none := by
  rw [offsetRound]
  exact List.cons_ne_nil p ps

variable {w : Nat}

theorem admits_digit : (Place.digit w).Admits c ↔ c.isDigit = true := shapeOf_digit

theorem admits_sep (hd : d.isDigit = false) : (Place.sep d).Admits c ↔ c = d := shapeOf_sep hd

/-- A round passes what goes along its places, all but the last of them. -/
theorem offsetRound_spec (w : Nat) {qs : List Place} (hseps : ∀ c, Place.sep c ∈ qs → c.isDigit = false) (r : Text)
    (offset : Int) :
    (Along (qs ++ [.digit w]) r →
      offsetRound (qs ++ [.digit w]) r offset = some (offset + worth (qs ++ [.digit w]) r, r.drop qs.length)) ∧
    (¬ Along (qs ++ [.digit w]) r → offsetRound (qs ++ [.digit w]) r offset = none) := by
  induction qs generalizing r offset with
  | nil =>
    cases r with
    | nil => exact ⟨fun _ => by simp [offsetRound, worth], fun hnot => absurd (along_nil _) hnot⟩
    | cons c r =>
      have halong : Along [.digit w] (c :: r) ↔ c.isDigit = true := by
        rw [Along, admits_digit]
        exact and_iff_left trivial
      rw [nil_append, halong]
      refine ⟨fun hc => ?_, fun hc => ?_⟩
      · rw [offsetRound, if_pos hc]
        simp [worth]
      · rw [offsetRound, if_neg hc]
  | cons q qs ih =>
    cases r with
    | nil => exact ⟨fun _ => by simp [offsetRound, worth], fun hnot => absurd (along_nil _) hnot⟩
    | cons c r =>
      have hih := ih (fun d hd => hseps d (List.mem_cons_of_mem _ hd)) r
      have hdrop : (c :: r).drop (q :: qs).length = r.drop qs.length := rfl
      obtain ⟨p, ps, hps⟩ := List.exists_cons_of_ne_nil (show qs ++ [.digit w] ≠ [] by simp)
      rw [hdrop, cons_append, Along]
      rw [hps] at hih ⊢
      cases q with
      | digit v =>
        rw [admits_digit, offsetRound_digit, worth]
        by_cases hc : c.isDigit = true
        · obtain ⟨hyes, hno⟩ := hih (offset + v * ((c.toNat : Int) - 48))
          rw [if_pos hc, and_iff_right hc, ← Int.add_assoc]
          exact ⟨hyes, hno⟩
        · rw [if_neg hc]
          exact ⟨fun h => absurd h.1 hc, fun _ => rfl⟩
      | sep d =>
        rw [admits_sep (hseps d List.mem_cons_self), offsetRound, worth]
        by_cases hc : c = d
        · obtain ⟨hyes, hno⟩ := hih offset
          rw [if_pos hc, and_iff_right hc]
          exact ⟨hyes, hno⟩
        · rw [if_neg hc]
          exact ⟨fun h => absurd h.1 hc, fun _ => rfl⟩

theorem places_eq : places = places.take 10 ++ [.digit (10 * 24 * 3600)] := rfl

/-- Two rounds read a text of less than 19 characters: the places once, and again from the first digit of the days. -/
theorem offsetRounds_spec (hlen : r.length < 19) :
    (Along places r ∧ Along places (r.drop 10) →
      offsetRounds 20 r 0 = some (worth places r + worth places (r.drop 10))) ∧
      (¬ (Along places r ∧ Along places (r.drop 10)) → offsetRounds 20 r 0 = none) := by
  have hround (r : Text) (offset : Int) := @offsetRound_spec (10 * 24 * 3600) (places.take 10)
    (fun c hc => by
      simp only [places, List.take_succ_cons, List.take_zero, mem_cons, Place.sep.injEq, reduceCtorEq, false_or,
        not_mem_nil, or_false] at hc
      obtain rfl | rfl | rfl := hc <;> decide) r offset
  rw [← places_eq] at hround
  have hend (k : Nat) (o : Int) : offsetRounds (k + 1) [] o = some o := by rw [offsetRounds]
  have hstep (k : Nat) (r : Text) (o : Int) (hr : r ≠ []) : offsetRounds (k + 1) r o =
      (offsetRound places r o).bind fun p => offsetRounds k p.2 p.1 := by
    obtain ⟨c, r, rfl⟩ := List.exists_cons_of_ne_nil hr
    rw [offsetRounds]
    cases offsetRound places (c :: r) o <;> rfl
  by_cases hr : r = []
  · subst hr
    refine ⟨fun _ => ?_, fun hnot => absurd ⟨along_nil _, along_nil _⟩ hnot⟩
    rw [hend, List.drop_nil, worth_nil, Int.add_zero]
  · rw [hstep 19 r 0 hr]
    by_cases hfirst : Along places r
    · rw [(hround r 0).1 hfirst, and_iff_right hfirst, Option.bind_some]
      have htake : (places.take 10).length = 10 := rfl
      rw [htake, Int.zero_add]
      by_cases hrest : r.drop 10 = []
      · rw [hrest, hend, worth_nil, Int.add_zero]
        exact ⟨fun _ => rfl, fun hnot => absurd (along_nil _) hnot⟩
      · rw [hstep 18 _ _ hrest]
        have hdrop : (r.drop 10).drop 10 = [] := by
          rw [List.drop_drop]
          exact List.drop_eq_nil_of_le (by omega)
        obtain ⟨hyes, hno⟩ := hround (r.drop 10) (worth places r)
        refine ⟨fun hsecond => ?_, fun hsecond => ?_⟩
        · rw [hyes hsecond, Option.bind_some, htake, hdrop, hend]
        · rw [hno hsecond, Option.bind_none]
    · rw [(hround r 0).2 hfirst]
      exact ⟨fun h => absurd h.1 hfirst, fun _ => rfl⟩

theorem prefix_append_iff {α : Type} {l A B : List α} :
    l <+: A ++ B ↔ l.take A.length <+: A ∧ l.drop A.length <+: B := by
  induction A generalizing l with
  | nil => simp
  | cons a A ih =>
    cases l with
    | nil => simp
    | cons b l =>
      rw [cons_append, List.cons_prefix_cons, length_cons, List.take_succ_cons, List.drop_succ_cons,
        List.cons_prefix_cons, ih, and_assoc]

theorem along_iff {ps : List Place} : Along ps r ↔ (shapeOf r).take ps.length <+: ps.map Place.shape := by
  induction ps generalizing r with
  | nil => exact iff_of_true (by cases r <;> trivial) (by simp)
  | cons p ps ih =>
    cases r with
    | nil => exact iff_of_true (along_nil _) (by simp [shapeOf])
    | cons c r =>
      have hcons : shapeOf (c :: r) = (if c.isDigit then '0' else c) :: shapeOf r := rfl
      rw [Along, ih, hcons, length_cons, List.take_succ_cons, map_cons, List.cons_prefix_cons, Place.Admits]
      simp [shapeOf]

theorem Passes.length_le (h : Passes s) : s.length ≤ 18 := by
  have hle := List.IsSuffix.length_le h
  rwa [shapeOf, length_map] at hle

/-- What the rounds pass is a last part of the longest shape. -/
theorem passes_iff (hlen : s.length < 19) : Passes s ↔ Along places s.reverse ∧ Along places (s.reverse.drop 10) := by
  have hsplit : longest.reverse = (places.take 10).map Place.shape ++ (places.take 8).map Place.shape := by decide
  have hplaces : places.map Place.shape = (places.take 10).map Place.shape ++ ['0'] := rfl
  have hplaces' : places.map Place.shape = (places.take 8).map Place.shape ++ (places.drop 8).map Place.shape := rfl
  have hshape : shapeOf (s.reverse.drop 10) = (shapeOf s.reverse).drop 10 := List.map_drop
  have hx : (shapeOf s.reverse).length = s.length := by rw [shapeOf, length_map, length_reverse]
  rw [Passes, ← List.reverse_prefix, hsplit, prefix_append_iff, along_iff, along_iff, hshape,
    show (shapeOf s).reverse = shapeOf s.reverse from List.map_reverse.symm]
  generalize shapeOf s.reverse = x at hx ⊢
  have hrest : ((x.drop 10).take places.length) = x.drop 10 := List.take_of_length_le (by
    rw [length_drop, show places.length = 11 from rfl]
    omega)
  have height : (x.drop 10).take 8 = x.drop 10 := List.take_of_length_le (by rw [length_drop]; omega)
  have hnone : (x.drop 10).drop 8 = [] := List.drop_eq_nil_of_le (by rw [length_drop]; omega)
  rw [hrest, hplaces, prefix_append_iff, ← hplaces, hplaces', prefix_append_iff]
  have hten : ((places.take 10).map Place.shape).length = 10 := rfl
  have height' : ((places.take 8).map Place.shape).length = 8 := rfl
  rw [hten, height', height, hnone, List.take_take, show min 10 places.length = 10 from rfl, List.drop_take,
    show places.length - 10 = 1 from rfl]
  constructor
  · rintro ⟨hfirst, hsecond⟩
    exact ⟨⟨hfirst, hsecond.take 1⟩, hsecond, List.nil_prefix⟩
  · rintro ⟨⟨hfirst, -⟩, hsecond, -⟩
    exact ⟨hfirst, hsecond⟩

/-! ## Fields -/

variable {a : Char}

theorem numeral_one (ha : a.isDigit = true) : (numeral [a] : Int) = a.toNat - 48 := by
  have h := (Char.isDigit_iff_toNat.mp ha).1
  have hzero : '0'.toNat = 48 := by decide
  simp only [numeral, Nat.ofDigitChars_cons, Nat.ofDigitChars_nil, hzero]
  omega

theorem numeral_two {b : Char} (ha : a.isDigit = true) (hb : b.isDigit = true) :
    (numeral [a, b] : Int) = 10 * ((a.toNat : Int) - 48) + ((b.toNat : Int) - 48) := by
  have h := (Char.isDigit_iff_toNat.mp ha).1
  have h' := (Char.isDigit_iff_toNat.mp hb).1
  have hzero : '0'.toNat = 48 := by decide
  simp only [numeral, Nat.ofDigitChars_cons, Nat.ofDigitChars_nil, hzero] at h h' ⊢
  omega

variable {f s : Text} {x : Nat}

theorem FirstField.chars (h : FirstField f) :
    (∃ a, a.isDigit = true ∧ f = [a]) ∨ ∃ a b, a.isDigit = true ∧ b.isDigit = true ∧ f = [a, b] := by
  match f, h with
  | [], h => exact absurd rfl h.digits.ne_nil
  | [a], h => exact .inl ⟨a, h.digits.digit a (by simp), rfl⟩
  | [a, b], h => exact .inr ⟨a, b, h.digits.digit a (by simp), h.digits.digit b (by simp), rfl⟩
  | _ :: _ :: _ :: _, h => exact absurd h.length (by simp)

theorem Field.chars (h : Field f) : ∃ a b, a.isDigit = true ∧ b.isDigit = true ∧ f = [a, b] := by
  obtain ⟨a, -, rfl⟩ | h' := FirstField.chars ⟨h.digits, Nat.le_of_eq h.length⟩
  · exact absurd h.length (by simp)
  · exact h'

theorem shapeOf_append (a b : Text) : shapeOf (a ++ b) = shapeOf a ++ shapeOf b := List.map_append

theorem Field.shape (h : Field f) : shapeOf f = ['0', '0'] := by
  obtain ⟨a, b, ha, hb, rfl⟩ := h.chars
  simp [shapeOf, ha, hb]

theorem FirstField.shape (h : FirstField f) : shapeOf f = ['0'] ∨ shapeOf f = ['0', '0'] := by
  obtain ⟨a, ha, rfl⟩ | ⟨a, b, ha, hb, rfl⟩ := h.chars
  · simp [shapeOf, ha]
  · simp [shapeOf, ha, hb]

theorem FirstField.numeral_lt (h : FirstField f) : numeral f < 100 := by
  have hnine : '9'.toNat = 57 := by decide
  obtain ⟨a, ha, rfl⟩ | ⟨a, b, ha, hb, rfl⟩ := h.chars
  · have hrange := (Char.isDigit_iff_toNat.mp ha).2
    have hnum := numeral_one ha
    omega
  · have hrange := (Char.isDigit_iff_toNat.mp ha).2
    have hrange' := (Char.isDigit_iff_toNat.mp hb).2
    have hnum := numeral_two ha hb
    omega

theorem Field.first (h : Field f) : FirstField f := ⟨h.digits, Nat.le_of_eq h.length⟩

theorem worth_digit (w : Nat) (ps : List Place) (c : Char) (r : Text) :
    worth (.digit w :: ps) (c :: r) = w * ((c.toNat : Int) - 48) + worth ps r := rfl

theorem worth_sep (d : Char) (ps : List Place) (c : Char) (r : Text) : worth (.sep d :: ps) (c :: r) = worth ps r := rfl

/-- The two places of a field. -/
theorem worth_field (h : Field f) (w : Nat) (ps : List Place) (r : Text) :
    worth (.digit w :: .digit (10 * w) :: ps) (f.reverse ++ r) = w * numeral f + worth ps r := by
  obtain ⟨a, b, ha, hb, rfl⟩ := h.chars
  have htens : (w : Int) * (10 * ((a.toNat : Int) - 48)) = ((10 * w : Nat) : Int) * ((a.toNat : Int) - 48) := by
    rw [Int.natCast_mul, Int.mul_left_comm, ← Int.mul_assoc]
    rfl
  rw [numeral_two ha hb, show [a, b].reverse ++ r = b :: a :: r from rfl, worth_digit, worth_digit, Int.mul_add, htens]
  omega

theorem worth_firstField (h : FirstField f) (w : Nat) (ps : List Place) :
    worth (.digit w :: .digit (10 * w) :: ps) f.reverse = w * numeral f := by
  obtain ⟨a, ha, rfl⟩ | ⟨a, b, ha, hb, rfl⟩ := h.chars
  · rw [numeral_one ha, List.reverse_singleton, worth_digit, worth_nil, Int.add_zero]
  · have hfield := worth_field (f := [a, b]) ⟨h.digits, rfl⟩ w ps []
    rwa [append_nil, worth_nil, Int.add_zero] at hfield

theorem places_fields : places = .digit 1 :: .digit (10 * 1) :: .sep ':' :: .digit 60 :: .digit (10 * 60) :: .sep ':' ::
    .digit 3600 :: .digit (10 * 3600) :: .sep '.' :: .digit 86400 :: .digit (10 * 86400) :: [] := rfl

theorem FieldForm.worth_eq (h : FieldForm s x) : worth places s.reverse = x := by
  rw [places_fields]
  cases h with
  | ss hs =>
    rw [worth_firstField hs]
    omega
  | mm hm hs =>
    simp only [List.reverse_append, reverse_cons, append_assoc, nil_append, cons_append]
    rw [worth_field hs, worth_sep, worth_firstField hm]
    omega
  | hh hh hm hs =>
    simp only [List.reverse_append, reverse_cons, append_assoc, nil_append, cons_append]
    rw [worth_field hs, worth_sep, worth_field hm, worth_sep, worth_firstField hh]
    omega
  | dd hd hh hm hs =>
    simp only [List.reverse_append, reverse_cons, append_assoc, nil_append, cons_append]
    rw [worth_field hs, worth_sep, worth_field hm, worth_sep, worth_field hh, worth_sep, worth_firstField hd]
    omega

theorem FieldForm.lt (h : FieldForm s x) : x < 10000000 := by
  cases h with
  | ss hs =>
    have := hs.numeral_lt
    omega
  | mm hm hs =>
    have := hm.numeral_lt
    have := hs.first.numeral_lt
    omega
  | hh hh hm hs =>
    have := hh.numeral_lt
    have := hm.first.numeral_lt
    have := hs.first.numeral_lt
    omega
  | dd hd hh hm hs =>
    have := hd.numeral_lt
    have := hh.first.numeral_lt
    have := hm.first.numeral_lt
    have := hs.first.numeral_lt
    omega

/-- The shapes of the field forms. -/
def fieldShapes : List Text :=
  [['0'], ['0', '0']].flatMap fun f => [f, f ++ ":00".toList, f ++ ":00:00".toList, f ++ ".00:00:00".toList]

theorem FirstField.mem_shapes (h : FirstField f) : shapeOf f ∈ [['0'], ['0', '0']] := by
  simpa using h.shape

theorem FieldForm.shape (h : FieldForm s x) : shapeOf s ∈ fieldShapes := by
  have hcolon (t : Text) : shapeOf (':' :: t) = ':' :: shapeOf t := rfl
  have hdot (t : Text) : shapeOf ('.' :: t) = '.' :: shapeOf t := rfl
  rw [fieldShapes, List.mem_flatMap]
  cases h with
  | ss hs => exact ⟨_, hs.mem_shapes, by simp⟩
  | mm hm hs =>
    refine ⟨_, hm.mem_shapes, ?_⟩
    rw [shapeOf_append, hcolon, hs.shape]
    simp
  | hh hh hm hs =>
    refine ⟨_, hh.mem_shapes, ?_⟩
    rw [shapeOf_append, hcolon, shapeOf_append, hcolon, hs.shape, hm.shape]
    simp
  | dd hd hh hm hs =>
    refine ⟨_, hd.mem_shapes, ?_⟩
    rw [shapeOf_append, hdot, shapeOf_append, hcolon, shapeOf_append, hcolon, hs.shape, hm.shape, hh.shape]
    simp

theorem digits_of_shape (hne : f ≠ []) (h : ∀ c ∈ shapeOf f, c = '0') : AllDigits f := by
  refine ⟨hne, fun c hc => shapeOf_digit.mp ?_⟩
  have hzero := h _ (List.mem_map_of_mem hc)
  rw [shapeOf, map_cons, map_nil, hzero]

theorem length_shapeOf (s : Text) : (shapeOf s).length = s.length := length_map _

theorem field_of_shape (h : shapeOf f = ['0', '0']) : Field f := by
  have hlen : f.length = 2 := by rw [← length_shapeOf, h]; rfl
  exact ⟨digits_of_shape (List.ne_nil_of_length_pos (by omega)) (by rw [h]; simp), hlen⟩

theorem firstField_of_shape (h : shapeOf f ∈ [['0'], ['0', '0']]) : FirstField f := by
  have hlen := length_shapeOf f
  simp only [mem_cons, not_mem_nil, or_false] at h
  obtain h | h := h <;> rw [h] at hlen
  · exact ⟨digits_of_shape (List.ne_nil_of_length_pos (by rw [← hlen]; decide)) (by rw [h]; simp),
      by rw [← hlen]; decide⟩
  · exact ⟨digits_of_shape (List.ne_nil_of_length_pos (by rw [← hlen]; decide)) (by rw [h]; simp),
      by rw [← hlen]; decide⟩

/-- A text is split where its shape has a separator. -/
theorem shapeOf_split {A B : Text} (hc : c.isDigit = false) (h : shapeOf s = A ++ c :: B) :
    ∃ a b, s = a ++ c :: b ∧ shapeOf a = A ∧ shapeOf b = B := by
  obtain ⟨a, t, rfl, ha, ht⟩ := List.map_eq_append_iff.mp h
  obtain ⟨d, b, rfl, hd, hb⟩ := List.map_eq_cons_iff.mp ht
  have hdc : d = c := (shapeOf_sep hc).mp (by rw [shapeOf, map_cons, map_nil, hd])
  exact ⟨a, b, by rw [hdc], ha, hb⟩

/-- A text of one of the shapes is a field form. -/
theorem fieldForm_of_shape (h : shapeOf s ∈ fieldShapes) : ∃ x, FieldForm s x := by
  rw [fieldShapes, List.mem_flatMap] at h
  obtain ⟨f, hf, h⟩ := h
  simp only [mem_cons, not_mem_nil, or_false] at h
  obtain h | h | h | h := h
  · exact ⟨_, .ss (firstField_of_shape (h ▸ hf))⟩
  · obtain ⟨m, s, rfl, hm, hs⟩ := shapeOf_split (c := ':') (B := ['0', '0']) (by decide) h
    exact ⟨_, .mm (firstField_of_shape (hm ▸ hf)) (field_of_shape hs)⟩
  · obtain ⟨a, t, rfl, ha, ht⟩ := shapeOf_split (c := ':') (B := "00:00".toList) (by decide) h
    obtain ⟨m, s, rfl, hm, hs⟩ := shapeOf_split (c := ':') (A := ['0', '0']) (B := ['0', '0']) (by decide) ht
    exact ⟨_, .hh (firstField_of_shape (ha ▸ hf)) (field_of_shape hm) (field_of_shape hs)⟩
  · obtain ⟨d, t, rfl, hd, ht⟩ := shapeOf_split (c := '.') (B := "00:00:00".toList) (by decide) h
    obtain ⟨a, t, rfl, ha, ht⟩ := shapeOf_split (c := ':') (A := ['0', '0']) (B := "00:00".toList) (by decide) ht
    obtain ⟨m, s, rfl, hm, hs⟩ := shapeOf_split (c := ':') (A := ['0', '0']) (B := ['0', '0']) (by decide) ht
    exact ⟨_, .dd (firstField_of_shape (hd ▸ hf)) (field_of_shape ha) (field_of_shape hm) (field_of_shape hs)⟩

/-! ## What the check does -/

/-- The lengths of the field forms. -/
def fieldLengths : List Nat := [1, 2, 4, 5, 7, 8, 10, 11]

theorem Passes.shape_eq (h : Passes s) : shapeOf s = longest.drop (18 - s.length) := by
  rw [List.suffix_iff_eq_drop.mp h, length_shapeOf]
  rfl

theorem passes_of_shape (h : shapeOf s ∈ fieldShapes) : Passes s ∧ s.length ∈ fieldLengths := by
  have hall : ∀ t ∈ fieldShapes, t <:+ longest ∧ t.length ∈ fieldLengths := by decide
  rw [← length_shapeOf]
  exact hall _ h

theorem Passes.fieldForm (h : Passes s) (hlen : s.length ∈ fieldLengths) : ∃ x, FieldForm s x := by
  have hall : ∀ n ∈ fieldLengths, longest.drop (18 - n) ∈ fieldShapes := by decide
  exact fieldForm_of_shape (h.shape_eq ▸ hall _ hlen)

variable {i : Nat}

/-- The places of a text that passes. -/
theorem Passes.get (h : Passes s) (hi : i < s.length) :
    longest[18 - s.length + i]? = some (if s[i].isDigit then '0' else s[i]) := by
  rw [← List.getElem?_drop, ← h.shape_eq, shapeOf, List.getElem?_map, List.getElem?_eq_getElem hi]
  rfl

theorem Passes.isDigit_iff (h : Passes s) (hi : i < s.length) :
    s[i].isDigit = true ↔ longest[18 - s.length + i]? = some '0' := by
  rw [h.get hi]
  split
  · rename_i hdigit
    exact iff_of_true hdigit rfl
  · rename_i hdigit
    refine iff_of_false hdigit fun heq => hdigit ?_
    rw [Option.some.inj heq]
    decide

/-- One of the first places of a longer text is a separator. -/
theorem Passes.separator (h : Passes s) (hlen : 3 ≤ s.length) :
    ∃ i, ∃ hi : i < s.length, i < 4 ∧ s[i].isDigit = false := by
  have hall : ∀ n < 19, 3 ≤ n → ∃ i < 4, i < n ∧ longest[18 - n + i]? ≠ some '0' := by decide
  obtain ⟨i, hfour, hi, hsep⟩ := hall s.length (by have := h.length_le; omega) hlen
  exact ⟨i, hi, hfour, by rw [Bool.eq_false_iff]; exact fun hdigit => hsep ((h.isDigit_iff hi).mp hdigit)⟩

/-- No unit letter at the end. -/
def Unitless (s : Text) : Prop := s.getLast?.bind unitSeconds = none

theorem unitless_of_isDigit (h : ∀ c ∈ s.getLast?, c.isDigit = true) : Unitless s := by
  rw [Unitless, Option.bind_eq_none_iff]
  intro c hc
  cases hunit : unitSeconds c with
  | none => rfl
  | some w =>
    have hdigit := h c hc
    rw [not_isDigit_of_unitSeconds hunit] at hdigit
    cases hdigit

theorem Passes.unitless (h : Passes s) : Unitless s := by
  refine unitless_of_isDigit fun c hc => ?_
  have hne : s ≠ [] := by
    rintro rfl
    cases hc
  have hpos := List.length_pos_iff.mpr hne
  have hlast : s[s.length - 1] = c := by
    rw [List.getLast?_eq_getElem?, List.getElem?_eq_getElem (by omega)] at hc
    exact Option.some.inj hc
  rw [← hlast, h.isDigit_iff (by omega), show 18 - s.length + (s.length - 1) = 17 by have := h.length_le; omega]
  decide

/-- A text that begins with a year. -/
def BeginsWithYear (s : Text) : Prop := [0, 1, 2, 3].all (fun i => (s[i]?.getD '\x00').isDigit) = true

instance (s : Text) : Decidable (BeginsWithYear s) := inferInstanceAs (Decidable (_ = true))

theorem BeginsWithYear.digit (h : BeginsWithYear s) (hi : i < 4) : ∃ c, s[i]? = some c ∧ c.isDigit = true := by
  have hall := all_eq_true.mp h i (by simp; omega)
  cases hget : s[i]? with
  | none =>
    rw [hget] at hall
    exact absurd hall (by decide)
  | some c =>
    rw [hget] at hall
    exact ⟨c, rfl, hall⟩

theorem Passes.not_year (h : Passes s) : ¬ BeginsWithYear s := by
  intro hyear
  obtain ⟨c, hc, -⟩ := hyear.digit (i := 3) (by decide)
  obtain ⟨hthree, -⟩ := List.getElem?_eq_some_iff.mp hc
  obtain ⟨i, hi, hfour, hsep⟩ := h.separator (by omega)
  obtain ⟨d, hd, hdigit⟩ := hyear.digit hfour
  rw [List.getElem?_eq_getElem hi] at hd
  rw [Option.some.inj hd, hdigit] at hsep
  cases hsep

variable {mktime : Tm → Int} {s : Text}

theorem isInteger_iff : isInteger s = true ↔ s = [] ∨ AllDigits s := by
  rw [isInteger, all_eq_true]
  refine ⟨fun h => ?_, fun h c hc => ?_⟩
  · by_cases hnil : s = []
    · exact .inl hnil
    · exact .inr ⟨hnil, h⟩
  · obtain rfl | h := h
    · cases hc
    · exact h.digit c hc

theorem check_integer (h : isInteger s = true) : checkDateFormat mktime s = some (0, s) := if_pos h

theorem check_unitless (hint : isInteger s = false) (hunit : Unitless s) : checkDateFormat mktime s =
    if s.length < 19 then
      if BeginsWithYear s then fromFullDate mktime (s ++ fullDate.drop s.length)
      else
        match offsetRounds 20 s.reverse 0 with
        | some offset => some (0, decimal (int32 offset))
        | none => some (DATE_FORMAT_ERR, s)
    else fromFullDate mktime s := by
  rw [checkDateFormat, hint, if_neg Bool.false_ne_true, show s.getLast?.bind unitSeconds = none from hunit]
  rfl

theorem check_unit {u : Char} {w : Int} (hlast : s.getLast? = some u) (hu : unitSeconds u = some w) :
    checkDateFormat mktime s = some (0, decimal (int32 (atoi s.dropLast * w))) := by
  have hint : isInteger s = false := by
    rw [Bool.eq_false_iff]
    intro h
    have hdigit := all_eq_true.mp h u (List.mem_of_getLast? hlast)
    rw [not_isDigit_of_unitSeconds hu] at hdigit
    cases hdigit
  rw [checkDateFormat, hint, if_neg Bool.false_ne_true, hlast, Option.bind_some, hu]

theorem check_passes (h : Passes s) (hlen : 3 ≤ s.length) : checkDateFormat mktime s =
    some (0, decimal (int32 (worth places s.reverse + worth places (s.reverse.drop 10)))) := by
  have hlt : s.length < 19 := Nat.lt_succ_of_le h.length_le
  have hint : isInteger s = false := by
    obtain ⟨i, hi, -, hsep⟩ := h.separator hlen
    rw [Bool.eq_false_iff]
    intro hall
    rw [all_eq_true.mp hall _ (List.getElem_mem hi)] at hsep
    cases hsep
  rw [check_unitless hint h.unitless, if_pos hlt, if_neg h.not_year,
    (offsetRounds_spec (by rwa [length_reverse])).1 ((passes_iff hlt).mp h)]

theorem check_not_passes (hint : isInteger s = false) (hunit : Unitless s) (hlt : s.length < 19)
    (hyear : ¬ BeginsWithYear s) (h : ¬ Passes s) : Refused mktime s := by
  refine ⟨s, ?_⟩
  rw [check_unitless hint hunit, if_pos hlt, if_neg hyear,
    (offsetRounds_spec (by rwa [length_reverse])).2 fun halong => h ((passes_iff hlt).mpr halong)]

theorem fromFullDate_refused (h : ¬ isFullDate s = true) : fromFullDate mktime s = some (DATE_FORMAT_ERR, s) := if_neg h

/-- A full date is not refused, whatever follows it. -/
theorem fromFullDate_not_refused (h : isFullDate s = true) (r : Text) :
    fromFullDate mktime s ≠ some (DATE_FORMAT_ERR, r) := by
  rw [fromFullDate, if_pos h]
  cases localToUnixTime mktime s with
  | none =>
    intro heq
    cases heq
  | some t =>
    intro heq
    exact absurd (congrArg Prod.fst (Option.some.inj heq)) (show (0 : Int) ≠ DATE_FORMAT_ERR by decide)

theorem refused_of_ok (h : checkDateFormat mktime s = some (0, r)) : ¬ Refused mktime s := by
  rintro ⟨r', h'⟩
  exact absurd (congrArg Prod.fst (Option.some.inj (h.symm.trans h'))) (show (0 : Int) ≠ DATE_FORMAT_ERR by decide)

/-! ## The forms -/

variable {u : Char} {y : Int}

theorem unitSeconds_of_mem (h : (u, w) ∈ units) : unitSeconds u = some (w : Int) ∧ 1 ≤ w := by
  simp only [units, mem_cons, Prod.mk.injEq, not_mem_nil, or_false] at h
  obtain ⟨rfl, rfl⟩ | ⟨rfl, rfl⟩ | ⟨rfl, rfl⟩ | ⟨rfl, rfl⟩ | ⟨rfl, rfl⟩ := h <;> exact ⟨rfl, by decide⟩

theorem mem_units {w : Int} (h : unitSeconds u = some w) : ∃ n : Nat, w = n ∧ (u, n) ∈ units := by
  unfold unitSeconds at h
  split at h <;> cases h
  · exact ⟨1, rfl, by decide⟩
  · exact ⟨60, rfl, by decide⟩
  · exact ⟨3600, rfl, by decide⟩
  · exact ⟨86400, rfl, by decide⟩
  · exact ⟨31536000, rfl, by decide⟩

variable {ds : Text}

theorem UnitForm.parts (h : UnitForm s ds u w) : s.getLast? = some u ∧ s.dropLast = ds ∧ ¬ Unitless s := by
  obtain ⟨rfl, -, hunit⟩ := h
  have hlast : (ds ++ [u]).getLast? = some u := List.getLast?_concat
  refine ⟨hlast, List.dropLast_concat, fun hnone => ?_⟩
  rw [Unitless, hlast, Option.bind_some, (unitSeconds_of_mem hunit).1] at hnone
  cases hnone

theorem not_unitForm (h : Unitless s) : ∀ ds u w, ¬ UnitForm s ds u w := fun _ _ _ hform => hform.parts.2.2 h

theorem FieldForm.passes (h : FieldForm s x) : Passes s ∧ s.length ∈ fieldLengths := passes_of_shape h.shape

theorem FieldForm.short (h : FieldForm s x) (hlen : s.length ≤ 2) : AllDigits s ∧ numeral s = x := by
  cases h with
  | ss hs => exact ⟨hs.digits, rfl⟩
  | mm hm hs =>
    rw [length_append, length_cons, hs.length] at hlen
    omega
  | hh hh hm hs =>
    rw [length_append, length_cons, length_append, hm.length] at hlen
    omega
  | dd hd hh hm hs =>
    rw [length_append, length_cons, length_append, hh.length] at hlen
    omega

theorem CalendarForm.unitless (h : CalendarForm s) : Unitless s := by
  rw [Unitless, Option.bind_eq_none_iff]
  intro c hc
  have hmem : c ∈ s ++ fullDate.drop s.length := List.mem_append_left _ (List.mem_of_getLast? hc)
  cases hunit : unitSeconds c with
  | none => rfl
  | some w =>
    obtain hdigit | rfl | rfl | rfl := isFullDate_chars (filled_length h.length) h.date c hmem
    · rw [not_isDigit_of_unitSeconds hunit] at hdigit
      cases hdigit
    all_goals cases hunit

theorem CalendarForm.begins (h : CalendarForm s) : BeginsWithYear s := by
  have hget : ∀ i < s.length, (s ++ fullDate.drop s.length)[i]? = s[i]? := fun i hi => List.getElem?_append_left hi
  have hdate := h.date
  have hyear := h.year
  simp only [isFullDate, List.all_cons, Bool.and_eq_true] at hdate
  rw [hget 0 (by omega), hget 1 (by omega), hget 2 (by omega), hget 3 (by omega)] at hdate
  simp only [BeginsWithYear, List.all_cons, List.all_nil, Bool.and_true, Bool.and_eq_true]
  exact ⟨hdate.1.1.1.1.1.1, hdate.1.1.1.1.1.2.1, hdate.1.1.1.1.1.2.2.1, hdate.1.1.1.1.1.2.2.2.1⟩

theorem isFullDate_dash (h : isFullDate s = true) : s[4]? = some '-' := by
  simp only [isFullDate, Bool.and_eq_true, decide_eq_true_eq] at h
  exact h.1.1.1.1.2

/-- The number of seconds of a unit, as an `int`. -/
theorem unit_seconds (hds : AllDigits ds) (hw : 1 ≤ w) (hbound : numeral ds * w < longBound) :
    int32 (atoi ds * w) = int32 ((numeral ds * w : Nat) : Int) := by
  have hle : numeral ds ≤ numeral ds * w := Nat.le_mul_of_pos_right _ hw
  have hatol := atol_digits (s := []) hds stopsDigits_nil (hle.trans_lt hbound)
  rw [append_nil] at hatol
  rw [atoi, hatol, Int.natCast_mul]
  simp [int32, Int.bmod_mul_bmod]

/-- A printed `int` is a numeral where it is not negative. -/
theorem decimal_numeral (h : AllDigits (decimal y)) : (numeral (decimal y) : Int) = y := by
  by_cases hneg : y < 0
  · have hdash : decimal y = '-' :: Nat.toDigits 10 y.natAbs := if_pos hneg
    exact absurd (h.digit '-' (hdash ▸ List.mem_cons_self)) (by decide)
  · obtain ⟨n, rfl⟩ := Int.eq_ofNat_of_zero_le (Int.not_lt.mp hneg)
    rw [numeral, ofDigitChars_decimal]

theorem becomes_decimal (h : checkDateFormat mktime s = some (0, decimal (int32 y))) (hy : y = x) (hx : x < intBound) :
    Becomes mktime s x := by
  rw [hy, int32_natCast hx] at h
  exact ⟨_, h, allDigits_decimal x, ofDigitChars_decimal x⟩

theorem decimal_of_becomes (h : checkDateFormat mktime s = some (0, decimal y)) (hx : Becomes mktime s x) : y = x := by
  obtain ⟨r, hr, hdigits, hnum⟩ := hx
  obtain rfl : decimal y = r := congrArg Prod.snd (Option.some.inj (h.symm.trans hr))
  rw [← decimal_numeral hdigits, hnum]

/-! ## When the documentation holds -/

/-- A unit letter stands after a number whose seconds are an `int`; the fields are those of one round, with no
tens of days; nothing follows a full date. -/
structure Plain (s : Text) : Prop where
  nonempty : s ≠ []
  unit : ∀ u w, s.getLast? = some u → (u, w) ∈ units → AllDigits s.dropLast ∧
    (numeral s.dropLast * w < intBound ∨ longBound ≤ numeral s.dropLast * w)
  fields : Passes s → s.length ∈ fieldLengths ∧ (s.length = 11 → s.head? = some '0')
  date : 19 < s.length → isFullDate s = false

/-- What the second round adds. -/
theorem worth_again (hlen : s.length ≤ 11) : worth places (s.reverse.drop 10) =
    if s.length = 11 then ((s.head?.getD '0').toNat : Int) - 48 else 0 := by
  split
  · rename_i heq
    obtain ⟨d, t, rfl⟩ := List.exists_cons_of_ne_nil (List.ne_nil_of_length_pos (show 0 < s.length by omega))
    rw [List.drop_reverse, heq]
    simp [worth, places]
  · rw [List.drop_eq_nil_of_le (by rw [length_reverse]; omega), worth_nil]

theorem Plain.documented (h : Plain s) : Documented mktime s where
  unit ds u w hform hbound := by
    obtain ⟨hlast, hdrop, -⟩ := hform.parts
    obtain ⟨hunit, hw⟩ := unitSeconds_of_mem hform.unit
    have hint := ((h.unit u w hlast hform.unit).2).resolve_right (by rw [hdrop]; omega)
    rw [hdrop] at hint
    have hcheck : checkDateFormat mktime s = _ := check_unit hlast hunit
    rw [hdrop, unit_seconds hform.digits hw hbound] at hcheck
    exact becomes_decimal hcheck rfl hint
  fields x hform := by
    by_cases hshort : s.length ≤ 2
    · obtain ⟨hdigits, hnum⟩ := hform.short hshort
      exact ⟨s, check_integer (isInteger_of_allDigits hdigits), hdigits, hnum⟩
    · obtain ⟨hpasses, hlen⟩ := hform.passes
      have hle : s.length ≤ 11 := by
        have hall : ∀ n ∈ fieldLengths, n ≤ 11 := by decide
        exact hall _ hlen
      have hx := hform.lt
      refine becomes_decimal (check_passes hpasses (by omega)) ?_ (hx.trans (by decide))
      rw [hform.worth_eq, worth_again hle]
      split
      · rename_i heleven
        rw [(h.fields hpasses).2 heleven]
        exact Int.add_zero _
      · exact Int.add_zero _
  other hunit hfield hdigits hcalendar := by
    have hint : isInteger s = false := by
      rw [Bool.eq_false_iff, ne_eq, isInteger_iff]
      exact fun hor => hor.elim h.nonempty hdigits
    have hunitless : Unitless s := by
      rw [Unitless, Option.bind_eq_none_iff]
      intro u hlast
      cases hu : unitSeconds u with
      | none => rfl
      | some w =>
        obtain ⟨n, -, hmem⟩ := mem_units hu
        refine absurd ⟨?_, (h.unit u n hlast hmem).1, hmem⟩ (hunit s.dropLast u n)
        exact (List.dropLast_append_getLast? u hlast).symm
    by_cases hlt : s.length < 19
    · by_cases hyear : BeginsWithYear s
      · refine ⟨s ++ fullDate.drop s.length, (check_unitless hint hunitless).trans ?_⟩
        rw [if_pos hlt, if_pos hyear]
        refine fromFullDate_refused fun hdate => hcalendar ⟨?_, hlt.le, hdate⟩
        obtain ⟨c, hc, -⟩ := hyear.digit (i := 3) (by decide)
        exact (List.getElem?_eq_some_iff.mp hc).1
      · refine check_not_passes hint hunitless hlt hyear fun hpasses => ?_
        obtain ⟨x, hx⟩ := hpasses.fieldForm (h.fields hpasses).1
        exact hfield x hx
    · refine ⟨s, (check_unitless hint hunitless).trans ?_⟩
      rw [if_neg hlt]
      refine fromFullDate_refused fun hdate => ?_
      obtain hlong | hlen : 19 < s.length ∨ s.length = 19 := by omega
      · rw [h.date hlong] at hdate
        cases hdate
      · refine hcalendar ⟨by omega, Nat.le_of_eq hlen, ?_⟩
        rw [hlen, show fullDate.drop 19 = [] from rfl, append_nil]
        exact hdate

/-- A text of none of the forms that is not refused has been taken for something else. -/
theorem Documented.not_ok (h : Documented mktime s) (hcheck : checkDateFormat mktime s = some (0, r))
    (hunit : ∀ ds u w, ¬ UnitForm s ds u w) (hfield : ∀ x, ¬ FieldForm s x) (hdigits : ¬ AllDigits s) :
    CalendarForm s :=
  Classical.byContradiction fun hcalendar => refused_of_ok hcheck (h.other hunit hfield hdigits hcalendar)

theorem Documented.plain_unit (h : Documented mktime s) (hlast : s.getLast? = some u) (hmem : (u, w) ∈ units) :
    AllDigits s.dropLast ∧
      (numeral s.dropLast * w < intBound ∨ longBound ≤ numeral s.dropLast * w) := by
  obtain ⟨hunit, hw⟩ := unitSeconds_of_mem hmem
  have hcheck : checkDateFormat mktime s = _ := check_unit hlast hunit
  have hnot : ¬ Unitless s := by
    rw [Unitless, hlast, Option.bind_some, hunit]
    nofun
  by_cases hdigits : AllDigits s.dropLast
  · refine ⟨hdigits, ?_⟩
    by_cases hbound : numeral s.dropLast * w < longBound
    · have hform : UnitForm s s.dropLast u w := ⟨(List.dropLast_append_getLast? u hlast).symm, hdigits, hmem⟩
      rw [unit_seconds hdigits hw hbound] at hcheck
      have heq := decimal_of_becomes hcheck (h.unit _ _ _ hform hbound)
      have hrange := (int32_range ((numeral s.dropLast * w : Nat) : Int)).2
      rw [heq] at hrange
      exact .inl (Int.ofNat_lt.mp hrange)
    · exact .inr (Nat.le_of_not_lt hbound)
  · have hcalendar := h.not_ok hcheck (fun ds u' w' hform => hdigits (hform.parts.2.1 ▸ hform.digits))
      (fun x hform => hnot hform.passes.1.unitless) fun hall => hnot (unitless_of_isDigit fun c hc =>
        hall.digit c (List.mem_of_getLast? hc))
    exact absurd hcalendar.unitless hnot

theorem Documented.plain_fields (h : Documented mktime s) (hne : s ≠ []) (hpasses : Passes s) :
    s.length ∈ fieldLengths ∧ (s.length = 11 → s.head? = some '0') := by
  have hpos := List.length_pos_iff.mpr hne
  by_cases hlen : s.length ∈ fieldLengths
  · refine ⟨hlen, fun heleven => ?_⟩
    obtain ⟨x, hform⟩ := hpasses.fieldForm hlen
    have hcheck : checkDateFormat mktime s = _ := check_passes hpasses (by omega)
    have heq := decimal_of_becomes hcheck (h.fields x hform)
    obtain ⟨d, t, rfl⟩ := List.exists_cons_of_ne_nil hne
    rw [hform.worth_eq, worth_again (by omega), if_pos heleven, List.head?_cons, Option.getD_some] at heq
    have hdigit : d.isDigit = true := by
      have hget := hpasses.isDigit_iff (i := 0) hpos
      rw [heleven] at hget
      exact hget.mpr (by decide)
    have hrange := Char.isDigit_iff_toNat.mp hdigit
    have hbounds : '0'.toNat = 48 ∧ '9'.toNat = 57 ∧ intBound = 2147483648 := by decide
    have hx := hform.lt
    rw [int32_eq_self (by omega) (by omega)] at heq
    rw [List.head?_cons, Char.toNat_inj.mp (show d.toNat = '0'.toNat by omega)]
  · have hthree : 3 ≤ s.length := by
      have hall : ∀ n < 3, 0 < n → n ∈ fieldLengths := by decide
      exact Nat.le_of_not_lt fun hlt => hlen (hall _ hlt hpos)
    obtain ⟨i, hi, -, hsep⟩ := hpasses.separator hthree
    have hcalendar := h.not_ok (check_passes hpasses hthree) (not_unitForm hpasses.unitless)
      (fun x hform => hlen hform.passes.2) fun hall => by
        rw [hall.digit _ (List.getElem_mem hi)] at hsep
        cases hsep
    exact absurd hcalendar.begins hpasses.not_year

theorem Documented.plain_date (h : Documented mktime s) (hlong : 19 < s.length) : isFullDate s = false := by
  rw [Bool.eq_false_iff]
  intro hdate
  have hdash := isFullDate_dash hdate
  have hnotDigit {t : Text} (ht : '-' ∈ t) : ¬ AllDigits t := fun hall => absurd (hall.digit '-' ht) (by decide)
  have hunit : ∀ ds u w, ¬ UnitForm s ds u w := by
    intro ds u w hform
    refine hnotDigit ?_ hform.digits
    rw [← hform.parts.2.1]
    refine List.mem_of_getElem? (i := 4) ?_
    rw [List.getElem?_dropLast, if_pos (by omega)]
    exact hdash
  have hfield : ∀ x, ¬ FieldForm s x := by
    intro x hform
    have hall : ∀ n ∈ fieldLengths, n ≤ 11 := by decide
    have := hall _ hform.passes.2
    omega
  have hdigits := hnotDigit (List.mem_of_getElem? hdash)
  obtain ⟨r, hr⟩ := h.other hunit hfield hdigits fun hcalendar => by
    have := hcalendar.length
    omega
  by_cases hunitless : Unitless s
  · have hint : isInteger s = false := by
      rw [Bool.eq_false_iff, ne_eq, isInteger_iff]
      exact fun hor => hor.elim (List.ne_nil_of_mem (List.mem_of_getElem? hdash)) hdigits
    rw [check_unitless hint hunitless, if_neg (by omega)] at hr
    exact fromFullDate_not_refused hdate r hr
  · obtain ⟨w, hw⟩ := Option.ne_none_iff_exists'.mp hunitless
    obtain ⟨u, hlast, hu⟩ := Option.bind_eq_some_iff.mp hw
    exact refused_of_ok (check_unit hlast hu) ⟨r, hr⟩

/-- A text is treated as the documentation says exactly where it is plain. -/
theorem documented_iff (mktime : Tm → Int) (s : Text) : Documented mktime s ↔ Plain s := by
  refine ⟨fun h => ?_, Plain.documented⟩
  have hne : s ≠ [] := by
    rintro rfl
    have hfield : ∀ x, ¬ FieldForm [] x := fun x hform => absurd hform.passes.2 (by decide)
    have hcalendar := h.not_ok (check_integer rfl) (fun ds u w hform => absurd hform.text (by simp)) hfield
      fun hall => hall.ne_nil rfl
    exact absurd hcalendar.year (by decide)
  exact ⟨hne, fun u w => h.plain_unit, h.plain_fields hne, h.plain_date⟩

/-- Twelve days become twelve days and a second. -/
theorem twelve_days : ¬ Documented (fun _ => 0) "12.00:00:00".toList := by
  intro h
  have hzero : Field ['0', '0'] := ⟨⟨by decide, by decide⟩, rfl⟩
  have htwelve : FirstField ['1', '2'] := ⟨⟨by decide, by decide⟩, by decide⟩
  have hform : FieldForm "12.00:00:00".toList 1036800 := .dd htwelve hzero hzero hzero
  have hrun : checkDateFormat (fun _ => 0) "12.00:00:00".toList = some (0, "1036801".toList) := by decide
  obtain ⟨r, hr, -, hnum⟩ := h.fields _ hform
  obtain rfl : "1036801".toList = r := congrArg Prod.snd (Option.some.inj (hrun.symm.trans hr))
  exact absurd hnum (by decide)

end RepeatTime
