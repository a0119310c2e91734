-- SUMMARY: The cache description of a structured file, and when parsing restores it.
import Irods.Api.RodsDef
import Irods.Base.CBuffer
import Irods.Base.CNumber
import Mathlib.Data.List.DropRight

/-!
# Cache descriptions

`makeCachedStructFileStr` joins two strings and a number by `;;;`. `parseCachedStructFileStr` looks for the first `;;;`
twice and copies what is in front of each over a field of the receiving `specColl_t`, without an end.
No pointer is NULL.
-/

namespace CachedStructFile

open CString CBuffer
open List (append_assoc drop_zero length_append prefix_append rdropWhile_prefix replicate)

def SYS_COLLINFO_2_FORMAT_ERR : Int := -64000

/-- The fields that are used, each with all its characters. -/
structure SpecColl where
  cacheDir : Text
  resource : Text
  cacheDirty : Int
  deriving DecidableEq

def sep : Text := ";;;".toList

/-- What is in `collInfo2` stays where there is nothing to describe. -/
def makeCachedStructFileStr (collInfo2 : Text) (specColl : SpecColl) : Option (Int × Text) := do
  let resource ← textAt specColl.resource 0
  if resource.length = 0 then return (0, collInfo2)
  let cacheDir ← textAt specColl.cacheDir 0
  if cacheDir.length = 0 then return (0, collInfo2)
  return (0, (cacheDir ++ (sep ++ (resource ++ (sep ++ decimal specColl.cacheDirty)))).take (MAX_NAME_LEN - 1))

def parseCachedStructFileStr (collInfo2 : Text) (specColl : SpecColl) : Option (Int × SpecColl) :=
  if collInfo2.length = 0 then do
    return (0, { specColl with
      cacheDir := ← store specColl.cacheDir 0 [nul]
      resource := ← store specColl.resource 0 [nul] })
  else match strstr sep collInfo2 with
  | none => some (SYS_COLLINFO_2_FORMAT_ERR, specColl)
  | some len => do
    let cacheDir ← strncpy specColl.cacheDir 0 collInfo2 len
    let tmpPtr1 := collInfo2.drop (len + 3)
    match strstr sep tmpPtr1 with
    | none => return (SYS_COLLINFO_2_FORMAT_ERR, { specColl with cacheDir })
    | some len =>
      let resource ← strncpy specColl.resource 0 tmpPtr1 len
      return (0, ⟨cacheDir, resource, atoi (tmpPtr1.drop (len + 3))⟩)

/-! ## The first separator -/

/-- A string without the semicolons at its end, and these. -/
def front (s : Text) : Text := s.rdropWhile (· == ';')

def semicolons (s : Text) : Text := s.rtakeWhile (· == ';')

section Separator

variable {pat s d r a w rest field R : Text} {n : Nat}

theorem front_append (s : Text) : front s ++ semicolons s = s := List.rdropWhile_append_rtakeWhile ..

theorem front_prefix (s : Text) : front s <+: s := rdropWhile_prefix _ s

theorem length_front_le (s : Text) : (front s).length ≤ s.length :=
  List.IsPrefix.length_le <| front_prefix s

/-- The separator changes places with the semicolons in front of it. -/
theorem split_sep (s R : Text) : s ++ (sep ++ R) = front s ++ (sep ++ (semicolons s ++ R)) := by
  have hall : semicolons s = replicate (semicolons s).length ';' :=
    List.eq_replicate_iff.mpr ⟨rfl, fun c hc => by simpa using List.mem_rtakeWhile_imp hc⟩
  have hswap : semicolons s ++ sep = sep ++ semicolons s := by
    rw [hall, show sep = replicate 3 ';' from rfl, List.replicate_append_replicate,
      List.replicate_append_replicate, Nat.add_comm]
  calc s ++ (sep ++ R) = (front s ++ semicolons s) ++ (sep ++ R) := by rw [front_append]
    _ = front s ++ ((semicolons s ++ sep) ++ R) := by rw [append_assoc, append_assoc]
    _ = front s ++ (sep ++ (semicolons s ++ R)) := by rw [hswap, append_assoc]

theorem strstr_at (hpre : pat <+: s.drop n) (hbefore : ∀ m < n, ¬ pat <+: s.drop m) : strstr pat s = some n := by
  cases hs : strstr pat s with
  | none => exact absurd (hpre.isInfix.trans (List.drop_suffix n s).isInfix) (strstr_eq_none.mp hs)
  | some m =>
    obtain ⟨-, hm, hmin⟩ := strstr_eq_some hs
    obtain hlt | rfl | hgt := Nat.lt_trichotomy m n
    · exact absurd hm (hbefore m hlt)
    · rfl
    · exact absurd hpre (hmin n hgt)

/-- The first separator behind a string begins with the semicolons of the string. -/
theorem strstr_front (hd : ¬ sep <:+: d) (R : Text) : strstr sep (d ++ (sep ++ R)) = some (front d).length := by
  have hsplit := split_sep d R
  refine strstr_at (by rw [hsplit, List.drop_left]; exact prefix_append _ _) fun m hm hpre => ?_
  by_cases hin : m + 3 ≤ d.length
  · rw [List.drop_append_of_le_length (by omega)] at hpre
    have hle : sep.length ≤ (d.drop m).length := by rw [List.length_drop, show sep.length = 3 from rfl]; omega
    have := List.prefix_of_prefix_length_le hpre (prefix_append _ _) hle
    exact hd (this.isInfix.trans (List.drop_suffix m d).isInfix)
  · -- the last character in front of the semicolons would be one
    have hne : front d ≠ [] := List.ne_nil_of_length_pos (by omega)
    have hlen := length_front_le d
    have hlast : (front d).getLast hne ≠ ';' := fun h => List.rdropWhile_last_not _ d hne (beq_iff_eq.mpr h)
    obtain ⟨k, hk⟩ : ∃ k, (front d).length - 1 = m + k := ⟨(front d).length - 1 - m, by omega⟩
    obtain ⟨t, ht⟩ := hpre
    have hget : (front d ++ (sep ++ (semicolons d ++ R)))[m + k]? = some ((front d).getLast hne) := by
      rw [List.getElem?_append_left (by omega), ← hk, List.getLast_eq_getElem,
        List.getElem?_eq_getElem (by omega)]
    rw [← hsplit, ← List.getElem?_drop, ← ht,
      List.getElem?_append_left (by rw [show sep.length = 3 from rfl]; omega)] at hget
    refine hlast (List.eq_of_mem_replicate (n := 3) ?_)
    exact List.mem_of_getElem? hget

theorem drop_front (d R : Text) : (d ++ (sep ++ R)).drop ((front d).length + 3) = semicolons d ++ R := by
  rw [split_sep, ← List.drop_drop, List.drop_left]
  rfl

theorem take_front (d R : Text) : (d ++ R).take (front d).length = front d := by
  have hfront : front d <+: d := front_prefix d
  exact (List.prefix_iff_eq_take.mp (hfront.trans (prefix_append d R))).symm

/-! ## What is left in a field -/

/-- The field goes on with the string and its end. -/
def Continues (field : Text) (pos : Nat) (w : Text) : Prop := w ++ [nul] <+: field.drop pos

theorem textAt_copied (rest : Text) (ha : nul ∉ a) (hw : nul ∉ w) :
    textAt (a ++ rest) 0 = some (a ++ w) ↔ w ++ [nul] <+: rest := by
  constructor
  · intro h
    have := (hasText_of_textAt h).chars
    rwa [drop_zero, append_assoc, List.prefix_append_right_inj] at this
  · intro h
    refine HasText.textAt ⟨List.not_mem_append ha hw, ?_⟩
    rwa [drop_zero, append_assoc, List.prefix_append_right_inj]

theorem copied_prefix (ha : nul ∉ a) (h : textAt (a ++ rest) 0 = some r) : a <+: r := by
  have hchars := (hasText_of_textAt h).chars
  obtain hle | hle := List.prefix_or_prefix_of_prefix (prefix_append a rest) hchars
  · obtain rfl | hle := List.prefix_concat_iff.mp hle
    · simp at ha
    · exact hle
  · exact absurd (hle.subset (by simp)) ha

theorem strncpy_within (hn : n ≤ s.length) (hfield : n ≤ field.length) :
    strncpy field 0 s n = some (s.take n ++ field.drop n) := by
  have hlen : (s.take n ++ replicate (n - s.length) nul).length = n := by simp; omega
  rw [strncpy, store_eq (by rw [hlen]; omega), hlen, List.take_zero, List.nil_append, Nat.zero_add,
    Nat.sub_eq_zero_of_le hn, List.replicate_zero, List.append_nil]

end Separator

theorem atoi_semicolon (w : Text) : atoi (';' :: w) = 0 := by
  have hzero : atol (';' :: w) = 0 := by simp [atol, isspace, digitsValue, digits, longBound, Char.isDigit]
  rw [atoi, hzero]
  rfl

/-! ## The round trip -/

section RoundTrip

variable {src old : SpecColl} {d r : Text} {x : Int}

/-- The text that describes the fields. -/
def description (d r : Text) (x : Int) : Text := d ++ (sep ++ (r ++ (sep ++ decimal x)))

/-- The sizes of the fields. -/
structure SpecColl.Sized (c : SpecColl) : Prop where
  cacheDir : c.cacheDir.length = MAX_NAME_LEN
  resource : c.resource.length = NAME_LEN

/-- What is described comes back in the fields. -/
def RoundTrips (src old : SpecColl) (d r : Text) : Prop :=
  ∀ collInfo2, ∃ s c, makeCachedStructFileStr collInfo2 src = some (0, s) ∧
    parseCachedStructFileStr s old = some (0, c) ∧ textAt c.cacheDir 0 = some d ∧ textAt c.resource 0 = some r ∧
      c.cacheDirty = src.cacheDirty

/-- The fields hold the semicolons at the end of the strings, or just an end, where the copies stop. A `cacheDir`
that ends in semicolons hands at least one over to `resource`, which is then copied as empty. -/
def Restores (old : SpecColl) (d r : Text) (x : Int) : Prop :=
  Continues old.cacheDir (front d).length (semicolons d) ∧
    (semicolons d = [] ∧ Continues old.resource (front r).length (semicolons r) ∧ (semicolons r = [] ∨ x = 0) ∨
      sep <+: semicolons d ++ (r ++ sep) ∧ semicolons d ≠ [] ∧ Continues old.resource 0 r ∧
        atoi ((semicolons d ++ (r ++ (sep ++ decimal x))).drop 3) = x)

theorem parse_eq (hd : ¬ sep <:+: d) (hold : old.Sized) (hdlen : d.length ≤ MAX_NAME_LEN) (R : Text) :
    parseCachedStructFileStr (d ++ (sep ++ R)) old =
      match strstr sep (semicolons d ++ R) with
      | none => some (SYS_COLLINFO_2_FORMAT_ERR,
          { old with cacheDir := front d ++ old.cacheDir.drop (front d).length })
      | some len => (strncpy old.resource 0 (semicolons d ++ R) len).map fun resource =>
        (0, ⟨front d ++ old.cacheDir.drop (front d).length, resource,
          atoi ((semicolons d ++ R).drop (len + 3))⟩) := by
  have hlen := length_front_le d
  rw [parseCachedStructFileStr, if_neg (by simp [sep]), strstr_front hd]
  simp only [drop_front, Option.bind_eq_bind]
  rw [strncpy_within (by rw [length_append]; omega) (by rw [hold.cacheDir]; omega), take_front, Option.bind_some]
  cases strstr sep (semicolons d ++ R) with
  | none => rfl
  | some len =>
    dsimp only
    cases strncpy old.resource 0 (semicolons d ++ R) len <;> rfl

theorem roundTrips_iff_parsed (hcd : textAt src.cacheDir 0 = some d) (hcr : textAt src.resource 0 = some r)
    (hdne : d ≠ []) (hrne : r ≠ []) (hd : ¬ sep <:+: d) (hold : old.Sized)
    (hfits : (description d r src.cacheDirty).length < MAX_NAME_LEN) :
    RoundTrips src old d r ↔ Continues old.cacheDir (front d).length (semicolons d) ∧
      ∃ len resource, strstr sep (semicolons d ++ (r ++ (sep ++ decimal src.cacheDirty))) = some len ∧
        strncpy old.resource 0 (semicolons d ++ (r ++ (sep ++ decimal src.cacheDirty))) len = some resource ∧
        textAt resource 0 = some r ∧
        atoi ((semicolons d ++ (r ++ (sep ++ decimal src.cacheDirty))).drop (len + 3)) = src.cacheDirty := by
  have hmake (collInfo2 : Text) : makeCachedStructFileStr collInfo2 src = some (0, description d r src.cacheDirty) := by
    have htake := List.take_of_length_le (Nat.le_sub_one_of_lt hfits)
    simp only [makeCachedStructFileStr, hcd, hcr, Option.bind_eq_bind, Option.bind_some, List.length_eq_zero_iff,
      if_neg hdne, if_neg hrne]
    exact congrArg (fun s => some ((0 : Int), s)) htake
  have hdlen : d.length ≤ MAX_NAME_LEN := by
    simp only [description, length_append] at hfits
    omega
  have hends := (hasText_of_textAt hcd).ends
  rw [← front_append d] at hends
  have hfront := textAt_copied (old.cacheDir.drop (front d).length)
    (fun h => hends (List.mem_append_left _ h)) (fun h => hends (List.mem_append_right _ h))
  rw [front_append] at hfront
  have hparse := parse_eq hd hold hdlen (r ++ (sep ++ decimal src.cacheDirty))
  constructor
  · intro h
    obtain ⟨s, c, hs, hc, hdir, hres, hdirty⟩ := h []
    rw [hmake] at hs
    cases hs
    rw [description, hparse] at hc
    split at hc
    · exact absurd (congrArg Prod.fst (Option.some.inj hc)) (by simp [SYS_COLLINFO_2_FORMAT_ERR])
    · next len hlen =>
      obtain ⟨resource, hcpy, heq⟩ := Option.map_eq_some_iff.mp hc
      cases heq
      exact ⟨hfront.mp hdir, len, resource, hlen, hcpy, hres, hdirty⟩
  · rintro ⟨hdir, len, resource, hlen, hcpy, hres, hdirty⟩ collInfo2
    refine ⟨_, ⟨front d ++ old.cacheDir.drop (front d).length, resource, src.cacheDirty⟩, hmake collInfo2, ?_,
      hfront.mpr hdir, hres, rfl⟩
    rw [description, hparse, hlen]
    simp only [hcpy, Option.map_some, hdirty]

/-- Where a semicolon of `cacheDir` comes first, it is in front of what is copied of `resource`. -/
theorem semicolons_lost {w field resource R : Text} {len : Nat} (hne : r ≠ []) (hw : w ≠ []) (hall : ∀ c ∈ w, c = ';')
    (hpre : ¬ sep <+: w ++ (r ++ sep)) (hlen : strstr sep (w ++ (r ++ (sep ++ R))) = some len)
    (hcpy : strncpy field 0 (w ++ (r ++ (sep ++ R))) len = some resource) (hres : textAt resource 0 = some r) :
    False := by
  obtain ⟨hle, hat, -⟩ := strstr_eq_some hlen
  have hbound := store_bound hcpy
  rw [length_append, List.length_take, List.length_replicate] at hbound
  rw [strncpy_within hle (by omega)] at hcpy
  cases hcpy
  obtain ⟨c, w, rfl⟩ := List.exists_cons_of_ne_nil hw
  obtain rfl : c = ';' := hall c List.mem_cons_self
  cases len with
  | zero =>
    have hlong : sep.length ≤ (';' :: w ++ (r ++ sep)).length := by simp [sep]; omega
    exact hpre (List.prefix_of_prefix_length_le hat ⟨R, by simp⟩ hlong)
  | succ len =>
    -- the copy begins with a semicolon, and so does the string
    obtain ⟨r', rfl⟩ : ∃ r', r = ';' :: r' := by
      obtain ⟨r', hr'⟩ := copied_prefix (a := [';']) (by decide) hres
      exact ⟨r', hr'.symm⟩
    obtain rfl : w = [] := by
      by_contra hne
      obtain ⟨e, w, rfl⟩ := List.exists_cons_of_ne_nil hne
      obtain rfl : e = ';' := hall e (by simp)
      refine hpre ?_
      cases w with
      | nil => simp [sep]
      | cons e w =>
        obtain rfl : e = ';' := hall e (by simp)
        simp [sep]
    cases r' with
    | nil => exact hpre (by simp [sep])
    | cons c r' =>
      have hc : c ≠ ';' := by
        rintro rfl
        exact hpre (by simp [sep])
      cases len with
      | zero => simp [sep, hc.symm] at hat
      | succ len =>
        obtain ⟨t, ht⟩ := copied_prefix (a := [';', ';']) (by decide) hres
        exact hc (List.cons.inj (List.cons.inj ht).2).1.symm

/-- A description is read back exactly if no field of the receiver keeps an end of what was there. -/
theorem roundTrips_iff_restores (hcd : textAt src.cacheDir 0 = some d) (hcr : textAt src.resource 0 = some r)
    (hdne : d ≠ []) (hrne : r ≠ []) (hd : ¬ sep <:+: d) (hr : ¬ sep <:+: r) (hsrc : src.Sized) (hold : old.Sized)
    (hfits : (description d r src.cacheDirty).length < MAX_NAME_LEN)
    (hlo : -(intBound : Int) ≤ src.cacheDirty) (hhi : src.cacheDirty < intBound) :
    RoundTrips src old d r ↔ Restores old d r src.cacheDirty := by
  rw [roundTrips_iff_parsed hcd hcr hdne hrne hd hold hfits, Restores]
  refine and_congr_right fun _ => ?_
  have hrends := (hasText_of_textAt hcr).ends
  have hrlen : r.length < NAME_LEN := by
    have := (hasText_of_textAt hcr).length_lt
    rw [hsrc.resource] at this
    omega
  by_cases hsemi : semicolons d = []
  · have hlen := length_front_le r
    have hcpy : strncpy old.resource 0 (r ++ (sep ++ decimal src.cacheDirty)) (front r).length =
        some (front r ++ old.resource.drop (front r).length) := by
      rw [strncpy_within (by rw [length_append]; exact hlen.trans (Nat.le_add_right _ _))
        (by rw [hold.resource]; exact hlen.trans hrlen.le), take_front]
    have hends := hrends
    rw [← front_append r] at hends
    have hfront := textAt_copied (old.resource.drop (front r).length)
      (fun h => hends (List.mem_append_left _ h)) (fun h => hends (List.mem_append_right _ h))
    rw [front_append] at hfront
    have hdirty : atoi (semicolons r ++ decimal src.cacheDirty) = src.cacheDirty ↔
        semicolons r = [] ∨ src.cacheDirty = 0 := by
      cases hs : semicolons r with
      | nil => simp [atoi_decimal_int hlo hhi]
      | cons c w =>
        obtain rfl : c = ';' := by simpa using List.mem_rtakeWhile_imp (p := (· == ';')) (hs ▸ List.mem_cons_self)
        rw [List.cons_append, atoi_semicolon]
        simp [eq_comm]
    simp only [hsemi, List.nil_append, strstr_front hr, Option.some.injEq, ne_eq, not_true, false_and, and_false,
      or_false, true_and]
    constructor
    · rintro ⟨len, resource, rfl, hcpy', hres, hat⟩
      rw [hcpy] at hcpy'
      cases hcpy'
      rw [drop_front] at hat
      exact ⟨hfront.mp hres, hdirty.mp hat⟩
    · rintro ⟨hres, hor⟩
      exact ⟨_, _, rfl, hcpy, hfront.mpr hres, by rw [drop_front]; exact hdirty.mpr hor⟩
  · simp only [hsemi, false_and, false_or, ne_eq, not_false_iff, true_and]
    have hall : ∀ c ∈ semicolons d, c = ';' := fun c hc => by simpa using List.mem_rtakeWhile_imp hc
    by_cases hpre : sep <+: semicolons d ++ (r ++ sep)
    · have hzero : strstr sep (semicolons d ++ (r ++ (sep ++ decimal src.cacheDirty))) = some 0 := by
        refine strstr_at ?_ fun m hm => absurd hm (Nat.not_lt_zero m)
        exact hpre.trans ⟨decimal src.cacheDirty, by simp⟩
      have hcpy : strncpy old.resource 0 (semicolons d ++ (r ++ (sep ++ decimal src.cacheDirty))) 0 =
          some ([] ++ old.resource) := by
        rw [strncpy_within (Nat.zero_le _) (Nat.zero_le _), List.take_zero, drop_zero]
      have hres : textAt ([] ++ old.resource) 0 = some r ↔ Continues old.resource 0 r :=
        textAt_copied _ List.not_mem_nil hrends
      rw [hzero, and_iff_right hpre, ← hres]
      constructor
      · rintro ⟨len, resource, hlen, hcpy', hres, hat⟩
        cases hlen
        cases hcpy.symm.trans hcpy'
        exact ⟨hres, hat⟩
      · rintro ⟨hres, hat⟩
        exact ⟨0, _, rfl, hcpy, hres, hat⟩
    · refine iff_of_false ?_ fun h => hpre h.1
      rintro ⟨len, resource, hlen, hcpy, hres, -⟩
      exact semicolons_lost hrne hsemi hall hpre hlen hcpy hres

/-- Fields with strings in them. -/
def filled (d r : Text) (x : Int) : SpecColl :=
  ⟨d ++ replicate (MAX_NAME_LEN - d.length) nul, r ++ replicate (NAME_LEN - r.length) nul, x⟩

theorem filled_texts (hd : nul ∉ d ∧ d.length < MAX_NAME_LEN) (hr : nul ∉ r ∧ r.length < NAME_LEN) :
    textAt (filled d r x).cacheDir 0 = some d ∧ textAt (filled d r x).resource 0 = some r ∧ (filled d r x).Sized := by
  have htext {t : Text} {n : Nat} (ht : nul ∉ t) (hlt : t.length < n) :
      textAt (t ++ replicate (n - t.length) nul) 0 = some t := by
    obtain ⟨m, hm⟩ : ∃ m, n - t.length = m + 1 := ⟨n - t.length - 1, by omega⟩
    rw [hm]
    exact textAt_cut ht [] (replicate m nul)
  exact ⟨htext hd.1 hd.2, htext hr.1 hr.2, by simp [filled]; omega, by simp [filled]; omega⟩

theorem roundTrips_iff_restores_same :
    RoundTrips (filled ['a'] ['b'] 1) (filled ['a'] ['b'] 1) ['a'] ['b'] ↔
      Restores (filled ['a'] ['b'] 1) ['a'] ['b'] 1 := by
  obtain ⟨hcd, hcr, hsized⟩ := @filled_texts ['a'] ['b'] 1 ⟨by decide, by decide⟩ ⟨by decide, by decide⟩
  exact roundTrips_iff_restores hcd hcr (by decide) (by decide) (by decide) (by decide) hsized hsized (by decide)
    (by decide) (by decide)

/-- A shorter directory leaves the end of the longer one that was there. -/
theorem shorter_not_restored : textAt (filled ['a'] ['b'] 0).cacheDir 0 = some ['a'] ∧
    textAt (filled ['a'] ['b'] 0).resource 0 = some ['b'] ∧ (filled ['a'] ['b'] 0).Sized ∧
    (filled ['c', 'c'] ['b'] 0).Sized ∧ (description ['a'] ['b'] 0).length < MAX_NAME_LEN ∧
    ¬ RoundTrips (filled ['a'] ['b'] 0) (filled ['c', 'c'] ['b'] 0) ['a'] ['b'] := by
  obtain ⟨hcd, hcr, hsized⟩ := @filled_texts ['a'] ['b'] 0 ⟨by decide, by decide⟩ ⟨by decide, by decide⟩
  obtain ⟨-, -, hold⟩ := @filled_texts ['c', 'c'] ['b'] 0 ⟨by decide, by decide⟩ ⟨by decide, by decide⟩
  have hfits : (description ['a'] ['b'] 0).length < MAX_NAME_LEN := by decide
  refine ⟨hcd, hcr, hsized, hold, hfits, fun h => ?_⟩
  obtain ⟨t, ht⟩ := ((roundTrips_iff_parsed hcd hcr (by decide) (by decide) (by decide) hold hfits).mp h).1
  have hc : nul = 'c' := (List.cons.inj ht).1
  exact absurd hc (by decide)

end RoundTrip

end CachedStructFile
