-- SUMMARY: How parseUserName splits a full user name.
import Irods.Api.RodsDef
import Irods.Base.CString
import Mathlib.Data.List.Count
import Mathlib.Data.List.TakeWhile

/-!
# User names

A full user name is `user@department[#zone]`. `parseUserName` looks for the first `#`, copies
what is on each side of it, and refuses a second `#` in the zone and a second `@` in the name.
A `#` in front of everything is not taken for a separator.
-/

namespace UserName

open CString

def USER_INVALID_USERNAME_FORMAT : Int := -319000

/-! ## Parsing -/

/-- `strncpy` of `NAME_LEN` characters; `none` where the copy has no terminator. -/
def strncpy (s : Text) : Option Text := if s.length < NAME_LEN then some s else none

/-- The status, `userName` and `userZone`. -/
structure ParsedName where
  status : Int
  userName : Text
  userZone : Text
  deriving DecidableEq

/-- The test for a second `@`. -/
def checkAt (userName userZone : Text) : ParsedName :=
  match strstr ['@'] userName with
  | none => ⟨0, userName, userZone⟩
  | some cp =>
    if occurs ['@'] (userName.drop (cp + 1)) then ⟨USER_INVALID_USERNAME_FORMAT, userName, userZone⟩
    else ⟨0, userName, userZone⟩

/-- The branch without a separator. -/
def parseWhole (fullUserNameIn : Text) : Option ParsedName :=
  (strncpy fullUserNameIn).map fun userName => checkAt userName []

def parseUserName (fullUserNameIn : Text) : Option ParsedName :=
  match strstr ['#'] fullUserNameIn with
  | none => parseWhole fullUserNameIn
  | some ix =>
    if 0 < ix ∧ ix < NAME_LEN - 1 then
      (strncpy (fullUserNameIn.drop (ix + 1))).map fun userZone =>
        let userName := fullUserNameIn.take ix
        if occurs ['#'] userZone then ⟨USER_INVALID_USERNAME_FORMAT, userName, userZone⟩
        else checkAt userName userZone
    else parseWhole fullUserNameIn

/-! ## What is documented -/

/-- At most one `@` and at most one `#`. -/
def ValidFormat (s : Text) : Prop := s.count '#' ≤ 1 ∧ s.count '@' ≤ 1

/-- The part in front of the `#`. -/
def userPart (s : Text) : Text := s.takeWhile (· ≠ '#')

/-- The part behind the `#`. -/
def zonePart (s : Text) : Text := (s.dropWhile (· ≠ '#')).tail

/-- The input is accepted if it has the format, and then split at the `#`. -/
def Documented (s : Text) : Prop :=
  ∃ r, parseUserName s = some r ∧ (r.status = 0 ↔ ValidFormat s) ∧
    (r.status = 0 → r.userName = userPart s ∧ r.userZone = zonePart s)

/-- Behind a `#` in front of everything there are two `@`, and one `#` behind a name hides no `@`. -/
def Separable (s : Text) : Prop :=
  if s.head? = some '#' then 2 ≤ s.count '@'
  else s.count '#' = 1 → (userPart s).count '@' ≤ 1 → s.count '@' ≤ 1

instance (s : Text) : Decidable (ValidFormat s) := inferInstanceAs (Decidable (_ ∧ _))

instance (s : Text) : Decidable (Separable s) := inferInstanceAs (Decidable (ite _ _ _))

/-! ## The two forms of an input -/

variable {s user zone : Text}

theorem occurs_char {c : Char} : occurs [c] s = true ↔ 0 < s.count c := by
  rw [occurs_iff, List.singleton_infix_iff, List.count_pos_iff]

theorem checkAt_status (userName userZone : Text) :
    (checkAt userName userZone).status = 0 ↔ userName.count '@' ≤ 1 := by
  unfold checkAt
  by_cases hat : '@' ∈ userName
  · obtain ⟨front, rest, rfl, hfront⟩ := List.eq_append_cons_of_mem hat
    have hfind : strstr ['@'] (front ++ '@' :: rest) = some front.length := strstr_first hfront [] rest
    have hdrop : (front ++ '@' :: rest).drop (front.length + 1) = rest := by
      simp
    have hcount : (front ++ '@' :: rest).count '@' = rest.count '@' + 1 := by
      rw [List.count_append, List.count_eq_zero_of_not_mem hfront, List.count_cons_self, Nat.zero_add]
    simp only [hfind, hdrop, hcount]
    by_cases hmore : occurs ['@'] rest = true
    · have := occurs_char.mp hmore
      rw [if_pos hmore]
      exact ⟨nofun, fun hle => by omega⟩
    · have := mt occurs_char.mpr hmore
      rw [if_neg hmore]
      exact ⟨fun _ => by omega, fun _ => rfl⟩
  · rw [strstr_char_none hat]
    simp [List.count_eq_zero_of_not_mem hat]

theorem checkAt_names (userName userZone : Text) :
    (checkAt userName userZone).userName = userName ∧ (checkAt userName userZone).userZone = userZone := by
  unfold checkAt
  split
  · exact ⟨rfl, rfl⟩
  · split <;> exact ⟨rfl, rfl⟩

theorem parseWhole_fits (h : s.length < NAME_LEN) : parseWhole s = some (checkAt s []) := by
  rw [parseWhole, strncpy, if_pos h]
  rfl

/-- Without a `#` the whole input is the name. -/
theorem parseUserName_noHash (h : s.length < NAME_LEN) (hhash : '#' ∉ s) : parseUserName s = some (checkAt s []) := by
  rw [parseUserName, strstr_char_none hhash]
  exact parseWhole_fits h

/-- A `#` in front is part of the name. -/
theorem parseUserName_hashFirst (h : ('#' :: s).length < NAME_LEN) :
    parseUserName ('#' :: s) = some (checkAt ('#' :: s) []) := by
  exact parseWhole_fits h

theorem parseUserName_split (h : (user ++ '#' :: zone).length < NAME_LEN) (hne : user ≠ []) (huser : '#' ∉ user) :
    parseUserName (user ++ '#' :: zone) =
      some (if occurs ['#'] zone then ⟨USER_INVALID_USERNAME_FORMAT, user, zone⟩ else checkAt user zone) := by
  have hfind : strstr ['#'] (user ++ '#' :: zone) = some user.length := strstr_first huser [] zone
  have hdrop : (user ++ '#' :: zone).drop (user.length + 1) = zone := by
    simp
  have hpos := List.length_pos_iff.mpr hne
  rw [List.length_append, List.length_cons] at h
  have hzone : zone.length < NAME_LEN := by omega
  unfold parseUserName
  simp only [hfind, hdrop, List.take_left, strncpy, if_pos hzone, Option.map_some]
  rw [if_pos ⟨hpos, by omega⟩]

theorem userPart_split (huser : '#' ∉ user) : userPart (user ++ '#' :: zone) = user := by
  rw [userPart, takeWhile_stop (by decide), List.takeWhile_eq_self_iff]
  exact fun c hc => decide_eq_true (ne_of_mem_of_not_mem hc huser)

theorem zonePart_split (huser : '#' ∉ user) : zonePart (user ++ '#' :: zone) = zone := by
  rw [zonePart, List.dropWhile_append_of_pos fun c hc => decide_eq_true (ne_of_mem_of_not_mem hc huser)]
  rfl

/-! ## When the split is the documented one -/

theorem documented_noHash (h : s.length < NAME_LEN) (hhash : '#' ∉ s) : Documented s := by
  have hcount : s.count '#' = 0 := List.count_eq_zero_of_not_mem hhash
  have hall : ∀ c ∈ s, decide (c ≠ '#') = true := fun c hc => decide_eq_true (ne_of_mem_of_not_mem hc hhash)
  refine ⟨checkAt s [], parseUserName_noHash h hhash, ?_, fun _ => ?_⟩
  · rw [checkAt_status, ValidFormat, hcount]
    exact ⟨fun hat => ⟨Nat.zero_le _, hat⟩, And.right⟩
  · have huser : userPart s = s := List.takeWhile_eq_self_iff.mpr hall
    have hzone : zonePart s = [] := by rw [zonePart, List.dropWhile_eq_nil_iff.mpr hall]; rfl
    rw [huser, hzone]
    exact checkAt_names s []

theorem documented_hashFirst_iff (h : ('#' :: s).length < NAME_LEN) :
    Documented ('#' :: s) ↔ 2 ≤ ('#' :: s).count '@' := by
  have hparse := parseUserName_hashFirst h
  have hstatus := checkAt_status ('#' :: s) []
  constructor
  · rintro ⟨r, hr, -, hnames⟩
    obtain rfl := Option.some.inj (hparse.symm.trans hr)
    by_contra hat
    -- the name that is returned has the `#` in it
    have huser := (hnames (hstatus.mpr (by omega))).1
    rw [(checkAt_names ('#' :: s) []).1] at huser
    exact absurd huser (by simp [userPart])
  · intro hat
    refine ⟨_, hparse, ?_, fun h0 => ?_⟩
    · rw [hstatus]
      exact ⟨fun hle => by omega, fun hvalid => hvalid.2⟩
    · omega

/-- It fails on a second `@` that stands in the zone. -/
theorem documented_split_iff (h : (user ++ '#' :: zone).length < NAME_LEN) (hne : user ≠ []) (huser : '#' ∉ user) :
    Documented (user ++ '#' :: zone) ↔ (zone.count '#' = 0 → user.count '@' ≤ 1 →
      (user ++ '#' :: zone).count '@' ≤ 1) := by
  have hparse := parseUserName_split h hne huser
  have hhash : (user ++ '#' :: zone).count '#' = zone.count '#' + 1 := by
    rw [List.count_append, List.count_eq_zero_of_not_mem huser, List.count_cons_self, Nat.zero_add]
  have hsum : (user ++ '#' :: zone).count '@' = user.count '@' + zone.count '@' := by
    rw [List.count_append, List.count_cons_of_ne (by decide)]
  by_cases hmore : occurs ['#'] zone = true
  · -- a second `#` is refused
    have hpos := occurs_char.mp hmore
    rw [if_pos hmore] at hparse
    refine ⟨fun _ hzero => by omega, fun _ => ⟨_, hparse, ?_, nofun⟩⟩
    exact ⟨nofun, fun hvalid => by have := hvalid.1; omega⟩
  · have hzero : zone.count '#' = 0 := by
      have := mt occurs_char.mpr hmore
      omega
    rw [if_neg hmore] at hparse
    have hstatus := checkAt_status user zone
    constructor
    · rintro ⟨r, hr, hvalid, -⟩ - hat
      obtain rfl := Option.some.inj (hparse.symm.trans hr)
      exact (hvalid.mp (hstatus.mpr hat)).2
    · intro hat
      refine ⟨_, hparse, ?_, fun _ => ?_⟩
      · rw [hstatus, ValidFormat, hhash, hzero]
        exact ⟨fun hle => ⟨le_refl _, hat hzero hle⟩, fun hvalid => by have := hvalid.2; omega⟩
      · rw [userPart_split huser, zonePart_split huser]
        exact checkAt_names user zone

/-- An input that fits is parsed as documented exactly when it is separable. -/
theorem parseUserName_documented_iff (s : Text) (h : s.length < NAME_LEN) : Documented s ↔ Separable s := by
  by_cases hmem : '#' ∈ s
  · obtain ⟨user, zone, rfl, huser⟩ := List.eq_append_cons_of_mem hmem
    cases user with
    | nil => exact documented_hashFirst_iff h
    | cons c user =>
      have hhash : (c :: user ++ '#' :: zone).count '#' = zone.count '#' + 1 := by
        rw [List.count_append, List.count_eq_zero_of_not_mem huser, List.count_cons_self, Nat.zero_add]
      have hhead : (c :: user ++ '#' :: zone).head? ≠ some '#' := by
        intro hhead
        exact huser (Option.some.inj hhead ▸ List.mem_cons_self)
      rw [documented_split_iff h (List.cons_ne_nil c user) huser, Separable, if_neg hhead, hhash,
        userPart_split huser]
      exact ⟨fun hat hone => hat (by omega), fun hat hzero => hat (by omega)⟩
  · have hhead : s.head? ≠ some '#' := fun hhead => hmem (List.mem_of_mem_head? hhead)
    have hcount : s.count '#' = 0 := List.count_eq_zero_of_not_mem hmem
    refine ⟨fun _ => ?_, fun _ => documented_noHash h hmem⟩
    rw [Separable, if_neg hhead, hcount]
    exact nofun

theorem parseUserName_documented_rods : Documented "rods@lab#tempZone".toList :=
  (parseUserName_documented_iff "rods@lab#tempZone".toList (by decide)).mpr (by decide)

theorem not_documented {r : ParsedName} (hr : parseUserName s = some r) (h0 : r.status = 0)
    (hbad : ¬ ValidFormat s ∨ r.userName ≠ userPart s) : ¬ Documented s := by
  rintro ⟨r', hr', hvalid, hnames⟩
  obtain rfl := Option.some.inj (hr.symm.trans hr')
  rcases hbad with hbad | hbad
  · exact hbad (hvalid.mp h0)
  · exact hbad (hnames h0).1

/-- An `@` in the zone beside one in the name, and a `#` in front of the name. -/
theorem parseUserName_misread :
    ¬ Documented "a@b#c@d".toList ∧ ¬ Documented "#a#b".toList ∧ ¬ Documented "#tempZone".toList :=
  ⟨not_documented (r := ⟨0, "a@b".toList, "c@d".toList⟩) (by decide) rfl (.inl (by decide)),
    not_documented (r := ⟨0, "#a#b".toList, []⟩) (by decide) rfl (.inl (by decide)),
    not_documented (r := ⟨0, "#tempZone".toList, []⟩) (by decide) rfl (.inr (by decide))⟩

end UserName
