-- SUMMARY: The two path resolvers of the FUSE client and when they agree.
import Irods.Api.RodsDef
import Irods.Base.CString

/-!
# iRODS paths

The preload and lazy-upload layers resolve a FUSE path with its leading slash, the FUSE
operations without it. Both hand the text they build to the same cleaning steps.
-/

namespace RodsPath

open CString
open List (append_assoc length_append length_drop length_take)

/-! ## Cleaning -/

def userInputPathErr : Int := -317000

def userPathExceedsMax : Int := -346000

/-- A status or a path; `none` where bytes in front of the buffer are read. -/
abbrev Parsed := Option (Except Int Text)

/-- `snprintf` into a buffer of `MAX_NAME_LEN` characters. -/
def snprintf (s : Text) : Text := s.take (MAX_NAME_LEN - 1)

/-- Take out every `pat` but for its first character. -/
def takeOut (pat : Text) : Nat → Text → Text
  | 0, s => s
  | k + 1, s =>
    match strstr pat s with
    | none => s
    | some n => takeOut pat k (s.take (n + 1) ++ s.drop (n + pat.length))

/-- The nearest slash in front of position `n`. -/
def goBack (s : Text) : Nat → Option Nat
  | 0 => none
  | n + 1 => if s[n]? = some '/' then some n else goBack s n

/-- Take out every `/../` with the name in front of it. -/
def takeOutParents : Nat → Text → Parsed
  | 0, s => some (.ok s)
  | k + 1, s =>
    match strstr "/../".toList s with
    | none => some (.ok s)
    | some 0 => none
    | some (n + 1) =>
      match goBack s (n + 1) with
      | none => some (.error userInputPathErr)
      | some m => takeOutParents k (s.take (m + 1) ++ s.drop (n + 1 + 4))

def takeOuts (s : Text) : Parsed :=
  let s := takeOut "//".toList s.length s
  let s := takeOut "/./".toList s.length s
  takeOutParents s.length s

def bounded (s : Text) : Parsed :=
  if MAX_PATH_ALLOWED - 1 ≤ s.length then some (.error userPathExceedsMax) else some (.ok s)

/-- Handle `/..`, `/.` and `/` at the end. -/
def atEnd (s : Text) : Parsed :=
  if s.length < 3 ∧ s.head? ≠ some '/' then none
  else
    match strstr "/..".toList (s.drop (s.length - 3)) with
    | some i =>
      match s.length - 3 + i with
      | 0 => none
      | n + 1 =>
        match goBack s (n + 1) with
        | none => some (.error userInputPathErr)
        | some m => bounded (if m = 0 then "/".toList else s.take m)
    | none =>
      match strstr "/.".toList (s.drop (s.length - 2)) with
      | some i => bounded (s.take (s.length - 2 + i))
      | none =>
        if s.getLast? = some '/' ∧ 1 < s.length then bounded (s.take (s.length - 1))
        else bounded s

def clean (s : Text) : Parsed :=
  match takeOuts s with
  | some (.ok s) => atEnd s
  | other => other

/-! ## The resolvers -/

/-- The two paths of the environment, each in a buffer of `MAX_NAME_LEN` characters. -/
structure RodsEnv where
  rodsHome : Text
  rodsCwd : Text
  home_fits : rodsHome.length < MAX_NAME_LEN
  cwd_fits : rodsCwd.length < MAX_NAME_LEN

/-- What both resolvers do; `full` is the text a path with a leading slash becomes. -/
def resolve (full : Text → Text) (env : RodsEnv) (path : Text) : Parsed :=
  if path = [] ∨ path = ".".toList ∨ path = "./".toList then some (.ok env.rodsCwd)
  else if path = "~".toList ∨ path = "~/".toList ∨ path = "^".toList ∨ path = "^/".toList then
    some (.ok env.rodsHome)
  else if path[0]? = some '~' ∨ path[0]? = some '^' then
    if path[1]? = some '/' then clean (snprintf (env.rodsHome ++ '/' :: path.drop 2))
    else clean (snprintf (env.rodsCwd ++ '/' :: path.drop 2))
  else if path[0]? = some '/' then clean (full path)
  else clean (snprintf (env.rodsCwd ++ '/' :: path))

def getiRODSPath (env : RodsEnv) (path : Text) : Parsed :=
  resolve (fun path => snprintf (env.rodsCwd ++ path)) env path

def parseRodsPath (env : RodsEnv) (inPath : Text) : Parsed := resolve id env inPath

/-- A path that does not fit leaves `rodsPath.inPath` as it was on the stack. -/
def parseRodsPathStr (env : RodsEnv) (inPath : Text) : Parsed :=
  if inPath.length < MAX_NAME_LEN then parseRodsPath env inPath else none

/-! ## Names and paths -/

/-- A name the kernel looks up in a directory. -/
structure Name where
  text : Text
  ne_nil : text ≠ []
  no_slash  : '/' ∉ text
  ne_dot    : text ≠ ".".toList
  ne_dotdot : text ≠ "..".toList

/-- Every name with a slash in front of it. -/
def slashed : List Name → Text
  | [] => []
  | name :: names => '/' :: (name.text ++ slashed names)

/-- The names as the FUSE operations pass them on, without the leading slash. -/
def relative (names : List Name) : Text := (slashed names).tail

/-- The absolute path of the names. -/
def pathOf (names : List Name) : Text := if names.isEmpty then "/".toList else slashed names

theorem slashed_append (names more : List Name) :
    slashed (names ++ more) = slashed names ++ slashed more := by
  induction names with
  | nil => rfl
  | cons name names ih => simp only [List.cons_append, slashed, ih, append_assoc]

variable {names : List Name} {mid : Text}

theorem slashed_eq (hne : names ≠ []) : slashed names = '/' :: relative names := by
  cases names with
  | nil => exact absurd rfl hne
  | cons name names => rfl

theorem relative_cons (name : Name) (names : List Name) :
    relative (name :: names) = name.text ++ slashed names := rfl

theorem relative_ne_nil (hne : names ≠ []) : relative names ≠ [] := by
  cases names with
  | nil => exact absurd rfl hne
  | cons name names =>
    exact List.append_ne_nil_of_left_ne_nil name.ne_nil _

theorem pathOf_eq (hne : names ≠ []) : pathOf names = slashed names := by
  cases names with
  | nil => exact absurd rfl hne
  | cons name names => rfl

theorem between_name {x : Text} (hmid : '/' ∉ mid) (hx : '/' ∉ x) (h : '/' :: (mid ++ ['/']) <:+: '/' :: (x ++ ['/'])) :
    mid = x := by
  obtain ⟨A, B, h⟩ := h
  have h : A ++ '/' :: (mid ++ '/' :: B) = '/' :: (x ++ ['/']) := by simpa using h
  cases A with
  | nil => exact (first_sep_inj (S := []) hmid hx (List.cons.inj h).2).1
  | cons a A =>
    -- a third slash in front does not fit
    obtain ⟨rfl, -⟩ := List.cons.inj h
    have hcount := congrArg (List.count '/') h
    have hzero : List.count '/' x = 0 := List.count_eq_zero_of_not_mem hx
    simp only [List.cons_append, List.count_cons_self, List.count_append, hzero, List.count_nil] at hcount
    omega

/-- What stands between two slashes of a path is one of its names. -/
theorem mem_of_between (hmid : '/' ∉ mid) : ∀ {names : List Name},
    '/' :: (mid ++ ['/']) <:+: slashed names ++ ['/'] → ∃ name ∈ names, name.text = mid := by
  intro names
  induction names with
  | nil =>
    intro h
    have := h.length_le
    simp [slashed] at this
  | cons name names ih =>
    intro h
    obtain ⟨W, hW⟩ : ∃ W, slashed names ++ ['/'] = '/' :: W := by
      cases names with
      | nil => exact ⟨[], rfl⟩
      | cons name names => exact ⟨_, rfl⟩
    have h : '/' :: (mid ++ ['/']) <:+: '/' :: name.text ++ '/' :: W := by
      rw [← hW]
      simpa [slashed] using h
    obtain h | h := infix_between hmid h
    · exact ⟨name, by simp, (between_name hmid name.no_slash h).symm⟩
    · obtain ⟨other, hmem, hother⟩ := ih (hW ▸ h)
      exact ⟨other, List.mem_cons_of_mem _ hmem, hother⟩

/-- What the cleaning takes out between two slashes. -/
def Improper (mid : Text) : Prop := mid = [] ∨ mid = ".".toList ∨ mid = "..".toList

theorem Improper.no_slash (h : Improper mid) : '/' ∉ mid := by
  obtain rfl | rfl | rfl := h <;> decide

theorem Name.proper (name : Name) (h : Improper mid) : name.text ≠ mid := by
  obtain rfl | rfl | rfl := h
  · exact name.ne_nil
  · exact name.ne_dot
  · exact name.ne_dotdot

theorem strstr_slashed (h : Improper mid) (names : List Name) :
    strstr ('/' :: (mid ++ ['/'])) (slashed names ++ ['/']) = none := by
  rw [strstr_eq_none]
  intro hsub
  obtain ⟨name, -, hname⟩ := mem_of_between h.no_slash hsub
  exact name.proper h hname

/-- Names behind a slash add nothing the cleaning takes out. -/
theorem strstr_relative {X : Text} (h : Improper mid) (hne : names ≠ []) (hX : X.getLast? = some '/') :
    strstr ('/' :: (mid ++ ['/'])) (X ++ relative names) = strstr ('/' :: (mid ++ ['/'])) X := by
  obtain ⟨Y, rfl⟩ := List.getLast?_eq_some_iff.mp hX
  cases hfind : strstr ('/' :: (mid ++ ['/'])) (Y ++ ['/']) with
  | some n => exact strstr_append _ hfind
  | none =>
    rw [strstr_eq_none] at hfind ⊢
    intro hsub
    have hsub : '/' :: (mid ++ ['/']) <:+: Y ++ '/' :: relative names := by simpa using hsub
    obtain hleft | hright := infix_between h.no_slash hsub
    · exact hfind hleft
    · rw [← slashed_eq hne] at hright
      exact strstr_eq_none.mp (strstr_slashed h names) (hright.trans (List.prefix_append _ _).isInfix)

/-! ## The take-outs -/

variable {X s : Text}

variable {i j : Nat} {R pat : Text}

theorem getLast?_splice (hX : X.getLast? = some '/') (hi : X[i]? = some '/') :
    (X.take (i + 1) ++ X.drop j).getLast? = some '/' := by
  rw [List.getLast?_append, List.getLast?_drop]
  split
  · rw [List.getLast?_take]
    simp [hi]
  · simp [hX]

theorem splice_append (hi : i < X.length) (hj : j ≤ X.length) :
    (X ++ R).take (i + 1) ++ (X ++ R).drop j = X.take (i + 1) ++ X.drop j ++ R := by
  rw [List.take_append_of_le_length hi, List.drop_append_of_le_length hj, append_assoc]

/-- The occurrence that is found begins with the pattern's first character and ends in the text. -/
theorem strstr_slash {n : Nat} (h : strstr ('/' :: (mid ++ ['/'])) s = some n) :
    s[n]? = some '/' ∧ n + (mid.length + 2) ≤ s.length := by
  obtain ⟨-, ⟨B, hB⟩, -⟩ := strstr_eq_some h
  constructor
  · have := congrArg (·[0]?) hB
    simpa using this.symm
  · have := congrArg List.length hB
    simp at this
    omega

theorem takeOut_of_none (h : strstr pat s = none) (k : Nat) : takeOut pat k s = s := by
  cases k with
  | zero => rfl
  | succ k => simp only [takeOut, h]

theorem takeOut_length (pat : Text) : ∀ (k : Nat) (s : Text), pat ≠ [] →
    (takeOut pat k s).length ≤ s.length := by
  intro k
  induction k with
  | zero => exact fun s _ => le_refl _
  | succ k ih =>
    intro s hpat
    simp only [takeOut]
    split
    · exact le_refl _
    · rename_i n hn
      have hpos := List.length_pos_iff.mpr hpat
      have := ih (s.take (n + 1) ++ s.drop (n + pat.length)) hpat
      simp only [length_append, length_take, length_drop] at this
      omega

/-- Every round takes something out, so there are at most as many as characters. -/
theorem takeOut_fuel (hpat : 2 ≤ pat.length) : ∀ {k : Nat} {s : Text}, s.length ≤ k →
    takeOut pat k s = takeOut pat s.length s := by
  intro k
  induction k using Nat.strong_induction_on with
  | _ k ih =>
    intro s hk
    cases hfind : strstr pat s with
    | none => rw [takeOut_of_none hfind, takeOut_of_none hfind]
    | some n =>
      obtain ⟨-, hpre, -⟩ := strstr_eq_some hfind
      have hlen := hpre.length_le
      rw [length_drop] at hlen
      obtain ⟨j, hj⟩ : ∃ j, s.length = j + 1 := ⟨s.length - 1, by omega⟩
      obtain ⟨i, rfl⟩ : ∃ i, k = i + 1 := ⟨k - 1, by omega⟩
      have hshort : (s.take (n + 1) ++ s.drop (n + pat.length)).length ≤ j := by
        simp only [length_append, length_take, length_drop]
        omega
      rw [hj]
      simp only [takeOut, hfind]
      rw [ih i (by omega) (by omega), ih j (by omega) hshort]

theorem takeOut_relative (h : Improper mid) (hne : names ≠ []) :
    ∀ (k : Nat) {X : Text}, X.getLast? = some '/' →
      (takeOut ('/' :: (mid ++ ['/'])) k X).getLast? = some '/' ∧
      takeOut ('/' :: (mid ++ ['/'])) k (X ++ relative names) =
        takeOut ('/' :: (mid ++ ['/'])) k X ++ relative names := by
  intro k
  induction k with
  | zero => exact fun hX => ⟨hX, rfl⟩
  | succ k ih =>
    intro X hX
    simp only [takeOut, strstr_relative h hne hX]
    cases hfind : strstr ('/' :: (mid ++ ['/'])) X with
    | none => exact ⟨hX, rfl⟩
    | some n =>
      obtain ⟨hslash, hle⟩ := strstr_slash hfind
      have hn : n < X.length := by omega
      have hj : n + ('/' :: (mid ++ ['/'])).length ≤ X.length := by simpa using hle
      simp only
      rw [splice_append hn hj]
      exact ih (getLast?_splice hX hslash)

theorem goBack_eq_some : ∀ {n m : Nat}, goBack s n = some m → m < n ∧ s[m]? = some '/' := by
  intro n
  induction n with
  | zero => intro m h; simp [goBack] at h
  | succ n ih =>
    intro m h
    simp only [goBack] at h
    split at h
    · rename_i hslash
      obtain rfl := Option.some.inj h
      exact ⟨Nat.lt_succ_self _, hslash⟩
    · obtain ⟨hlt, hslash⟩ := ih h
      exact ⟨by omega, hslash⟩

theorem goBack_append : ∀ {n : Nat}, n ≤ X.length → goBack (X ++ R) n = goBack X n := by
  intro n
  induction n with
  | zero => exact fun _ => rfl
  | succ n ih =>
    intro hn
    simp only [goBack, List.getElem?_append_left (Nat.lt_of_succ_le hn), ih (by omega)]

theorem strstr_parent_relative (hne : names ≠ []) (hX : X.getLast? = some '/') :
    strstr "/../".toList (X ++ relative names) = strstr "/../".toList X :=
  strstr_relative (.inr (.inr rfl)) hne hX

theorem takeOutParents_relative (hne : names ≠ []) : ∀ (k : Nat) {X r : Text},
    X.getLast? = some '/' → takeOutParents k (X ++ relative names) = some (.ok r) →
    ∃ Z, Z.getLast? = some '/' ∧ takeOutParents k X = some (.ok Z) ∧ r = Z ++ relative names := by
  intro k
  induction k with
  | zero =>
    intro X r hX h
    simp only [takeOutParents, Option.some.injEq, Except.ok.injEq] at h
    exact ⟨X, hX, rfl, h.symm⟩
  | succ k ih =>
    intro X r hX h
    simp only [takeOutParents, strstr_parent_relative hne hX] at h ⊢
    cases hfind : strstr "/../".toList X with
    | none =>
      simp only [hfind, Option.some.injEq, Except.ok.injEq] at h
      exact ⟨X, hX, rfl, h.symm⟩
    | some n =>
      obtain ⟨-, hle⟩ := @strstr_slash "..".toList _ _ hfind
      cases n with
      | zero =>
        simp only [hfind] at h
        cases h
      | succ n =>
        have hle : n + 1 + 4 ≤ X.length := hle
        simp only [hfind, goBack_append (show n + 1 ≤ X.length by omega)] at h ⊢
        cases hback : goBack X (n + 1) with
        | none => simp [hback] at h
        | some m =>
          obtain ⟨hlt, hslash⟩ := goBack_eq_some hback
          simp only [hback, splice_append (show m < X.length by omega) hle] at h
          exact ih (getLast?_splice hX hslash) h

theorem takeOutParents_of_none (h : strstr "/../".toList s = none) (k : Nat) : takeOutParents k s = some (.ok s) := by
  cases k with
  | zero => rfl
  | succ k => simp only [takeOutParents, h]

theorem takeOutParents_fuel : ∀ {k : Nat} {s : Text}, s.length ≤ k →
    takeOutParents k s = takeOutParents s.length s := by
  intro k
  induction k using Nat.strong_induction_on with
  | _ k ih =>
    intro s hk
    cases hfind : strstr "/../".toList s with
    | none => rw [takeOutParents_of_none hfind, takeOutParents_of_none hfind]
    | some n =>
      obtain ⟨-, hle⟩ := @strstr_slash "..".toList _ _ hfind
      obtain ⟨j, hj⟩ : ∃ j, s.length = j + 1 := ⟨s.length - 1, by omega⟩
      obtain ⟨i, rfl⟩ : ∃ i, k = i + 1 := ⟨k - 1, by omega⟩
      rw [hj]
      simp only [takeOutParents, hfind]
      cases n with
      | zero => rfl
      | succ n =>
        simp only
        cases hback : goBack s (n + 1) with
        | none => rfl
        | some m =>
          obtain ⟨hlt, -⟩ := goBack_eq_some hback
          have hshort : (s.take (m + 1) ++ s.drop (n + 1 + 4)).length ≤ j := by
            simp only [length_append, length_take, length_drop]
            omega
          simp only
          rw [ih i (by omega) (by omega), ih j (by omega) hshort]

theorem takeOuts_eq {k : Nat} (hk : s.length ≤ k) :
    takeOuts s = takeOutParents k (takeOut "/./".toList k (takeOut "//".toList k s)) := by
  have hlen₁ := takeOut_length "//".toList k s (by decide)
  have hlen₂ := takeOut_length "/./".toList k (takeOut "//".toList k s) (by decide)
  simp only [takeOuts]
  rw [← takeOut_fuel (by decide) hk, ← takeOut_fuel (by decide) (hlen₁.trans hk),
    ← takeOutParents_fuel ((hlen₂.trans hlen₁).trans hk)]

/-- Names behind a slash are not changed by the take-outs and change nothing for them. -/
theorem takeOuts_relative {r : Text} (hne : names ≠ []) (hX : X.getLast? = some '/')
    (h : takeOuts (X ++ relative names) = some (.ok r)) :
    ∃ Z, Z.getLast? = some '/' ∧ takeOuts X = some (.ok Z) ∧ r = Z ++ relative names := by
  have hle : X.length ≤ (X ++ relative names).length := by
    rw [length_append]
    exact Nat.le_add_right _ _
  rw [takeOuts_eq (le_refl _)] at h
  rw [takeOuts_eq hle]
  obtain ⟨hX₁, hslashes⟩ := takeOut_relative (.inl rfl) hne (X ++ relative names).length hX
  obtain ⟨hX₂, hdots⟩ := takeOut_relative (.inr (.inl rfl)) hne (X ++ relative names).length hX₁
  exact takeOutParents_relative hne _ hX₂ (hdots ▸ hslashes ▸ h)

theorem takeOuts_of_none (hslashes : strstr "//".toList s = none) (hdots : strstr "/./".toList s = none)
    (hparents : strstr "/../".toList s = none) : takeOuts s = some (.ok s) := by
  rw [takeOuts_eq (le_refl _), takeOut_of_none hslashes, takeOut_of_none hdots,
    takeOutParents_of_none hparents]

theorem takeOuts_slashed (names : List Name) : takeOuts (slashed names) = some (.ok (slashed names)) := by
  have hnone (mid : Text) (h : Improper mid) : strstr ('/' :: (mid ++ ['/'])) (slashed names) = none := by
    rw [strstr_eq_none]
    intro hsub
    exact strstr_eq_none.mp (strstr_slashed h names) (hsub.trans (List.prefix_append _ _).isInfix)
  exact takeOuts_of_none (hnone [] (.inl rfl)) (hnone _ (.inr (.inl rfl))) (hnone _ (.inr (.inr rfl)))

theorem takeOuts_slashed_slash (names : List Name) :
    takeOuts (slashed names ++ ['/']) = some (.ok (slashed names ++ ['/'])) :=
  takeOuts_of_none (strstr_slashed (.inl rfl) names) (strstr_slashed (.inr (.inl rfl)) names)
    (strstr_slashed (.inr (.inr rfl)) names)

theorem takeOuts_double (s : Text) : takeOuts ('/' :: '/' :: s) = takeOuts ('/' :: s) := by
  have hfind : strstr "//".toList ('/' :: '/' :: s) = some 0 := strstr_prefix "//".toList s
  have hlen : ('/' :: s).length ≤ s.length + 2 := Nat.le_succ (s.length + 1)
  have hround : takeOut "//".toList (s.length + 2) ('/' :: '/' :: s) =
      takeOut "//".toList (s.length + 2) ('/' :: s) := by
    rw [takeOut_fuel (by decide) hlen, takeOut, hfind]
    rfl
  rw [takeOuts_eq (k := s.length + 2) (le_refl _), takeOuts_eq hlen, hround]

/-! ## The end of the path -/

variable {r : Text}

theorem bounded_ok (h : bounded s = some (.ok r)) : s = r ∧ r.length < MAX_PATH_ALLOWED - 1 := by
  simp only [bounded] at h
  split at h
  · cases h
  · obtain rfl : s = r := by simpa using h
    exact ⟨rfl, by omega⟩

/-- Three characters in which a pattern of three is found. -/
theorem eq_of_strstr {t : Text} (hlen : t.length ≤ pat.length) (h : strstr pat t = some i) : t = pat := by
  obtain ⟨-, hpre, -⟩ := strstr_eq_some h
  have hsub : pat <:+: t := hpre.isInfix.trans (List.drop_suffix _ _).isInfix
  exact (hsub.eq_of_length_le hlen).symm

theorem atEnd_name (name : Name) (hX : X.getLast? = some '/') :
    atEnd (X ++ name.text) = bounded (X ++ name.text) := by
  obtain ⟨Y, rfl⟩ := List.getLast?_eq_some_iff.mp hX
  have hname := List.length_pos_iff.mpr name.ne_nil
  have hfront : ¬ ((Y ++ ['/'] ++ name.text).length < 3 ∧ (Y ++ ['/'] ++ name.text).head? ≠ some '/') := by
    rintro ⟨hlen, hhead⟩
    cases Y with
    | nil => exact hhead rfl
    | cons c Y =>
      simp only [length_append, List.length_cons] at hlen
      omega
  -- a text that ends in a slash and dots ends in a name of dots
  have hdots (e : Text) (k : Nat) (he : '/' ∉ e) (hk : k = e.length + 1) (hne : name.text ≠ e) :
      strstr ('/' :: e) ((Y ++ ['/'] ++ name.text).drop ((Y ++ ['/'] ++ name.text).length - k)) = none := by
    cases hfind : strstr ('/' :: e) ((Y ++ ['/'] ++ name.text).drop
        ((Y ++ ['/'] ++ name.text).length - k)) with
    | none => rfl
    | some i =>
      have hend := eq_of_strstr (by rw [length_drop, List.length_cons]; omega) hfind
      have hsplit := List.take_append_drop ((Y ++ ['/'] ++ name.text).length - k) (Y ++ ['/'] ++ name.text)
      rw [hend] at hsplit
      have hsplit := hsplit.trans (append_assoc Y ['/'] name.text)
      exact absurd (last_sep_inj he name.no_slash hsplit).2.symm hne
  have hlast : (Y ++ ['/'] ++ name.text).getLast? ≠ some '/' := by
    rw [List.getLast?_append, List.getLast?_eq_getLast_of_ne_nil name.ne_nil, Option.some_or]
    intro h
    exact name.no_slash (Option.some.inj h ▸ List.getLast_mem name.ne_nil)
  have hparent : strstr "/..".toList _ = none := hdots "..".toList 3 (by decide) rfl name.ne_dotdot
  have hself : strstr "/.".toList _ = none := hdots ".".toList 2 (by decide) rfl name.ne_dot
  simp only [atEnd, if_neg hfront, hparent, hself, hlast, false_and, if_false]

theorem atEnd_slash (hs : s.head? = some '/') : atEnd (s ++ ['/']) = bounded s := by
  obtain ⟨t, rfl⟩ : ∃ t, s = '/' :: t := by
    cases s with
    | nil => cases hs
    | cons c t => exact ⟨t, by simpa using hs⟩
  have hfront : ¬ (('/' :: t ++ ['/']).length < 3 ∧ ('/' :: t ++ ['/']).head? ≠ some '/') :=
    fun h => h.2 rfl
  have hdots (pat : Text) (k : Nat) (hk : k = pat.length) (hpat : pat.getLast? = some '.') :
      strstr pat (('/' :: t ++ ['/']).drop (('/' :: t ++ ['/']).length - k)) = none := by
    cases hfind : strstr pat (('/' :: t ++ ['/']).drop (('/' :: t ++ ['/']).length - k)) with
    | none => rfl
    | some i =>
      have hend := eq_of_strstr (by rw [length_drop]; omega) hfind
      rw [← hend, List.getLast?_drop, List.getLast?_concat] at hpat
      split at hpat <;> cases hpat
  have hparent : strstr "/..".toList _ = none := hdots "/..".toList 3 rfl rfl
  have hself : strstr "/.".toList _ = none := hdots "/.".toList 2 rfl rfl
  have hlast : ('/' :: t ++ ['/']).getLast? = some '/' ∧ 1 < ('/' :: t ++ ['/']).length :=
    ⟨List.getLast?_concat, by simp⟩
  have htake : ('/' :: t ++ ['/']).take (('/' :: t ++ ['/']).length - 1) = '/' :: t := by
    rw [← List.dropLast_eq_take, List.dropLast_concat]
  simp only [atEnd, if_neg hfront, hparent, hself, if_pos hlast, htake]

theorem bounded_length (h : bounded s = some (.ok r)) : r.length = s.length := by
  rw [(bounded_ok h).1]

theorem takeOutParents_length : ∀ (k : Nat) {s r : Text}, takeOutParents k s = some (.ok r) →
    r.length ≤ s.length := by
  intro k
  induction k with
  | zero =>
    intro s r h
    simp only [takeOutParents, Option.some.injEq, Except.ok.injEq] at h
    rw [h]
  | succ k ih =>
    intro s r h
    simp only [takeOutParents] at h
    split at h
    · simp only [Option.some.injEq, Except.ok.injEq] at h
      rw [h]
    · cases h
    · split at h
      · cases h
      · rename_i n hfind m hback
        obtain ⟨hlt, -⟩ := goBack_eq_some hback
        have := ih h
        simp only [length_append, length_take, length_drop] at this
        omega

theorem takeOuts_length (h : takeOuts s = some (.ok r)) : r.length ≤ s.length := by
  exact (takeOutParents_length _ h).trans
    ((takeOut_length _ _ _ (by decide)).trans (takeOut_length _ _ _ (by decide)))

/-- Only the root is put back. -/
theorem atEnd_length (h : atEnd s = some (.ok r)) : r.length ≤ max s.length 1 := by
  simp only [atEnd] at h
  split at h
  · cases h
  split at h
  · split at h
    · cases h
    split at h
    · cases h
    · rw [bounded_length h]
      split
      · exact le_max_right _ _
      · rw [length_take]
        omega
  · split at h
    · rw [bounded_length h, length_take]
      omega
    split at h
    · rw [bounded_length h, length_take]
      omega
    · rw [bounded_length h]
      exact le_max_left _ _

theorem clean_ok (h : clean s = some (.ok r)) : ∃ t, takeOuts s = some (.ok t) ∧ atEnd t = some (.ok r) := by
  simp only [clean] at h
  split at h
  · rename_i t ht
    exact ⟨t, ht, h⟩
  · rename_i hother
    exact absurd h (hother r)

theorem clean_length (h : clean s = some (.ok r)) : r.length ≤ max s.length 1 := by
  obtain ⟨t, htake, hend⟩ := clean_ok h
  have hle := takeOuts_length htake
  have := atEnd_length hend
  omega

/-- A slash and names end in a slash and the last name. -/
theorem exists_last_name {Z : Text} (hne : names ≠ []) (hZ : Z.getLast? = some '/') :
    ∃ W, ∃ name : Name, W.getLast? = some '/' ∧ Z ++ relative names = W ++ name.text := by
  obtain ⟨front, name, rfl⟩ := List.eq_nil_or_concat' names |>.resolve_left hne
  cases front with
  | nil => exact ⟨Z, name, hZ, by simp [relative, slashed]⟩
  | cons first front =>
    refine ⟨Z ++ relative (first :: front) ++ ['/'], name, List.getLast?_concat, ?_⟩
    simp [relative, slashed, slashed_append]

/-- A path with names behind a slash is what the take-outs make of the front, and the names. -/
theorem clean_relative (hne : names ≠ []) (hX : X.getLast? = some '/')
    (h : clean (X ++ relative names) = some (.ok r)) : ∃ Z, takeOuts X = some (.ok Z) ∧ r = Z ++ relative names := by
  obtain ⟨t, htake, hend⟩ := clean_ok h
  obtain ⟨Z, hZ, hfront, rfl⟩ := takeOuts_relative hne hX htake
  obtain ⟨W, name, hW, hlast⟩ := exists_last_name hne hZ
  rw [hlast, atEnd_name name hW, ← hlast] at hend
  exact ⟨Z, hfront, (bounded_ok hend).1.symm⟩

/-! ## Paths in the working directory -/

theorem takeOuts_cwd (cwd : List Name) (t : Text) :
    takeOuts (pathOf cwd ++ '/' :: t) = takeOuts (slashed cwd ++ '/' :: t) := by
  cases cwd with
  | nil => exact takeOuts_double t
  | cons name cwd => rfl

theorem atEnd_slashed (hne : names ≠ []) : atEnd (slashed names) = bounded (slashed names) := by
  obtain ⟨W, name, hW, hlast⟩ := exists_last_name (Z := ['/']) hne rfl
  have hslashed : slashed names = W ++ name.text := (slashed_eq hne).trans hlast
  rw [hslashed]
  exact atEnd_name name hW

variable {cwd : List Name} {p : Text}

theorem clean_cwd_slashed (hne : names ≠ []) (h : clean (pathOf cwd ++ slashed names) = some (.ok p)) :
    p = slashed (cwd ++ names) := by
  obtain ⟨t, htake, hend⟩ := clean_ok h
  rw [slashed_eq hne, takeOuts_cwd, ← slashed_eq hne, ← slashed_append, takeOuts_slashed] at htake
  obtain rfl : slashed (cwd ++ names) = t := by simpa using htake
  rw [atEnd_slashed (List.append_ne_nil_of_right_ne_nil cwd hne)] at hend
  exact (bounded_ok hend).1.symm

/-- The root of the file system is the working directory. -/
theorem clean_cwd_slash (hfits : (pathOf cwd).length < MAX_NAME_LEN)
    (h : clean (snprintf (pathOf cwd ++ ['/'])) = some (.ok p)) : p = pathOf cwd := by
  obtain ⟨t, htake, hend⟩ := clean_ok h
  by_cases hcut : (pathOf cwd).length + 1 < MAX_NAME_LEN
  · have hwhole : snprintf (pathOf cwd ++ ['/']) = pathOf cwd ++ ['/'] := by
      refine List.take_of_length_le ?_
      rw [length_append, List.length_singleton]
      omega
    rw [hwhole, takeOuts_cwd, takeOuts_slashed_slash] at htake
    obtain rfl : slashed cwd ++ ['/'] = t := by simpa using htake
    cases cwd with
    | nil =>
      have hroot : atEnd "/".toList = some (.ok "/".toList) := rfl
      exact Except.ok.inj (Option.some.inj (hend.symm.trans hroot))
    | cons name cwd =>
      rw [atEnd_slash rfl] at hend
      exact (bounded_ok hend).1.symm
  · -- the slash is cut off, and the directory alone is too long
    have hlen : (pathOf cwd).length = MAX_NAME_LEN - 1 := by omega
    have hne : cwd ≠ [] := by
      rintro rfl
      cases hlen
    have hwhole : snprintf (pathOf cwd ++ ['/']) = slashed cwd := by
      rw [snprintf, ← hlen, List.take_left, pathOf_eq hne]
    rw [hwhole, takeOuts_slashed] at htake
    obtain rfl : slashed cwd = t := by simpa using htake
    rw [atEnd_slashed hne] at hend
    obtain ⟨rfl, -⟩ := bounded_ok hend
    exact (pathOf_eq hne).symm

end RodsPath
