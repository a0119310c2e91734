-- SUMMARY: The cache layers and the FUSE operations name the same object.
import Irods.Core.RodsPath

/-!
# One path, one object

Without its leading slash a path may begin with `~` or `^`, which the resolver reads as
the home directory or leaves out, two characters at a time.
-/

namespace RodsPath

open CString

/-! ## Which branch is taken -/

/-- The first characters that mean the home directory. -/
def Name.Special (name : Name) : Prop := name.text[0]? = some '~' ∨ name.text[0]? = some '^'

instance (name : Name) : Decidable name.Special := inferInstanceAs (Decidable (_ ∨ _))

theorem resolve_slash (full : Text → Text) (env : RodsEnv) (t : Text) :
    resolve full env ('/' :: t) = clean (full ('/' :: t)) := by
  simp [resolve]

theorem Name.eq_cons (name : Name) : ∃ c t, name.text = c :: t ∧ c ≠ '/' ∧ '/' ∉ t := by
  have hslash := name.no_slash
  cases htext : name.text with
  | nil => exact absurd htext name.ne_nil
  | cons c t =>
    rw [htext, List.mem_cons, not_or] at hslash
    exact ⟨c, t, rfl, Ne.symm hslash.1, hslash.2⟩

variable {name : Name} {names : List Name} {env : RodsEnv}

variable {e : Text}

theorem relative_eq (he : '/' ∉ e) (h : relative (name :: names) = e) : name.text = e ∧ names = [] := by
  cases names with
  | nil => exact ⟨by simpa [relative_cons, slashed] using h, rfl⟩
  | cons next names =>
    refine absurd ?_ he
    rw [← h, relative_cons]
    simp [slashed]

/-- A path that ends in its first slash has no second name. -/
theorem relative_ne_slash (name : Name) (names : List Name) (he : '/' ∉ e) :
    relative (name :: names) ≠ e ++ ['/'] := by
  intro h
  cases names with
  | nil =>
    have htext : name.text = e ++ ['/'] := by simpa [relative_cons, slashed] using h
    exact name.no_slash (by rw [htext]; simp)
  | cons next names =>
    obtain ⟨-, hrest⟩ := first_sep_inj name.no_slash he h
    exact relative_ne_nil (List.cons_ne_nil _ _) hrest

theorem relative_ne_dots (name : Name) (names : List Name) :
    ¬ (relative (name :: names) = [] ∨ relative (name :: names) = ".".toList ∨
      relative (name :: names) = "./".toList) := by
  rintro (h | h | h)
  · exact relative_ne_nil (List.cons_ne_nil _ _) h
  · exact name.ne_dot (relative_eq (by decide) h).1
  · exact relative_ne_slash name names (e := ".".toList) (by decide) h

theorem relative_zero (name : Name) (names : List Name) :
    (relative (name :: names))[0]? = name.text[0]? := by
  obtain ⟨c, t, htext, -, -⟩ := name.eq_cons
  rw [relative_cons, htext]
  rfl

variable (full : Text → Text)

theorem resolve_ordinary (hord : ¬ name.Special) : resolve full env (relative (name :: names)) =
      clean (snprintf (env.rodsCwd ++ slashed (name :: names))) := by
  have hfirst := relative_zero name names
  have hhome : ¬ (relative (name :: names) = "~".toList ∨ relative (name :: names) = "~/".toList ∨
      relative (name :: names) = "^".toList ∨ relative (name :: names) = "^/".toList) := by
    rintro (h | h | h | h) <;> rw [h] at hfirst
    · exact hord (.inl hfirst.symm)
    · exact hord (.inl hfirst.symm)
    · exact hord (.inr hfirst.symm)
    · exact hord (.inr hfirst.symm)
  have hslash : ¬ (relative (name :: names))[0]? = some '/' := by
    obtain ⟨c, t, htext, hc, -⟩ := name.eq_cons
    rw [hfirst, htext]
    exact fun h => hc (Option.some.inj h)
  rw [resolve, if_neg (relative_ne_dots name names), if_neg hhome, if_neg (hfirst ▸ hord), if_neg hslash,
    slashed_eq (List.cons_ne_nil _ _)]

theorem getiRODSPath_pathOf (env : RodsEnv) (hne : names ≠ []) :
    getiRODSPath env (pathOf names) = clean (snprintf (env.rodsCwd ++ slashed names)) := by
  rw [pathOf_eq hne, slashed_eq hne]
  exact resolve_slash _ env _

/-- A special name that is alone is the home directory, as it is written in the environment. -/
theorem resolve_alone (hspecial : name.Special) (hone : name.text.length = 1) :
    resolve full env (relative [name]) = some (.ok env.rodsHome) := by
  have hrel : relative [name] = name.text := by simp [relative_cons, slashed]
  obtain ⟨c, hc⟩ := List.length_eq_one_iff.mp hone
  have hhome : name.text = "~".toList ∨ name.text = "~/".toList ∨ name.text = "^".toList ∨
      name.text = "^/".toList := by
    rw [Name.Special, hc] at hspecial
    rw [hc]
    obtain h | h := hspecial
    · exact .inl (congrArg (fun c => [c]) (Option.some.inj h))
    · exact .inr (.inr (.inl (congrArg (fun c => [c]) (Option.some.inj h))))
  have hdots := relative_ne_dots name []
  rw [hrel] at hdots ⊢
  rw [resolve, if_neg hdots, if_pos hhome]

/-- A path that begins with a special name and goes on is not the home directory itself. -/
theorem relative_ne_home (h : name.text.length ≠ 1 ∨ names ≠ []) :
    ¬ (relative (name :: names) = "~".toList ∨ relative (name :: names) = "~/".toList ∨
      relative (name :: names) = "^".toList ∨ relative (name :: names) = "^/".toList) := by
  have hone {c : Char} (hc : c ≠ '/') : relative (name :: names) ≠ [c] := by
    intro heq
    obtain ⟨htext, hnil⟩ := relative_eq (fun hmem => hc (List.mem_singleton.mp hmem).symm) heq
    obtain hlen | hne := h
    · exact hlen (by rw [htext]; rfl)
    · exact hne hnil
  rintro (heq | heq | heq | heq)
  · exact hone (by decide) heq
  · exact relative_ne_slash name names (e := "~".toList) (by decide) heq
  · exact hone (by decide) heq
  · exact relative_ne_slash name names (e := "^".toList) (by decide) heq

/-- A special name with more names behind it is the home directory. -/
theorem resolve_home (hspecial : name.Special) (hone : name.text.length = 1) (hne : names ≠ []) :
    resolve full env (relative (name :: names)) = clean (snprintf (env.rodsHome ++ slashed names)) := by
  have hfirst : (relative (name :: names))[0]? = some '~' ∨ (relative (name :: names))[0]? = some '^' := by
    rw [relative_zero]
    exact hspecial
  obtain ⟨c, hc⟩ := List.length_eq_one_iff.mp hone
  have hrel : relative (name :: names) = c :: '/' :: relative names := by
    rw [relative_cons, hc, slashed_eq hne]
    rfl
  have hsecond : (relative (name :: names))[1]? = some '/' := by
    rw [hrel]
    rfl
  rw [resolve, if_neg (relative_ne_dots name names), if_neg (relative_ne_home (.inr hne)), if_pos hfirst,
    if_pos hsecond, hrel, slashed_eq hne]
  rfl

/-- With more characters in the name two of them are left out. -/
theorem resolve_skip (hspecial : name.Special) (hmore : name.text.length ≠ 1) :
    resolve full env (relative (name :: names)) =
      clean (snprintf (env.rodsCwd ++ '/' :: (relative (name :: names)).drop 2)) := by
  have hfirst : (relative (name :: names))[0]? = some '~' ∨ (relative (name :: names))[0]? = some '^' := by
    rw [relative_zero]
    exact hspecial
  have hsecond : ¬ (relative (name :: names))[1]? = some '/' := by
    obtain ⟨c, t, htext, -, ht⟩ := name.eq_cons
    rw [relative_cons, htext]
    cases t with
    | nil => exact absurd (by rw [htext]; rfl) hmore
    | cons d t =>
      intro h
      exact ht (Option.some.inj h ▸ List.mem_cons_self)
  rw [resolve, if_neg (relative_ne_dots name names), if_neg (relative_ne_home (.inl hmore)),
    if_pos hfirst, if_neg hsecond]

/-! ## When both resolvers agree -/

/-- Neither text is cut by the buffer it is printed into. -/
structure Fits (env : RodsEnv) (name : Name) (names : List Name) : Prop where
  cwd : (env.rodsCwd ++ slashed (name :: names)).length < MAX_NAME_LEN
  home : (env.rodsHome ++ slashed names).length < MAX_NAME_LEN

/-- The home directory is the directory `name` of the working directory. For a path that
goes on, the home directory counts as the take-outs leave it. -/
def HomeIs (env : RodsEnv) (cwd : List Name) (name : Name) : List Name → Prop
  | [] => env.rodsHome = slashed (cwd ++ [name])
  | _ :: _ => takeOuts (env.rodsHome ++ ['/']) = some (.ok (slashed (cwd ++ [name]) ++ ['/']))

/-- The first name has no special character, or the home directory has that name. -/
def SameObject (env : RodsEnv) (cwd : List Name) : List Name → Prop
  | [] => True
  | name :: names =>
    ¬ name.Special ∨ (name.text.length = 1 ∧ Fits env name names ∧ HomeIs env cwd name names)

/-- A path that begins with a special name is not cut. -/
def NotCut (env : RodsEnv) : List Name → Prop
  | [] => True
  | name :: names => name.Special → Fits env name names

section

variable {env : RodsEnv} {cwd : List Name}

theorem snprintf_fits {s : Text} (h : s.length < MAX_NAME_LEN) : snprintf s = s :=
  List.take_of_length_le (by omega)

variable {r p : Text}

theorem parseRodsPathStr_ok {q : Text} (h : parseRodsPathStr env q = some (.ok r)) :
    parseRodsPath env q = some (.ok r) := by
  simp only [parseRodsPathStr] at h
  split at h
  · exact h
  · cases h

/-- The cache layers put the working directory in front, whatever the names are. -/
theorem getiRODSPath_ok (hcwd : env.rodsCwd = pathOf cwd) (hfits : Fits env name names)
    (hp : getiRODSPath env (pathOf (name :: names)) = some (.ok p)) : p = slashed (cwd ++ name :: names) := by
  rw [getiRODSPath_pathOf env (List.cons_ne_nil _ _), snprintf_fits hfits.cwd, hcwd] at hp
  exact clean_cwd_slashed (List.cons_ne_nil _ _) hp

theorem same_root (hcwd : env.rodsCwd = pathOf cwd) (hp : getiRODSPath env (pathOf []) = some (.ok p))
    (hr : parseRodsPathStr env (relative []) = some (.ok r)) : p = r := by
  have hp : clean (snprintf (pathOf cwd ++ ['/'])) = some (.ok p) := by
    rw [← hcwd, ← hp]
    exact (resolve_slash (fun path => snprintf (env.rodsCwd ++ path)) env []).symm
  rw [clean_cwd_slash (hcwd ▸ env.cwd_fits) hp, ← hcwd]
  exact Except.ok.inj (Option.some.inj hr)

theorem same_ordinary (hord : ¬ name.Special) (hp : getiRODSPath env (pathOf (name :: names)) = some (.ok p))
    (hr : parseRodsPathStr env (relative (name :: names)) = some (.ok r)) : p = r := by
  have hr : clean (snprintf (env.rodsCwd ++ slashed (name :: names))) = some (.ok r) := by
    rw [← resolve_ordinary id hord]
    exact parseRodsPathStr_ok hr
  exact Except.ok.inj (Option.some.inj (hp.symm.trans hr))

/-- Two characters less are a shorter path. -/
theorem differ_skip (hcwd : env.rodsCwd = pathOf cwd) (hspecial : name.Special) (hmore : name.text.length ≠ 1)
    (hfits : Fits env name names) (hp : getiRODSPath env (pathOf (name :: names)) = some (.ok p))
    (hr : parseRodsPathStr env (relative (name :: names)) = some (.ok r)) : p ≠ r := by
  have hr : clean (snprintf (env.rodsCwd ++ '/' :: (relative (name :: names)).drop 2)) = some (.ok r) := by
    rw [← resolve_skip id hspecial hmore]
    exact parseRodsPathStr_ok hr
  have hshort := clean_length hr
  have htwo : 2 ≤ (relative (name :: names)).length := by
    have := List.length_pos_iff.mpr name.ne_nil
    rw [relative_cons, List.length_append]
    omega
  have hlong : p.length = (slashed cwd).length + (1 + (relative (name :: names)).length) := by
    rw [getiRODSPath_ok hcwd hfits hp, slashed_append, slashed_eq (List.cons_ne_nil name names),
      List.length_append, List.length_cons, Nat.add_comm 1]
  have hdir : (pathOf cwd).length ≤ (slashed cwd).length + 1 := by
    cases cwd with
    | nil => exact le_refl _
    | cons first cwd => exact Nat.le_succ _
  rintro rfl
  simp only [snprintf, hcwd, List.length_take, List.length_append, List.length_cons,
    List.length_drop] at hshort
  omega

theorem same_home (hcwd : env.rodsCwd = pathOf cwd) (hspecial : name.Special) (hone : name.text.length = 1)
    (hfits : Fits env name names) (hp : getiRODSPath env (pathOf (name :: names)) = some (.ok p))
    (hr : parseRodsPathStr env (relative (name :: names)) = some (.ok r)) : p = r ↔ HomeIs env cwd name names := by
  have hr := parseRodsPathStr_ok hr
  rw [getiRODSPath_ok hcwd hfits hp]
  cases names with
  | nil =>
    rw [parseRodsPath, resolve_alone id hspecial hone] at hr
    obtain rfl : env.rodsHome = r := by simpa using hr
    exact eq_comm
  | cons next names =>
    have hne : next :: names ≠ [] := List.cons_ne_nil _ _
    rw [parseRodsPath, resolve_home id hspecial hone hne, snprintf_fits hfits.home, slashed_eq hne,
      List.append_cons] at hr
    obtain ⟨Z, htake, rfl⟩ := clean_relative hne List.getLast?_concat hr
    have hpath : slashed (cwd ++ name :: next :: names) =
        slashed (cwd ++ [name]) ++ ['/'] ++ relative (next :: names) := by
      simp [slashed_append, slashed, relative]
    rw [hpath, List.append_left_inj, HomeIs, htake]
    simp [eq_comm]

/-- When both resolvers succeed they name the same object in this case only. -/
theorem same_object_iff {names : List Name} {p r : Text} (hcwd : env.rodsCwd = pathOf cwd)
    (hp : getiRODSPath env (pathOf names) = some (.ok p))
    (hr : parseRodsPathStr env (relative names) = some (.ok r)) :
    (SameObject env cwd names → p = r) ∧ (NotCut env names → p = r → SameObject env cwd names) := by
  cases names with
  | nil => exact ⟨fun _ => same_root hcwd hp hr, fun _ _ => trivial⟩
  | cons name names =>
    constructor
    · rintro (hord | ⟨hone, hfits, hhome⟩)
      · exact same_ordinary hord hp hr
      · by_cases hspecial : name.Special
        · exact (same_home hcwd hspecial hone hfits hp hr).mpr hhome
        · exact same_ordinary hspecial hp hr
    · intro hcut heq
      by_cases hspecial : name.Special
      · have hfits := hcut hspecial
        by_cases hone : name.text.length = 1
        · exact .inr ⟨hone, hfits, (same_home hcwd hspecial hone hfits hp hr).mp heq⟩
        · exact absurd heq (differ_skip hcwd hspecial hone hfits hp hr)
      · exact .inl hspecial

end

/-! ## A home directory and two files -/

def zone : Name := ⟨['z'], by decide, by decide, by decide, by decide⟩

def user : Name := ⟨"u".toList, by decide, by decide, by decide, by decide⟩

/-- A backup file as editors leave it. -/
def tildeFile : Name := ⟨"~a.txt".toList, by decide, by decide, by decide, by decide⟩

def plainFile : Name := ⟨"a.txt".toList, by decide, by decide, by decide, by decide⟩

def userEnv : RodsEnv := ⟨"/z/u".toList, "/z/u".toList, by decide, by decide⟩

theorem same_object_plainFile : SameObject userEnv [zone, user] [plainFile] :=
  (same_object_iff (p := "/z/u/a.txt".toList) (by decide) (by decide) (by decide)).2
    (fun hspecial => absurd hspecial (by decide)) rfl

/-- The file `/~a.txt` is created as `/z/u/.txt` and cached as `/z/u/~a.txt`. -/
theorem tildeFile_differs :
    ¬ (∀ (env : RodsEnv) (cwd names : List Name) (p r : Text), env.rodsCwd = pathOf cwd →
      getiRODSPath env (pathOf names) = some (.ok p) →
      parseRodsPathStr env (relative names) = some (.ok r) → p = r) := by
  intro h
  have heq := h userEnv [zone, user] [tildeFile] "/z/u/~a.txt".toList "/z/u/.txt".toList
    (by decide) (by decide) (by decide)
  exact absurd heq (by decide)

end RodsPath
