-- SUMMARY: The path parser against a resolver that walks the components.
import Irods.Core.PathWalk

/-!
# `parseRodsPath` as a walk

The text the parser writes into `outPath` begins with a slash, so it is its components with a
slash in front of each. All but the last of them go through the loops, the last one through the
cases at the end; together they are the walk. What the parser adds to the walk are the reads in
front of the buffer, at the root and for a text of fewer than three characters, and the text it
writes in the first place, which can be cut off or can lack a character.
-/

namespace RodsPath

open CString
open List (cons_ne_nil length_append length_cons mem_cons not_mem_nil take_left)
open Option (bind_some)

/-! ## Components of a text -/

def components (s : Text) : List Text := s.splitOn '/'

theorem components_slash (s : Text) : components ('/' :: s) = [] :: components s := by
  rfl

theorem components_ne_nil (s : Text) : components s ≠ [] := List.splitOn_ne_nil _ _

theorem slash_not_mem_components : ∀ {s c : Text}, c ∈ components s → '/' ∉ c := by
  intro s
  induction s with
  | nil =>
    intro c hc
    rw [components, List.splitOn_nil, List.mem_singleton] at hc
    rw [hc]
    exact not_mem_nil
  | cons d s ih =>
    intro c hc
    rw [components, List.splitOn_cons_eq_if_modifyHead] at hc
    split at hc
    · rw [mem_cons] at hc
      rcases hc with rfl | hc
      · exact not_mem_nil
      · exact ih hc
    · rename_i hd
      rw [← components] at hc
      obtain ⟨first, more, hs⟩ := List.exists_cons_of_ne_nil (components_ne_nil s)
      rw [hs] at ih
      rw [hs, List.modifyHead_cons, mem_cons] at hc
      rcases hc with rfl | hc
      · rw [mem_cons, not_or]
        exact ⟨fun h => hd (beq_iff_eq.mpr h.symm), ih List.mem_cons_self⟩
      · exact ih (List.mem_cons_of_mem _ hc)

variable {comps path : List Text}

theorem slashes_eq_intercalate (h : comps ≠ []) : slashes comps = '/' :: ['/'].intercalate comps := by
  induction comps with
  | nil => exact absurd rfl h
  | cons c comps ih =>
    cases comps with
    | nil => simp [slashes]
    | cons d comps =>
      rw [slashes_cons, ih (cons_ne_nil _ _), List.intercalate_cons_cons, List.append_assoc]
      rfl

theorem slashes_components (s : Text) : slashes (components s) = '/' :: s := by
  rw [slashes_eq_intercalate (components_ne_nil s), components, List.intercalate_splitOn]

theorem components_slashes (h : ∀ c ∈ comps, '/' ∉ c) (hne : comps ≠ []) :
    components (slashes comps) = [] :: comps := by
  rw [slashes_eq_intercalate hne, components_slash, components, List.splitOn_intercalate _ h hne]

theorem render_slashes (hne : path ≠ []) : render path = slashes path := if_neg hne

/-- Paths of proper components differ in their texts. -/
theorem render_inj {path' : List Text} (h : ∀ c ∈ path, Proper c ∧ '/' ∉ c) (h' : ∀ c ∈ path', Proper c ∧ '/' ∉ c)
    (heq : render path = render path') : path = path' := by
  have hroot {path : List Text} (h : ∀ c ∈ path, Proper c ∧ '/' ∉ c) (hroot : render path = "/".toList) :
      path = [] := by
    by_contra hne
    have hcomps := components_slashes (fun c hc => (h c hc).2) hne
    rw [← render_slashes hne, hroot] at hcomps
    have hpath : path = [[]] := (List.cons.inj hcomps).2.symm
    exact (h [] (hpath ▸ List.mem_singleton_self _)).1.1 rfl
  by_cases hne : path = []
  · rw [hne] at heq ⊢
    exact (hroot h' heq.symm).symm
  by_cases hne' : path' = []
  · rw [hne'] at heq
    exact absurd (hroot h heq) hne
  · rw [render_slashes hne, render_slashes hne'] at heq
    have hcomps := components_slashes (fun c hc => (h c hc).2) hne
    rw [heq, components_slashes (fun c hc => (h' c hc).2) hne'] at hcomps
    exact (List.cons.inj hcomps).2.symm

/-! ## Cleaning as a walk -/

variable {init path : List Text} {last : Text}

/-- The loops walk through all components but the last. -/
theorem takeOuts_slashes (hinit : ∀ c ∈ init, '/' ∉ c) (hlast : '/' ∉ last) :
    takeOuts (slashes (init ++ [last])) = (walk [] init).map fun path => .ok (slashes (path ++ [last])) := by
  have hsingle : takeOut "//".toList (slashes (init ++ [last])).length (slashes (init ++ [last])) =
      slashes (init.filter (· ≠ []) ++ [last]) := by
    refine @takeOut_slashes [] _ not_mem_nil hlast _ _ hinit ((count_le_length _ _).trans ?_)
    rw [slashes_append, length_append]
    exact Nat.le_add_right _ _
  have hinit' : ∀ c ∈ init.filter (· ≠ []), '/' ∉ c := fun c hc => hinit c (List.mem_of_mem_filter hc)
  have hself : takeOut "/./".toList (slashes (init.filter (· ≠ []) ++ [last])).length
      (slashes (init.filter (· ≠ []) ++ [last])) =
      slashes ((init.filter (· ≠ [])).filter (· ≠ ".".toList) ++ [last]) := by
    refine @takeOut_slashes ".".toList _ (by decide) hlast _ _ hinit' ((count_le_length _ _).trans ?_)
    rw [slashes_append, length_append]
    exact Nat.le_add_right _ _
  rw [takeOuts, hsingle, hself, takeOutParents_slashes hlast]
  · rw [walk_filter (.inr rfl), walk_filter (.inl rfl)]
  · intro c hc
    rw [List.mem_filter, List.mem_filter] at hc
    exact ⟨hinit c hc.1.1, of_decide_eq_true hc.1.2, of_decide_eq_true hc.2⟩
  · refine (count_le_length _ _).trans ?_
    rw [slashes_append, length_append]
    exact Nat.le_add_right _ _

/-- Dots behind a slash are found at the end when they are the last component. -/
theorem strstr_end {e : Text} (he : '/' ∉ e) (hlast : '/' ∉ last) :
    strstr ('/' :: e) ((slashes (path ++ [last])).drop ((slashes (path ++ [last])).length - ('/' :: e).length)) =
      if last = e then some 0 else none := by
  split
  · rename_i heq
    have hdrop : (slashes (path ++ [last])).drop
        ((slashes (path ++ [last])).length - ('/' :: e).length) = '/' :: e := by
      rw [slashes_concat, heq, length_append, Nat.add_sub_cancel, List.drop_left]
    rw [hdrop, strstr, if_pos <| List.isPrefixOf_iff_prefix.mpr List.prefix_rfl]
  · rename_i hne
    cases hfind : strstr ('/' :: e) ((slashes (path ++ [last])).drop
        ((slashes (path ++ [last])).length - ('/' :: e).length)) with
    | none => rfl
    | some i =>
      have hend := eq_of_strstr (by rw [List.length_drop]; omega) hfind
      have hsplit := List.take_append_drop ((slashes (path ++ [last])).length - ('/' :: e).length)
        (slashes (path ++ [last]))
      rw [hend, slashes_concat] at hsplit
      exact absurd (last_sep_inj he hlast hsplit).2.symm hne

/-- The cases at the end take the last step of the walk, but for `.` at the root. -/
theorem atEnd_slashes (hpath : ∀ c ∈ path, Proper c ∧ '/' ∉ c) (hlast : '/' ∉ last) :
    atEnd (slashes (path ++ [last])) =
      (walkStep path last).bind fun path' => bounded (if path = [] ∧ last = ".".toList then [] else render path') := by
  have hhead : (slashes (path ++ [last])).head? = some '/' := by
    obtain ⟨R, hR⟩ := exists_slashes (List.append_ne_nil_of_right_ne_nil path (cons_ne_nil last []))
    rw [hR]
    rfl
  have hlen : (slashes (path ++ [last])).length = (slashes path).length + (last.length + 1) := by
    rw [slashes_concat, length_append, length_cons]
  have hparent := @strstr_end path last "..".toList (by decide) hlast
  have hself := @strstr_end path last ".".toList (by decide) hlast
  have hthree : ('/' :: "..".toList).length = 3 := rfl
  have htwo : ('/' :: ".".toList).length = 2 := rfl
  rw [hthree] at hparent
  rw [htwo] at hself
  rw [atEnd, if_neg (fun h => h.2 hhead), show "/..".toList = '/' :: "..".toList from rfl, hparent]
  by_cases hdots : last = "..".toList
  · rw [if_pos hdots]
    have hat : (slashes (path ++ [last])).length - 3 + 0 = (slashes path).length := by
      rw [hlen, hdots]
      rfl
    simp only [hat]
    rcases List.eq_nil_or_concat' path with rfl | ⟨front, x, rfl⟩
    · rw [hdots]
      rfl
    · obtain ⟨n, hn⟩ : ∃ n, (slashes (front ++ [x])).length = n + 1 := by
        rw [slashes_concat, length_append, length_cons]
        exact ⟨_, rfl⟩
      have hback : goBack (slashes (front ++ [x] ++ [last])) (n + 1) = some (slashes front).length := by
        rw [slashes_append, ← hn]
        exact goBack_slashes (hpath x (by simp)).2 _
      have htake : (slashes (front ++ [x] ++ [last])).take (slashes front).length = slashes front := by
        rw [List.append_assoc, slashes_append, take_left]
      have hzero : (slashes front).length = 0 ↔ front = [] := by
        constructor
        · intro hnil
          by_contra hne
          obtain ⟨R, hR⟩ := exists_slashes hne
          rw [hR] at hnil
          cases hnil
        · rintro rfl
          rfl
      have hstep : walkStep (front ++ [x]) last = some front := by
        rw [walkStep, hdots, if_neg (by decide), if_pos rfl, if_neg (by simp), List.dropLast_concat]
      rw [hn, hstep]
      simp only [hback, htake, bind_some]
      rw [if_neg (by simp : ¬(front ++ [x] = [] ∧ last = ".".toList)), render]
      exact congrArg bounded (if_congr hzero rfl rfl)
  · rw [if_neg hdots]
    rw [show "/.".toList = '/' :: ".".toList from rfl, hself]
    by_cases hdot : last = ".".toList
    · rw [if_pos hdot, walkStep_stay path (.inr hdot)]
      have htake : (slashes (path ++ [last])).take ((slashes (path ++ [last])).length - 2 + 0) = slashes path := by
        rw [hlen, hdot, slashes_concat]
        exact take_left
      simp only [htake, bind_some]
      refine congrArg bounded ?_
      by_cases hroot : path = []
      · rw [if_pos ⟨hroot, hdot⟩, hroot]
        rfl
      · rw [if_neg (fun h => hroot h.1), render_slashes hroot]
    · simp only [hdot, and_false, if_false]
      by_cases hnil : last = []
      · rw [walkStep_stay path (.inl hnil), bind_some, hnil, slashes_concat, List.getLast?_concat]
        by_cases hroot : path = []
        · rw [hroot]
          rfl
        · obtain ⟨R, hR⟩ := exists_slashes hroot
          rw [render_slashes hroot, if_pos ⟨rfl, by rw [hR]; simp⟩, length_append, List.length_singleton,
            Nat.add_sub_cancel, take_left]
      · have hproper : Proper last := ⟨hnil, hdot, hdots⟩
        have hend : (slashes (path ++ [last])).getLast? ≠ some '/' := by
          rw [slashes_concat, List.append_cons, List.getLast?_append, List.getLast?_eq_getLast_of_ne_nil hnil,
            Option.some_or]
          exact fun h => hlast (Option.some.inj h ▸ List.getLast_mem hnil)
        rw [if_neg (fun h => hend h.1), walkStep_proper path hproper, bind_some, render_slashes (by simp)]

theorem clean_slashes (hinit : ∀ c ∈ init, '/' ∉ c) (hlast : '/' ∉ last) :
    clean (slashes (init ++ [last])) = (walk [] init).bind fun path => (walkStep path last).bind fun path' =>
      bounded (if path = [] ∧ last = ".".toList then [] else render path') := by
  rw [clean, takeOuts_slashes hinit hlast]
  cases hwalk : walk [] init with
  | none => rfl
  | some path =>
    exact atEnd_slashes (fun c hc => walk_forall (P := ('/' ∉ ·)) hwalk (fun c hc => absurd hc not_mem_nil) hinit c hc)
      hlast

/-! ## Texts behind a slash -/

def dirComponents (s : Text) : List Text := (components s).dropLast

def lastComponent (s : Text) : Text := (components s).getLast (components_ne_nil s)

theorem components_eq (s : Text) : components s = dirComponents s ++ [lastComponent s] :=
  (List.dropLast_append_getLast (components_ne_nil s)).symm

theorem no_slash_dir (s : Text) : ∀ c ∈ dirComponents s, '/' ∉ c :=
  fun _ hc => slash_not_mem_components (List.mem_of_mem_dropLast hc)

theorem no_slash_last (s : Text) : '/' ∉ lastComponent s := slash_not_mem_components (List.getLast_mem _)

variable {s : Text}

theorem exists_text (hs : s.head? = some '/') :
    ∃ init, s = slashes (init ++ [lastComponent s]) ∧ dirComponents s = [] :: init := by
  obtain ⟨t, rfl⟩ : ∃ t, s = '/' :: t := by
    cases s with
    | nil => cases hs
    | cons c t => exact ⟨t, by simpa using hs⟩
  have hcomps : components ('/' :: t) = [] :: dirComponents t ++ [lastComponent t] := by
    rw [components_slash, List.cons_append, ← components_eq]
  have hlast : lastComponent ('/' :: t) = lastComponent t := by
    simp only [lastComponent, hcomps, List.getLast_append_singleton]
  refine ⟨dirComponents t, ?_, ?_⟩
  · rw [hlast, ← components_eq, slashes_components]
  · rw [dirComponents, hcomps, List.dropLast_concat]

theorem takeOuts_text (hs : s.head? = some '/') : takeOuts s =
    (walk [] (dirComponents s)).map fun path => .ok (slashes (path ++ [lastComponent s])) := by
  obtain ⟨init, htext, hdir⟩ := exists_text hs
  have hinit : ∀ c ∈ init, '/' ∉ c := fun c hc => no_slash_dir s c (hdir ▸ List.mem_cons_of_mem _ hc)
  rw [hdir, walk_cons, walkStep_stay [] (.inl rfl), bind_some, ← takeOuts_slashes hinit (no_slash_last s),
    ← htext]

theorem clean_text (hs : s.head? = some '/') : clean s =
    (walk [] (dirComponents s)).bind fun path => (walkStep path (lastComponent s)).bind fun path' =>
      bounded (if path = [] ∧ lastComponent s = ".".toList then [] else render path') := by
  obtain ⟨init, htext, hdir⟩ := exists_text hs
  have hinit : ∀ c ∈ init, '/' ∉ c := fun c hc => no_slash_dir s c (hdir ▸ List.mem_cons_of_mem _ hc)
  rw [hdir, walk_cons, walkStep_stay [] (.inl rfl), bind_some, ← clean_slashes hinit (no_slash_last s),
    ← htext]

theorem walk_components (s : Text) : walk [] (components s) =
    (walk [] (dirComponents s)).bind fun path => walkStep path (lastComponent s) := by
  rw [components_eq, walk_concat]

/-! ## The resolver -/

def texts (names : List Name) : List Text := names.map Name.text

theorem texts_proper (names : List Name) : ∀ c ∈ texts names, Proper c ∧ '/' ∉ c := by
  intro c hc
  obtain ⟨name, -, rfl⟩ := List.mem_map.mp hc
  exact ⟨⟨name.ne_nil, name.ne_dot, name.ne_dotdot⟩, name.no_slash⟩

theorem pathOf_eq_render (names : List Name) : pathOf names = render (texts names) := by
  have hslashed (names : List Name) : slashed names = slashes (texts names) := by
    induction names with
    | nil => rfl
    | cons name names ih => rw [slashed, ih, texts, texts, List.map_cons, slashes_cons]
  cases names with
  | nil => rfl
  | cons name names => exact hslashed (name :: names)

/-- Normalised home and working directories. -/
structure BaseDirs where
  home : List Name
  cwd : List Name
  home_fits : (pathOf home).length < MAX_NAME_LEN
  cwd_fits : (pathOf cwd).length < MAX_NAME_LEN

def BaseDirs.env (dirs : BaseDirs) : RodsEnv := ⟨pathOf dirs.home, pathOf dirs.cwd, dirs.home_fits, dirs.cwd_fits⟩

/-- What `rodsPath_t.inPath` holds. -/
def InPath : Type := {path : Text // path.length < MAX_NAME_LEN}

/-- Where the components of the input lead to from the directory they start in. -/
def target (dirs : BaseDirs) (path : Text) : Option (List Text) :=
  if path[0]? = some '/' then walk [] (components path)
  else if (path[0]? = some '~' ∨ path[0]? = some '^') ∧ (path[1]? = none ∨ path[1]? = some '/') then
    walk (texts dirs.home) (components (path.drop 1))
  else walk (texts dirs.cwd) (components path)

/-- The text the loops start with; `none` where a directory is copied as it is. -/
def written (env : RodsEnv) (path : Text) : Option Text :=
  if path = [] ∨ path = ".".toList ∨ path = "./".toList then none
  else if path = "~".toList ∨ path = "~/".toList ∨ path = "^".toList ∨ path = "^/".toList then none
  else if path[0]? = some '~' ∨ path[0]? = some '^' then
    if path[1]? = some '/' then some (snprintf (env.rodsHome ++ '/' :: path.drop 2))
    else some (snprintf (env.rodsCwd ++ '/' :: path.drop 2))
  else if path[0]? = some '/' then some path
  else some (snprintf (env.rodsCwd ++ '/' :: path))

theorem parseRodsPath_some {env : RodsEnv} {path : Text} (h : written env path = some s) :
    parseRodsPath env path = clean s := by
  unfold written at h
  unfold parseRodsPath resolve
  split at h
  · cases h
  rename_i hdot
  rw [if_neg hdot]
  split at h
  · cases h
  rename_i htilde
  rw [if_neg htilde]
  split at h
  · rename_i hhome
    rw [if_pos hhome]
    split at h
    · rename_i hslash
      rw [if_pos hslash, Option.some.inj h]
    · rename_i hslash
      rw [if_neg hslash, Option.some.inj h]
  rename_i hhome
  rw [if_neg hhome]
  split at h
  · rename_i hroot
    rw [if_pos hroot, id, Option.some.inj h]
  · rename_i hroot
    rw [if_neg hroot, Option.some.inj h]

variable {comps : List Text} {dirs : BaseDirs}

theorem walk_stay {path : List Text} (h : ∀ c ∈ comps, c = [] ∨ c = ".".toList) : walk path comps = some path := by
  induction comps with
  | nil => rfl
  | cons c comps ih =>
    rw [List.forall_mem_cons] at h
    rw [walk_cons, walkStep_stay path h.1, bind_some, ih h.2]

/-- The directories are copied where the components stay in them. -/
theorem parseRodsPath_none {path : Text} (h : written dirs.env path = none) :
    ∃ names, (pathOf names).length < MAX_NAME_LEN ∧ parseRodsPath dirs.env path = some (.ok (pathOf names)) ∧
      target dirs path = some (texts names) := by
  unfold written at h
  split at h
  · rename_i hdot
    refine ⟨dirs.cwd, dirs.cwd_fits, if_pos hdot, ?_⟩
    rcases hdot with rfl | rfl | rfl <;> exact walk_stay (by decide)
  split at h
  · rename_i hdot htilde
    refine ⟨dirs.home, dirs.home_fits, (if_neg hdot).trans (if_pos htilde), ?_⟩
    rcases htilde with rfl | rfl | rfl | rfl <;> exact walk_stay (by decide)
  · split at h
    · split at h <;> cases h
    · split at h <;> cases h

theorem snprintf_head {c : Char} (h : s.head? = some c) : (snprintf s).head? = some c := by
  cases s with
  | nil => cases h
  | cons d s => exact h

theorem pathOf_head (names : List Name) (t : Text) : (pathOf names ++ t).head? = some '/' := by
  cases names <;> rfl

theorem written_head {path : Text} (h : written dirs.env path = some s) : s.head? = some '/' := by
  unfold written at h
  split at h
  · cases h
  split at h
  · cases h
  split at h
  · split at h
    · cases h
      exact snprintf_head (pathOf_head _ _)
    · cases h
      exact snprintf_head (pathOf_head _ _)
  · split at h
    · cases h
      rename_i hroot
      rw [List.head?_eq_getElem?]
      exact hroot
    · cases h
      exact snprintf_head (pathOf_head _ _)

/-- The root, or proper components with a slash in front of each. -/
def Normal (out : Text) : Prop :=
  out = "/".toList ∨ ∃ comps, comps ≠ [] ∧ components out = [] :: comps ∧ ∀ c ∈ comps, Proper c

theorem render_normal {path : List Text} (h : ∀ c ∈ path, Proper c ∧ '/' ∉ c) : Normal (render path) := by
  by_cases hne : path = []
  · exact .inl (if_pos hne)
  · refine .inr ⟨path, hne, ?_, fun c hc => (h c hc).1⟩
    rw [render_slashes hne, components_slashes (fun c hc => (h c hc).2) hne]

/-- What a resolver is expected to do with a path. -/
structure Resolves (dirs : BaseDirs) (path : Text) : Prop where
  /-- Nothing in front of the buffer is read, the last three characters included. -/
  inside : parseRodsPath dirs.env path ≠ none ∧
    ∀ s t, written dirs.env path = some s → takeOuts s = some (.ok t) → 3 ≤ t.length
  normal : ∀ out, parseRodsPath dirs.env path = some (.ok out) → Normal out
  reached : ∀ out, parseRodsPath dirs.env path = some (.ok out) →
    ∃ comps, target dirs path = some comps ∧ out = render comps
  refused : (∀ comps, target dirs path = some comps → MAX_NAME_LEN ≤ (render comps).length) →
    ∃ code, parseRodsPath dirs.env path = some (.error code)

/-- The text the loops start with stays below the root, its directory is not the root or its last
component has two characters, and it leads where the input leads or to a path that is too long. -/
def Faithful (dirs : BaseDirs) (path : Text) : Prop :=
  ∀ s, written dirs.env path = some s → ∃ comps, walk [] (components s) = some comps ∧
    (walk [] (dirComponents s) ≠ some [] ∨ 2 ≤ (lastComponent s).length) ∧
    (target dirs path = some comps ∨ MAX_PATH_ALLOWED - 1 ≤ (render comps).length)

theorem bounded_cases (s : Text) : bounded s = some (.ok s) ∧ s.length < MAX_PATH_ALLOWED - 1 ∨
    bounded s = some (.error userPathExceedsMax) ∧ MAX_PATH_ALLOWED - 1 ≤ s.length := by
  by_cases h : MAX_PATH_ALLOWED - 1 ≤ s.length
  · exact .inr ⟨if_pos h, h⟩
  · exact .inl ⟨if_neg h, by omega⟩

/-- Three characters are left when a component is, or when the last one has two of them. -/
theorem three_le_iff {path : List Text} (h : ∀ c ∈ path, c ≠ []) :
    3 ≤ (slashes (path ++ [last])).length ↔ path ≠ [] ∨ 2 ≤ last.length := by
  rw [slashes_concat, length_append, length_cons]
  cases path with
  | nil =>
    rw [show slashes [] = [] from rfl, List.length_nil]
    constructor
    · exact fun h => .inr (by omega)
    · rintro (h | h)
      · exact absurd rfl h
      · omega
  | cons c path =>
    have hpos := List.length_pos_iff.mpr (h c List.mem_cons_self)
    rw [slashes_cons, length_cons, length_append]
    refine ⟨fun _ => .inl (cons_ne_nil _ _), fun _ => by omega⟩

theorem walk_normal {path : List Text} (h : walk [] comps = some path) (hcomps : ∀ c ∈ comps, '/' ∉ c) :
    ∀ c ∈ path, Proper c ∧ '/' ∉ c :=
  walk_forall (P := ('/' ∉ ·)) h (fun _ hc => absurd hc not_mem_nil) hcomps

theorem target_normal {path : Text} (h : target dirs path = some comps) : ∀ c ∈ comps, Proper c ∧ '/' ∉ c := by
  have hslash {s c : Text} (hc : c ∈ components s) : '/' ∉ c := slash_not_mem_components hc
  unfold target at h
  split at h
  · exact walk_normal h fun c hc => hslash hc
  split at h
  · exact walk_forall h (texts_proper dirs.home) fun c hc => hslash hc
  · exact walk_forall h (texts_proper dirs.cwd) fun c hc => hslash hc

/-- Where the text stays inside, the parser comes to the end of the walk. -/
theorem clean_walk (hs : s.head? = some '/') (hwalk : walk [] (components s) = some comps)
    (hlong : walk [] (dirComponents s) ≠ some [] ∨ 2 ≤ (lastComponent s).length) :
    clean s = bounded (render comps) := by
  rw [walk_components] at hwalk
  obtain ⟨path, hdir, hstep⟩ := Option.bind_eq_some_iff.mp hwalk
  rw [clean_text hs, hdir, bind_some, hstep, bind_some, if_neg]
  rintro ⟨hnil, hdot⟩
  rcases hlong with hlong | hlong
  · exact hlong (hnil ▸ hdir)
  · rw [hdot] at hlong
    exact absurd hlong (by decide)

section
variable {dirs : BaseDirs} {path : Text}
  (hinside : ∀ s t, written dirs.env path = some s → takeOuts s = some (.ok t) → 3 ≤ t.length)
include hinside

theorem Resolves.of_ok (hparse : parseRodsPath dirs.env path = some (.ok (render comps)))
    (htarget : target dirs path = some comps) (hlen : (render comps).length < MAX_NAME_LEN) : Resolves dirs path := by
  refine ⟨⟨by rw [hparse]; exact Option.some_ne_none _, hinside⟩, fun out hout => ?_, fun out hout => ?_,
    fun hrefused => ?_⟩
  · rw [hparse] at hout
    cases hout
    exact render_normal (target_normal htarget)
  · rw [hparse] at hout
    cases hout
    exact ⟨comps, htarget, rfl⟩
  · exact absurd (hrefused comps htarget) (Nat.not_le.mpr hlen)

theorem Resolves.of_error {code : Int} (hparse : parseRodsPath dirs.env path = some (.error code)) :
    Resolves dirs path := by
  refine ⟨⟨by rw [hparse]; exact Option.some_ne_none _, hinside⟩, fun out hout => ?_, fun out hout => ?_,
    fun _ => ⟨code, hparse⟩⟩
  · rw [hparse] at hout
    cases hout
  · rw [hparse] at hout
    cases hout

end

/-- The parser resolves exactly the paths whose text stays inside and leads where they lead. -/
theorem parseRodsPath_resolves_iff (dirs : BaseDirs) (inPath : InPath) :
    Resolves dirs inPath.val ↔ Faithful dirs inPath.val := by
  constructor
  · intro h s hs
    have hhead := written_head hs
    have hparse := parseRodsPath_some hs
    have hsome : clean s ≠ none := hparse ▸ h.inside.1
    rw [clean_text hhead] at hsome
    obtain ⟨path, hdir⟩ : ∃ path, walk [] (dirComponents s) = some path := by
      cases hdir : walk [] (dirComponents s) with
      | none => exact absurd (by rw [hdir]; rfl) hsome
      | some path => exact ⟨path, rfl⟩
    rw [hdir, bind_some] at hsome
    obtain ⟨comps, hstep⟩ : ∃ comps, walkStep path (lastComponent s) = some comps := by
      cases hstep : walkStep path (lastComponent s) with
      | none => exact absurd (by rw [hstep]; rfl) hsome
      | some comps => exact ⟨comps, rfl⟩
    have hwalk : walk [] (components s) = some comps := by rw [walk_components, hdir, bind_some, hstep]
    have hthree := h.inside.2 s _ hs (by rw [takeOuts_text hhead, hdir]; rfl)
    rw [three_le_iff fun c hc => (walk_normal hdir (no_slash_dir s) c hc).1.1] at hthree
    have hlong : walk [] (dirComponents s) ≠ some [] ∨ 2 ≤ (lastComponent s).length :=
      hthree.imp_left fun hne hnil => hne (Option.some.inj (hdir.symm.trans hnil))
    refine ⟨comps, hwalk, hlong, ?_⟩
    rcases bounded_cases (render comps) with ⟨hok, -⟩ | ⟨-, hlen⟩
    · obtain ⟨comps', htarget, hout⟩ := h.reached _ (hparse.trans ((clean_walk hhead hwalk hlong).trans hok))
      have hwalk' := walk_normal hwalk fun c hc => slash_not_mem_components hc
      rw [render_inj hwalk' (target_normal htarget) hout]
      exact .inl htarget
    · exact .inr hlen
  · intro h
    cases hs : written dirs.env inPath.val with
    | none =>
      obtain ⟨names, hfits, hparse, htarget⟩ := parseRodsPath_none hs
      rw [pathOf_eq_render] at hparse hfits
      exact Resolves.of_ok (fun s t hs' _ => by rw [hs] at hs'; cases hs') hparse htarget hfits
    | some s =>
      obtain ⟨comps, hwalk, hlong, hreach⟩ := h s hs
      have hhead := written_head hs
      have hparse := (parseRodsPath_some hs).trans (clean_walk hhead hwalk hlong)
      have hinside (s' t : Text) (hs' : written dirs.env inPath.val = some s') (ht : takeOuts s' = some (.ok t)) :
          3 ≤ t.length := by
        obtain rfl := Option.some.inj (hs.symm.trans hs')
        rw [takeOuts_text hhead] at ht
        obtain ⟨path, hdir, hpath⟩ := Option.map_eq_some_iff.mp ht
        rw [← Except.ok.inj hpath, three_le_iff fun c hc => (walk_normal hdir (no_slash_dir s) c hc).1.1]
        exact hlong.imp_left fun hne hnil => hne (hnil ▸ hdir)
      rcases bounded_cases (render comps) with ⟨hok, hlen⟩ | ⟨herr, -⟩
      · exact Resolves.of_ok hinside (hparse.trans hok) (hreach.resolve_right (Nat.not_le.mpr hlen))
          (hlen.trans (by decide))
      · exact Resolves.of_error hinside (hparse.trans herr)

/-- The user `rods` at home, in a collection of its own. -/
def rodsDirs : BaseDirs where
  home := [⟨"z".toList, by decide, by decide, by decide, by decide⟩,
    ⟨"rods".toList, by decide, by decide, by decide, by decide⟩]
  cwd  := [⟨"z".toList, by decide, by decide, by decide, by decide⟩,
    ⟨"run".toList, by decide, by decide, by decide, by decide⟩]
  home_fits := by decide
  cwd_fits := by decide

example : parseRodsPath rodsDirs.env "~/a/.././/b/../c/".toList = some (.ok "/z/rods/c".toList) := by decide +kernel

/-- The root spelled with a dot becomes the empty path, the parent of the root is looked for in
front of the buffer, and a name that begins with a tilde loses its first letter with the tilde. -/
theorem parseRodsPath_misses : ¬ Resolves rodsDirs "/.".toList ∧ ¬ Resolves rodsDirs "/..".toList ∧
    ¬ Resolves rodsDirs "~tmp".toList := by
  refine ⟨fun h => ?_, fun h => ?_, fun h => ?_⟩
  · have hparse : parseRodsPath rodsDirs.env "/.".toList = some (.ok []) := by decide +kernel
    obtain ⟨comps, htarget, hout⟩ := h.reached [] hparse
    have hroot : target rodsDirs "/.".toList = some [] := by decide +kernel
    obtain rfl := Option.some.inj (htarget.symm.trans hroot)
    exact absurd hout (by decide)
  · exact h.inside.1 (by decide +kernel)
  · have hparse : parseRodsPath rodsDirs.env "~tmp".toList = some (.ok "/z/run/mp".toList) := by decide +kernel
    obtain ⟨comps, htarget, hout⟩ := h.reached _ hparse
    have hname : target rodsDirs "~tmp".toList = some ["z".toList, "run".toList, "~tmp".toList] := by decide +kernel
    obtain rfl := Option.some.inj (htarget.symm.trans hname)
    exact absurd hout (by decide +kernel)

end RodsPath
