-- SUMMARY: Walking through the components of a path.
import Irods.Core.RodsPath
import Mathlib.Data.List.Count

/-!
# Components of a path

A path is walked component by component: an empty component and `.` stay, `..` goes to the
parent and leads nowhere at the root, every other component is added. The cleaning steps are
rewrites of the text; here each of them is said on the components, and all of them together
are the walk, with the exceptions at the end of a path and at the root.
-/

namespace RodsPath

open CString
open List (append_assoc append_nil cons_append count_append forall_mem_append forall_mem_cons length_append
  length_cons mem_cons nil_append singleton_append)

/-! ## Walking -/

/-- What a component does to the path so far. -/
def walkStep (path : List Text) (c : Text) : Option (List Text) :=
  if c = [] ∨ c = ".".toList then some path
  else if c = "..".toList then (if path = [] then none else some path.dropLast)
  else some (path ++ [c])

def walk (path comps : List Text) : Option (List Text) := comps.foldlM walkStep path

/-- A component that is added to the path. -/
def Proper (c : Text) : Prop := c ≠ [] ∧ c ≠ ".".toList ∧ c ≠ "..".toList

/-- A slash in front of each component. -/
def slashes (comps : List Text) : Text := comps.flatMap ('/' :: ·)

/-- The text of a path. -/
def render (path : List Text) : Text := if path = [] then "/".toList else slashes path

variable (path comps more : List Text)

theorem walk_append :
    walk path (comps ++ more) = (walk path comps).bind fun path => walk path more := List.foldlM_append

theorem walk_cons (c : Text) (comps : List Text) :
    walk path (c :: comps) = (walkStep path c).bind fun path => walk path comps := List.foldlM_cons

theorem walk_concat (c : Text) : walk path (comps ++ [c]) = (walk path comps).bind fun path => walkStep path c := by
  rw [walk_append]
  refine congrArg _ (funext fun path => ?_)
  rw [walk_cons]
  cases walkStep path c <;> rfl

variable {c : Text} {comps : List Text}

theorem walkStep_proper (path : List Text) (h : Proper c) : walkStep path c = some (path ++ [c]) := by
  rw [walkStep, if_neg (by rintro (hc | hc); exacts [h.1 hc, h.2.1 hc]), if_neg h.2.2]

theorem walkStep_stay (path : List Text) (h : c = [] ∨ c = ".".toList) : walkStep path c = some path :=
  if_pos h

theorem walk_proper (h : ∀ c ∈ comps, Proper c) (path : List Text) : walk path comps = some (path ++ comps) := by
  induction comps generalizing path with
  | nil =>
    rw [append_nil]
    rfl
  | cons c comps ih =>
    rw [forall_mem_cons] at h
    rw [walk_cons, walkStep_proper path h.1, Option.bind_some, ih h.2, append_assoc, singleton_append]

/-- Components that stay can be left out. -/
theorem walk_filter {mid : Text} (hmid : mid = [] ∨ mid = ".".toList) (path comps : List Text) :
    walk path (comps.filter (· ≠ mid)) = walk path comps := by
  induction comps generalizing path with
  | nil => rfl
  | cons c comps ih =>
    by_cases hc : c = mid
    · rw [List.filter_cons_of_neg (by simp [hc]), ih, walk_cons, walkStep_stay path (hc ▸ hmid), Option.bind_some]
    · rw [List.filter_cons_of_pos (by simp [hc]), walk_cons, walk_cons]
      exact congrArg _ (funext fun path => ih path)

/-- The walk adds proper components only. -/
theorem walk_forall {P : Text → Prop} {path path' : List Text} (h : walk path comps = some path')
    (hpath : ∀ c ∈ path, Proper c ∧ P c) (hcomps : ∀ c ∈ comps, P c) : ∀ c ∈ path', Proper c ∧ P c := by
  induction comps generalizing path with
  | nil =>
    cases h
    exact hpath
  | cons c comps ih =>
    rw [forall_mem_cons] at hcomps
    obtain ⟨path₁, hstep, hwalk⟩ := Option.bind_eq_some_iff.mp ((walk_cons path c comps).symm.trans h)
    refine ih hwalk ?_ hcomps.2
    unfold walkStep at hstep
    split at hstep
    · cases hstep
      exact hpath
    rename_i hstay
    split at hstep
    · split at hstep
      · cases hstep
      · cases hstep
        exact fun c hc => hpath c (List.mem_of_mem_dropLast hc)
    · rename_i hparent
      cases hstep
      intro d hd
      rw [List.mem_append, List.mem_singleton] at hd
      rcases hd with hd | rfl
      · exact hpath d hd
      · exact ⟨⟨fun h => hstay (.inl h), fun h => hstay (.inr h), hparent⟩, hcomps.1⟩

/-! ## Texts of components -/

theorem slashes_cons (c : Text) (comps : List Text) : slashes (c :: comps) = '/' :: (c ++ slashes comps) := rfl

theorem slashes_append (comps more : List Text) : slashes (comps ++ more) = slashes comps ++ slashes more :=
  List.flatMap_append

theorem slashes_concat (comps : List Text) (c : Text) : slashes (comps ++ [c]) = slashes comps ++ '/' :: c := by
  rw [slashes_append, slashes_cons]
  exact congrArg _ (congrArg _ (append_nil c))

theorem exists_slashes (h : comps ≠ []) : ∃ R, slashes comps = '/' :: R := by
  cases comps with
  | nil => exact absurd rfl h
  | cons c comps => exact ⟨_, rfl⟩

/-- Nothing that begins with a slash is found in a component. -/
theorem strstr_skip {x : Text} (hx : '/' ∉ x) (pat R : Text) :
    strstr ('/' :: pat) (x ++ R) = (strstr ('/' :: pat) R).map (· + x.length) := by
  induction x with
  | nil =>
    rw [nil_append]
    cases strstr ('/' :: pat) R <;> rfl
  | cons c x ih =>
    rw [mem_cons, not_or] at hx
    have hpre : ¬ ('/' :: pat).isPrefixOf (c :: (x ++ R)) = true := by
      refine mt List.isPrefixOf_iff_prefix.mp ?_
      rw [List.cons_prefix_cons]
      exact fun hpre => hx.1 hpre.1
    rw [cons_append, strstr, if_neg hpre, ih hx.2, Option.map_map]
    rfl

variable {mid c last : Text} {comps init pre post mids path : List Text}

/-- A component between slashes is found in front of the component, or behind it. -/
theorem strstr_slashes_cons (hmid : '/' ∉ mid) (hc : '/' ∉ c) (hne : comps ≠ []) :
    strstr ('/' :: (mid ++ ['/'])) (slashes (c :: comps)) =
      if c = mid then some 0 else (strstr ('/' :: (mid ++ ['/'])) (slashes comps)).map (· + (c.length + 1)) := by
  obtain ⟨R, hR⟩ := exists_slashes hne
  have hpre : ('/' :: (mid ++ ['/'])).isPrefixOf (slashes (c :: comps)) = true ↔ c = mid := by
    rw [slashes_cons, List.isPrefixOf_iff_prefix, List.cons_prefix_cons, hR]
    constructor
    · rintro ⟨-, B, hB⟩
      exact ((first_sep_inj hmid hc ((append_assoc mid ['/'] B).symm.trans hB)).1).symm
    · rintro rfl
      exact ⟨rfl, R, append_assoc _ _ _⟩
  rw [slashes_cons] at hpre ⊢
  rw [strstr]
  by_cases heq : c = mid
  · rw [if_pos (hpre.mpr heq), if_pos heq]
  · rw [if_neg (mt hpre.mp heq), if_neg heq, strstr_skip hc, Option.map_map]
    rfl

theorem strstr_slashes_last (hlast : '/' ∉ last) : strstr ('/' :: (mid ++ ['/'])) (slashes [last]) = none := by
  rw [strstr_eq_none]
  intro hsub
  have hcount := hsub.sublist.count_le '/'
  have hzero : last.count '/' = 0 := List.count_eq_zero_of_not_mem hlast
  rw [slashes_cons, slashes, List.flatMap_nil, append_nil] at hcount
  simp only [List.count_cons_self, count_append, hzero, List.count_nil] at hcount
  omega

theorem strstr_slashes_none (hmid : '/' ∉ mid) (hinit : ∀ c ∈ init, '/' ∉ c) (hlast : '/' ∉ last)
    (hnot : mid ∉ init) : strstr ('/' :: (mid ++ ['/'])) (slashes (init ++ [last])) = none := by
  induction init with
  | nil => exact strstr_slashes_last hlast
  | cons c init ih =>
    rw [forall_mem_cons] at hinit
    rw [mem_cons, not_or] at hnot
    rw [cons_append, strstr_slashes_cons hmid hinit.1 (List.append_ne_nil_of_right_ne_nil _ (by simp)),
      if_neg (Ne.symm hnot.1), ih hinit.2 hnot.2]
    rfl

theorem strstr_slashes_some (hmid : '/' ∉ mid) (hpre : ∀ c ∈ pre, '/' ∉ c) (hnot : mid ∉ pre) (hne : comps ≠ []) :
    strstr ('/' :: (mid ++ ['/'])) (slashes (pre ++ mid :: comps)) = some (slashes pre).length := by
  induction pre with
  | nil =>
    rw [nil_append, strstr_slashes_cons hmid hmid hne, if_pos rfl]
    rfl
  | cons c pre ih =>
    rw [forall_mem_cons] at hpre
    rw [mem_cons, not_or] at hnot
    rw [cons_append, strstr_slashes_cons hmid hpre.1 (List.append_ne_nil_of_right_ne_nil _ (by simp)),
      if_neg (Ne.symm hnot.1), ih hpre.2 hnot.2, slashes_cons, length_cons, length_append, Option.map_some]
    exact congrArg some (by omega)

theorem count_le_length (c : Text) (comps : List Text) : comps.count c ≤ (slashes comps).length := by
  refine List.count_le_length.trans ?_
  induction comps with
  | nil => exact le_rfl
  | cons d comps ih =>
    rw [slashes_cons, length_cons, length_cons, length_append]
    omega

/-! ## The take-outs on components -/

/-- What stands in front of some components and behind the slash that ends them. -/
theorem splice_slashes (hne : comps ≠ []) {n : Nat} (hn : n = (slashes (pre ++ c :: mids)).length + 1) :
    (slashes (pre ++ c :: mids ++ comps)).take ((slashes pre).length + 1) ++
      (slashes (pre ++ c :: mids ++ comps)).drop n = slashes (pre ++ comps) := by
  obtain ⟨R, hR⟩ := exists_slashes hne
  have hfront : slashes (pre ++ c :: mids ++ comps) = slashes pre ++ '/' :: (c ++ slashes mids ++ slashes comps) := by
    simp only [slashes_append, slashes_cons, append_assoc, cons_append]
  have htake : (slashes (pre ++ c :: mids ++ comps)).take ((slashes pre).length + 1) = slashes pre ++ ['/'] := by
    rw [hfront, List.take_append, List.take_of_length_le (Nat.le_succ _), Nat.add_sub_cancel_left]
    rfl
  have hdrop : (slashes (pre ++ c :: mids ++ comps)).drop n = R := by
    rw [slashes_append, hR, hn, List.drop_append, List.drop_of_length_le (Nat.le_succ _), Nat.add_sub_cancel_left]
    rfl
  rw [htake, hdrop, slashes_append, hR, append_assoc, singleton_append]

/-- Taking out an improper component leaves it out everywhere but at the end. -/
theorem takeOut_slashes (hmid : '/' ∉ mid) (hlast : '/' ∉ last) : ∀ {k : Nat} {init : List Text},
    (∀ c ∈ init, '/' ∉ c) → init.count mid ≤ k →
    takeOut ('/' :: (mid ++ ['/'])) k (slashes (init ++ [last])) = slashes (init.filter (· ≠ mid) ++ [last]) := by
  intro k
  induction k with
  | zero =>
    intro init hinit hk
    have hnot : mid ∉ init := List.count_eq_zero.mp (Nat.le_zero.mp hk)
    rw [takeOut, List.filter_eq_self.mpr fun c hc => decide_eq_true (ne_of_mem_of_not_mem hc hnot)]
  | succ k ih =>
    intro init hinit hk
    by_cases hmem : mid ∈ init
    · obtain ⟨pre, post, rfl, hpre⟩ := List.eq_append_cons_of_mem hmem
      rw [forall_mem_append, forall_mem_cons] at hinit
      rw [count_append, List.count_cons_self] at hk
      have hne : post ++ [last] ≠ [] := List.append_ne_nil_of_right_ne_nil _ (by simp)
      have hjoin : (pre ++ mid :: post) ++ [last] = pre ++ mid :: (post ++ [last]) := by simp
      have hlen : (slashes pre).length + ('/' :: (mid ++ ['/'])).length = (slashes (pre ++ [mid])).length + 1 := by
        rw [slashes_concat]
        simp only [length_cons, length_append, List.length_nil]
        omega
      have hsplice := splice_slashes hne hlen
      rw [append_assoc, singleton_append] at hsplice
      rw [hjoin, takeOut, strstr_slashes_some hmid hinit.1 hpre hne]
      simp only
      rw [hsplice, ← append_assoc,
        ih (forall_mem_append.mpr ⟨hinit.1, hinit.2.2⟩) (by rw [count_append]; omega)]
      rw [List.filter_append, List.filter_append, List.filter_cons_of_neg (by simp)]
    · rw [takeOut_of_none (strstr_slashes_none hmid hinit hlast hmem),
        List.filter_eq_self.mpr fun c hc => decide_eq_true (ne_of_mem_of_not_mem hc hmem)]

variable {x : Text}

/-- Going back from the end of a component comes to the slash in front of it. -/
theorem goBack_skip (hx : '/' ∉ x) (X R : Text) :
    goBack (X ++ '/' :: (x ++ R)) (X.length + 1 + x.length) = some X.length := by
  induction x using List.reverseRecOn generalizing R with
  | nil =>
    have hat : (X ++ '/' :: ([] ++ R))[X.length]? = some '/' := by simp
    rw [List.length_nil, Nat.add_zero, goBack, if_pos hat]
  | append_singleton x c ih =>
    rw [List.mem_append, List.mem_singleton, not_or] at hx
    have hat : (X ++ '/' :: (x ++ [c] ++ R))[X.length + 1 + x.length]? = some c := by
      rw [List.getElem?_append_right (by omega)]
      simp [show X.length + 1 + x.length - X.length = x.length + 1 by omega]
    rw [length_append, List.length_singleton, ← Nat.add_assoc, goBack, hat,
      if_neg (fun h => hx.2 (Option.some.inj h).symm), append_assoc]
    exact ih hx.1 _

theorem goBack_slashes (hx : '/' ∉ x) (R : Text) :
    goBack (slashes (pre ++ [x]) ++ R) (slashes (pre ++ [x])).length = some (slashes pre).length := by
  rw [slashes_concat, append_assoc, cons_append, length_append, length_cons, ← Nat.add_assoc,
    Nat.add_right_comm]
  exact goBack_skip hx _ _

/-- Taking out the parents walks through all components but the last. -/
theorem takeOutParents_slashes (hlast : '/' ∉ last) : ∀ {k : Nat} {init : List Text},
    (∀ c ∈ init, '/' ∉ c ∧ c ≠ [] ∧ c ≠ ".".toList) → init.count "..".toList ≤ k →
    takeOutParents k (slashes (init ++ [last])) = (walk [] init).map fun path => .ok (slashes (path ++ [last])) := by
  intro k
  have hall {init : List Text} (hinit : ∀ c ∈ init, '/' ∉ c ∧ c ≠ [] ∧ c ≠ ".".toList) (hnot : "..".toList ∉ init) :
      walk [] init = some init :=
    walk_proper (fun c hc => ⟨(hinit c hc).2.1, (hinit c hc).2.2, ne_of_mem_of_not_mem hc hnot⟩) []
  induction k with
  | zero =>
    intro init hinit hk
    rw [hall hinit (List.count_eq_zero.mp (Nat.le_zero.mp hk))]
    rfl
  | succ k ih =>
    intro init hinit hk
    have hslash : ∀ c ∈ init, '/' ∉ c := fun c hc => (hinit c hc).1
    by_cases hmem : "..".toList ∈ init
    · obtain ⟨pre, post, rfl, hpre⟩ := List.eq_append_cons_of_mem hmem
      rw [forall_mem_append, forall_mem_cons] at hinit
      rw [forall_mem_append, forall_mem_cons] at hslash
      rw [count_append, List.count_cons_self] at hk
      have hne : post ++ [last] ≠ [] := List.append_ne_nil_of_right_ne_nil _ (by simp)
      have hjoin : (pre ++ "..".toList :: post) ++ [last] = pre ++ "..".toList :: (post ++ [last]) := by simp
      have hfind : strstr "/../".toList (slashes (pre ++ "..".toList :: (post ++ [last]))) =
          some (slashes pre).length := strstr_slashes_some (by decide) hslash.1 hpre hne
      rw [hjoin, takeOutParents, hfind]
      rcases List.eq_nil_or_concat' pre with rfl | ⟨front, x, rfl⟩
      · rfl
      · -- the component in front goes with the `..`
        obtain ⟨n, hn⟩ : ∃ n, (slashes (front ++ [x])).length = n + 1 := by
          rw [slashes_concat, length_append, length_cons]
          exact ⟨_, rfl⟩
        have hx : '/' ∉ x := hslash.1 x (by simp)
        have hback : goBack (slashes (front ++ [x] ++ "..".toList :: (post ++ [last]))) (n + 1) =
            some (slashes front).length := by
          rw [slashes_append, ← hn]
          exact goBack_slashes hx _
        have hend : n + 1 + 4 = (slashes (front ++ x :: ["..".toList])).length + 1 := by
          rw [List.append_cons front x ["..".toList], slashes_concat (front ++ [x]), length_append, hn]
          rfl
        have hsplice := splice_slashes hne hend
        rw [append_assoc, cons_append, singleton_append] at hsplice
        have hwalk : walk [] (front ++ [x] ++ "..".toList :: post) = walk [] (front ++ post) := by
          have hfront : ∀ c ∈ front ++ [x], Proper c := fun c hc =>
            ⟨(hinit.1 c hc).2.1, (hinit.1 c hc).2.2, ne_of_mem_of_not_mem hc hpre⟩
          have hup : walkStep (front ++ [x]) "..".toList = some front := by
            rw [walkStep, if_neg (by decide), if_pos rfl, if_neg (by simp), List.dropLast_concat]
          rw [walk_append, walk_proper hfront, Option.bind_some, nil_append, walk_cons, hup, Option.bind_some,
            walk_append, walk_proper fun c hc => hfront c (List.mem_append_left _ hc)]
          rfl
        rw [hn]
        simp only [hback]
        rw [append_assoc, singleton_append, hsplice, ← append_assoc,
          ih (forall_mem_append.mpr ⟨fun c hc => hinit.1 c (List.mem_append_left _ hc), hinit.2.2⟩)
            (by simp only [count_append] at hk ⊢; omega), ← hwalk]
    · have hnone : strstr "/../".toList (slashes (init ++ [last])) = none :=
        @strstr_slashes_none "..".toList _ _ (by decide) hslash hlast hmem
      rw [takeOutParents_of_none hnone, hall hinit hmem]
      rfl

end RodsPath
