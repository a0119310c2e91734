-- SUMMARY: The bind variables of a parent_of condition.
import Irods.Icat.Comparison
import Mathlib.Data.List.Nodup

/-!
# parent_of

`addInClauseToWhereForParentOf` cuts a path at every slash and takes what stands in front,
and the first time the slash as well. It cuts at every blank, too, as if the path ended
there, and it cuts the root at its slash and at its end.
-/

namespace GenQuery

open CString EStateM
open List (cons_append count count_append count_cons count_eq_zero inits_cons length_cons length_map map_congr_left
  map_cons map_map mem_inits)

variable {name t : Text}

namespace Cond

/-! ## Paths -/

/-- The names of an absolute normalised path. -/
def Names (names : List Text) : Prop := ∀ n ∈ names, n ≠ [] ∧ '/' ∉ n ∧ '\x00' ∉ n

instance (names : List Text) : Decidable (Names names) := List.decidableBAll _ _

def under (names : List Text) : Text := names.flatMap ('/' :: ·)

def path : List Text → Text
  | [] => ['/']
  | name :: names => under (name :: names)

/-- The root, the ancestors of the path, and the path itself. -/
def ancestors (names : List Text) : List Text := names.inits.map path

@[simp] theorem under_cons (name : Text) (names : List Text) :
    under (name :: names) = '/' :: (name ++ under names) := by simp [under]

theorem under_append (names more : List Text) : under (names ++ more) = under names ++ under more :=
  List.flatMap_append

theorem count_slash_under : ∀ {names : List Text}, Names names → (under names).count '/' = names.length
  | [], _ => rfl
  | name :: names, h => by
    obtain ⟨-, hslash, -⟩ := h name (by simp)
    rw [under_cons, List.count_cons_self, count_append, count_eq_zero.mpr hslash,
      count_slash_under fun n hn => h n (by simp [hn]), length_cons]
    omega

variable {names : List Text}

theorem Names.of_prefix {front : List Text} (h : Names names) (hpre : front <+: names) : Names front :=
  fun n hn => h n (hpre.subset hn)

theorem Names.end_notMem (h : Names names) : '\x00' ∉ path names := by
  cases names with
  | nil => decide
  | cons name names =>
    intro hmem
    obtain ⟨n, hn, hmem⟩ := List.mem_flatMap.mp hmem
    obtain hmem | hmem := List.mem_cons.mp hmem
    · exact absurd hmem (by decide)
    · exact (h n hn).2.2 hmem

theorem inits_nodup {α : Type} : ∀ l : List α, l.inits.Nodup
  | [] => by simp
  | a :: l => by
    rw [inits_cons, List.nodup_cons]
    exact ⟨by simp, (inits_nodup l).map fun _ _ h => (List.cons.inj h).2⟩

theorem path_ne_root (h : Names (name :: names)) : path (name :: names) ≠ path [] := by
  intro heq
  obtain ⟨hne, -, -⟩ := h name (by simp)
  simp only [path, under_cons, List.cons.injEq, List.append_eq_nil_iff, true_and] at heq
  exact hne heq.1

/-- Two prefixes of one path are different paths: they have different numbers of slashes. -/
theorem path_inj {front front' : List Text} (h : Names names) (hfront : front <+: names) (hfront' : front' <+: names)
    (heq : path front = path front') : front = front' := by
  have hlen : front.length = front'.length := by
    cases front with
    | nil =>
      cases front' with
      | nil => rfl
      | cons n ns => exact absurd heq.symm (path_ne_root (h.of_prefix hfront'))
    | cons n ns =>
      cases front' with
      | nil => exact absurd heq (path_ne_root (h.of_prefix hfront))
      | cons n' ns' =>
        have hcount := congrArg (count '/') heq
        simp only [path] at hcount
        rwa [count_slash_under (h.of_prefix hfront), count_slash_under (h.of_prefix hfront')] at hcount
  exact List.IsPrefix.eq_of_length (List.prefix_of_prefix_length_le hfront hfront' hlen.le) hlen

theorem ancestors_nodup (h : Names names) : (ancestors names).Nodup := by
  refine List.Nodup.map_on ?_ (inits_nodup names)
  intro front hfront front' hfront' heq
  rw [mem_inits] at hfront hfront'
  exact path_inj h hfront hfront' heq

theorem ancestor_prefix (ht : t ∈ ancestors names) : t <+: path names := by
  obtain ⟨front, hfront, rfl⟩ := List.mem_map.mp ht
  obtain ⟨back, rfl⟩ := (mem_inits _ _).mp hfront
  cases front with
  | nil =>
    cases back with
    | nil => exact List.prefix_rfl
    | cons name names => exact ⟨name ++ under names, by simp [path]⟩
  | cons name names => exact ⟨under back, by rw [path, cons_append, path, ← cons_append, under_append]⟩

/-! ## Cuts -/

def isCut (c : Char) : Bool := c = '/' ∨ c = ' ' ∨ c = '\x00'

theorem length_cuts : ∀ (s : Text) (i nput : Nat), (cuts s i nput).length = s.countP isCut
  | [], _, _ => rfl
  | c :: s, i, nput => by
    unfold cuts
    split
    · rename_i hc
      rw [length_cons, length_cuts, List.countP_cons_of_pos (by simpa [isCut] using hc)]
    · rename_i hc
      rw [length_cuts, List.countP_cons_of_neg (by simpa [isCut] using hc)]

/-- There is no cut in a name without blanks. -/
theorem cuts_append (h : ∀ c ∈ name, isCut c = false) (s : Text) (nput : Nat) :
    ∀ i, cuts (name ++ s) i nput = cuts s (i + name.length) nput := by
  induction name with
  | nil => exact fun _ => rfl
  | cons c name ih =>
    intro i
    have hc : ¬ (c = '/' ∨ c = ' ' ∨ c = '\x00') := of_decide_eq_false (h c (by simp))
    rw [cons_append, cuts, if_neg hc, ih (fun d hd => h d (by simp [hd])), length_cons,
      Nat.add_assoc, Nat.add_comm 1]

theorem cuts_under : (∀ n ∈ names, ∀ c ∈ n, isCut c = false) → ∀ i nput,
    cuts (under names ++ ['\x00']) i (nput + 1) = names.inits.map fun front => i + (under front).length := by
  induction names with
  | nil => exact fun _ _ _ => rfl
  | cons name names ih =>
    intro h i nput
    rw [under_cons, cons_append, List.append_assoc, cuts, if_pos (.inl rfl), if_neg (by omega),
      cuts_append (h name (by simp)), ih fun n hn => h n (by simp [hn])]
    rw [inits_cons, map_cons, map_map]
    congr 1
    refine map_congr_left fun front _ => ?_
    simp
    omega

/-- The path is cut behind the first slash, and where its ancestors and the path itself end. -/
theorem cuts_path (hne : names ≠ []) (h : ∀ n ∈ names, ∀ c ∈ n, isCut c = false) :
    cuts (path names ++ ['\x00']) 0 0 = (ancestors names).map List.length := by
  cases names with
  | nil => exact absurd rfl hne
  | cons name names =>
    rw [path, under_cons, cons_append, List.append_assoc, cuts, if_pos (.inl rfl), if_pos rfl,
      cuts_append (h name (by simp)), cuts_under fun n hn => h n (by simp [hn])]
    rw [ancestors, inits_cons, map_cons, map_cons, map_map, map_map]
    congr 1
    refine map_congr_left fun front _ => ?_
    simp [path]
    omega

/-! ## Runs -/

def parentOf (p : Text) : Text := compared "parent_of ".toList p

theorem parentOf_isComparison (p : Text) : IsComparison (parentOf p) := by
  refine ⟨?_, ?_, ?_, ?_⟩
  · exact RuleQuery.startsWith_eq_false (by decide) rfl rfl (by decide) (by decide)
  · exact RuleQuery.startsWith_eq_false (by decide) rfl rfl (by decide) (by decide)
  · exact fun h => absurd (List.cons.inj h).1 (by decide)
  · exact fun h => absurd (List.cons.inj h).1 (by decide)

variable {p : Text} {c : Cond}

/-- The bind variable of the whole path is undone before its ancestors are bound. -/
theorem addComparison_parentOf {c₀ : Cond} {ptr : Buffer × Nat} (hpush : c.cllBindVars = c₀.cllBindVars ++ [ptr]) :
    ∃ c₁, c₁.cllBindVars = c₀.cllBindVars ∧
      addComparison " parent_of ".toList p c = addInClauseToWhereForParentOf p c₁ := by
  refine ⟨{ c with cllBindVars := c.cllBindVars.dropLast }, by simp [hpush], ?_⟩
  exact (modify_bind _ _ _).trans (congrFun (bind_pure _) _)

theorem literal_parentOf (p : Text) :
    ((compared "parent_of ".toList p).take ("parent_of ".toList.length + p.length + 1)).drop
      ("parent_of ".toList.length + 1) = p := literal_compared

/-- What `insertWhere` requires before it takes a path apart. -/
def Starts (p : Text) (c : Cond) : Prop :=
  p.length + c.bindIx + 2 ≤ maxSQL + 90 ∧ c.cllBindVars.length + 1 < maxBindVars

theorem insertWhere_parentOf_starts (h : Starts p c) : ∃ c₁,
    c₁.cllBindVars = c.cllBindVars ∧ insertWhere (parentOf p) c = addInClauseToWhereForParentOf p c₁ := by
  obtain ⟨hlen, hroom⟩ := h
  obtain ⟨c₁, hbind⟩ := bindLiteral_run (c := { c with bindIx := c.bindIx + 1 })
    (literal_parentOf p) (by dsimp only; omega) hroom
  obtain ⟨-, hpush, -, -⟩ := bindLiteral_ok hbind
  obtain ⟨c₂, hbinds, hadd⟩ := addComparison_parentOf (p := p) hpush
  refine ⟨c₂, hbinds, ?_⟩
  rw [parentOf, insertWhere_compared_eq (parentOf_isComparison p) (by decide) (by decide) (by decide) c,
    if_neg (by omega), bind_run hbind]
  exact hadd

theorem insertWhere_parentOf_refused (h : ¬ Starts p c) :
    ∃ code c₁, insertWhere (parentOf p) c = .error (.fail code) c₁ := by
  have hrun := insertWhere_compared_eq (parentOf_isComparison p) (by decide) (by decide) (by decide) c
  by_cases hlen : p.length + 1 + (c.bindIx + 1) > maxSQL + 90
  · exact ⟨_, _, by rw [parentOf, hrun, if_pos hlen]⟩
  · have hfull : maxBindVars ≤ c.cllBindVars.length + 1 := by
      by_contra hroom
      exact h ⟨by omega, by omega⟩
    obtain ⟨c₁, hbind⟩ := bindLiteral_full (c := { c with bindIx := c.bindIx + 1 })
      (literal_parentOf p) (by dsimp only; omega) hfull
    exact ⟨_, c₁, by rw [parentOf, hrun, if_neg hlen]; exact bind_error.mpr (.inl hbind)⟩

/-- The strings that the helper copies for a path. -/
def parentStrings (p : Text) : List (Text × Nat) := (cuts (p ++ ['\x00']) 0 0).map (p, ·)

theorem parentStrings_lens (p : Text) : (parentStrings p).map Prod.snd = cuts (p ++ ['\x00']) 0 0 := by
  rw [parentStrings, map_map]
  exact List.map_id _

theorem parentStrings_length (p : Text) : (parentStrings p).length = (cuts (p ++ ['\x00']) 0 0).length := by
  rw [parentStrings, length_map]

theorem parentStrings_ne_nil (p : Text) : parentStrings p ≠ [] := by
  have hlen := length_cuts (p ++ ['\x00']) 0 0
  intro h
  have hnil : cuts (p ++ ['\x00']) 0 0 = [] := by rw [← parentStrings_lens, h, List.map_nil]
  rw [hnil] at hlen
  simp [isCut] at hlen

theorem pure_saves : Saves fun _ => pure () := fun _ c => ⟨c.inStrIx, rfl⟩

/-- The helper, apart from the text it adds to the query. -/
theorem addInClauseToWhereForParentOf_run (p : Text) (c : Cond) :
    ∃ c₁, c₁.cllBindVars = c.cllBindVars ∧ addInClauseToWhereForParentOf p c =
      (copyAll .inStringsForParentOf ", ?".toList (fun _ => pure ()) (parentStrings p) 0 0 >>= fun _ =>
        catWhere ")".toList) c₁ := by
  refine ⟨{ c with whereSQL := rstrcat c.whereSQL " IN (".toList maxSQL }, rfl, ?_⟩
  unfold addInClauseToWhereForParentOf
  simp only [parentOfLoop_eq, bind_assoc, pure_bind]
  rfl

/-- What the path and the state must leave room for. -/
structure Room (p : Text) (lens : List Nat) (c : Cond) : Prop where
  literal : p.length + c.bindIx + 2 ≤ maxSQL + 90
  binds : c.cllBindVars.length + lens.length < maxBindVars
  copies : extent lens ≤ maxSQL

theorem takeWhile_end (ht : '\x00' ∉ t) : t.takeWhile (· ≠ '\x00') = t := by
  rw [List.takeWhile_eq_self_iff]
  exact fun c hc => decide_eq_true fun heq => ht (heq ▸ hc)

theorem le_extent {n : Nat} : ∀ {lens : List Nat}, n ∈ lens → n + 1 ≤ extent lens
  | m :: lens, h => by
    rw [extent_cons]
    obtain rfl | h := List.mem_cons.mp h
    · omega
    · have := le_extent h
      omega

/-- The new bind variables of a run are the cuts of the path. -/
theorem insertWhere_parentOf_ok (hp : '\x00' ∉ p) {c' : Cond} {u : Unit} (h : insertWhere (parentOf p) c = .ok u c') :
    ∃ ps, c'.cllBindVars = c.cllBindVars ++ ps ∧
      ps.map c'.deref = (cuts (p ++ ['\x00']) 0 0).map (p.take ·) ∧ Room p (cuts (p ++ ['\x00']) 0 0) c := by
  by_cases hstarts : Starts p c
  · obtain ⟨c₁, hbinds, hrun⟩ := insertWhere_parentOf_starts hstarts
    obtain ⟨c₂, hbinds', hrun'⟩ := addInClauseToWhereForParentOf_run p c₁
    rw [hrun, hrun', bind_ok] at h
    obtain ⟨r, c₃, hcopies, hcat⟩ := h
    obtain rfl := modify_ok.mp hcat
    obtain ⟨ps, hps, htexts, -, -, hroom⟩ := copyAll_ok pure_saves hcopies
    obtain ⟨hfree, hfits⟩ := hroom (parentStrings_ne_nil p)
    rw [parentStrings_lens, Nat.zero_add] at hfits
    rw [hbinds', hbinds, parentStrings_length] at hfree
    refine ⟨ps, hps.trans (by rw [hbinds', hbinds]), ?_, hstarts.1, hfree, hfits⟩
    refine htexts.trans ?_
    rw [parentStrings, map_map]
    refine map_congr_left fun n hn => ?_
    have hlt : ¬ n ≥ maxSQL := by
      have := le_extent hn
      change _ ≤ maxSQL at hfits
      omega
    show (copy p n).takeWhile _ = _
    rw [copy, if_neg hlt]
    exact takeWhile_end fun hmem => hp (List.mem_of_mem_take hmem)
  · obtain ⟨code, c₁, hrun⟩ := insertWhere_parentOf_refused hstarts
    rw [hrun] at h
    cases h

theorem insertWhere_parentOf_run (h : Room p (cuts (p ++ ['\x00']) 0 0) c) :
    ∃ c', insertWhere (parentOf p) c = .ok () c' := by
  have hpos : 0 < (cuts (p ++ ['\x00']) 0 0).length := by
    rw [← parentStrings_length]
    exact List.length_pos_iff.mpr (parentStrings_ne_nil p)
  have hbinds := h.binds
  obtain ⟨c₁, hbinds₁, hrun⟩ := insertWhere_parentOf_starts (p := p) (c := c) ⟨h.literal, by omega⟩
  obtain ⟨c₂, hbinds₂, hrun'⟩ := addInClauseToWhereForParentOf_run p c₁
  obtain ⟨r, c₃, hcopies⟩ := copyAll_run (b := .inStringsForParentOf) pure_saves (c := c₂)
    (by rw [hbinds₂, hbinds₁, parentStrings_length]; exact hbinds)
    (by rw [parentStrings_lens, Nat.zero_add]; exact h.copies)
  exact ⟨_, by rw [hrun, hrun', bind_run hcopies]; rfl⟩

/-! ## The ancestors -/

/-- The condition binds the path and its ancestors and nothing else, each once. -/
def SelectsAncestors (names : List Text) (c : Cond) : Prop :=
  ∃ c' ps, insertWhere (parentOf (path names)) c = .ok () c' ∧ c'.cllBindVars = c.cllBindVars ++ ps ∧
    (ps.map c'.deref).Nodup ∧ ∀ t, t ∈ ps.map c'.deref ↔ ∃ front, front <+: names ∧ path front = t

theorem mem_ancestors : t ∈ ancestors names ↔ ∃ front, front <+: names ∧ path front = t := by
  simp [ancestors, mem_inits]

theorem countP_isCut (s : Text) :
    s.countP isCut = s.count '/' + s.count ' ' + s.count '\x00' := by
  induction s with
  | nil => rfl
  | cons c s ih =>
    rw [List.countP_cons, ih, count_cons, count_cons, count_cons]
    by_cases hslash : c = '/'
    · subst hslash
      simp [isCut]
      omega
    · by_cases hblank : c = ' '
      · subst hblank
        simp [isCut]
        omega
      · by_cases hend : c = '\x00'
        · subst hend
          simp [isCut]
          omega
        · simp [isCut, hslash, hblank, hend]

theorem blank_under : ' ' ∈ under names ↔ ∃ n ∈ names, ' ' ∈ n := by
  simp [under]

/-- There are as many cuts as there are ancestors only if every cut is one of them. -/
theorem cuts_length_iff (h : Names names) :
    (cuts (path names ++ ['\x00']) 0 0).length = (ancestors names).length ↔
      names ≠ [] ∧ ∀ n ∈ names, ' ' ∉ n := by
  have hlen : (ancestors names).length = names.length + 1 := by rw [ancestors, length_map, List.length_inits]
  rw [length_cuts, countP_isCut, hlen]
  cases names with
  | nil => decide
  | cons name names =>
    have hend := count_eq_zero.mpr h.end_notMem
    have hblank : count ' ' (under (name :: names)) = 0 ↔ ∀ n ∈ name :: names, ' ' ∉ n := by
      rw [count_eq_zero, blank_under]
      push Not
      rfl
    rw [path] at hend ⊢
    have hone : count '/' ['\x00'] = 0 ∧ count ' ' ['\x00'] = 0 ∧ count '\x00' ['\x00'] = 1 := by
      decide
    rw [count_append, count_append, count_append, count_slash_under h, hend, hone.1, hone.2.1,
      hone.2.2, ← hblank]
    simp only [ne_eq, List.cons_ne_nil, not_false_eq_true, true_and]
    omega

theorem no_cut (h : Names names) (hblank : ∀ n ∈ names, ' ' ∉ n) : ∀ n ∈ names, ∀ c ∈ n, isCut c = false := by
  intro n hn c hc
  obtain ⟨-, hslash, hend⟩ := h n hn
  refine decide_eq_false ?_
  rintro (rfl | rfl | rfl)
  · exact hslash hc
  · exact hblank n hn hc
  · exact hend hc

/-- A `parent_of` condition on a path binds exactly the path and its ancestors if and only if
the path is not the root, no name has a blank, and there is room. -/
theorem selectsAncestors_iff {names : List Text} (h : Names names) (c : Cond) : SelectsAncestors names c ↔
    names ≠ [] ∧ (∀ n ∈ names, ' ' ∉ n) ∧ Room (path names) ((ancestors names).map List.length) c := by
  constructor
  · rintro ⟨c', ps, hrun, hps, hnodup, hmem⟩
    obtain ⟨ps', hps', htexts, hroom⟩ := insertWhere_parentOf_ok h.end_notMem hrun
    obtain rfl := List.append_cancel_left (hps.symm.trans hps')
    have hperm : (ps.map c'.deref).Perm (ancestors names) :=
      (List.perm_ext_iff_of_nodup hnodup (ancestors_nodup h)).mpr fun t => (hmem t).trans mem_ancestors.symm
    have hlen := hperm.length_eq
    rw [htexts, length_map] at hlen
    obtain ⟨hne, hblank⟩ := (cuts_length_iff h).mp hlen
    rw [cuts_path hne (no_cut h hblank)] at hroom
    exact ⟨hne, hblank, hroom⟩
  · rintro ⟨hne, hblank, hroom⟩
    have hcuts := cuts_path hne (no_cut h hblank)
    rw [← hcuts] at hroom
    obtain ⟨c', hrun⟩ := insertWhere_parentOf_run hroom
    obtain ⟨ps, hps, htexts, -⟩ := insertWhere_parentOf_ok h.end_notMem hrun
    have hancestors : ps.map c'.deref = ancestors names := by
      rw [htexts, hcuts, map_map]
      refine (map_congr_left fun t ht => ?_).trans (List.map_id _)
      exact Eq.symm <| List.prefix_iff_eq_take.mp <| ancestor_prefix ht
    refine ⟨c', ps, hrun, hps, ?_, fun t => ?_⟩
    · rw [hancestors]
      exact ancestors_nodup h
    · rw [hancestors]
      exact mem_ancestors

/-- A server before its first condition. -/
def noConditions : Cond := ⟨"where ".toList, [], 0, 0, 0, fun _ _ => '\x00'⟩

def docsOfRods : List Text := ["home".toList, "rods".toList, "docs".toList]

theorem selectsAncestors_docs : SelectsAncestors docsOfRods noConditions ∧
    ancestors docsOfRods = ["/".toList, "/home".toList, "/home/rods".toList, "/home/rods/docs".toList] := by
  have hnames : Names docsOfRods := by decide
  exact ⟨(selectsAncestors_iff hnames noConditions).mpr
    ⟨by decide, by decide, by decide, by decide, by decide⟩, by decide⟩

def blankName : List Text := ["home".toList, "my docs".toList]

/-- A part of a name with a blank is bound as if it were a collection. -/
theorem not_selectsAncestors_blank : Names blankName ∧ ¬ SelectsAncestors blankName noConditions ∧
    ∃ c' ps, insertWhere (parentOf (path blankName)) noConditions = .ok () c' ∧ c'.cllBindVars = ps ∧
      ps.map c'.deref = ["/".toList, "/home".toList, "/home/my".toList, "/home/my docs".toList] := by
  have hnames : Names blankName := by decide
  obtain ⟨c', hrun⟩ := insertWhere_parentOf_run (p := path blankName) (c := noConditions)
    ⟨by decide, by decide, by decide⟩
  obtain ⟨ps, hps, htexts, -⟩ := insertWhere_parentOf_ok hnames.end_notMem hrun
  refine ⟨hnames, ?_, c', ps, hrun, hps, htexts.trans (by decide)⟩
  rintro ⟨c'', ps', hrun', hps', -, hmem⟩
  rw [hrun, Result.ok.injEq] at hrun'
  obtain rfl := hrun'.2
  obtain rfl := List.append_cancel_left (hps.symm.trans hps')
  rw [htexts] at hmem
  have hmy := mem_ancestors.mpr ((hmem "/home/my".toList).mp (by decide))
  exact absurd hmy (by decide)

end Cond

end GenQuery
