-- SUMMARY: A second run with the restart file skips what was recorded.
import Irods.Core.Restart

/-!
# Resuming a transfer

The second run leaves out the targets in front of the recorded one, counts its files up to
the last recorded path, and resumes at the next file of that target. A target that ends
there leaves the state at matching paths, and the targets behind it are left out as well.
-/

namespace Restart

open CString EStateM
open List (append_nil cons_ne_nil length_append length_cons length_nil mem_append mem_cons)

/-! ## One entry -/

/-- A run after a file was transferred and recorded. -/
def recordFile (run : Run) (path : Text) : Run :=
  let r := { run.rodsRestart with
    curCnt := int32 (run.rodsRestart.curCnt + 1)
    doneCnt := int32 (run.rodsRestart.curCnt + 1)
    lastDonePath := rstrcpy run.rodsRestart.lastDonePath path MAX_NAME_LEN }
  let restartFile := restartText r.collection r.doneCnt r.lastDonePath r.oprType ++
    run.restartFile.drop (MAX_NAME_LEN * 3)
  ⟨r, restartFile, run.saved ++ [restartFile], run.transferred ++ [path]⟩

variable {run : Run}

theorem transfer_run (hfd : 0 < run.rodsRestart.fd) (path : Text) :
    transfer path run = .ok () (recordFile run path) := by
  have hnot : ¬ run.rodsRestart.fd ≤ 0 := by omega
  refine (modify_bind _ _ run).trans ?_
  refine (get_bind _ _).trans ?_
  rw [if_neg hnot]
  rfl

variable {path : Text} {run' : Run}

theorem putDirUtil_file_skip {rest : Entries} (h : chkStateForResume path .dataObj run = .ok 0 run') :
    putDirUtil (.file path rest) run = putDirUtil rest run' :=
  (bind_run h).trans rfl

theorem putDirUtil_file_go {rest : Entries} (h : chkStateForResume path .dataObj run = .ok 1 run')
    (hfd : 0 < run'.rodsRestart.fd) : putDirUtil (.file path rest) run = putDirUtil rest (recordFile run' path) :=
  (bind_run h).trans (bind_run (transfer_run hfd path))

theorem putDirUtil_coll_skip {entries rest : Entries} (h : chkStateForResume path .coll run = .ok 0 run') :
    putDirUtil (.coll path entries rest) run = putDirUtil rest run' :=
  (bind_run h).trans rfl

theorem putDirUtil_coll_go {entries rest : Entries} {run'' : Run} (h : chkStateForResume path .coll run = .ok 1 run')
    (hentries : putDirUtil entries run' = .ok () run'') :
    putDirUtil (.coll path entries rest) run = putDirUtil rest run'' :=
  (bind_run h).trans (bind_run hentries)

/-- A check that fails ends the run. -/
theorem putDirUtil_file_ok {rest : Entries} (h : putDirUtil (.file path rest) run = .ok () run') :
    ∃ status run₁, chkStateForResume path .dataObj run = .ok status run₁ ∧ 0 ≤ status := by
  obtain ⟨status, run₁, hchk, h⟩ := bind_ok.mp h
  exact ⟨status, run₁, hchk, by have := (guard_ok.mp h).1; omega⟩

theorem putDirUtil_coll_ok {entries rest : Entries} (h : putDirUtil (.coll path entries rest) run = .ok () run') :
    ∃ status run₁, chkStateForResume path .coll run = .ok status run₁ ∧ 0 ≤ status := by
  obtain ⟨status, run₁, hchk, h⟩ := bind_ok.mp h
  exact ⟨status, run₁, hchk, by have := (guard_ok.mp h).1; omega⟩

theorem putDirUtil_coll_parts {entries rest : Entries} {run₁ : Run}
    (hchk : chkStateForResume path .coll run = .ok 1 run₁)
    (h : putDirUtil (.coll path entries rest) run = .ok () run') :
    ∃ run₂, putDirUtil entries run₁ = .ok () run₂ ∧ putDirUtil rest run₂ = .ok () run' := by
  replace h := (bind_run hchk).symm.trans h
  obtain ⟨⟨⟩, run₂, hentries, hrest⟩ := bind_ok.mp h
  exact ⟨run₂, hentries, hrest⟩

/-- An element of two lists, one after the other, is in the first or in the second. -/
theorem split_cons {α : Type} {xs ys before after : List α} {x : α} (h : xs ++ ys = before ++ x :: after) :
    (∃ after', xs = before ++ x :: after' ∧ after = after' ++ ys) ∨
      ∃ before', before = xs ++ before' ∧ ys = before' ++ x :: after := by
  obtain ⟨as, hbefore, hys⟩ | ⟨bs, hxs, hcons⟩ := List.append_eq_append_iff.mp h
  · exact .inr ⟨as, hbefore, hys⟩
  · cases bs with
    | nil =>
      rw [append_nil] at hxs
      exact .inr ⟨[], by rw [hxs, append_nil], hcons.symm⟩
    | cons b bs =>
      obtain ⟨rfl, rfl⟩ := List.cons.inj hcons
      exact .inl ⟨bs, hxs, rfl⟩

/-! ## The states of a run -/

/-- No path is looked for: a first run, or one that has resumed. -/
def Free (run : Run) : Prop :=
  run.rodsRestart.restartState = 0#32 ∨ run.rodsRestart.restartState = OPR_RESUMED

theorem chk_free (h : Free run) (path : Text) (objType : ObjType) :
    chkStateForResume path objType run = .ok 1 run := by
  refine (get_bind _ run).trans ?_
  obtain h | h := h
  · simp only [h]
    rfl
  · simp only [h]
    rfl

theorem foldl_record_keeps (files : List Text) : ∀ run : Run,
    (files.foldl recordFile run).rodsRestart.restartState = run.rodsRestart.restartState ∧
    (files.foldl recordFile run).rodsRestart.fd = run.rodsRestart.fd ∧
    (files.foldl recordFile run).transferred = run.transferred ++ files := by
  induction files with
  | nil => exact fun run => ⟨rfl, rfl, (append_nil _).symm⟩
  | cons path files ih =>
    intro run
    obtain ⟨hstate, hfd, htransferred⟩ := ih (recordFile run path)
    refine ⟨hstate, hfd, ?_⟩
    rw [List.foldl_cons, htransferred]
    exact List.append_cons _ _ _ |>.symm

/-- The run after the files, when it is free. -/
theorem Free.foldl {run : Run} (h : Free run) (files : List Text) : Free (files.foldl recordFile run) := by
  unfold Free
  rw [(foldl_record_keeps files run).1]
  exact h

theorem putDirUtil_free : ∀ {entries : Entries} {run : Run}, Free run → 0 < run.rodsRestart.fd →
    putDirUtil entries run = .ok () (entries.files.foldl recordFile run) := by
  intro entries
  induction entries with
  | done => exact fun _ _ => rfl
  | file path rest ih =>
    intro run hfree hfd
    rw [putDirUtil_file_go (chk_free hfree _ _) hfd]
    exact ih hfree hfd
  | coll path entries rest ihEntries ihRest =>
    intro run hfree hfd
    rw [putDirUtil_coll_go (chk_free hfree _ _) (ihEntries hfree hfd), Entries.files, List.foldl_append]
    exact ihRest (hfree.foldl _) (by rw [(foldl_record_keeps _ _).2.1]; exact hfd)

/-- Another target than the recorded one is looked for. -/
def Elsewhere (run : Run) : Prop :=
  run.rodsRestart.restartState = PATH_MATCHING ∨
    run.rodsRestart.restartState = PATH_MATCHING ||| LAST_PATH_MATCHED

theorem putDirUtil_elsewhere : ∀ {entries : Entries} {run : Run}, Elsewhere run →
    putDirUtil entries run = .ok () run := by
  intro entries run h
  have hchk (path : Text) (objType : ObjType) : chkStateForResume path objType run = .ok 0 run := by
    refine (get_bind _ run).trans ?_
    obtain h | h := h
    · simp only [h]
      rfl
    · simp only [h]
      rfl
  induction entries with
  | done => rfl
  | file path rest ih => rw [putDirUtil_file_skip (hchk path .dataObj), ih]
  | coll path entries rest _ ih => rw [putDirUtil_coll_skip (hchk path .coll), ih]

/-! ## The recorded target -/

def SCANNING : BitVec 32 := PATH_MATCHING ||| MATCHED_RESTART_COLL

def FOUND : BitVec 32 := PATH_MATCHING ||| MATCHED_RESTART_COLL ||| LAST_PATH_MATCHED

/-- The files up to the last recorded one are counted; the count is at `x`. -/
structure Scanning (run : Run) (last : Text) (doneCnt x : Int) : Prop where
  state : run.rodsRestart.restartState = SCANNING
  count : run.rodsRestart.curCnt = x
  last : run.rodsRestart.lastDonePath = last
  done : run.rodsRestart.doneCnt = doneCnt

def Run.counted (run : Run) (x : Int) : Run := { run with rodsRestart.curCnt := x }

theorem Run.counted_counted (run : Run) (x y : Int) : (run.counted x).counted y = run.counted y := rfl

section

variable {last : Text} {doneCnt x : Int}

theorem Scanning.counted (h : Scanning run last doneCnt x) (y : Int) :
    Scanning (run.counted y) last doneCnt y := ⟨h.state, rfl, h.last, h.done⟩

theorem Scanning.self (h : Scanning run last doneCnt x) : run.counted x = run := by
  rw [Run.counted, ← h.count]

theorem scanning_matched : SCANNING &&& MATCHED_RESTART_COLL ≠ 0 := by decide

theorem scanning_not_last : ¬ SCANNING &&& LAST_PATH_MATCHED ≠ 0 := by decide

theorem Scanning.chk_over (h : Scanning run last doneCnt x) (hover : doneCnt < x) (path : Text)
    (objType : ObjType) : chkStateForResume path objType run = .ok RESTART_OPR_FAILED run := by
  refine (get_bind _ run).trans ?_
  simp only [h.state, h.count, h.done, hover, if_pos scanning_matched, if_true]
  rfl

theorem Scanning.chk_file (h : Scanning run last doneCnt x) (hcount : x ≤ doneCnt) (hpath : path ≠ last) :
    chkStateForResume path .dataObj run = .ok 0 (run.counted (int32 (x + 1))) := by
  have hover : ¬ doneCnt < x := Int.not_lt.mpr hcount
  refine (get_bind _ run).trans ?_
  simp only [h.state, h.count, h.done, h.last, hover, hpath, if_pos scanning_matched,
    if_neg scanning_not_last, if_true, if_false]
  rfl

theorem Scanning.chk_coll (h : Scanning run last doneCnt x) (hcount : x ≤ doneCnt) (hpath : path ≠ last) :
    chkStateForResume path .coll run = .ok 1 run := by
  have hover : ¬ doneCnt < x := Int.not_lt.mpr hcount
  refine (get_bind _ run).trans ?_
  simp only [h.state, h.count, h.done, h.last, hover, hpath, if_pos scanning_matched,
    if_neg scanning_not_last, if_false, reduceCtorEq]
  rfl

/-- With the last recorded file found. -/
def Run.found (run : Run) (x : Int) : Run :=
  { run with rodsRestart := { run.rodsRestart with curCnt := x, restartState := FOUND } }

theorem Run.counted_fd (hfd : 0 < run.rodsRestart.fd) (x : Int) :
    0 < (run.counted x).rodsRestart.fd := hfd

theorem Run.counted_found (run : Run) (x y : Int) : (run.counted x).found y = run.found y := rfl

theorem Scanning.chk_last (h : Scanning run last doneCnt x) (hcount : x ≤ doneCnt)
    (hdone : int32 (x + 1) = doneCnt) :
    chkStateForResume last .dataObj run = .ok 0 (run.found doneCnt) := by
  have hover : ¬ doneCnt < x := Int.not_lt.mpr hcount
  have hfound : SCANNING ||| LAST_PATH_MATCHED = FOUND := rfl
  refine (get_bind _ run).trans ?_
  simp only [h.state, h.count, h.done, h.last, hover, if_pos scanning_matched, if_neg scanning_not_last,
    if_true, if_false, hdone, ne_eq, not_true, hfound]
  rfl

theorem int32_succ (c : Nat) : int32 (int32 c + 1) = int32 ((c + 1 : Nat) : Int) := by
  unfold int32
  rw [Int.bmod_add_bmod, Nat.cast_add, Nat.cast_one]

/-- While the last recorded path is not met the files are counted. -/
theorem Scanning.pass : ∀ {entries : Entries} {run : Run} {c : Nat}, Scanning run last doneCnt (int32 c) →
    last ∉ entries.files → last ∉ entries.colls →
    (∀ m, c ≤ m → m ≤ c + entries.files.length → int32 m ≤ doneCnt) →
    putDirUtil entries run = .ok () (run.counted (int32 ((c + entries.files.length : Nat) : Int))) := by
  intro entries
  induction entries with
  | done =>
    intro run c hscan _ _ _
    rw [Entries.files, length_nil, Nat.add_zero, hscan.self]
    rfl
  | file path rest ih =>
    intro run c hscan hfiles hcolls hbelow
    rw [Entries.files, mem_cons, not_or] at hfiles
    have hcount := hbelow c (le_refl _) (Nat.le_add_right _ _)
    rw [putDirUtil_file_skip (hscan.chk_file hcount (Ne.symm hfiles.1)), int32_succ]
    have hlen : c + 1 + rest.files.length = c + (Entries.file path rest).files.length := by
      rw [Entries.files, length_cons, Nat.add_assoc, Nat.add_comm 1]
    have hrest := ih (hscan.counted _) hfiles.2 hcolls
      (fun m hlo hhi => hbelow m (Nat.le_of_succ_le hlo) (hlen ▸ hhi))
    rwa [hlen, Run.counted_counted] at hrest
  | coll path entries rest ihEntries ihRest =>
    intro run c hscan hfiles hcolls hbelow
    rw [Entries.files, mem_append, not_or] at hfiles
    rw [Entries.colls, mem_cons, mem_append, not_or, not_or] at hcolls
    rw [Entries.files, length_append] at hbelow ⊢
    have hcount := hbelow c (le_refl _) (Nat.le_add_right _ _)
    have hentries := ihEntries hscan hfiles.1 hcolls.2.1
      (fun m hlo hhi => hbelow m hlo (hhi.trans (Nat.add_le_add_left (Nat.le_add_right _ _) c)))
    have hrest := ihRest (hscan.counted _) hfiles.2 hcolls.2.2
      (fun m hlo hhi => hbelow m ((Nat.le_add_right _ _).trans hlo) (Nat.add_assoc c _ _ ▸ hhi))
    rw [putDirUtil_coll_go (hscan.chk_coll hcount (Ne.symm hcolls.1)) hentries]
    rwa [Nat.add_assoc, Run.counted_counted] at hrest

/-- A file is checked only with a count that is not above the recorded one. -/
theorem Scanning.file_count {rest : Entries} (h : Scanning run last doneCnt x)
    (hok : putDirUtil (.file path rest) run = .ok () run') : x ≤ doneCnt := by
  by_contra hover
  obtain ⟨status, run₁, hchk, hstatus⟩ := putDirUtil_file_ok hok
  rw [h.chk_over (Int.not_le.mp hover)] at hchk
  obtain rfl : RESTART_OPR_FAILED = status := by cases hchk; rfl
  exact absurd hstatus (by decide)

theorem Scanning.coll_count {entries rest : Entries} (h : Scanning run last doneCnt x)
    (hok : putDirUtil (.coll path entries rest) run = .ok () run') : x ≤ doneCnt := by
  by_contra hover
  obtain ⟨status, run₁, hchk, hstatus⟩ := putDirUtil_coll_ok hok
  rw [h.chk_over (Int.not_le.mp hover)] at hchk
  obtain rfl : RESTART_OPR_FAILED = status := by cases hchk; rfl
  exact absurd hstatus (by decide)

/-- A scan that goes through met no count above the recorded one. -/
theorem Scanning.pass_ok : ∀ {entries : Entries} {run run' : Run} {c : Nat},
    Scanning run last doneCnt (int32 c) → last ∉ entries.files → last ∉ entries.colls →
    putDirUtil entries run = .ok () run' →
    run' = run.counted (int32 ((c + entries.files.length : Nat) : Int)) ∧
      ∀ m, c ≤ m → m < c + entries.files.length → int32 m ≤ doneCnt := by
  intro entries
  induction entries with
  | done =>
    intro run run' c hscan _ _ h
    obtain ⟨-, rfl⟩ := pure_ok.mp h
    refine ⟨?_, fun m hlo hhi => absurd hhi (Nat.not_lt.mpr hlo)⟩
    rw [Entries.files, length_nil, Nat.add_zero, hscan.self]
  | file path rest ih =>
    intro run run' c hscan hfiles hcolls h
    rw [Entries.files, mem_cons, not_or] at hfiles
    have hcount := hscan.file_count h
    rw [putDirUtil_file_skip (hscan.chk_file hcount (Ne.symm hfiles.1)), int32_succ] at h
    have hlen : c + 1 + rest.files.length = c + (Entries.file path rest).files.length := by
      rw [Entries.files, length_cons, Nat.add_assoc, Nat.add_comm 1]
    obtain ⟨hrun, hbelow⟩ := ih (hscan.counted _) hfiles.2 hcolls h
    rw [hlen, Run.counted_counted] at hrun
    refine ⟨hrun, fun m hlo hhi => ?_⟩
    obtain rfl | hlt := Nat.eq_or_lt_of_le hlo
    · exact hcount
    · exact hbelow m hlt (hlen ▸ hhi)
  | coll path entries rest ihEntries ihRest =>
    intro run run' c hscan hfiles hcolls h
    rw [Entries.files, mem_append, not_or] at hfiles
    rw [Entries.colls, mem_cons, mem_append, not_or, not_or] at hcolls
    have hcount := hscan.coll_count h
    obtain ⟨run₁, hentries, hrest⟩ := putDirUtil_coll_parts (hscan.chk_coll hcount (Ne.symm hcolls.1)) h
    obtain ⟨rfl, hbelow⟩ := ihEntries hscan hfiles.1 hcolls.2.1 hentries
    obtain ⟨rfl, hbelow'⟩ := ihRest (hscan.counted _) hfiles.2 hcolls.2.2 hrest
    rw [Entries.files, length_append, ← Nat.add_assoc]
    refine ⟨Run.counted_counted _ _ _, fun m hlo hhi => ?_⟩
    obtain hlt | hle := Nat.lt_or_ge m (c + entries.files.length)
    · exact hbelow m hlo hlt
    · exact hbelow' m hle hhi

/-! ## The last recorded file -/

/-- What a run with the last recorded file found does with the files that follow. -/
def finish (run : Run) (files : List Text) : Run :=
  if files = [] then run
  else files.foldl recordFile { run with rodsRestart.restartState := OPR_RESUMED }

theorem finish_cons (run : Run) (path : Text) (files : List Text) : finish run (path :: files) =
    (path :: files).foldl recordFile { run with rodsRestart.restartState := OPR_RESUMED } :=
  if_neg (cons_ne_nil _ _)

/-- The last recorded file is found, and the count agrees. -/
structure Found (run : Run) : Prop where
  state : run.rodsRestart.restartState = FOUND
  count : run.rodsRestart.curCnt = run.rodsRestart.doneCnt

theorem found_matched : FOUND &&& MATCHED_RESTART_COLL ≠ 0 := by decide

theorem found_last : FOUND &&& LAST_PATH_MATCHED ≠ 0 := by decide

theorem Found.chk_file (h : Found run) (path : Text) : chkStateForResume path .dataObj run =
    .ok 1 { run with rodsRestart.restartState := OPR_RESUMED } := by
  have hover : ¬ run.rodsRestart.curCnt > run.rodsRestart.doneCnt := by rw [h.count]; exact lt_irrefl _
  refine (get_bind _ run).trans ?_
  simp only [h.state, hover, if_pos found_matched, if_pos found_last, if_true, if_false]
  rfl

theorem Found.chk_coll (h : Found run) (path : Text) : chkStateForResume path .coll run = .ok 1 run := by
  have hover : ¬ run.rodsRestart.curCnt > run.rodsRestart.doneCnt := by rw [h.count]; exact lt_irrefl _
  refine (get_bind _ run).trans ?_
  simp only [h.state, hover, if_pos found_matched, if_pos found_last, if_false, reduceCtorEq]
  rfl

theorem resumed_free (run : Run) : Free { run with rodsRestart.restartState := OPR_RESUMED } := .inr rfl

/-- The files after some files of a run that has found the last one. -/
theorem Found.rest (hfd : 0 < run.rodsRestart.fd) (files : List Text) {entries : Entries}
    (hrest : putDirUtil entries run = .ok () (finish run entries.files)) :
    putDirUtil entries (finish run files) = .ok () (finish run (files ++ entries.files)) := by
  cases files with
  | nil => exact hrest
  | cons path files =>
    rw [finish_cons, List.cons_append, finish_cons, ← List.cons_append, List.foldl_append]
    refine putDirUtil_free ((resumed_free run).foldl _) ?_
    rw [(foldl_record_keeps _ _).2.1]
    exact hfd

theorem Found.resume : ∀ {entries : Entries} {run : Run}, Found run → 0 < run.rodsRestart.fd →
    putDirUtil entries run = .ok () (finish run entries.files) := by
  intro entries
  induction entries with
  | done => exact fun _ _ => rfl
  | file path rest _ =>
    intro run hfound hfd
    rw [putDirUtil_file_go (hfound.chk_file path) hfd, Entries.files, finish_cons]
    exact putDirUtil_free (resumed_free run) hfd
  | coll path entries rest ihEntries ihRest =>
    intro run hfound hfd
    rw [putDirUtil_coll_go (hfound.chk_coll path) (ihEntries hfound hfd)]
    exact Found.rest hfd _ (ihRest hfound hfd)

theorem Scanning.found (h : Scanning run last doneCnt x) : Found (run.found doneCnt) := ⟨rfl, h.done.symm⟩

/-- The scan of the target of the last recorded file. -/
theorem Scanning.resume : ∀ {entries : Entries} {run : Run} {c : Nat} {before after : List Text},
    Scanning run last doneCnt (int32 c) → 0 < run.rodsRestart.fd →
    entries.files = before ++ last :: after → last ∉ before → last ∉ entries.colls →
    (∀ m, c ≤ m → m ≤ c + before.length → int32 m ≤ doneCnt) →
    int32 ((c + before.length + 1 : Nat) : Int) = doneCnt →
    putDirUtil entries run = .ok () (finish (run.found doneCnt) after) := by
  intro entries
  induction entries with
  | done =>
    intro run c before after _ _ hfiles
    exact absurd hfiles.symm (List.append_ne_nil_of_right_ne_nil _ (cons_ne_nil _ _))
  | file path rest ih =>
    intro run c before after hscan hfd hfiles hbefore hcolls hbelow hdone
    have hcount := hbelow c (le_refl _) (Nat.le_add_right _ _)
    cases before with
    | nil =>
      obtain ⟨rfl, rfl⟩ := List.cons.inj hfiles
      rw [length_nil, Nat.add_zero, ← int32_succ] at hdone
      rw [putDirUtil_file_skip (hscan.chk_last hcount hdone)]
      exact hscan.found.resume hfd
    | cons first before =>
      obtain ⟨rfl, hrest⟩ := List.cons.inj hfiles
      rw [mem_cons, not_or] at hbefore
      have hlen : c + (path :: before).length = c + 1 + before.length := by rw [length_cons]; omega
      rw [hlen] at hbelow hdone
      rw [putDirUtil_file_skip (hscan.chk_file hcount (Ne.symm hbefore.1)), int32_succ]
      have hresume := ih (hscan.counted _) (Run.counted_fd hfd _) hrest hbefore.2 hcolls
        (fun m hlo hhi => hbelow m (Nat.le_of_succ_le hlo) hhi) hdone
      rwa [Run.counted_found] at hresume
  | coll path entries rest ihEntries ihRest =>
    intro run c before after hscan hfd hfiles hbefore hcolls hbelow hdone
    rw [Entries.colls, mem_cons, mem_append, not_or, not_or] at hcolls
    have hchk := hscan.chk_coll (hbelow c (le_refl _) (Nat.le_add_right _ _)) (Ne.symm hcolls.1)
    obtain ⟨after, hentries, rfl⟩ | ⟨before, rfl, hrest⟩ := split_cons hfiles
    · rw [putDirUtil_coll_go hchk (ihEntries hscan hfd hentries hbefore hcolls.2.1 hbelow hdone)]
      exact @Found.rest (run.found doneCnt) hfd _ _ (hscan.found.resume hfd)
    · rw [mem_append, not_or] at hbefore
      have hlen : c + (entries.files ++ before).length = c + entries.files.length + before.length := by
        rw [length_append, Nat.add_assoc]
      rw [hlen] at hbelow hdone
      have hpass := hscan.pass hbefore.1 hcolls.2.1
        (fun m hlo hhi => hbelow m hlo (hhi.trans (Nat.le_add_right _ _)))
      rw [putDirUtil_coll_go hchk hpass]
      have hresume := ihRest (hscan.counted _) (Run.counted_fd hfd _) hrest hbefore.2 hcolls.2.2
        (fun m hlo hhi => hbelow m ((Nat.le_add_right _ _).trans hlo) hhi) hdone
      rwa [Run.counted_found] at hresume

/-- No count in front of the last recorded file is above the recorded one. -/
theorem Scanning.resume_ok : ∀ {entries : Entries} {run run' : Run} {c : Nat}
    {before after : List Text}, Scanning run last doneCnt (int32 c) →
    entries.files = before ++ last :: after → last ∉ before → last ∉ entries.colls →
    putDirUtil entries run = .ok () run' →
    ∀ m, c ≤ m → m ≤ c + before.length → int32 m ≤ doneCnt := by
  intro entries
  induction entries with
  | done =>
    intro run run' c before after _ hfiles
    exact absurd hfiles.symm (List.append_ne_nil_of_right_ne_nil _ (cons_ne_nil _ _))
  | file path rest ih =>
    intro run run' c before after hscan hfiles hbefore hcolls h m hlo hhi
    have hcount := hscan.file_count h
    obtain rfl | hlt := Nat.eq_or_lt_of_le hlo
    · exact hcount
    · cases before with
      | nil => exact absurd hhi (Nat.not_le.mpr hlt)
      | cons first before =>
        obtain ⟨rfl, hrest⟩ := List.cons.inj hfiles
        rw [mem_cons, not_or] at hbefore
        rw [length_cons, Nat.add_comm _ 1, ← Nat.add_assoc] at hhi
        rw [putDirUtil_file_skip (hscan.chk_file hcount (Ne.symm hbefore.1)), int32_succ] at h
        exact ih (hscan.counted _) hrest hbefore.2 hcolls h m hlt hhi
  | coll path entries rest ihEntries ihRest =>
    intro run run' c before after hscan hfiles hbefore hcolls h m hlo hhi
    rw [Entries.colls, mem_cons, mem_append, not_or, not_or] at hcolls
    have hcount := hscan.coll_count h
    obtain ⟨run₁, hentries, hrest⟩ := putDirUtil_coll_parts (hscan.chk_coll hcount (Ne.symm hcolls.1)) h
    obtain ⟨after, hsplit, rfl⟩ | ⟨before, rfl, hsplit⟩ := split_cons hfiles
    · exact ihEntries hscan hsplit hbefore hcolls.2.1 hentries m hlo hhi
    · rw [mem_append, not_or] at hbefore
      rw [length_append, ← Nat.add_assoc] at hhi
      obtain ⟨rfl, hbelow⟩ := hscan.pass_ok hbefore.1 hcolls.2.1 hentries
      obtain hlt | hle := Nat.lt_or_ge m (c + entries.files.length)
      · exact hbelow m hlo hlt
      · exact ihRest (hscan.counted _) hsplit hbefore.2 hcolls.2.2 hrest m hle hhi

end

end Restart
