-- SUMMARY: A stopped transfer and the run after it.
import Irods.Core.Resume

/-!
# Two runs over the same targets

The first run records every file. The second run has the restart file as it was after the
`k`-th file. It transfers the other files when the `k`-th file is not the last of its target,
or when no file is left at all.
-/

namespace Restart

open CString EStateM
open List (append_assoc append_nil cons_ne_nil foldl_cons length_append mem_append_right mem_cons_of_mem
  mem_cons_self)

/-! ## The targets of a run that looks for nothing -/

/-- A target is begun, and recorded as the current one. -/
def Run.startTarget (run : Run) (outPath : Text) : Run :=
  { run with rodsRestart := { run.rodsRestart with
      collection := rstrcpy run.rodsRestart.collection outPath MAX_NAME_LEN, doneCnt := 0, curCnt := 0 } }

variable {run : Run}

theorem setStateForRestart_free (hfree : Free run) (hfd : 0 < run.rodsRestart.fd) (outPath : Text) :
    setStateForRestart outPath run = .ok () (run.startTarget outPath) := by
  have hnot : ¬ run.rodsRestart.restartState &&& PATH_MATCHING ≠ 0 := by
    obtain h | h := hfree
    · rw [h]
      decide
    · rw [h]
      decide
  refine modify_ok.mpr ?_
  simp only [if_neg hnot, if_pos hfd]
  rfl

def putTarget (run : Run) (target : Target) : Run :=
  target.entries.files.foldl recordFile (run.startTarget target.outPath)

theorem Free.putTarget (hfree : Free run) (target : Target) : Free (putTarget run target) :=
  @Free.foldl (run.startTarget target.outPath) hfree _

theorem putTarget_fd (run : Run) (target : Target) :
    (putTarget run target).rodsRestart.fd = run.rodsRestart.fd :=
  (foldl_record_keeps target.entries.files (run.startTarget target.outPath)).2.1

theorem putUtil_free : ∀ {targets : List Target} {run : Run}, Free run → 0 < run.rodsRestart.fd →
    putUtil targets run = .ok () (targets.foldl putTarget run) := by
  intro targets
  induction targets with
  | nil => exact fun _ _ => rfl
  | cons target targets ih =>
    intro run hfree hfd
    have htarget : putDirUtil target.entries (run.startTarget target.outPath) =
        .ok () (putTarget run target) := putDirUtil_free hfree hfd
    rw [putUtil, bind_run (setStateForRestart_free hfree hfd _), bind_run htarget, foldl_cons]
    exact ih (hfree.putTarget target) (by rw [putTarget_fd]; exact hfd)

def allFiles (targets : List Target) : List Text := targets.flatMap fun target => target.entries.files

theorem allFiles_cons (target : Target) (targets : List Target) :
    allFiles (target :: targets) = target.entries.files ++ allFiles targets := List.flatMap_cons

theorem allFiles_append (before after : List Target) :
    allFiles (before ++ after) = allFiles before ++ allFiles after := List.flatMap_append

theorem foldl_putTarget_transferred (targets : List Target) : ∀ run : Run,
    (targets.foldl putTarget run).transferred = run.transferred ++ allFiles targets := by
  induction targets with
  | nil => exact fun run => (append_nil _).symm
  | cons target targets ih =>
    intro run
    rw [foldl_cons, ih, allFiles_cons, ← append_assoc]
    congr 1
    exact (foldl_record_keeps target.entries.files (run.startTarget target.outPath)).2.2

/-! ## What the first run saves -/

theorem length_restartText (collection : Text) (doneCnt : Int) (lastDonePath oprType : Text) :
    (restartText collection doneCnt lastDonePath oprType).length = MAX_NAME_LEN * 3 := by
  unfold restartText
  simp only [length_append, List.length_replicate, List.length_take]
  omega

/-- The contents after each of the files, the first of which is counted `c + 1`. -/
def contents (outPath : Text) (c : Nat) (files : List Text) : List Text :=
  files.mapIdx fun i path => restartText outPath (int32 ((c + i + 1 : Nat) : Int)) path nonBulkOpr

theorem contents_cons (outPath : Text) (c : Nat) (path : Text) (files : List Text) :
    contents outPath c (path :: files) =
      restartText outPath (int32 ((c + 1 : Nat) : Int)) path nonBulkOpr :: contents outPath (c + 1) files := by
  have hshift (i : Nat) : c + (i + 1) + 1 = c + 1 + i + 1 := by omega
  simp only [contents, List.mapIdx_cons, Nat.add_zero, hshift]

/-- A first run: its files are not bulk files, and the restart file is no longer than what is written. -/
structure Recording (run : Run) : Prop where
  opr : run.rodsRestart.oprType = nonBulkOpr
  file : run.restartFile.length ≤ MAX_NAME_LEN * 3

theorem rstrcpy_fits {dest src : Text} {maxLen : Nat} (h : src.length < maxLen) :
    rstrcpy dest src maxLen = src := if_neg (Nat.not_le.mpr h)

variable {path : Text}

theorem Recording.recordFile (h : Recording run) {outPath : Text} {c : Nat}
    (hcoll : run.rodsRestart.collection = outPath) (hcount : run.rodsRestart.curCnt = int32 c)
    (hpath : path.length < MAX_NAME_LEN) :
    Recording (recordFile run path) ∧ (recordFile run path).rodsRestart.collection = outPath ∧
    (recordFile run path).rodsRestart.curCnt = int32 ((c + 1 : Nat) : Int) ∧
    (recordFile run path).saved =
      run.saved ++ [restartText outPath (int32 ((c + 1 : Nat) : Int)) path nonBulkOpr] := by
  have hdrop : run.restartFile.drop (MAX_NAME_LEN * 3) = [] := List.drop_eq_nil_of_le h.file
  unfold Restart.recordFile
  simp only [hcount, int32_succ, hcoll, rstrcpy_fits hpath, h.opr, hdrop, append_nil]
  exact ⟨⟨rfl, (length_restartText _ _ _ _).le⟩, trivial, trivial, trivial⟩

theorem Recording.foldl {outPath : Text} : ∀ {files : List Text} {run : Run} {c : Nat}, Recording run →
    (files ≠ [] → run.rodsRestart.collection = outPath) → run.rodsRestart.curCnt = int32 c →
    (∀ path ∈ files, path.length < MAX_NAME_LEN) →
    Recording (files.foldl Restart.recordFile run) ∧
    (files.foldl Restart.recordFile run).saved = run.saved ++ contents outPath c files := by
  intro files
  induction files with
  | nil => exact fun h _ _ _ => ⟨h, (append_nil _).symm⟩
  | cons path files ih =>
    intro run c h hcoll hcount hfits
    obtain ⟨hrec, hcoll, hcount, hsaved⟩ :=
      h.recordFile (hcoll (cons_ne_nil _ _)) hcount (hfits path mem_cons_self)
    obtain ⟨hrec, hfold⟩ := ih hrec (fun _ => hcoll) hcount
      fun path hpath => hfits path (mem_cons_of_mem _ hpath)
    refine ⟨hrec, ?_⟩
    rw [foldl_cons, hfold, hsaved, contents_cons, append_assoc, List.singleton_append]

/-! ## The targets -/

/-- The targets of a transfer. No target's path is in another's, a file has one path and
is no collection, and the paths can stand in lines and fit. -/
structure WellFormed (targets : List Target) : Prop where
  apart : targets.Pairwise fun s t => ¬ s.outPath <:+: t.outPath ∧ ¬ t.outPath <:+: s.outPath
  nodup : ∀ target ∈ targets, target.entries.files.Nodup
  kinds : ∀ target ∈ targets, ∀ path ∈ target.entries.files, path ∉ target.entries.colls
  inside : ∀ target ∈ targets, ∀ path ∈ target.entries.files, target.outPath <+: path
  plain : ∀ target ∈ targets, ∀ path ∈ target.entries.files, Plain path
  fits : ∀ target ∈ targets, ∀ path ∈ target.entries.files, path.length < MAX_NAME_LEN

variable {targets : List Target}

theorem WellFormed.tail {target : Target} (h : WellFormed (target :: targets)) :
    WellFormed targets where
  apart := h.apart.of_cons
  nodup t ht := h.nodup t (mem_cons_of_mem _ ht)
  kinds t ht := h.kinds t (mem_cons_of_mem _ ht)
  inside t ht := h.inside t (mem_cons_of_mem _ ht)
  plain t ht := h.plain t (mem_cons_of_mem _ ht)
  fits t ht := h.fits t (mem_cons_of_mem _ ht)

theorem WellFormed.outPath (h : WellFormed targets) {target : Target} (ht : target ∈ targets)
    (hpath : path ∈ target.entries.files) : Plain target.outPath ∧ target.outPath.length < MAX_NAME_LEN := by
  have hinside := h.inside target ht path hpath
  have hplain := h.plain target ht path hpath
  have hfits := h.fits target ht path hpath
  exact ⟨⟨fun c hc => hplain.line c (hinside.mem hc), fun hnul => hplain.nul (hinside.mem hnul)⟩,
    hinside.length_le.trans_lt hfits⟩

theorem WellFormed.putTarget (h : WellFormed targets) {target : Target} (ht : target ∈ targets) (hrec : Recording run) :
    Recording (putTarget run target) ∧
    (putTarget run target).saved = run.saved ++ contents target.outPath 0 target.entries.files := by
  have hstart : Recording (run.startTarget target.outPath) := ⟨hrec.opr, hrec.file⟩
  refine hstart.foldl (fun hne => ?_) rfl (h.fits target ht)
  obtain ⟨path, hpath⟩ := List.exists_mem_of_ne_nil _ hne
  exact rstrcpy_fits (h.outPath ht hpath).2

def allContents (targets : List Target) : List Text :=
  targets.flatMap fun target => contents target.outPath 0 target.entries.files

theorem length_allContents (targets : List Target) :
    (allContents targets).length = (allFiles targets).length := by
  unfold allContents allFiles contents
  simp only [List.length_flatMap, List.length_mapIdx]

theorem WellFormed.foldl_saved : ∀ {targets : List Target} {run : Run}, WellFormed targets →
    Recording run → (targets.foldl Restart.putTarget run).saved = run.saved ++ allContents targets := by
  intro targets
  induction targets with
  | nil => exact fun _ _ => (append_nil _).symm
  | cons target targets ih =>
    intro run hwell hrec
    obtain ⟨hrec, hsaved⟩ := hwell.putTarget mem_cons_self hrec
    rw [foldl_cons, ih hwell.tail hrec, hsaved, append_assoc]
    rfl

/-! ## The targets of a run that looks for the recorded one -/

theorem setStateForRestart_elsewhere (h : Elsewhere run) {outPath : Text}
    (hne : ¬ run.rodsRestart.collection <:+: outPath) : setStateForRestart outPath run = .ok () run := by
  have hoccurs : ¬ occurs run.rodsRestart.collection outPath = true := fun ho => hne (occurs_iff.mp ho)
  have hmatching : run.rodsRestart.restartState &&& PATH_MATCHING ≠ 0 := by
    obtain h | h := h
    · rw [h]
      decide
    · rw [h]
      decide
  have hsame : run.rodsRestart.restartState &&& ~~~ MATCHED_RESTART_COLL = run.rodsRestart.restartState := by
    obtain h | h := h
    · rw [h]
      decide
    · rw [h]
      decide
  refine modify_ok.mpr ?_
  simp only [if_pos hmatching, if_neg hoccurs, hsame]

theorem putUtil_elsewhere (h : Elsewhere run) : ∀ {before : List Target} (after : List Target),
    (∀ target ∈ before, ¬ run.rodsRestart.collection <:+: target.outPath) →
    putUtil (before ++ after) run = putUtil after run := by
  intro before
  induction before with
  | nil => exact fun _ _ => rfl
  | cons target before ih =>
    intro after hne
    rw [List.cons_append, putUtil, bind_run (setStateForRestart_elsewhere h (hne target mem_cons_self)),
      bind_run (putDirUtil_elsewhere h)]
    exact ih after fun t ht => hne t (mem_cons_of_mem _ ht)

/-- The second run comes to the recorded target. -/
theorem setStateForRestart_recorded {run : Run} (h : run.rodsRestart.restartState = PATH_MATCHING)
    {outPath : Text} (hcoll : run.rodsRestart.collection = outPath) :
    setStateForRestart outPath run = .ok () { run with rodsRestart :=
      { run.rodsRestart with restartState := SCANNING, curCnt := 0 } } := by
  have hoccurs : occurs run.rodsRestart.collection outPath = true :=
    occurs_iff.mpr (hcoll ▸ List.infix_rfl)
  have hmatching : PATH_MATCHING &&& PATH_MATCHING ≠ 0 := by decide
  refine modify_ok.mpr ?_
  simp only [h, if_pos hmatching, if_pos hoccurs]
  rfl

/-- A target that ends with the last recorded file is left for the ones behind it. -/
theorem setStateForRestart_found (h : run.rodsRestart.restartState = FOUND) {outPath : Text}
    (hne : ¬ run.rodsRestart.collection <:+: outPath) : setStateForRestart outPath run = .ok ()
      { run with rodsRestart.restartState := PATH_MATCHING ||| LAST_PATH_MATCHED } := by
  have hoccurs : ¬ occurs run.rodsRestart.collection outPath = true := fun ho => hne (occurs_iff.mp ho)
  have hmatching : FOUND &&& PATH_MATCHING ≠ 0 := by decide
  refine modify_ok.mpr ?_
  simp only [h, if_pos hmatching, if_neg hoccurs]
  rfl

theorem putUtil_found (h : run.rodsRestart.restartState = FOUND)
    (hne : ∀ target ∈ targets, ¬ run.rodsRestart.collection <:+: target.outPath) :
    ∃ second, putUtil targets run = .ok () second ∧ second.transferred = run.transferred := by
  cases targets with
  | nil => exact ⟨run, rfl, rfl⟩
  | cons target targets =>
    rw [putUtil, bind_run (setStateForRestart_found h (hne target mem_cons_self)),
      bind_run (putDirUtil_elsewhere (.inr rfl))]
    refine ⟨{ run with rodsRestart.restartState := PATH_MATCHING ||| LAST_PATH_MATCHED }, ?_, rfl⟩
    refine (congrArg (putUtil · _) (append_nil targets).symm).trans ?_
    exact putUtil_elsewhere (.inr rfl) [] fun t ht => hne t (mem_cons_of_mem _ ht)

/-! ## The two runs -/

/-- The run with a restart file goes through all targets. -/
def Runs (fd : Int) (restartFile : Text) (targets : List Target) (run : Run) : Prop :=
  ∃ rodsRestart, initCond (openRestartFile fd restartFile) = .ok rodsRestart ∧
    putUtil targets ⟨rodsRestart, restartFile, [], []⟩ = .ok () run

/-- A run with the restart file as it was after the `k`-th file of a first run goes through,
and transfers exactly the files behind the `k`-th. -/
def Resumes (fd : Int) (targets : List Target) (k : Nat) : Prop :=
  ∃ first restartFile second, Runs fd [] targets first ∧ first.saved[k - 1]? = some restartFile ∧
    Runs fd restartFile targets second ∧ second.transferred = (allFiles targets).drop k

theorem Runs.unique {fd : Int} {restartFile : Text} {run' : Run} (h : Runs fd restartFile targets run)
    (h' : Runs fd restartFile targets run') : run = run' := by
  obtain ⟨r, hr, hrun⟩ := h
  obtain ⟨r', hr', hrun'⟩ := h'
  rw [hr] at hr'
  obtain rfl := Except.ok.inj hr'
  rw [hrun] at hrun'
  cases hrun'
  rfl

theorem initCond_nonBulk {r : RodsRestart} (h : r.oprType = nonBulkOpr) : initCond r = .ok r := by
  have hkept : rstrcpy r.oprType nonBulkOpr NAME_LEN = r.oprType := by
    rw [h]
    rfl
  unfold initCond
  split
  · rw [hkept]
  · rw [if_neg (not_not.mpr h)]

theorem WellFormed.first (h : WellFormed targets) {fd : Int} (hfd : 0 < fd) :
    ∃ first, Runs fd [] targets first ∧ first.saved = allContents targets := by
  have hrec : Recording ⟨⟨fd, 0, [], [], nonBulkOpr, 0, 0#32⟩, [], [], []⟩ := ⟨rfl, Nat.zero_le _⟩
  exact ⟨_, ⟨_, rfl, putUtil_free (.inl rfl) hfd⟩, h.foldl_saved hrec⟩

section

variable {before after : List Target} {target : Target} {done rest : List Text} {last : Text}

/-- What is saved after the file `last`. -/
theorem saved_last (hfiles : target.entries.files = done ++ last :: rest) :
    (allContents (before ++ target :: after))[(allFiles before).length + done.length]? =
      some (restartText target.outPath (int32 ((done.length + 1 : Nat) : Int)) last nonBulkOpr) := by
  have hbefore : (allContents before).length ≤ (allFiles before).length + done.length := by
    rw [length_allContents]
    exact Nat.le_add_right _ _
  have hindex : (allFiles before).length + done.length - (allContents before).length = done.length := by
    rw [length_allContents]
    omega
  have hlt : done.length < (contents target.outPath 0 target.entries.files).length := by
    rw [contents, List.length_mapIdx, hfiles, length_append, List.length_cons]
    omega
  rw [allContents, List.flatMap_append, List.flatMap_cons]
  refine (List.getElem?_append_right hbefore).trans ?_
  rw [hindex, List.getElem?_append_left hlt, contents, List.getElem?_mapIdx, hfiles,
    List.getElem?_append_right (le_refl _), Nat.sub_self, Nat.zero_add]
  rfl

theorem drop_last (hfiles : target.entries.files = done ++ last :: rest) :
    (allFiles (before ++ target :: after)).drop ((allFiles before).length + done.length + 1) =
      rest ++ allFiles after := by
  rw [allFiles_append, allFiles_cons, hfiles, List.append_cons, Nat.add_assoc, append_assoc,
    List.drop_length_add_append, List.drop_left' (by simp)]

/-- The state with which the second run scans the recorded target. -/
theorem runs_recorded (hwell : WellFormed (before ++ target :: after)) (fd : Int)
    (hfiles : target.entries.files = done ++ last :: rest) :
    ∃ run : Run, Scanning run last (int32 ((done.length + 1 : Nat) : Int)) (int32 (0 : Nat)) ∧
      run.rodsRestart.fd = fd ∧ run.rodsRestart.collection = target.outPath ∧ run.transferred = [] ∧
      ∀ second, Runs fd (restartText target.outPath (int32 ((done.length + 1 : Nat) : Int)) last nonBulkOpr)
        (before ++ target :: after) second ↔
        (putDirUtil target.entries >>= fun _ => putUtil after) run = .ok () second := by
  have htarget : target ∈ before ++ target :: after := mem_append_right _ mem_cons_self
  have hlast : last ∈ target.entries.files := hfiles ▸ mem_append_right _ mem_cons_self
  obtain ⟨hplain, hlen⟩ := hwell.outPath htarget hlast
  obtain ⟨hlo, hhi⟩ := int32_range ((done.length + 1 : Nat) : Int)
  have hapart : ∀ t ∈ before, ¬ target.outPath <:+: t.outPath := fun t ht =>
    ((List.pairwise_append.mp hwell.apart).2.2 t ht target mem_cons_self).2
  generalize int32 ((done.length + 1 : Nat) : Int) = doneCnt at hlo hhi ⊢
  have hopr : Plain nonBulkOpr := ⟨by decide, by decide⟩
  have hopened := @openRestartFile_restartText fd _ _ _ _ hplain hlen hlo hhi
    (hwell.plain target htarget last hlast) (hwell.fits target htarget last hlast) hopr (by decide)
  have hrecorded := @setStateForRestart_recorded
    ⟨⟨fd, doneCnt, target.outPath, last, nonBulkOpr, 0, PATH_MATCHING⟩,
      restartText target.outPath doneCnt last nonBulkOpr, [], []⟩ rfl target.outPath rfl
  refine ⟨⟨⟨fd, doneCnt, target.outPath, last, nonBulkOpr, 0, SCANNING⟩, restartText target.outPath doneCnt last
    nonBulkOpr, [], []⟩, ⟨rfl, rfl, rfl, rfl⟩, rfl, rfl, rfl, fun second => ?_⟩
  unfold Runs
  rw [hopened, initCond_nonBulk rfl]
  constructor
  · rintro ⟨r, hr, hrun⟩
    obtain rfl := Except.ok.inj hr
    rw [putUtil_elsewhere (.inl rfl) _ hapart, putUtil, bind_run hrecorded] at hrun
    exact hrun
  · intro hrun
    refine ⟨_, rfl, ?_⟩
    rw [putUtil_elsewhere (.inl rfl) _ hapart, putUtil, bind_run hrecorded]
    exact hrun

/-- The targets behind the recorded one are transferred when a file followed in it. -/
theorem putUtil_finish (hfd : 0 < run.rodsRestart.fd) (hne : ∀ t ∈ after, ¬ run.rodsRestart.collection <:+: t.outPath)
    (htransferred : run.transferred = []) (x : Int) (rest : List Text) :
    ∃ second, putUtil after (finish (run.found x) rest) = .ok () second ∧
      (second.transferred = rest ++ allFiles after ↔ rest ≠ [] ∨ allFiles after = []) := by
  have htransferred : (run.found x).transferred = [] := htransferred
  cases rest with
  | nil =>
    obtain ⟨second, hrun, hsecond⟩ := putUtil_found (rfl : (run.found x).rodsRestart.restartState = FOUND) hne
    refine ⟨second, hrun, ?_⟩
    rw [hsecond, htransferred, List.nil_append, eq_comm]
    exact ⟨.inr, fun hor => hor.resolve_left fun hnil => hnil rfl⟩
  | cons path rest =>
    rw [finish_cons]
    obtain ⟨-, hkept, hfiles⟩ :=
      foldl_record_keeps (path :: rest) { run.found x with rodsRestart.restartState := OPR_RESUMED }
    refine ⟨_, putUtil_free ((resumed_free (run.found x)).foldl _) (hkept ▸ hfd), ?_⟩
    rw [foldl_putTarget_transferred, hfiles, htransferred, List.nil_append]
    exact ⟨fun _ => .inl (cons_ne_nil _ _), fun _ => rfl⟩

/-- The second run, when the `k`-th file is the file `last`. -/
theorem resumes_split (hwell : WellFormed (before ++ target :: after)) {fd : Int} (hfd : 0 < fd)
    (hfiles : target.entries.files = done ++ last :: rest) :
    Resumes fd (before ++ target :: after) ((allFiles before).length + done.length + 1) ↔
      (∀ m ≤ done.length, int32 m ≤ int32 ((done.length + 1 : Nat) : Int)) ∧
      (rest ≠ [] ∨ allFiles after = []) := by
  have htarget : target ∈ before ++ target :: after := mem_append_right _ mem_cons_self
  have hlast : last ∉ done := fun hin =>
    (List.nodup_append.mp (hfiles ▸ hwell.nodup target htarget)).2.2 last hin last mem_cons_self rfl
  have hcoll : last ∉ target.entries.colls :=
    hwell.kinds target htarget last (hfiles ▸ mem_append_right _ mem_cons_self)
  have hapart : ∀ t ∈ after, ¬ target.outPath <:+: t.outPath := fun t ht =>
    ((List.pairwise_cons.mp (List.pairwise_append.mp hwell.apart).2.1).1 t ht).1
  obtain ⟨run, hscan, hfd', hcollection, htransferred, hruns⟩ := runs_recorded hwell fd hfiles
  have hrest (hbelow : ∀ m ≤ done.length, int32 m ≤ int32 ((done.length + 1 : Nat) : Int)) :
      ∃ second, (putDirUtil target.entries >>= fun _ => putUtil after) run = .ok () second ∧
        (second.transferred = rest ++ allFiles after ↔ rest ≠ [] ∨ allFiles after = []) := by
    have hresume := hscan.resume (hfd' ▸ hfd) hfiles hlast hcoll
      (fun m _ hhi => hbelow m (Nat.zero_add done.length ▸ hhi)) (by rw [Nat.zero_add])
    rw [bind_run hresume]
    exact putUtil_finish (hfd' ▸ hfd) (hcollection ▸ hapart) htransferred _ rest
  constructor
  · rintro ⟨first, restartFile, second, hfirst, hsaved, hrun, htrans⟩
    obtain ⟨first', hfirst', hcontents⟩ := hwell.first hfd
    obtain rfl := hfirst.unique hfirst'
    rw [hcontents, Nat.add_sub_cancel, saved_last hfiles, Option.some_inj] at hsaved
    subst hsaved
    rw [hruns] at hrun
    obtain ⟨⟨⟩, run₁, hscanned, -⟩ := bind_ok.mp hrun
    have hbelow := hscan.resume_ok hfiles hlast hcoll hscanned
    rw [Nat.zero_add] at hbelow
    obtain ⟨second', hrun', hiff⟩ := hrest fun m hm => hbelow m (Nat.zero_le m) hm
    obtain rfl : second = second' := by
      rw [hrun] at hrun'
      cases hrun'
      rfl
    rw [drop_last hfiles] at htrans
    exact ⟨fun m hm => hbelow m (Nat.zero_le m) hm, hiff.mp htrans⟩
  · rintro ⟨hbelow, hlater⟩
    obtain ⟨first, hfirst, hcontents⟩ := hwell.first hfd
    obtain ⟨second, hrun, hiff⟩ := hrest hbelow
    refine ⟨first, _, second, hfirst, ?_, (hruns second).mpr hrun, ?_⟩
    · rw [hcontents, Nat.add_sub_cancel, saved_last hfiles]
    · rw [drop_last hfiles]
      exact hiff.mpr hlater

end

/-- The `k`-th file, with what is in front of it and behind it. -/
theorem exists_split : ∀ {targets : List Target} {k : Nat}, 0 < k → k ≤ (allFiles targets).length →
    ∃ before target after done last rest, targets = before ++ target :: after ∧
      target.entries.files = done ++ last :: rest ∧ k = (allFiles before).length + done.length + 1 := by
  intro targets
  induction targets with
  | nil => exact fun hk hle => absurd hle (Nat.not_le.mpr hk)
  | cons target targets ih =>
    intro k hk hle
    rw [allFiles_cons, length_append] at hle
    obtain hin | hout := Nat.lt_or_ge (k - 1) target.entries.files.length
    · refine ⟨[], target, targets, target.entries.files.take (k - 1), target.entries.files[k - 1],
        target.entries.files.drop (k - 1 + 1), rfl, ?_, ?_⟩
      · rw [← List.drop_eq_getElem_cons hin, List.take_append_drop]
      · rw [List.length_take_of_le hin.le]
        show k = 0 + (k - 1) + 1
        omega
    · obtain ⟨before, target', after, done, last, rest, rfl, hfiles, hcount⟩ :=
        ih (k := k - target.entries.files.length) (by omega) (by omega)
      refine ⟨target :: before, target', after, done, last, rest, rfl, hfiles, ?_⟩
      rw [allFiles_cons, length_append]
      omega

/-- A file follows the `k`-th in its target, or none at all; and no count of the target's files
up to it, as an `int`, is above the last. -/
def GoesOn (targets : List Target) (k : Nat) : Prop :=
  ∃ before target after done last rest, targets = before ++ target :: after ∧
    target.entries.files = done ++ last :: rest ∧ k = (allFiles before).length + done.length + 1 ∧
    (∀ m ≤ done.length, int32 m ≤ int32 ((done.length + 1 : Nat) : Int)) ∧
    (rest ≠ [] ∨ allFiles after = [])

/-- The second run transfers exactly what is left, if and only if a file follows the `k`-th
in its target or none is left. -/
theorem resumes_iff {targets : List Target} (hwell : WellFormed targets) {fd : Int} (hfd : 0 < fd)
    {k : Nat} (hk : 0 < k) (hle : k ≤ (allFiles targets).length) : Resumes fd targets k ↔ GoesOn targets k := by
  constructor
  · intro h
    obtain ⟨before, target, after, done, last, rest, rfl, hfiles, rfl⟩ := exists_split hk hle
    obtain ⟨hbelow, hlater⟩ := (resumes_split hwell hfd hfiles).mp h
    exact ⟨before, target, after, done, last, rest, rfl, hfiles, rfl, hbelow, hlater⟩
  · rintro ⟨before, target, after, done, last, rest, rfl, hfiles, rfl, hbelow, hlater⟩
    exact (resumes_split hwell hfd hfiles).mpr ⟨hbelow, hlater⟩

/-- A directory with two files, one of them in a collection, and a directory with one. -/
def twoDirs : List Target :=
  [⟨"/z/a".toList, .coll "/z/a/c".toList (.file "/z/a/c/f".toList .done) (.file "/z/a/g".toList .done)⟩,
    ⟨"/z/b".toList, .file "/z/b/h".toList .done⟩]

theorem twoDirs_wellFormed : WellFormed twoDirs := by
  have hplain : ∀ target ∈ twoDirs, ∀ path ∈ target.entries.files, ∀ c ∈ path, endsLine c = false ∧ '\x00' ≠ c := by
    decide +kernel
  exact {
    apart := by decide +kernel
    nodup := by decide +kernel
    kinds := by decide +kernel
    inside := by decide +kernel
    fits := by decide +kernel
    plain := fun target ht path hpath => ⟨fun c hc => (hplain target ht path hpath c hc).1,
      fun hnul => (hplain target ht path hpath _ hnul).2 rfl⟩ }

theorem twoDirs_goesOn : GoesOn twoDirs 1 :=
  ⟨[], _, _, [], "/z/a/c/f".toList, ["/z/a/g".toList], rfl, rfl, rfl,
    fun m hm => by obtain rfl := Nat.le_zero.mp hm; decide, .inl (cons_ne_nil _ _)⟩

theorem resumes_twoDirs : Resumes 3 twoDirs 1 :=
  (resumes_iff twoDirs_wellFormed (by decide) (by decide) (by decide)).mpr twoDirs_goesOn

/-- After the second file the first directory is done, and the file of the second one is
left out by the second run. -/
theorem twoDirs_lost : WellFormed twoDirs ∧ ¬ Resumes 3 twoDirs 2 := by
  refine ⟨twoDirs_wellFormed, fun h => ?_⟩
  have hfiles : (Entries.coll "/z/a/c".toList (.file "/z/a/c/f".toList .done)
    (.file "/z/a/g".toList .done)).files = ["/z/a/c/f".toList] ++ "/z/a/g".toList :: [] := rfl
  obtain ⟨-, hrest | hafter⟩ := (@resumes_split [] _ _ _ _ _ twoDirs_wellFormed 3 (by decide) hfiles).mp h
  · exact hrest rfl
  · exact cons_ne_nil _ _ hafter

end Restart
