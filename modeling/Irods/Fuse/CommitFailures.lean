-- SUMMARY: Lazy-upload and preload calls when something fails in them.
import Irods.Fuse.CommitLoop

open DescFile (ENOENT errnoOf errnoOf_neg)
open LazyUpload

/-!
# Failures in the lazy-upload and preload layers

`writeLazyUploadBufferedFile`, `syncLazyUploadBufferedFile` and `preloadFile` with
everything that can fail in them. What a local or a remote call reports is part of the
call's environment; the path of the call and the descriptor it names are not needed
beyond that. A path that was converted once is converted again when a commit asks.

`depth` is how often the calling thread holds the layer's mutex, which is recursive: an
unlock by a thread that does not hold it fails and changes nothing.
-/

namespace CommitFailures

/-! ## Commits -/

def EBADF : Int := 9

def ENOTDIR : Int := 20

def EPIPE : Int := 32

def getIrodsErrno (irodError : Int) : Int := irodError.tdiv 1000 * 1000

def isReadMsgError (status : Int) : Bool :=
  let irodsErr := getIrodsErrno status
  irodsErr == -91000 || irodsErr == -4000 || irodsErr == -5000

/-- An entry of the table of opened files. `localHandle` is negative when the buffer file
is not open. -/
structure LazyUploadFileInfo extends LazyUpload.LazyUploadFileInfo where
  localHandle : Int
  deriving DecidableEq

/-- `rcConnect` is whether there is a connection, `publicUser` whether none logs in. -/
structure UploadEnv where
  parseLocalPath : Int
  parseRodsPath : Int
  rcConnect : Bool
  publicUser : Bool
  clientLogin : Int
  putUtil : Int
  deriving DecidableEq

def upload (env : UploadEnv) : Int :=
  if env.parseLocalPath < 0 then env.parseLocalPath
  else if env.parseRodsPath < 0 then env.parseRodsPath
  else if !env.rcConnect then -EPIPE
  else if !env.publicUser && env.clientLogin != 0 then env.clientLogin
  else if env.putUtil < 0 then env.putUtil
  else 0

/-- `getIFuseConnByPath` is whether a connection is found, `rcDataObjReopen` what the
second try after a reconnect gives, `localDesc` the descriptor to read the buffer file
from and `desc` the one it is reset with. -/
structure CommitEnv where
  checkFuseDesc : Int
  ifuseClose : Int
  upload : UploadEnv
  parseRodsPathStr : Int
  getIFuseConnByPath : Bool
  rcDataObjOpen : Int
  rcDataObjReopen : Int
  allocIFuseDesc : Int
  localDesc : Int
  rounds : Nat → Round
  desc : Int

def CommitEnv.fd (env : CommitEnv) : Int :=
  if env.rcDataObjOpen < 0 && isReadMsgError env.rcDataObjOpen then env.rcDataObjReopen else env.rcDataObjOpen

/-- What comes of a commit. `uploaded` is what one that ran to its end has uploaded. -/
inductive Outcome where
  | crashes
  | returns (status : Int) (info : LazyUploadFileInfo) (file uploaded : List Byte)
  deriving DecidableEq

/-- The end of a commit: the buffer file is opened anew, and the outcome not looked at. -/
def resetBuffer (env : CommitEnv) (f : LazyUploadFileInfo) (file uploaded : List Byte) : Outcome :=
  .returns 0
    { commitCount := f.commitCount + 1
      curLocalOffsetStart := f.curLocalOffsetStart + f.curOffset
      curOffset := 0
      localHandle := env.desc }
    (if env.desc < 0 then file else []) uploaded

/-- The first commit uploads the file and opens the object again. `iFuseConn` is used
whether or not there is one. -/
def putAndReopen (env : CommitEnv) (f : LazyUploadFileInfo) (file : List Byte) : Outcome :=
  if env.checkFuseDesc < 0 then .returns (-EBADF) f file []
  else if env.ifuseClose < 0 then .returns (errnoOf env.ifuseClose) f file []
  else if CommitFailures.upload env.upload ≠ 0 then .returns (CommitFailures.upload env.upload) f file []
  else if env.parseRodsPathStr < 0 then .returns (-ENOTDIR) f file []
  else if !env.getIFuseConnByPath then .crashes
  else if env.fd < 0 then .returns (-ENOENT) f file []
  else if env.allocIFuseDesc < 0 then .returns (-ENOENT) f file []
  else resetBuffer env f file file

/-- Later ones append it. -/
def append (env : CommitEnv) (fuel : Nat) (f : LazyUploadFileInfo) (file : List Byte) : Option Outcome :=
  if env.localDesc < 0 then some (.returns (-ENOENT) f file [])
  else if env.checkFuseDesc < 0 then some (.returns (-EBADF) f file [])
  else
    match appendLoop env.rounds f.curLocalOffsetStart f.curOffset file fuel with
    | none => none
    | some (.error e) => some (.returns e f file [])
    | some (.ok l) => some (resetBuffer env f file (acceptedBytes l.accepted))

/-- The buffer file is closed before anything is uploaded. -/
def commitLocalBuffer (env : CommitEnv) (fuel : Nat) (f : LazyUploadFileInfo) (file : List Byte) :
    Option Outcome :=
  if f.localHandle < 0 then some (.returns (-EBADF) f file [])
  else if f.curOffset = 0 then some (.returns 0 f file [])
  else
    let closed := { f with localHandle := -1 }
    if f.commitCount = 0 then some (putAndReopen env closed file)
    else append env fuel closed file

/-! ## Calls -/

/-- The file of a call: its entry, if it is opened, and its buffer file. -/
structure File where
  info : Option LazyUploadFileInfo
  file : List Byte
  deriving DecidableEq

def lock (depth : Nat) : Nat := depth + 1

def unlock (depth : Nat) : Nat := depth - 1

/-- What comes of a call. `commit` is the status of the commit in it and what that
uploaded, if there was one. -/
inductive Result where
  | crashes
  | returns (status : Int) (depth : Nat) (s : File) (commit : Option (Int × List Byte))
  deriving DecidableEq

/-- A call goes on with what its commit returned. -/
def Outcome.andThen (o : Outcome) (k : Int → File → Option (Int × List Byte) → Result) : Result :=
  match o with
  | .crashes => .crashes
  | .returns status f file uploaded => k status ⟨some f, file⟩ (some (status, uploaded))

/-- `lseek` is whether the buffer file is where it was sent, and `noSpace` whether `errno`
is `ENOSPC` after a `write` that failed; the second ones are for the try after a commit. -/
structure WriteEnv where
  getiRODSPath : Int
  commit : CommitEnv
  checkFuseDesc : Int
  ifuseLseek : Int
  ifuseWrite : Int
  lseek : Bool
  write : Int
  noSpace : Bool
  lseekAgain : Bool
  writeAgain : Int

/-- A write before the buffer's start, once the buffer is committed. The paths on which
the mutex is not given back are the source's. -/
def rewriteDirectly (env : WriteEnv) (depth : Nat) (buf : List Byte) (s : File) (commit : Option (Int × List Byte)) :
    Result :=
  if env.checkFuseDesc < 0 then .returns (-EBADF) (unlock depth) s commit
  else if env.ifuseLseek < 0 then .returns (errnoOf env.ifuseLseek) depth s commit
  else if buf.length ≤ 0 then .returns 0 depth s commit
  else .returns env.ifuseWrite (unlock depth) s commit

/-- A write of at most all of `buf` into the buffer file. -/
def writeLocal (f : LazyUploadFileInfo) (file buf : List Byte) (offset : Nat) (status : Int) : File :=
  { info := some { f with curOffset := f.curOffset + status.toNat }
    file := ByteFile.writeAt file (offset - f.curLocalOffsetStart) (buf.take status.toNat) }

/-- The second try to write into the buffer file, which a commit has just reset. -/
def writeAgain (env : WriteEnv) (depth : Nat) (buf : List Byte) (offset : Nat) (s : File)
    (commit : Option (Int × List Byte)) : Result :=
  match s.info with
  | none => .returns (-1) (unlock depth) s commit
  | some f =>
    if f.localHandle < 0 || offset < f.curLocalOffsetStart || !env.lseekAgain then
      .returns (-1) (unlock depth) s commit
    else if 0 ≤ env.writeAgain then
      .returns env.writeAgain (unlock depth) (writeLocal f s.file buf offset env.writeAgain) commit
    else .returns env.writeAgain (unlock depth) s commit

def writeLazyUploadBufferedFile (env : WriteEnv) (fuel depth : Nat) (s : File) (buf : List Byte) (offset : Nat) :
    Option Result :=
  if env.getiRODSPath < 0 then some (.returns env.getiRODSPath depth s none)
  else
    let depth := lock depth
    match s.info with
    | none => some (.returns (-EBADF) (unlock depth) s none)
    | some f =>
      if f.localHandle < 0 then some (.returns (-EBADF) (unlock depth) s none)
      else if offset < f.curLocalOffsetStart then
        (commitLocalBuffer env.commit fuel f s.file).map fun o => o.andThen fun status s' commit =>
          if status < 0 then .returns status (unlock depth) s' commit
          else rewriteDirectly env depth buf s' commit
      else if !env.lseek then some (.returns (-1) (unlock depth) s none)
      else if 0 ≤ env.write then
        some (.returns env.write (unlock depth) (writeLocal f s.file buf offset env.write) none)
      else if !env.noSpace then some (.returns env.write (unlock depth) s none)
      else
        (commitLocalBuffer env.commit fuel f s.file).map fun o => o.andThen fun status s' commit =>
          if status < 0 then .returns status (unlock depth) s' commit
          else writeAgain env depth buf offset s' commit

structure SyncEnv where
  getiRODSPath : Int
  commit : CommitEnv

def syncLazyUploadBufferedFile (env : SyncEnv) (fuel depth : Nat) (s : File) : Option Result :=
  if env.getiRODSPath < 0 then some (.returns env.getiRODSPath depth s none)
  else
    let depth := lock depth
    match s.info with
    | none => some (.returns env.getiRODSPath (unlock depth) s none)
    | some f =>
      (commitLocalBuffer env.commit fuel f s.file).map fun o => o.andThen fun status s' commit =>
        .returns status (unlock depth) s' commit

/-- `running` is whether the file is being preloaded; a negative status stands for a step
that fails, and `hasValidCache` is 0 for a copy that is up to date. -/
structure PreloadEnv where
  getiRODSPath : Int
  running : Bool
  hasValidCache : Int
  stSize : Int
  preloadMinSize : Int
  cacheMaxSize : Int
  cacheSize : Int
  evictForLimit : Int
  freeSize : Int
  evictForSpace : Int
  pthreadCreate : Int
  deriving DecidableEq

/-- The part of `preloadFile` without a valid copy, up to its `_unlockPreload`. -/
def startPreload (env : PreloadEnv) : Int :=
  if env.stSize < env.preloadMinSize then 0
  else if 0 < env.cacheMaxSize ∧ env.cacheMaxSize < env.stSize then 0
  else if 0 < env.cacheMaxSize ∧ env.cacheMaxSize < env.cacheSize + env.stSize ∧ env.evictForLimit < 0 then
    env.evictForLimit
  else if env.freeSize < env.stSize ∧ env.evictForSpace < 0 then env.evictForSpace
  else env.pthreadCreate

/-- A file with a valid copy is unlocked in its branch and at the end. -/
def preloadFile (env : PreloadEnv) (depth : Nat) (s : File) : Result :=
  if env.getiRODSPath < 0 then .returns env.getiRODSPath depth s none
  else
    let depth := lock depth
    if env.running then .returns 0 (unlock depth) s none
    else if env.hasValidCache ≠ 0 then .returns (startPreload env) (unlock depth) s none
    else .returns 0 (unlock (unlock depth)) s none

inductive Call where
  | writeLazyUploadBufferedFile (env : WriteEnv) (buf : List Byte) (offset : Nat)
  | syncLazyUploadBufferedFile (env : SyncEnv)
  | preloadFile (env : PreloadEnv)

/-- A call, with at most `fuel` rounds in the loop of a commit. -/
def Call.run (c : Call) (fuel depth : Nat) (s : File) : Option Result :=
  match c with
  | .writeLazyUploadBufferedFile env buf offset =>
    CommitFailures.writeLazyUploadBufferedFile env fuel depth s buf offset
  | .syncLazyUploadBufferedFile env => CommitFailures.syncLazyUploadBufferedFile env fuel depth s
  | .preloadFile env => some (CommitFailures.preloadFile env depth s)

/-! ## Usable afterwards -/

/-- What was buffered is still recorded: the buffer file is open and counted as before. -/
def Recorded (before after : Option LazyUploadFileInfo) : Prop :=
  ∃ f f', before = some f ∧ after = some f' ∧ 0 ≤ f'.localHandle ∧
    f'.toLazyUploadFileInfo = f.toLazyUploadFileInfo

/-- A commit that failed leaves what was buffered recorded, and one that reports success
has uploaded all of it. -/
def Kept (s s' : File) (commit : Option (Int × List Byte)) : Prop :=
  ∀ status uploaded, commit = some (status, uploaded) →
    (status ≠ 0 → Recorded s.info s'.info) ∧ (status = 0 → uploaded = s.file)

/-- The mutex is held as often as before the call, and what was buffered is kept. -/
def Result.Usable (depth : Nat) (s : File) : Result → Prop
  | .crashes => False
  | .returns _ depth' s' commit => depth' = depth ∧ Kept s s' commit

/-- Nothing in `_upload` fails. -/
def UploadEnv.Succeeds (env : UploadEnv) : Prop :=
  0 ≤ env.parseLocalPath ∧ 0 ≤ env.parseRodsPath ∧ env.rcConnect = true ∧
    (env.publicUser = true ∨ env.clientLogin = 0) ∧ 0 ≤ env.putUtil

/-- Nothing in a first commit fails. -/
def CommitEnv.PutSucceeds (env : CommitEnv) : Prop :=
  0 ≤ env.checkFuseDesc ∧ 0 ≤ env.ifuseClose ∧ env.upload.Succeeds ∧ 0 ≤ env.parseRodsPathStr ∧
    env.getIFuseConnByPath = true ∧ 0 ≤ env.fd ∧ 0 ≤ env.allocIFuseDesc

/-- Nothing in a later commit fails, and its writes take all of the file. -/
def CommitEnv.AppendSucceeds (env : CommitEnv) (curOffset length : Nat) : Prop :=
  0 ≤ env.localDesc ∧ 0 ≤ env.checkFuseDesc ∧ AllTaken env.rounds curOffset length

def CommitSucceeds (env : CommitEnv) (f : LazyUploadFileInfo) (file : List Byte) : Prop :=
  if f.curOffset = 0 then file = []
  else if f.commitCount = 0 then env.PutSucceeds
  else env.AppendSucceeds f.curOffset file.length

/-- The loop of a commit, if it has one, ends. -/
def CommitEnds (env : CommitEnv) (f : LazyUploadFileInfo) (file : List Byte) : Prop :=
  f.curOffset = 0 ∨ f.commitCount = 0 ∨ ∃ n, LeavesIn env.rounds f.curOffset file.length n

/-- The condition on a call and what it finds. -/
def Call.Safe (depth : Nat) (s : File) : Call → Prop
  | .writeLazyUploadBufferedFile env buf offset =>
    0 ≤ env.getiRODSPath → ∀ f, s.info = some f → 0 ≤ f.localHandle →
      if offset < f.curLocalOffsetStart then
        CommitSucceeds env.commit f s.file ∧
          (CommitEnds env.commit f s.file → env.checkFuseDesc < 0 ∨ 0 ≤ env.ifuseLseek ∧ buf ≠ [])
      else env.lseek = true → env.write < 0 → env.noSpace = true → CommitSucceeds env.commit f s.file
  | .syncLazyUploadBufferedFile env =>
    0 ≤ env.getiRODSPath → ∀ f, s.info = some f → 0 ≤ f.localHandle ∧ CommitSucceeds env.commit f s.file
  | .preloadFile env =>
    0 ≤ env.getiRODSPath → env.running = false → env.hasValidCache = 0 → depth = 0

/-! ## Commits that succeed -/

theorem upload_eq_zero_iff (env : UploadEnv) : upload env = 0 ↔ env.Succeeds := by
  unfold upload UploadEnv.Succeeds
  by_cases hlocal : env.parseLocalPath < 0
  · omega
  by_cases hrods : env.parseRodsPath < 0
  · omega
  rw [if_neg hlocal, if_neg hrods]
  cases env.rcConnect with
  | false => simp [EPIPE]
  | true =>
    cases env.publicUser with
    | true =>
      by_cases hput : env.putUtil < 0
      · simp [hput]
        omega
      · simp [hput]
        omega
    | false =>
      by_cases hlogin : env.clientLogin = 0
      · by_cases hput : env.putUtil < 0
        · simp [hlogin, hput]
          omega
        · simp [hlogin, hput]
          omega
      · simp [hlogin]

/-- A commit that has failed from its closing of the handle on. -/
def Outcome.Failed (o : Outcome) : Prop :=
  o = .crashes ∨ ∃ status f file, o = .returns status f file [] ∧ status ≠ 0 ∧ f.localHandle < 0

/-- A commit that reports success and has uploaded the whole file. -/
def Outcome.Complete (o : Outcome) (file : List Byte) : Prop := ∃ f' file', o = .returns 0 f' file' file

theorem Outcome.Failed.not_complete {o : Outcome} (h : o.Failed) (file : List Byte) : ¬ o.Complete file := by
  rintro ⟨f', file', rfl⟩
  rcases h with h | ⟨status, f, file'', h, hstatus, -⟩
  · cases h
  · cases h
    exact hstatus rfl

variable {f : LazyUploadFileInfo}

theorem Outcome.failed_of_neg (status : Int) (file : List Byte) (hstatus : status < 0) (hclosed : f.localHandle < 0) :
    (Outcome.returns status f file []).Failed :=
  .inr ⟨status, f, file, rfl, by omega, hclosed⟩

theorem putAndReopen_cases (env : CommitEnv) (hclosed : f.localHandle < 0) (file : List Byte) :
    (env.PutSucceeds ∧ (putAndReopen env f file).Complete file) ∨
      (¬ env.PutSucceeds ∧ (putAndReopen env f file).Failed) := by
  unfold putAndReopen CommitEnv.PutSucceeds
  by_cases hdesc : env.checkFuseDesc < 0
  · rw [if_pos hdesc]
    exact .inr ⟨fun h => by omega, Outcome.failed_of_neg _ file (by decide) hclosed⟩
  by_cases hclose : env.ifuseClose < 0
  · rw [if_neg hdesc, if_pos hclose]
    exact .inr ⟨fun h => by omega, Outcome.failed_of_neg _ file (errnoOf_neg _) hclosed⟩
  by_cases hupload : upload env.upload = 0
  swap
  · rw [if_neg hdesc, if_neg hclose, if_pos hupload]
    refine .inr ⟨fun h => hupload ((upload_eq_zero_iff _).mpr h.2.2.1), .inr ⟨_, f, file, rfl, hupload, hclosed⟩⟩
  have huploads := (upload_eq_zero_iff _).mp hupload
  by_cases hparse : env.parseRodsPathStr < 0
  · rw [if_neg hdesc, if_neg hclose, if_neg (not_not.mpr hupload), if_pos hparse]
    exact .inr ⟨fun h => by omega, Outcome.failed_of_neg _ file (by decide) hclosed⟩
  cases hconn : env.getIFuseConnByPath with
  | false =>
    rw [if_neg hdesc, if_neg hclose, if_neg (not_not.mpr hupload), if_neg hparse]
    exact .inr ⟨fun h => by simp at h, .inl rfl⟩
  | true =>
    by_cases hfd : env.fd < 0
    · rw [if_neg hdesc, if_neg hclose, if_neg (not_not.mpr hupload), if_neg hparse]
      simp only [Bool.not_true, Bool.false_eq_true, if_false, if_pos hfd]
      exact .inr ⟨fun h => by omega, Outcome.failed_of_neg _ file (by decide) hclosed⟩
    by_cases halloc : env.allocIFuseDesc < 0
    · rw [if_neg hdesc, if_neg hclose, if_neg (not_not.mpr hupload), if_neg hparse]
      simp only [Bool.not_true, Bool.false_eq_true, if_false, if_neg hfd, if_pos halloc]
      exact .inr ⟨fun h => by omega, Outcome.failed_of_neg _ file (by decide) hclosed⟩
    · rw [if_neg hdesc, if_neg hclose, if_neg (not_not.mpr hupload), if_neg hparse]
      simp only [Bool.not_true, Bool.false_eq_true, if_false, if_neg hfd, if_neg halloc]
      exact .inl ⟨⟨by omega, by omega, huploads, by omega, trivial, by omega, by omega⟩, _, _, rfl⟩

variable {env : CommitEnv} {file : List Byte}

/-- What a commit with an open handle comes to. -/
theorem commitLocalBuffer_cases {fuel : Nat} (hopen : 0 ≤ f.localHandle) {o : Outcome}
    (h : commitLocalBuffer env fuel f file = some o) :
    o.Failed ∨ ∃ f' file' uploaded, o = .returns 0 f' file' uploaded := by
  have hclosed : ({ f with localHandle := -1 } : LazyUploadFileInfo).localHandle < 0 := by
    simp only
    omega
  rw [commitLocalBuffer, if_neg (by omega)] at h
  by_cases hzero : f.curOffset = 0
  · rw [if_pos hzero] at h
    cases h
    exact .inr ⟨f, file, [], rfl⟩
  by_cases hfirst : f.commitCount = 0
  · simp only [hzero, hfirst, if_true, if_false, Option.some.injEq] at h
    subst h
    rcases putAndReopen_cases env hclosed file with ⟨-, f', file', hdone⟩ | ⟨-, hfailed⟩
    · exact .inr ⟨f', file', file, hdone⟩
    · exact .inl hfailed
  simp only [hzero, hfirst, if_false, append] at h
  by_cases hlocal : env.localDesc < 0
  · simp only [hlocal, if_true, Option.some.injEq] at h
    subst h
    exact .inl (Outcome.failed_of_neg _ file (by decide) hclosed)
  by_cases hdesc : env.checkFuseDesc < 0
  · simp only [hlocal, hdesc, if_true, if_false, Option.some.injEq] at h
    subst h
    exact .inl (Outcome.failed_of_neg _ file (by decide) hclosed)
  simp only [hlocal, hdesc, if_false] at h
  cases hloop : appendLoop env.rounds f.curLocalOffsetStart f.curOffset file fuel with
  | none => simp [hloop] at h
  | some r =>
    cases r with
    | error e =>
      simp only [hloop, Option.some.injEq] at h
      subst h
      exact .inl (Outcome.failed_of_neg _ file (appendLoop_error_neg hloop) hclosed)
    | ok l =>
      simp only [hloop, Option.some.injEq] at h
      subst h
      exact .inr ⟨_, _, _, rfl⟩

/-- Every commit with an open handle that comes to an end is complete if and only if
nothing in it fails and everything is taken. -/
theorem commitLocalBuffer_complete_iff (env : CommitEnv) (hopen : 0 ≤ f.localHandle) (file : List Byte) :
    (∀ fuel o, commitLocalBuffer env fuel f file = some o → o.Complete file) ↔ CommitSucceeds env f file := by
  have hclosed : ({ f with localHandle := -1 } : LazyUploadFileInfo).localHandle < 0 := by
    simp only
    omega
  have hnot : ¬ f.localHandle < 0 := by omega
  unfold CommitSucceeds commitLocalBuffer
  by_cases hzero : f.curOffset = 0
  · simp only [hnot, hzero, if_true, if_false, Option.some.injEq]
    constructor
    · intro h
      obtain ⟨f', file', heq⟩ := h 0 _ rfl
      cases heq
      rfl
    · rintro rfl fuel o rfl
      exact ⟨f, [], rfl⟩
  by_cases hfirst : f.commitCount = 0
  · simp only [hnot, hzero, hfirst, if_true, if_false, Option.some.injEq]
    rcases putAndReopen_cases env hclosed file with ⟨hput, hdone⟩ | ⟨hput, hfailed⟩
    · exact ⟨fun _ => hput, fun _ fuel o ho => ho ▸ hdone⟩
    · exact ⟨fun h => absurd (h 0 _ rfl) (hfailed.not_complete file), fun h => absurd h hput⟩
  simp only [hnot, hzero, hfirst, if_false, append, CommitEnv.AppendSucceeds]
  by_cases hlocal : env.localDesc < 0
  · simp only [hlocal, if_true, Option.some.injEq]
    constructor
    · intro h
      have hfailed := Outcome.failed_of_neg (-ENOENT) file (by decide) hclosed
      exact absurd (h 0 _ rfl) (hfailed.not_complete file)
    · rintro ⟨hlocal', -⟩
      omega
  by_cases hdesc : env.checkFuseDesc < 0
  · simp only [hlocal, hdesc, if_true, if_false, Option.some.injEq]
    constructor
    · intro h
      have hfailed := Outcome.failed_of_neg (-EBADF) file (by decide) hclosed
      exact absurd (h 0 _ rfl) (hfailed.not_complete file)
    · rintro ⟨-, hdesc', -⟩
      omega
  simp only [hlocal, hdesc, if_false]
  rw [← appendLoop_uploads_iff env.rounds f.curLocalOffsetStart f.curOffset file]
  constructor
  · refine fun h => ⟨by omega, by omega, fun fuel r hloop => ?_⟩
    have hdone := h fuel
    simp only [hloop] at hdone
    cases r with
    | error e =>
      have hfailed := Outcome.failed_of_neg _ file (appendLoop_error_neg hloop) hclosed
      exact absurd (hdone _ rfl) (hfailed.not_complete file)
    | ok l =>
      obtain ⟨f', file', heq⟩ := hdone _ rfl
      simp only [resetBuffer, Outcome.returns.injEq] at heq
      exact ⟨l, rfl, heq.2.2.2⟩
  · rintro ⟨-, -, h⟩ fuel o ho
    cases hloop : appendLoop env.rounds f.curLocalOffsetStart f.curOffset file fuel with
    | none => simp [hloop] at ho
    | some r =>
      obtain ⟨l, rfl, hfile⟩ := h fuel r hloop
      simp only [hloop, Option.some.injEq] at ho
      subst ho
      exact ⟨_, _, by rw [resetBuffer, hfile]⟩

theorem commitLocalBuffer_ends_iff (hopen : 0 ≤ f.localHandle) (hsucceeds : CommitSucceeds env f file) :
    (∃ fuel o, commitLocalBuffer env fuel f file = some o) ↔ CommitEnds env f file := by
  have hnot : ¬ f.localHandle < 0 := by omega
  unfold CommitSucceeds at hsucceeds
  unfold CommitEnds commitLocalBuffer
  by_cases hzero : f.curOffset = 0
  · simp [hnot, hzero]
  by_cases hfirst : f.commitCount = 0
  · simp [hnot, hzero, hfirst]
  simp only [hzero, hfirst, if_false] at hsucceeds
  obtain ⟨hlocal, hdesc, -⟩ := hsucceeds
  have hlocal' : ¬ env.localDesc < 0 := by omega
  have hdesc' : ¬ env.checkFuseDesc < 0 := by omega
  simp only [hnot, hzero, hfirst, if_false, append, hlocal', hdesc', false_or]
  rw [← appendLoopEnds_iff env.rounds f.curLocalOffsetStart f.curOffset file]
  constructor
  · rintro ⟨fuel, o, ho⟩
    cases hloop : appendLoop env.rounds f.curLocalOffsetStart f.curOffset file fuel with
    | none => simp [hloop] at ho
    | some r => exact ⟨fuel, by rw [hloop]; rfl⟩
  · rintro ⟨fuel, hends⟩
    obtain ⟨r, hloop⟩ := Option.isSome_iff_exists.mp hends
    refine ⟨fuel, ?_⟩
    cases r <;> simp [hloop]

/-! ## Calls -/

variable {s : File}

variable {status : Int} {depth : Nat}

theorem not_kept_of_failed {f' : LazyUploadFileInfo} (file' uploaded : List Byte) (hstatus : status ≠ 0)
    (hclosed : f'.localHandle < 0) : ¬ Kept s ⟨some f', file'⟩ (some (status, uploaded)) := by
  intro h
  obtain ⟨f₀, f₁, -, hafter, hopen, -⟩ := (h status uploaded rfl).1 hstatus
  cases hafter
  omega

theorem kept_zero_iff {s' : File} {uploaded : List Byte} : Kept s s' (some (0, uploaded)) ↔ uploaded = s.file := by
  constructor
  · exact fun h => (h 0 uploaded rfl).2 rfl
  · intro h status uploaded' hcommit
    cases hcommit
    exact ⟨fun hne => absurd rfl hne, fun _ => h⟩

theorem kept_none (s s' : File) : Kept s s' none := by
  intro status uploaded h
  cases h

@[simp] theorem unlock_lock (depth : Nat) : unlock (lock depth) = depth := Nat.add_sub_cancel _ _

/-- What a call makes of a commit's outcome, if the mutex is as before whenever the commit
is complete and `mutex` holds, and what was buffered is otherwise left alone. -/
structure GoesOn (depth : Nat) (s : File) (k : Int → File → Option (Int × List Byte) → Result) (mutex : Prop) :
    Prop where
  /-- what a failed commit has left is not repaired -/
  failed : ∀ status f' file' uploaded, status ≠ 0 → f'.localHandle < 0 →
    ¬ (k status ⟨some f', file'⟩ (some (status, uploaded))).Usable depth s
  complete : ∀ f' file' uploaded,
    (k 0 ⟨some f', file'⟩ (some (0, uploaded))).Usable depth s ↔ uploaded = s.file ∧ mutex

theorem GoesOn.leaves_usable_iff {k : Int → File → Option (Int × List Byte) → Result} {mutex : Prop}
    (hk : GoesOn depth s k mutex) (hopen : 0 ≤ f.localHandle) :
    (∀ fuel r, (commitLocalBuffer env fuel f s.file).map (fun o => o.andThen k) = some r → r.Usable depth s) ↔
      CommitSucceeds env f s.file ∧ (CommitEnds env f s.file → mutex) := by
  have hone : ∀ fuel o, commitLocalBuffer env fuel f s.file = some o →
      ((o.andThen k).Usable depth s ↔ o.Complete s.file ∧ mutex) := by
    intro fuel o ho
    rcases commitLocalBuffer_cases hopen ho with hfailed | ⟨f', file', uploaded, rfl⟩
    · have hnot := hfailed.not_complete s.file
      refine ⟨fun h => ?_, fun h => absurd h.1 hnot⟩
      rcases hfailed with rfl | ⟨status, f', file', rfl, hstatus, hclosed⟩
      · exact h.elim
      · exact absurd h (hk.failed status f' file' [] hstatus hclosed)
    · refine (hk.complete f' file' uploaded).trans (and_congr_left fun _ => ?_)
      constructor
      · rintro rfl
        exact ⟨f', file', rfl⟩
      · rintro ⟨f'', file'', heq⟩
        cases heq
        rfl
  simp only [Option.map_eq_some_iff, forall_exists_index, and_imp]
  constructor
  · intro h
    have hsucceeds : CommitSucceeds env f s.file :=
      (commitLocalBuffer_complete_iff env hopen s.file).mp fun fuel o ho =>
        ((hone fuel o ho).mp (h fuel _ o ho rfl)).1
    refine ⟨hsucceeds, fun hends => ?_⟩
    obtain ⟨fuel, o, ho⟩ := (commitLocalBuffer_ends_iff hopen hsucceeds).mpr hends
    exact ((hone fuel o ho).mp (h fuel _ o ho rfl)).2
  · rintro ⟨hsucceeds, hmutex⟩ fuel r o ho rfl
    refine (hone fuel o ho).mpr ⟨(commitLocalBuffer_complete_iff env hopen s.file).mpr hsucceeds fuel o ho, ?_⟩
    exact hmutex ((commitLocalBuffer_ends_iff hopen hsucceeds).mp ⟨fuel, o, ho⟩)

theorem rewriteDirectly_usable_iff (env : WriteEnv) (depth : Nat) (buf : List Byte) (s s' : File)
    (commit : Option (Int × List Byte)) :
    (rewriteDirectly env (lock depth) buf s' commit).Usable depth s ↔
      Kept s s' commit ∧ (env.checkFuseDesc < 0 ∨ 0 ≤ env.ifuseLseek ∧ buf ≠ []) := by
  have hheld : lock depth ≠ depth := Nat.succ_ne_self depth
  unfold rewriteDirectly
  by_cases hdesc : env.checkFuseDesc < 0
  · simp [hdesc, Result.Usable]
  by_cases hseek : env.ifuseLseek < 0
  · have hseek' : ¬ 0 ≤ env.ifuseLseek := by omega
    simp [hdesc, hseek, hseek', Result.Usable, hheld]
  have hseek' : 0 ≤ env.ifuseLseek := by omega
  by_cases hbuf : buf = []
  · simp [hdesc, hseek, hbuf, Result.Usable, hheld]
  · simp [hdesc, hseek, hseek', hbuf, Result.Usable]

theorem rewrite_goesOn (env : WriteEnv) (depth : Nat) (buf : List Byte) (s : File) :
    GoesOn depth s (fun status s' commit =>
        if status < 0 then .returns status (unlock (lock depth)) s' commit
        else rewriteDirectly env (lock depth) buf s' commit)
      (env.checkFuseDesc < 0 ∨ 0 ≤ env.ifuseLseek ∧ buf ≠ []) := by
  refine ⟨fun status f' file' uploaded hstatus hclosed h => ?_, fun f' file' uploaded => ?_⟩
  · have hnot := not_kept_of_failed (s := s) file' uploaded hstatus hclosed
    by_cases hneg : status < 0
    · rw [if_pos hneg] at h
      exact hnot h.2
    · rw [if_neg hneg] at h
      exact hnot ((rewriteDirectly_usable_iff ..).mp h).1
  · rw [if_neg (Int.lt_irrefl 0), rewriteDirectly_usable_iff, kept_zero_iff]

theorem writeAgain_goesOn (env : WriteEnv) (depth : Nat) (buf : List Byte) (offset : Nat) (s : File) :
    GoesOn depth s (fun status s' commit =>
        if status < 0 then .returns status (unlock (lock depth)) s' commit
        else writeAgain env (lock depth) buf offset s' commit) True := by
  refine ⟨fun status f' file' uploaded hstatus hclosed h => ?_, fun f' file' uploaded => ?_⟩
  · have hnot := not_kept_of_failed (s := s) file' uploaded hstatus hclosed
    by_cases hneg : status < 0
    · rw [if_pos hneg] at h
      exact hnot h.2
    · -- a handle that is closed cannot be written to
      simp only [hneg, if_false, writeAgain, hclosed, decide_true, Bool.true_or, if_true] at h
      exact hnot h.2
  · simp only [Int.lt_irrefl, if_false, writeAgain, unlock_lock]
    split
    · simp [Result.Usable, kept_zero_iff]
    · split <;> simp [Result.Usable, kept_zero_iff]

theorem sync_goesOn (depth : Nat) (s : File) :
    GoesOn depth s (fun status s' commit => .returns status (unlock (lock depth)) s' commit) True := by
  refine ⟨fun status f' file' uploaded hstatus hclosed h => ?_, fun f' file' uploaded => ?_⟩
  · exact not_kept_of_failed file' uploaded hstatus hclosed h.2
  · simp [Result.Usable, kept_zero_iff]

theorem usable_of_no_commit (s s' : File) :
    (Result.returns status depth s' none).Usable depth s := ⟨rfl, kept_none s s'⟩

theorem forall_run_some {p : Result → Prop} {o : Nat → Option Result} {r : Result}
    (h : ∀ fuel, o fuel = some r) : (∀ fuel r', o fuel = some r' → p r') ↔ p r := by
  constructor
  · exact fun hp => hp 0 r (h 0)
  · intro hr fuel r' hr'
    rw [h fuel] at hr'
    cases hr'
    exact hr

/-- A call without a commit, where nothing is asked of it. -/
theorem usable_without_commit {o : Nat → Option Result} {s s' : File} {safe : Prop}
    (h : ∀ fuel, o fuel = some (.returns status depth s' none)) (hsafe : safe) :
    (∀ fuel r, o fuel = some r → r.Usable depth s) ↔ safe :=
  (forall_run_some h).trans ⟨fun _ => hsafe, fun _ => usable_of_no_commit s s'⟩

/-- A write leaves a usable file just in the safe calls. -/
theorem write_usable_iff (env : WriteEnv) (depth : Nat) (s : File) (buf : List Byte) (offset : Nat) :
    (∀ fuel r, writeLazyUploadBufferedFile env fuel depth s buf offset = some r → r.Usable depth s) ↔
      (Call.writeLazyUploadBufferedFile env buf offset).Safe depth s := by
  simp only [Call.Safe, writeLazyUploadBufferedFile]
  by_cases hpath : env.getiRODSPath < 0
  · simp only [hpath, if_true]
    exact usable_without_commit (fun _ => rfl) fun h => by omega
  have hpath' : 0 ≤ env.getiRODSPath := by omega
  simp only [hpath, if_false, hpath', true_implies]
  cases hinfo : s.info with
  | none =>
    exact usable_without_commit (fun _ => rfl) fun f h => by cases h
  | some f =>
    simp only [Option.some.injEq, forall_eq']
    by_cases hhandle : f.localHandle < 0
    · simp only [hhandle, if_true, unlock_lock]
      exact usable_without_commit (fun _ => rfl) fun h => by omega
    have hopen : 0 ≤ f.localHandle := by omega
    simp only [hhandle, if_false, hopen, true_implies]
    by_cases hback : offset < f.curLocalOffsetStart
    · simp only [hback, if_true]
      exact (rewrite_goesOn env depth buf s).leaves_usable_iff hopen
    simp only [hback, if_false]
    cases hseek : env.lseek with
    | false =>
      simp only [Bool.not_false, if_true, unlock_lock]
      exact usable_without_commit (fun _ => rfl) fun h => by cases h
    | true =>
      simp only [Bool.not_true, Bool.false_eq_true, if_false, true_implies]
      by_cases hwrite : 0 ≤ env.write
      · simp only [hwrite, if_true, unlock_lock]
        exact usable_without_commit (fun _ => rfl) fun h => by omega
      have hwrite' : env.write < 0 := by omega
      simp only [hwrite, if_false, hwrite', true_implies]
      cases hspace : env.noSpace with
      | false =>
        simp only [Bool.not_false, if_true, unlock_lock]
        exact usable_without_commit (fun _ => rfl) fun h => by cases h
      | true =>
        simp only [Bool.not_true, Bool.false_eq_true, if_false, true_implies]
        rw [(writeAgain_goesOn env depth buf offset s).leaves_usable_iff hopen]
        exact and_iff_left fun _ => trivial

/-- A commit through a handle that is not open is refused and leaves it so. -/
theorem sync_usable_iff (env : SyncEnv) (depth : Nat) (s : File) :
    (∀ fuel r, syncLazyUploadBufferedFile env fuel depth s = some r → r.Usable depth s) ↔
      (Call.syncLazyUploadBufferedFile env).Safe depth s := by
  simp only [Call.Safe, syncLazyUploadBufferedFile]
  by_cases hpath : env.getiRODSPath < 0
  · simp only [hpath, if_true]
    exact usable_without_commit (fun _ => rfl) fun h => by omega
  have hpath' : 0 ≤ env.getiRODSPath := by omega
  simp only [hpath, if_false, hpath', true_implies]
  cases hinfo : s.info with
  | none =>
    exact usable_without_commit (fun _ => rfl) fun f h => by cases h
  | some f =>
    simp only [Option.some.injEq, forall_eq']
    by_cases hhandle : f.localHandle < 0
    · simp only [commitLocalBuffer, hhandle, if_true, Option.map_some, Outcome.andThen, unlock_lock]
      rw [forall_run_some fun _ => rfl]
      constructor
      · intro h
        exact absurd h.2 (not_kept_of_failed s.file [] (by decide) hhandle)
      · rintro ⟨hopen, -⟩
        omega
    have hopen : 0 ≤ f.localHandle := by omega
    rw [(sync_goesOn depth s).leaves_usable_iff hopen]
    simp [hopen]

theorem preload_usable_iff (env : PreloadEnv) (depth : Nat) (s : File) :
    (preloadFile env depth s).Usable depth s ↔ (Call.preloadFile env).Safe depth s := by
  simp only [Call.Safe, preloadFile]
  by_cases hpath : env.getiRODSPath < 0
  · simp only [hpath, if_true]
    exact ⟨fun _ h => by omega, fun _ => usable_of_no_commit s s⟩
  have hpath' : 0 ≤ env.getiRODSPath := by omega
  simp only [hpath, if_false, hpath', true_implies]
  cases hrunning : env.running with
  | true =>
    exact ⟨fun _ h => by (cases h), fun _ => usable_of_no_commit s s⟩
  | false =>
    simp only [Bool.false_eq_true, if_false, true_implies]
    by_cases hvalid : env.hasValidCache = 0
    · -- the second unlock takes one of the caller's, if there is one
      simp only [hvalid, ne_eq, not_true_eq_false, if_false, true_implies, Result.Usable, kept_none, and_true,
        unlock, lock]
      omega
    · simp only [hvalid, ne_eq, not_false_eq_true, if_true, unlock_lock, false_implies, iff_true]
      exact usable_of_no_commit s s

/-- A call leaves its layer usable, whatever fails in it, if and only if: a write before the
buffer's start, or one that finds the disk full, and a sync have nothing fail in their commit and
all of the buffer taken; what follows that commit can seek and is not empty; and a valid copy is
not preloaded by a thread that holds the mutex. -/
theorem usable_iff (c : Call) (depth : Nat) (s : File) :
    (∀ fuel r, c.run fuel depth s = some r → r.Usable depth s) ↔ c.Safe depth s := by
  cases c with
  | writeLazyUploadBufferedFile env buf offset => exact write_usable_iff env depth s buf offset
  | syncLazyUploadBufferedFile env => exact sync_usable_iff env depth s
  | preloadFile env =>
    simp only [Call.run]
    rw [forall_run_some fun _ => rfl]
    exact preload_usable_iff env depth s

/-- Everything succeeds, and a round is given and takes what it asks for. -/
def allWell : CommitEnv :=
  { checkFuseDesc := 0
    ifuseClose := 0
    upload := ⟨0, 0, true, true, 0, 0⟩
    parseRodsPathStr := 0
    getIFuseConnByPath := true
    rcDataObjOpen := 4
    rcDataObjReopen := 4
    allocIFuseDesc := 3
    localDesc := 5
    rounds := fun _ => ⟨fun _ => 512000, fun _ => 0, fun _ => 512000⟩
    desc := 6 }

/-- One byte is buffered behind one that is uploaded. -/
def oneByte : File :=
  { info := some { commitCount := 1, curLocalOffsetStart := 1, curOffset := 1, localHandle := 5 }, file := [7] }

/-- A failed seek leaves the mutex held, a buffer file that cannot be opened is forgotten, a
failed write is reported as success, and a valid copy takes the caller's lock. -/
theorem failures_not_usable :
    (∃ r, (Call.writeLazyUploadBufferedFile ⟨0, allWell, 0, -1, 0, true, 0, false, true, 0⟩ [1] 0).run 2 0 oneByte =
        some r ∧ ¬ r.Usable 0 oneByte) ∧
      (∃ r, (Call.syncLazyUploadBufferedFile ⟨0, { allWell with localDesc := -1 }⟩).run 2 0 oneByte = some r ∧
        ¬ r.Usable 0 oneByte) ∧
      (∃ r, (Call.syncLazyUploadBufferedFile ⟨0, { allWell with
          rounds := fun _ => ⟨fun _ => 512000, fun _ => 0, fun _ => -5⟩ }⟩).run 2 0 oneByte = some r ∧
        ¬ r.Usable 0 oneByte) ∧
      (∃ r, (Call.preloadFile ⟨0, false, 0, 1, 0, 0, 0, 0, 1, 0, 0⟩).run 2 1 oneByte = some r ∧
        ¬ r.Usable 1 oneByte) := by
  refine ⟨⟨.returns (-1) 1 ⟨some ⟨⟨2, 2, 0⟩, 6⟩, []⟩ (some (0, [7])), by decide +kernel, ?_⟩,
    ⟨.returns (-2) 0 ⟨some ⟨⟨1, 1, 1⟩, -1⟩, [7]⟩ (some (-2, [])), by decide +kernel, ?_⟩,
    ⟨.returns 0 0 ⟨some ⟨⟨2, 2, 0⟩, 6⟩, []⟩ (some (0, [])), by decide +kernel, ?_⟩,
    ⟨.returns 0 0 oneByte none, by decide +kernel, ?_⟩⟩
  · exact fun h => absurd h.1 (by decide)
  · exact fun h => not_kept_of_failed _ _ (by decide) (by decide) h.2
  · exact fun h => absurd (kept_zero_iff.mp h.2) (by decide)
  · exact fun h => absurd h.1 (by decide)

end CommitFailures
