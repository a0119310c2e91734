-- SUMMARY: The restart file of a transfer, and what it skips.
import Irods.Api.RodsDef
import Irods.Base.CNumber
import Irods.Base.EState

/-!
# Restart files

A transfer of several targets writes a restart file after each file. A second run reads it
and scans the targets in the same order up to the file that was written last.
-/

namespace Restart

open CString EStateM

def RESTART_OPR_FAILED : Int := -341000

def BULK_OPR_MISMATCH_FOR_RESTART : Int := -357000

def PATH_MATCHING : BitVec 32 := 0x1#32
def LAST_PATH_MATCHED : BitVec 32 := 0x2#32
def MATCHED_RESTART_COLL : BitVec 32 := 0x4#32
def OPR_RESUMED : BitVec 32 := 0x8#32

structure RodsRestart where
  fd : Int
  doneCnt : Int
  collection : Text
  lastDonePath : Text
  oprType : Text
  curCnt : Int
  restartState : BitVec 32

/-- Copies `src`, or leaves `dest` as it is when `src` does not fit. -/
def rstrcpy (dest src : Text) (maxLen : Nat) : Text := if src.length ≥ maxLen then dest else src

/-! ## The file -/

/-- A newline, or a byte that compares equal to `EOF`. -/
def endsLine (c : Char) : Bool := c = '\n' || c = '\xff'

/-- A line, as the string it is stored as, and what follows it. -/
def getLineInBuf (bufLen : Nat) (inbuf : Text) : Text × Text :=
  let line := (inbuf.take bufLen).takeWhile (fun c => ! endsLine c)
  (line.takeWhile (· ≠ '\x00'), inbuf.drop (line.length + 1))

/-- The state for a file that is not there yet or empty, or for what is in it. -/
def openRestartFile (fd : Int) (restartFile : Text) : RodsRestart :=
  if restartFile = [] then ⟨fd, 0, [], [], [], 0, 0#32⟩
  else
    let buf := restartFile.take (MAX_NAME_LEN * 3)
    let (collection, inptr) := getLineInBuf MAX_NAME_LEN buf
    let (tmpStr, inptr) := getLineInBuf MAX_NAME_LEN inptr
    let (lastDonePath, inptr) := getLineInBuf MAX_NAME_LEN inptr
    let (oprType, _) := getLineInBuf NAME_LEN inptr
    ⟨fd, atoi tmpStr, collection, lastDonePath, oprType, 0, PATH_MATCHING⟩

def nonBulkOpr : Text := "nonBulkOpr".toList

/-- What `initCondForPut` does with the opened file. -/
def initCond (rodsRestart : RodsRestart) : Except Int RodsRestart :=
  if rodsRestart.doneCnt = 0 then
    .ok { rodsRestart with oprType := rstrcpy rodsRestart.oprType nonBulkOpr NAME_LEN }
  else if rodsRestart.oprType ≠ nonBulkOpr then .error BULK_OPR_MISMATCH_FOR_RESTART
  else .ok rodsRestart

/-- The four lines, with zeros behind them. -/
def restartText (collection : Text) (doneCnt : Int) (lastDonePath oprType : Text) : Text :=
  let buf := (collection ++ '\n' :: (decimal doneCnt ++ '\n' :: (lastDonePath ++ '\n' ::
    (oprType ++ ['\n'])))).take (MAX_NAME_LEN * 3 - 1)
  buf ++ List.replicate (MAX_NAME_LEN * 3 - buf.length) '\x00'

/-! ## The run -/

/-- A run: its state, the restart file, every content the file had after a file was
recorded, and the files that were transferred. -/
structure Run where
  rodsRestart : RodsRestart
  restartFile : Text
  saved : List Text
  transferred : List Text

abbrev RunM := EStateM Int Run

def writeRestartFile (lastDonePath : Text) : RunM Unit := modify fun run =>
  let r := run.rodsRestart
  let r := { r with
    doneCnt := r.curCnt
    lastDonePath := rstrcpy r.lastDonePath lastDonePath MAX_NAME_LEN }
  let buf := restartText r.collection r.doneCnt r.lastDonePath r.oprType
  let restartFile := buf ++ run.restartFile.drop (MAX_NAME_LEN * 3)
  { run with rodsRestart := r, restartFile := restartFile, saved := run.saved ++ [restartFile] }

def procAndWrriteRestartFile (donePath : Text) : RunM Unit := do
  if (← get).rodsRestart.fd ≤ 0 then return ()
  modify fun run =>
    { run with rodsRestart.curCnt := int32 (run.rodsRestart.curCnt + 1) }
  writeRestartFile donePath

def setStateForRestart (outPath : Text) : RunM Unit := modify fun run =>
  let r := run.rodsRestart
  if r.restartState &&& PATH_MATCHING ≠ 0 then
    if occurs r.collection outPath then
      { run with rodsRestart := { r with
          restartState := r.restartState ||| MATCHED_RESTART_COLL, curCnt := 0 } }
    else
      { run with rodsRestart := { r with
          restartState := r.restartState &&& ~~~ MATCHED_RESTART_COLL } }
  else if r.fd > 0 then
    { run with rodsRestart := { r with
        collection := rstrcpy r.collection outPath MAX_NAME_LEN, doneCnt := 0, curCnt := 0 } }
  else run

/-- Is it a file or a collection that is checked? -/
inductive ObjType where
  | dataObj
  | coll
  deriving DecidableEq

/-- 0 to skip, 1 to go on, negative for an error; a partial file that
`setStateForResume` removes is not part of the state. -/
def chkStateForResume (targPath : Text) (objType : ObjType) : RunM Int := do
  let r := (← get).rodsRestart
  if r.restartState &&& MATCHED_RESTART_COLL ≠ 0 then
    if r.curCnt > r.doneCnt then return RESTART_OPR_FAILED
    if r.restartState &&& LAST_PATH_MATCHED ≠ 0 then
      if objType = .dataObj then
        modify fun run => { run with rodsRestart.restartState := OPR_RESUMED }
      return 1
    else if targPath = r.lastDonePath then
      modify fun run => { run with rodsRestart.curCnt := int32 (r.curCnt + 1) }
      if int32 (r.curCnt + 1) ≠ r.doneCnt then return RESTART_OPR_FAILED
      modify fun run => { run with rodsRestart.restartState := r.restartState ||| LAST_PATH_MATCHED }
      return 0
    else if objType = .dataObj then
      modify fun run => { run with rodsRestart.curCnt := int32 (r.curCnt + 1) }
      return 0
    else return 1
  else if r.restartState &&& PATH_MATCHING ≠ 0 then return 0
  else return 1

/-- The entries of a directory in the order they are read. -/
inductive Entries where
  | done
  | file (path : Text) (rest : Entries)
  | coll (path : Text) (entries rest : Entries)

namespace Entries

def files : Entries → List Text
  | done => []
  | file path rest => path :: rest.files
  | coll _ entries rest => entries.files ++ rest.files

def colls : Entries → List Text
  | done => []
  | file _ rest => rest.colls
  | coll path entries rest => path :: (entries.colls ++ rest.colls)

end Entries

def transfer (path : Text) : RunM Unit := do
  modify fun run => { run with transferred := run.transferred ++ [path] }
  procAndWrriteRestartFile path

/-- `putDirUtil`: an error of a check ends the transfer. -/
def putDirUtil : Entries → RunM Unit
  | .done => pure ()
  | .file path rest => do
    let status ← chkStateForResume path .dataObj
    if status < 0 then throw status
    if status ≠ 0 then transfer path
    putDirUtil rest
  | .coll path entries rest => do
    let status ← chkStateForResume path .coll
    if status < 0 then throw status
    if status ≠ 0 then putDirUtil entries
    putDirUtil rest

structure Target where
  outPath : Text
  entries : Entries

def putUtil : List Target → RunM Unit
  | [] => pure ()
  | target :: targets => do
    setStateForRestart target.outPath
    putDirUtil target.entries
    putUtil targets

/-! ## The file is read back -/

/-- A string that can stand in a line. -/
structure Plain (s : Text) : Prop where
  line : ∀ c ∈ s, endsLine c = false
  nul  : '\x00' ∉ s

theorem getLineInBuf_line {s rest : Text} {bufLen : Nat} (hs : Plain s) (hlen : s.length < bufLen) :
    getLineInBuf bufLen (s ++ '\n' :: rest) = (s, rest) := by
  have hrange : (s ++ '\n' :: rest).take bufLen = s ++ '\n' :: rest.take (bufLen - s.length - 1) := by
    obtain ⟨n, rfl⟩ : ∃ n, bufLen = s.length + (n + 1) := ⟨bufLen - s.length - 1, by omega⟩
    rw [List.take_length_add_append, List.take_succ_cons]
    congr 3
    omega
  have hline : ((s ++ '\n' :: rest).take bufLen).takeWhile (fun c => ! endsLine c) = s := by
    rw [hrange, takeWhile_stop (by decide), List.takeWhile_eq_self_iff]
    intro c hc
    rw [hs.line c hc]
    rfl
  have hstring : s.takeWhile (· ≠ '\x00') = s := by
    rw [List.takeWhile_eq_self_iff]
    exact fun c hc => decide_eq_true fun heq => hs.nul (heq ▸ hc)
  simp only [getLineInBuf, hline, hstring]
  rw [List.append_cons, List.drop_left' (by simp)]

theorem endsLine_of_isDigit {c : Char} (h : c.isDigit) : endsLine c = false := by
  rw [Bool.eq_false_iff]
  intro hends
  simp only [endsLine, Bool.or_eq_true, decide_eq_true_eq] at hends
  obtain rfl | rfl := hends
  · exact absurd h (by decide)
  · exact absurd h (by decide)

theorem toDigits_plain (n : Nat) : Plain (Nat.toDigits 10 n) := by
  have hdigits := allDigits_decimal n
  exact ⟨fun c hc => endsLine_of_isDigit (hdigits.digit c hc),
    fun h => absurd (hdigits.digit _ h) (by decide)⟩

theorem decimal_plain (x : Int) : Plain (decimal x) := by
  have hdigits := toDigits_plain x.natAbs
  unfold decimal
  split
  · refine ⟨fun c hc => ?_, fun h => ?_⟩
    · obtain rfl | hc := List.mem_cons.mp hc
      · decide
      · exact hdigits.line c hc
    · obtain h | h := List.mem_cons.mp h
      · exact absurd h (by decide)
      · exact hdigits.nul h
  · exact hdigits

/-- What is written is read back, with the count of the second run at 0. -/
theorem openRestartFile_restartText {fd : Int} {collection lastDonePath oprType : Text} {doneCnt : Int}
    (hcoll : Plain collection) (hclen : collection.length < MAX_NAME_LEN) (hlo : -(intBound : Int) ≤ doneCnt)
    (hhi : doneCnt < intBound) (hlast : Plain lastDonePath) (hllen : lastDonePath.length < MAX_NAME_LEN)
    (hopr : Plain oprType) (holen : oprType.length < NAME_LEN) :
    openRestartFile fd (restartText collection doneCnt lastDonePath oprType) =
      ⟨fd, doneCnt, collection, lastDonePath, oprType, 0, PATH_MATCHING⟩ := by
  have hdlen := length_decimal_int hlo hhi
  have hmax : MAX_NAME_LEN = 1088 := rfl
  have hname : NAME_LEN = 64 := rfl
  have hwhole : (collection ++ '\n' :: (decimal doneCnt ++ '\n' :: (lastDonePath ++ '\n' ::
      (oprType ++ ['\n'])))).take (MAX_NAME_LEN * 3 - 1) =
      collection ++ '\n' :: (decimal doneCnt ++ '\n' :: (lastDonePath ++ '\n' :: (oprType ++ ['\n']))) := by
    refine List.take_of_length_le ?_
    simp only [List.length_append, List.length_cons, List.length_nil]
    omega
  obtain ⟨zeros, htext, hlen⟩ : ∃ zeros, restartText collection doneCnt lastDonePath oprType =
      collection ++ '\n' :: (decimal doneCnt ++ '\n' :: (lastDonePath ++ '\n' ::
        (oprType ++ '\n' :: zeros))) ∧
      (restartText collection doneCnt lastDonePath oprType).length ≤ MAX_NAME_LEN * 3 := by
    unfold restartText
    rw [hwhole]
    refine ⟨_, by simp only [List.append_assoc, List.cons_append, List.nil_append]; rfl, ?_⟩
    simp only [List.length_append, List.length_cons, List.length_nil, List.length_replicate]
    omega
  have hne : restartText collection doneCnt lastDonePath oprType ≠ [] := by
    rw [htext]
    exact List.append_ne_nil_of_right_ne_nil _ (List.cons_ne_nil _ _)
  unfold openRestartFile
  rw [if_neg hne, List.take_of_length_le hlen, htext]
  simp only [getLineInBuf_line hcoll hclen, getLineInBuf_line hlast hllen, getLineInBuf_line hopr holen,
    getLineInBuf_line (decimal_plain doneCnt) (show (decimal doneCnt).length < MAX_NAME_LEN by omega),
    atoi_decimal_int hlo hhi]

end Restart
