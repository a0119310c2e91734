-- SUMMARY: The models of one descriptor and of a commit agree on the calls they share.
import Irods.Fuse.CommitFailures
import Irods.Fuse.DescOffset
import Irods.Fuse.Oper

open ByteFile

/-!
# The same calls

`ifuseLseek`, `ifuseWrite` and `_commitLocalBuffer` are modelled with everything that can
fail in them. The lazy upload and the FUSE operations have the calls once more, with the
descriptor as a part of their own states and fewer failures. Here the models are connected:
from states that agree the calls lead to states that agree, and they report the same.
-/

/-! ## The descriptor of a lazy upload -/

namespace DescFile

/-- The descriptor is open on the server, at the offset that the client believes in. -/
structure Serves (s : State) (d : LazyUpload.IFuseDesc) : Prop where
  remote : s.locCacheState = .noFileCache
  handle : s.handle = some d.obj
  offset : s.offset = d.offset

section LazyUpload

variable {s : State} {d : LazyUpload.IFuseDesc}

theorem Serves.ifuseLseek (h : Serves s d) (offset : Nat) {env : SeekEnv} (henv : env.Done) :
    ∃ s', s.ifuseLseek offset env = (s', 0) ∧ Serves s' (d.ifuseLseek offset) := by
  rw [State.ifuseLseek, LazyUpload.IFuseDesc.ifuseLseek, h.offset]
  by_cases hoffset : d.offset = offset
  · rw [if_pos (Int.ofNat_inj.mpr hoffset), if_neg (not_not.mpr hoffset)]
    exact ⟨s, rfl, h⟩
  · rw [if_neg fun heq => hoffset (Int.ofNat_inj.mp heq), if_pos hoffset,
      State.seekFile_done h.handle (Int.natCast_nonneg _) (fun _ => henv.conn) henv.reply]
    exact ⟨_, rfl, (State.setHandle_locCacheState ..).trans h.remote, State.handle_setHandle .., rfl⟩

/-- Where the server takes all bytes, and not to the end of the object. -/
theorem Serves.ifuseWrite (h : Serves s d) (happend : d.append = false) {data : List Byte} {env : WriteEnv} {n : Nat}
    (hconn : env.conn = true) (hreply : env.reply = .ok n) (hall : data.length ≤ n) :
    ∃ s', s.ifuseWrite data env = (s', (data.length : Int)) ∧ Serves s' (d.ifuseWrite data) := by
  have hwrite : s.writeFile data env.reply = some (s.setHandle (d.obj.rcDataObjWrite data), data.length) := by
    simp only [State.writeFile, h.handle, hreply, List.take_of_length_le hall]
  rw [State.ifuseWrite, if_pos h.remote, if_pos hconn, hwrite, LazyUpload.IFuseDesc.ifuseWrite, happend]
  dsimp only
  rw [if_neg (not_not.mpr rfl)]
  refine ⟨_, rfl, (State.setHandle_locCacheState ..).trans h.remote, State.handle_setHandle .., ?_⟩
  exact congrArg (· + (data.length : Int)) ((State.setHandle_offset ..).trans h.offset)

end LazyUpload

end DescFile

/-! ## The descriptors of the operations -/

namespace Fuse

variable {s : State} {d offset : Nat} {t : DescFile.State} {r : OpenedDataObj}

/-- The open file that a descriptor of the table names. -/
def State.fileOf (s : State) (d : Nat) : Option OpenedDataObj :=
  match (s.desc d).locCacheState, (s.desc d).iFd with
  | .noFileCache, .l1desc obj pos => some ⟨(s.uploaded obj).getD [], pos⟩
  | .noFileCache, _ => none
  | _, .localFd f pos => some ⟨(s.cache.files f).content, pos⟩
  | _, _ => none

/-- Entry `d` of the table is the descriptor, with the same file behind it. -/
structure Names (s : State) (d : Nat) (t : DescFile.State) : Prop where
  locCacheState : t.locCacheState = (s.desc d).locCacheState
  offset : t.offset = (s.desc d).offset
  bytesWritten : t.bytesWritten = (s.desc d).bytesWritten
  file : t.handle = s.fileOf d

theorem maxNewlyCreatedCacheSize_eq : DescFile.maxNewlyCreatedCacheSize = (maxNewlyCreatedCacheSize : Int) := rfl

theorem seekHandle_some (h : s.fileOf d = some r) (offset : Nat) :
    ∃ iFd, State.seekHandle (s.desc d) offset = some iFd ∧
    (s.setDesc d fun r => { r with iFd := iFd, offset := offset }).fileOf d = some { r with pos := offset } := by
  unfold State.fileOf at h
  split at h <;> cases h
  · rename_i hloc hfd
    exact ⟨_, by rw [State.seekHandle, hloc, hfd], by simp [State.fileOf, State.setDesc, hloc]⟩
  · rename_i hfd hremote
    cases hloc : (s.desc d).locCacheState
    · exact absurd hloc hremote
    all_goals exact ⟨_, by rw [State.seekHandle, hloc, hfd], by simp [State.fileOf, State.setDesc, hloc]⟩

theorem seekHandle_none (h : s.fileOf d = none) : State.seekHandle (s.desc d) offset = none := by
  unfold State.fileOf at h
  unfold State.seekHandle
  split <;> simp_all

theorem ifuseLseek_some {iFd : Handle} (hne : (s.desc d).offset ≠ offset)
    (hseek : State.seekHandle (s.desc d) offset = some iFd) :
    s.ifuseLseek d offset .ok = some (s.setDesc d fun r => { r with iFd := iFd, offset := offset }) := by
  unfold State.ifuseLseek
  rw [if_neg hne, hseek]

theorem ifuseLseek_none {reply : Reply} (hne : (s.desc d).offset ≠ offset)
    (h : ¬ (reply = .ok ∧ ∃ r, s.fileOf d = some r)) : s.ifuseLseek d offset reply = none := by
  unfold State.ifuseLseek
  rw [if_neg hne]
  split
  · rename_i hseek
    cases hfile : s.fileOf d with
    | none =>
      rw [seekHandle_none hfile] at hseek
      cases hseek
    | some r => exact absurd ⟨rfl, r, hfile⟩ h
  · rfl

/-- A seek to an offset; one that fails leaves the descriptor as it is. -/
theorem Names.ifuseLseek (h : Names s d t) {reply : Reply} {env : DescFile.SeekEnv}
    (henv : reply = .ok ↔ env.Done) (hconn : env.conn = true) :
    match s.ifuseLseek d offset reply with
    | some s' => ∃ t', t.ifuseLseek offset env = (t', 0) ∧ Names s' d t'
    | none => ∃ status < 0, t.ifuseLseek offset env = (t, status) := by
  by_cases hoffset : (s.desc d).offset = offset
  · have hsame : s.ifuseLseek d offset reply = some s := if_pos hoffset
    rw [hsame]
    exact ⟨t, by rw [DescFile.State.ifuseLseek, if_pos (h.offset.trans (Int.ofNat_inj.mpr hoffset))], h⟩
  · have hne : ¬ t.offset = offset := by
      rw [h.offset]
      exact fun heq => hoffset (Int.ofNat_inj.mp heq)
    by_cases hdone : reply = .ok ∧ ∃ r, s.fileOf d = some r
    · obtain ⟨rfl, r, hfile⟩ := hdone
      obtain ⟨iFd, hseek, hafter⟩ := seekHandle_some hfile offset
      have hrun := DescFile.State.seekFile_done (h.file.trans hfile) (Int.natCast_nonneg offset)
        (fun _ => hconn) (henv.mp rfl).reply
      rw [ifuseLseek_some hoffset hseek]
      refine ⟨_, by rw [DescFile.State.ifuseLseek, if_neg hne, hrun]; rfl, ?_, ?_, ?_, ?_⟩
      · exact (DescFile.State.setHandle_locCacheState ..).trans (h.locCacheState.trans (by simp [State.setDesc]))
      · simp [State.setDesc]
      · exact (DescFile.State.setHandle_bytesWritten ..).trans (h.bytesWritten.trans (by simp [State.setDesc]))
      · exact (DescFile.State.handle_setHandle ..).trans hafter.symm
    · rw [ifuseLseek_none hoffset hdone]
      rcases hrun : t.ifuseLseek offset env with ⟨t', status⟩
      rcases DescFile.State.ifuseLseek_cases hrun with ⟨heq, -⟩ | ⟨hneg, rfl⟩ | ⟨-, -, -, hreply, r, hr, -⟩
      · exact absurd heq hne
      · exact ⟨status, hneg, rfl⟩
      · exact absurd ⟨henv.mpr ⟨hconn, hreply⟩, r, h.file.symm.trans hr⟩ hdone

end Fuse

/-! ## The commit of a lazy upload -/

namespace LazyUpload

/-- The reads of the round give what there is room for, and the server takes all of it. -/
structure Round.Full (r : Round) : Prop where
  read : ∀ i, FUSE_LAZY_UPLOAD_MEM_BUFFER_SIZE ≤ r.read i
  ifuseLseek : ∀ i, 0 ≤ r.ifuseLseek i
  ifuseWrite : ∀ i, FUSE_LAZY_UPLOAD_MEM_BUFFER_SIZE ≤ r.ifuseWrite i

/-- The descriptor after the writes that the server took. -/
def IFuseDesc.after (d : IFuseDesc) (accepted : List (Nat × List Byte)) : IFuseDesc :=
  accepted.foldl (fun d w => (d.ifuseLseek w.1).ifuseWrite w.2) d

section Rounds

variable {r : Round} {env : Nat → Round}

theorem Round.Full.readBuffer (h : r.Full) (rest : List Byte) {status : Int} (hstatus : 0 ≤ status) :
    ∃ status', LazyUpload.readBuffer r.read 0 rest [] status =
      (rest.take FUSE_LAZY_UPLOAD_MEM_BUFFER_SIZE, rest.drop FUSE_LAZY_UPLOAD_MEM_BUFFER_SIZE, status') ∧
      0 ≤ status' := by
  obtain ⟨k, status', hread, hstatus', hk⟩ := readBuffer_spec r.read 0 rest [] hstatus
  have hoffered : FUSE_LAZY_UPLOAD_MEM_BUFFER_SIZE ≤ offeredFrom r.read FUSE_LAZY_UPLOAD_MEM_BUFFER_SIZE 0 := by
    have hfirst := h.read 0
    have hbuf : FUSE_LAZY_UPLOAD_MEM_BUFFER_SIZE = 511999 + 1 := rfl
    rw [hbuf] at hfirst ⊢
    rw [offeredFrom, if_neg (by omega)]
    omega
  rw [List.length_nil, Nat.sub_zero, Nat.min_eq_left hoffered] at hk
  have htake : rest.take k = rest.take FUSE_LAZY_UPLOAD_MEM_BUFFER_SIZE := List.take_eq_take_iff.mpr (by omega)
  have hdrop : rest.drop k = rest.drop FUSE_LAZY_UPLOAD_MEM_BUFFER_SIZE := by
    have := List.take_append_drop k rest
    rw [htake] at this
    exact List.append_cancel_left (this.trans (List.take_append_drop _ rest).symm)
  exact ⟨status', by rw [hread, List.nil_append, htake, hdrop], hstatus'⟩

theorem Round.Full.writeBuffer (h : r.Full) (start : Nat) {todo : List Byte}
    (hlen : todo.length ≤ FUSE_LAZY_UPLOAD_MEM_BUFFER_SIZE) {status : Int} (hstatus : 0 ≤ status) (accepted : List (Nat × List Byte)) :
    ∃ status', LazyUpload.writeBuffer r start 0 0 todo status accepted =
      .ok (status', accepted ++ if todo.isEmpty then [] else [(start, todo)]) ∧ 0 ≤ status' := by
  cases todo with
  | nil => exact ⟨status, by simp [LazyUpload.writeBuffer], hstatus⟩
  | cons b todo =>
    have hall : min (r.ifuseWrite 0) ((b :: todo).length : Int) = (b :: todo).length := by
      have := h.ifuseWrite 0
      omega
    have hpos : (0 : Int) < (b :: todo).length := Int.natCast_pos.mpr (Nat.succ_pos _)
    rw [LazyUpload.writeBuffer, if_pos (Int.natCast_pos.mp hpos), if_neg (Int.not_lt.mpr (h.ifuseLseek 0))]
    simp only [hall, hpos, if_true, Int.toNat_natCast, List.drop_length, List.take_length]
    exact ⟨r.ifuseLseek 0, by simp [LazyUpload.writeBuffer], h.ifuseLseek 0⟩

/-- Full rounds leave the descriptor as the loop does that knows no others. -/
theorem run_appendRound (h : ∀ n, (env n).Full) (start curOffset : Nat) (d : IFuseDesc) :
    ∀ (fuel n : Nat) (l : LoopVars), 0 ≤ l.status →
    (Rounds.run (appendRound env start curOffset) fuel n l).map (Except.map fun l => d.after l.accepted) =
      (appendRounds start curOffset fuel (d.after l.accepted) l.rest l.grandTotalReadLen).map .ok
  | 0, _, _, _ => rfl
  | fuel + 1, n, l, hstatus => by
    rw [Rounds.run, appendRounds]
    by_cases hmore : l.grandTotalReadLen < curOffset
    · obtain ⟨status, hread, hstatus⟩ := (h n).readBuffer l.rest hstatus
      obtain ⟨status', hwrite, hstatus'⟩ :=
        (h n).writeBuffer start (List.length_take_le _ l.rest) hstatus l.accepted
      simp only [appendRound, hmore, if_true, hread, hstatus, hwrite]
      refine (run_appendRound h start curOffset d fuel (n + 1) _ hstatus').trans ?_
      congr 2
      split <;> simp [IFuseDesc.after]
    · simp only [appendRound, hmore, if_false]
      rfl

end Rounds

end LazyUpload

namespace CommitFailures

open LazyUpload (appendLoop appendRounds loopStart run_appendRound)

/-- Nothing fails in a commit. -/
structure CommitEnv.Succeeds (env : CommitEnv) : Prop where
  checkFuseDesc : 0 ≤ env.checkFuseDesc
  ifuseClose : 0 ≤ env.ifuseClose
  upload : CommitFailures.upload env.upload = 0
  parseRodsPathStr : 0 ≤ env.parseRodsPathStr
  getIFuseConnByPath : env.getIFuseConnByPath = true
  fd : 0 ≤ env.fd
  allocIFuseDesc : 0 ≤ env.allocIFuseDesc
  localDesc : 0 ≤ env.localDesc
  rounds : ∀ n, (env.rounds n).Full
  desc : 0 ≤ env.desc

/-- A commit in which nothing fails ends as the one that knows no failures, with the same counters
and the same buffer file, or runs as long. -/
theorem commitLocalBuffer_agrees {env : CommitEnv} (h : env.Succeeds) {f : LazyUploadFileInfo}
    (hopen : 0 ≤ f.localHandle)
    (honoursAppend : Bool) (s : LazyUpload.State) :
    match LazyUpload.commitLocalBuffer honoursAppend s f.toLazyUploadFileInfo with
    | none => commitLocalBuffer env (s.buffer.length + 2) f s.buffer = none
    | some (s', info) => ∃ f' uploaded,
        commitLocalBuffer env (s.buffer.length + 2) f s.buffer = some (.returns 0 f' s'.buffer uploaded) ∧
        f'.toLazyUploadFileInfo = info := by
  have hreset (f : LazyUploadFileInfo) (uploaded : List Byte) : resetBuffer env f s.buffer uploaded = .returns 0
      { commitCount := f.commitCount + 1, curLocalOffsetStart := f.curLocalOffsetStart + f.curOffset,
        curOffset := 0, localHandle := env.desc } [] uploaded := by
    rw [resetBuffer, if_neg (Int.not_lt.mpr h.desc)]
  rw [LazyUpload.commitLocalBuffer, commitLocalBuffer, if_neg (Int.not_lt.mpr hopen)]
  by_cases hnew : f.curOffset = 0
  · rw [if_pos hnew, if_pos hnew]
    exact ⟨f, [], rfl, rfl⟩
  · rw [if_neg hnew, if_neg hnew]
    by_cases hfirst : f.commitCount = 0
    · simp only [hfirst, if_true, putAndReopen, Int.not_lt.mpr h.checkFuseDesc, Int.not_lt.mpr h.ifuseClose, h.upload,
        Int.not_lt.mpr h.parseRodsPathStr, h.getIFuseConnByPath, Int.not_lt.mpr h.fd, Int.not_lt.mpr h.allocIFuseDesc,
        hreset, if_false, ne_eq, not_true, Bool.not_true, Bool.false_eq_true]
      exact ⟨_, _, rfl, rfl⟩
    · have hrun := run_appendRound h.rounds f.curLocalOffsetStart f.curOffset s.desc
        (s.buffer.length + 2) 0 (loopStart s.buffer) (Int.le_refl 0)
      simp only [hfirst, if_false, append, Int.not_lt.mpr h.localDesc, Int.not_lt.mpr h.checkFuseDesc, appendLoop]
      change _ = (appendRounds f.curLocalOffsetStart f.curOffset (s.buffer.length + 2) s.desc s.buffer 0).map _ at hrun
      cases hrounds : appendRounds f.curLocalOffsetStart f.curOffset (s.buffer.length + 2) s.desc s.buffer 0 with
      | none =>
        rw [hrounds] at hrun
        rw [Option.map_eq_none_iff.mp hrun]
      | some d =>
        rw [hrounds] at hrun
        obtain ⟨e, hloop, he⟩ := Option.map_eq_some_iff.mp hrun
        rw [hloop]
        cases e with
        | error e => cases he
        | ok l => exact ⟨_, _, congrArg some (hreset ..), rfl⟩

end CommitFailures
