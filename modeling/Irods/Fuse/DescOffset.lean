-- SUMMARY: When the offset of a FUSE descriptor is the position of its file.
import Irods.Fuse.DescFile

open ByteFile
open Fuse (ReadCacheState)

/-!
# The offset of a descriptor

`ifuseLseek` leaves the seek out when `offset` is the one asked for, so the offset has to
be the position of the open file. Three of the exits do not keep it: a read without a
connection adds the status to it, a short write to the server leaves it, and a switch
whose last seek fails leaves offset 0.
-/

namespace DescFile

variable {data : List Byte} {n : Nat} {r : OpenedDataObj}

namespace State

/-- The offset is the position of the file behind `iFd`, if one is open; 0 stands for no
file, as `checkFuseDesc` reads it. -/
def Tracked (s : State) : Prop := 0 < s.iFd → ∀ r, s.handle = some r → s.offset = r.pos

/-! ## The file behind the descriptor -/

variable {s : State}

theorem handle_of_local (h : s.locCacheState ≠ .noFileCache) : s.handle = s.fds s.iFd := by
  simp only [handle, if_neg h]

@[simp] theorem handle_setHandle (s : State) (r : OpenedDataObj) : (s.setHandle r).handle = some r := by
  by_cases h : s.locCacheState = .noFileCache
  · simp [setHandle, handle, h]
  · simp [setHandle, handle, h]

@[simp] theorem setHandle_offset (s : State) (r : OpenedDataObj) : (s.setHandle r).offset = s.offset := by
  simp only [setHandle]
  split <;> rfl

@[simp] theorem setHandle_iFd (s : State) (r : OpenedDataObj) : (s.setHandle r).iFd = s.iFd := by
  simp only [setHandle]
  split <;> rfl

@[simp] theorem setHandle_locCacheState (s : State) (r : OpenedDataObj) :
    (s.setHandle r).locCacheState = s.locCacheState := by
  simp only [setHandle]
  split <;> rfl

@[simp] theorem addOffset_offset (s : State) (k : Int) : (s.addOffset k).offset = s.offset + k := rfl

theorem dropLocal_handle (h : s.locCacheState ≠ .noFileCache) : s.dropLocal.handle = none := by
  refine (handle_of_local (s := s.dropLocal) h).trans ?_
  simp [dropLocal]

theorem Tracked.of_none (h : s.handle = none) : s.Tracked := by
  intro _ r hr
  rw [h] at hr
  cases hr

theorem Tracked.of_eq (h : s.handle = some r) (ho : 0 < s.iFd → s.offset = r.pos) : s.Tracked := by
  intro hpos r' hr'
  rw [h] at hr'
  cases hr'
  exact ho hpos

/-! ## What each call does -/

theorem failure_neg (e : Nat) : failure e < 0 := by
  simp only [failure]
  omega

theorem errnoRet_neg (errno : Nat) : errnoRet errno < 0 := by
  simp only [errnoRet]
  split <;> omega

variable {s' : State} {offset : Int} {env : SeekEnv}

variable {status : Int} {reply : Reply}

theorem seekFile_cases (h : s.seekFile offset env = (s', status)) :
    (status < 0 ∧ s' = s) ∨
      (status = 0 ∧ 0 ≤ offset ∧ (s.locCacheState = .noFileCache → env.conn = true) ∧ env.reply = none ∧
        ∃ r, s.handle = some r ∧ s' = s.setHandle { r with pos := offset.toNat }) := by
  simp only [seekFile] at h
  split at h
  case isTrue =>
    cases h
    exact .inl ⟨by simp [ENOENT], rfl⟩
  case isFalse hc =>
    split at h
    case h_1 r hseek hreply =>
      cases h
      obtain ⟨r₀, hr₀, hseek⟩ := Option.bind_eq_some_iff.mp hseek
      simp only [OpenedDataObj.rcDataObjLseek] at hseek
      split at hseek
      case isTrue => cases hseek
      case isFalse hoff =>
        cases hseek
        exact .inr ⟨rfl, by omega, by simpa using hc, hreply, r₀, hr₀, rfl⟩
    case h_2 =>
      cases h
      exact .inl ⟨failure_neg _, rfl⟩
    case h_3 =>
      cases h
      exact .inl ⟨by omega, rfl⟩

/-- A seek that the system or the server does. -/
theorem seekFile_done (hr : s.handle = some r) (hoff : 0 ≤ offset)
    (hconn : s.locCacheState = .noFileCache → env.conn = true) (hreply : env.reply = none) :
    s.seekFile offset env = (s.setHandle { r with pos := offset.toNat }, 0) := by
  have hc : ¬ (s.locCacheState = .noFileCache ∧ env.conn = false) := by
    rintro ⟨hs, hf⟩
    rw [hconn hs] at hf
    cases hf
  have hseek : r.rcDataObjLseek offset .seekSet = some { r with pos := offset.toNat } := by
    simp only [OpenedDataObj.rcDataObjLseek]
    rw [if_neg (by omega)]
  simp only [seekFile, if_neg hc, hr, Option.bind_some, hseek, hreply]

theorem ifuseLseek_cases (h : s.ifuseLseek offset env = (s', status)) :
    (s.offset = offset ∧ status = 0 ∧ s' = s) ∨ (status < 0 ∧ s' = s) ∨
      (status = 0 ∧ 0 ≤ offset ∧ (s.locCacheState = .noFileCache → env.conn = true) ∧ env.reply = none ∧
        ∃ r, s.handle = some r ∧
          s' = { s.setHandle { r with pos := offset.toNat } with offset := offset }) := by
  simp only [ifuseLseek] at h
  split at h
  case isTrue heq =>
    cases h
    exact .inl ⟨heq, rfl, rfl⟩
  case isFalse =>
    rcases hseek : s.seekFile offset env with ⟨t, st⟩
    rw [hseek] at h
    rcases seekFile_cases hseek with ⟨hneg, rfl⟩ | ⟨rfl, hoff, hconn, hreply, r, hr, rfl⟩
    · rw [if_pos hneg] at h
      cases h
      exact .inr (.inl ⟨hneg, rfl⟩)
    · cases h
      exact .inr (.inr ⟨rfl, hoff, hconn, hreply, r, hr, rfl⟩)

theorem readFile_cases {size : Nat} (h : s.readFile size reply = some (s', n)) :
    ∃ r, s.handle = some r ∧ s' = s.setHandle { r with pos := r.pos + n } := by
  simp only [readFile] at h
  split at h
  case h_1 r k hr =>
    cases h
    exact ⟨r, hr, rfl⟩
  case h_2 => cases h

theorem writeFile_cases (h : s.writeFile data reply = some (s', n)) :
    ∃ r k, s.handle = some r ∧ reply = .ok k ∧ n = (data.take k).length ∧
      s' = s.setHandle (r.rcDataObjWrite (data.take k)) := by
  simp only [writeFile] at h
  split at h
  case h_1 r k hr =>
    cases h
    exact ⟨r, k, hr, rfl, rfl, rfl⟩
  case h_2 => cases h

end State

/-! ## The switch -/

/-- The object was created and the local file was read into the buffer. -/
structure WriteEnv.Loaded (env : WriteEnv) (irodsFd n : Nat) : Prop where
  createConn : env.createConn = true
  create : env.create = .ok irodsFd
  fstat : env.fstat = true
  read : env.read = .ok n

/-- The buffer was written to the object, as far as `k` bytes. -/
structure WriteEnv.Stored (env : WriteEnv) (k : Nat) : Prop where
  putConn : env.putConn = true
  put : env.put = .ok k

structure SeekEnv.Done (env : SeekEnv) : Prop where
  conn : env.conn = true
  reply : env.reply = none

variable {file : OpenedDataObj}

namespace State

/-- The write goes to the local file and takes it to the limit. -/
def Crosses (s : State) (data : List Byte) (env : WriteEnv) : Prop :=
  s.locCacheState ≠ .noFileCache ∧
    ∃ n, env.reply = .ok n ∧ maxNewlyCreatedCacheSize ≤ s.offset + (data.take n).length

variable {s s' : State} {ret : Option Int}

/-- What has become of the descriptor when the copying is over. -/
theorem copyToIrods_cases {env : WriteEnv} (hloc : s.locCacheState ≠ .noFileCache)
    (h : s.copyToIrods file env = (s', ret)) :
    ((∀ fd n, ¬ env.Loaded fd n) ∧ s'.handle = none ∧ ∃ e, ret = some e ∧ e < 0) ∨
    (∃ fd n, env.Loaded fd n ∧ (∀ k, ¬ env.Stored k) ∧
      s' = { (s.createObject fd).dropLocal with iFd := 0 } ∧ ∃ e, ret = some e ∧ e < 0) ∨
    (∃ fd n k, env.Loaded fd n ∧ env.Stored k ∧
      s' = (s.createObject fd).toObject fd ((mybuf file.content n env.rest).take k) ∧ ret = none) := by
  simp only [copyToIrods] at h
  split at h
  case h_1 e hcreate =>
    cases h
    refine .inl ⟨fun fd n hl => ?_, dropLocal_handle hloc, _, rfl, by simp [ENOENT]⟩
    rw [hl.createConn, if_pos rfl, hl.create] at hcreate
    cases hcreate
  case h_2 fd hcreate =>
    have hcc : env.createConn = true ∧ env.create = .ok fd := by
      cases hc : env.createConn with
      | true =>
        rw [hc, if_pos rfl] at hcreate
        exact ⟨rfl, hcreate⟩
      | false =>
        rw [hc, if_neg Bool.false_ne_true] at hcreate
        cases hcreate
    have hloc' : (s.createObject fd).locCacheState ≠ .noFileCache := hloc
    split at h
    case isTrue hstat =>
      cases h
      refine .inl ⟨fun fd' n hl => ?_, dropLocal_handle hloc', _, rfl, errnoRet_neg _⟩
      rw [hl.fstat] at hstat
      cases hstat
    case isFalse hstat =>
      split at h
      case h_1 e hread =>
        cases h
        refine .inl ⟨fun fd' n hl => ?_, dropLocal_handle hloc', _, rfl, errnoRet_neg _⟩
        rw [hl.read] at hread
        cases hread
      case h_2 n hread =>
        have hl : env.Loaded fd n := ⟨hcc.1, hcc.2, by simpa using hstat, hread⟩
        split at h
        case h_1 e hput =>
          cases h
          refine .inr (.inl ⟨fd, n, hl, fun k hs => ?_, rfl, _, rfl, errnoOf_neg _⟩)
          rw [hs.putConn, if_pos rfl, hs.put] at hput
          cases hput
        case h_2 k hput =>
          cases h
          refine .inr (.inr ⟨fd, n, k, hl, ?_, rfl, rfl⟩)
          cases hc : env.putConn with
          | true =>
            rw [hc, if_pos rfl] at hput
            exact ⟨hc, hput⟩
          | false =>
            rw [hc, if_neg Bool.false_ne_true] at hput
            cases hput

/-- The object is the file of the descriptor, with what was put at its start. -/
theorem toObject_handle (s : State) (fd : Nat) (buf : List Byte) :
    (s.toObject fd buf).handle = some { content := buf, pos := buf.length } := by
  simp [toObject, handle, OpenedDataObj.rcDataObjWrite, writeAt_empty]

theorem setHandle_withOffset (s : State) (o : Int) (r : OpenedDataObj) :
    { { s with offset := o }.setHandle r with offset := s.offset } = s.setHandle r := by
  by_cases h : s.locCacheState = .noFileCache
  · simp only [setHandle, if_pos h]
  · simp only [setHandle, if_neg h]

/-- The last seek: an error leaves offset 0. -/
theorem seekBack_cases {env : SeekEnv} (hpos : 0 < s.offset) (hloc : s.locCacheState = .noFileCache)
    (hr : s.handle = some r) (h : s.seekBack env = (s', ret)) :
    (¬ env.Done ∧ s' = { s with offset := 0 } ∧ ∃ e, ret = some e ∧ e < 0) ∨
      (env.Done ∧ s' = s.setHandle { r with pos := s.offset.toNat } ∧ ret = none) := by
  have hne : ¬ (0 : Int) = s.offset := by omega
  have hr' : { s with offset := 0 }.handle = some r := hr
  simp only [seekBack, ifuseLseek, if_neg hne] at h
  rcases hseek : { s with offset := 0 }.seekFile s.offset env with ⟨t, status⟩
  rw [hseek] at h
  rcases seekFile_cases hseek with ⟨hneg, rfl⟩ | ⟨rfl, -, hconn, hreply, r₀, hr₀, rfl⟩
  · simp only [if_pos hneg] at h
    cases h
    refine .inl ⟨fun hd => ?_, rfl, _, rfl, errnoOf_neg _⟩
    rw [seekFile_done hr' (by omega) (fun _ => hd.conn) hd.reply] at hseek
    have hst := (Prod.mk.inj hseek).2
    omega
  · rw [hr'] at hr₀
    cases hr₀
    simp only [setHandle_withOffset] at h
    cases h
    exact .inr ⟨⟨hconn hloc, hreply⟩, rfl, rfl⟩

/-! ## The write -/

/-- What a local write of `n` bytes comes to. -/
inductive AfterLocal (s : State) (file : OpenedDataObj) (n : Nat) (env : WriteEnv) : State → Int → Prop
  | stays (h : s.offset < maxNewlyCreatedCacheSize) :
      AfterLocal s file n env { s with bytesWritten := s.bytesWritten + n } n
  | closed {s' : State} {e : Int} (h : maxNewlyCreatedCacheSize ≤ s.offset) (hl : ∀ fd k, ¬ env.Loaded fd k)
      (hs' : s'.handle = none) (he : e < 0) : AfterLocal s file n env s' e
  | noFile {fd k : Nat} {e : Int} (h : maxNewlyCreatedCacheSize ≤ s.offset) (hl : env.Loaded fd k)
      (hp : ∀ k, ¬ env.Stored k) (he : e < 0) :
      AfterLocal s file n env { (s.createObject fd).dropLocal with iFd := 0 } e
  | notSought {fd k j : Nat} {e : Int} (h : maxNewlyCreatedCacheSize ≤ s.offset) (hl : env.Loaded fd k)
      (hp : env.Stored j) (hd : ¬ env.seek.Done) (he : e < 0) :
      AfterLocal s file n env
        { (s.createObject fd).toObject fd ((mybuf file.content k env.rest).take j) with offset := 0 } e
  | switched {fd k j : Nat} (h : maxNewlyCreatedCacheSize ≤ s.offset) (hl : env.Loaded fd k)
      (hp : env.Stored j) (hd : env.seek.Done) :
      AfterLocal s file n env
        { ((s.createObject fd).toObject fd ((mybuf file.content k env.rest).take j)).setHandle
            { content := (mybuf file.content k env.rest).take j, pos := s.offset.toNat } with
          bytesWritten := s.bytesWritten + n } n

theorem setHandle_bytesWritten (s : State) (r : OpenedDataObj) :
    (s.setHandle r).bytesWritten = s.bytesWritten := by
  simp only [setHandle]
  split <;> rfl

variable {s s' : State} {status : Int}

theorem afterLocalWrite_spec (hloc : s.locCacheState ≠ .noFileCache) (hfile : s.handle = some file) (n : Nat)
    (env : WriteEnv) : AfterLocal s file n env (s.afterLocalWrite n env).1 (s.afterLocalWrite n env).2 := by
  simp only [afterLocalWrite, hfile]
  split
  case isTrue h => exact .stays h
  case isFalse h =>
    have hmax : maxNewlyCreatedCacheSize ≤ s.offset := by omega
    rcases hcopy : s.copyToIrods file env with ⟨t, ret⟩
    rcases copyToIrods_cases hloc hcopy with ⟨hl, hnone, e, rfl, he⟩ | ⟨fd, k, hl, hp, rfl, e, rfl, he⟩ |
      ⟨fd, k, j, hl, hp, rfl, rfl⟩
    · exact .closed hmax hl hnone he
    · exact .noFile hmax hl hp he
    · have hpos : 0 < s.offset := by
        have : (0 : Int) < maxNewlyCreatedCacheSize := by decide
        omega
      rcases hback : ((s.createObject fd).toObject fd ((mybuf file.content k env.rest).take j)).seekBack env.seek
        with ⟨t, ret⟩
      rcases seekBack_cases (s := (s.createObject fd).toObject fd _) hpos rfl (toObject_handle _ _ _) hback
        with ⟨hd, rfl, e, rfl, he⟩ | ⟨hd, rfl, rfl⟩
      · simp only [hback]
        exact .notSought hmax hl hp hd he
      · simp only [hback, setHandle_bytesWritten]
        exact .switched hmax hl hp hd

/-- A write to the local file that the system does. -/
theorem ifuseWrite_local {env : WriteEnv} (hloc : s.locCacheState ≠ .noFileCache) (hr : s.handle = some r)
    (hn : env.reply = .ok n) (h : s.ifuseWrite data env = (s', status)) :
    AfterLocal ((s.setHandle (r.rcDataObjWrite (data.take n))).addOffset (data.take n).length)
      (r.rcDataObjWrite (data.take n)) (data.take n).length env s' status := by
  have hw : s.writeFile data env.reply =
      some (s.setHandle (r.rcDataObjWrite (data.take n)), (data.take n).length) := by
    simp only [writeFile, hr, hn]
  simp only [ifuseWrite, if_neg hloc, hw] at h
  have hspec := afterLocalWrite_spec
    (s := (s.setHandle (r.rcDataObjWrite (data.take n))).addOffset (data.take n).length)
    (by simpa [addOffset] using hloc) (handle_setHandle _ _) (data.take n).length env
  rw [h] at hspec
  exact hspec

theorem ifuseWrite_cases {env : WriteEnv} (h : s.ifuseWrite data env = (s', status)) :
    (status < 0 ∧ s' = s) ∨
    (∃ r n, s.locCacheState = .noFileCache ∧ env.conn = true ∧ s.handle = some r ∧ env.reply = .ok n ∧
      n < data.length ∧ status < 0 ∧ s' = s.setHandle (r.rcDataObjWrite (data.take n))) ∨
    (∃ r n, s.locCacheState = .noFileCache ∧ s.handle = some r ∧ env.reply = .ok n ∧
      data.length ≤ n ∧ status = data.length ∧
      s' = { (s.setHandle (r.rcDataObjWrite data)).addOffset data.length with
        bytesWritten := s.bytesWritten + data.length }) ∨
    (∃ r n, s.locCacheState ≠ .noFileCache ∧ s.handle = some r ∧ env.reply = .ok n ∧
      AfterLocal ((s.setHandle (r.rcDataObjWrite (data.take n))).addOffset (data.take n).length)
        (r.rcDataObjWrite (data.take n)) (data.take n).length env s' status) := by
  have hwrite := h
  simp only [ifuseWrite] at h
  split at h
  case isTrue hloc =>
    split at h
    case isFalse =>
      cases h
      exact .inl ⟨by simp [ENOENT], rfl⟩
    case isTrue hconn =>
      split at h
      case h_1 =>
        cases h
        exact .inl ⟨errnoOf_neg _, rfl⟩
      case h_2 t n hw =>
        obtain ⟨r, k, hr, hk, rfl, rfl⟩ := writeFile_cases hw
        split at h
        case isTrue hshort =>
          cases h
          rw [List.length_take] at hshort
          exact .inr (.inl ⟨r, k, hloc, hconn, hr, hk, by omega, by simp [ENOENT], rfl⟩)
        case isFalse hfull =>
          rw [List.length_take] at hfull
          have hle : data.length ≤ k := by omega
          rw [List.take_of_length_le hle] at h
          cases h
          rw [setHandle_bytesWritten]
          exact .inr (.inr (.inl ⟨r, k, hloc, hr, hk, hle, rfl, rfl⟩))
  case isFalse hloc =>
    split at h
    case h_1 =>
      cases h
      exact .inl ⟨errnoRet_neg _, rfl⟩
    case h_2 t n hw =>
      obtain ⟨r, k, hr, hk, rfl, rfl⟩ := writeFile_cases hw
      exact .inr (.inr (.inr ⟨r, k, hloc, hr, hk, ifuseWrite_local hloc hr hk hwrite⟩))

theorem ifuseRead_cases {size : Nat} {env : ReadEnv} (h : s.ifuseRead size env = (s', status)) :
    (status < 0 ∧ s' = s) ∨
    (s.locCacheState = .noFileCache ∧ env.conn = false ∧ status = -ENOENT ∧ s' = s.addOffset (-ENOENT)) ∨
    (∃ r n, s.handle = some r ∧ status = (n : Nat) ∧
      s' = (s.setHandle { r with pos := r.pos + n }).addOffset n) := by
  simp only [ifuseRead] at h
  split at h
  case isTrue hloc =>
    split at h
    case isFalse hconn =>
      cases h
      exact .inr (.inl ⟨hloc, by simpa using hconn, rfl, rfl⟩)
    case isTrue =>
      split at h
      case h_1 t n hread =>
        obtain ⟨r, hr, rfl⟩ := readFile_cases hread
        cases h
        exact .inr (.inr ⟨r, n, hr, rfl, rfl⟩)
      case h_2 =>
        cases h
        exact .inl ⟨errnoOf_neg _, rfl⟩
  case isFalse hloc =>
    split at h
    case h_1 t n hread =>
      obtain ⟨r, hr, rfl⟩ := readFile_cases hread
      cases h
      exact .inr (.inr ⟨r, n, hr, rfl, rfl⟩)
    case h_2 =>
      cases h
      exact .inl ⟨errnoRet_neg _, rfl⟩

end State

/-! ## The offset is kept -/

/-- The exits that lose the position are not taken: a read from the server has its
connection, a write to the server is not short, and a switch that comes to its last seek
does it. -/
def Intact (s : State) : Call → Prop
  | .lseek _ _ => True
  | .read _ env => s.locCacheState = .noFileCache → env.conn = true
  | .write data env =>
    (s.locCacheState = .noFileCache → env.conn = true → ∀ n, env.reply = .ok n → data.length ≤ n) ∧
    (s.Crosses data env → ∀ fd k j, env.Loaded fd k → env.Stored j → env.seek.Done)

variable {c : Call}

namespace State

variable {s s' : State} {status : Int}

theorem Tracked.ifuseLseek {offset : Int} {env : SeekEnv} (ht : s.Tracked)
    (h : s.ifuseLseek offset env = (s', status)) : s'.Tracked := by
  rcases ifuseLseek_cases h with ⟨-, -, rfl⟩ | ⟨-, rfl⟩ | ⟨-, hoff, -, -, r, hr, rfl⟩
  · exact ht
  · exact ht
  · refine Tracked.of_eq (r := { r with pos := offset.toNat }) (handle_setHandle _ _) fun _ => ?_
    simp only
    omega

theorem Tracked.ifuseRead {size : Nat} {env : ReadEnv} (ht : s.Tracked) (hg : Intact s (.read size env))
    (h : s.ifuseRead size env = (s', status)) : s'.Tracked := by
  rcases ifuseRead_cases h with ⟨-, rfl⟩ | ⟨hloc, hconn, -, -⟩ | ⟨r, n, hr, -, rfl⟩
  · exact ht
  · rw [hg hloc] at hconn
    cases hconn
  · refine Tracked.of_eq (r := { r with pos := r.pos + n }) (handle_setHandle _ _) fun hpos => ?_
    have := ht (by simpa [addOffset] using hpos) r hr
    simp only [addOffset_offset, setHandle_offset]
    omega

/-- A write to the local file keeps the offset, with or without the switch. -/
theorem Tracked.afterLocal {env : WriteEnv} (hfile : s.handle = some file) (hoff : 0 < s.iFd → s.offset = file.pos)
    (hg : maxNewlyCreatedCacheSize ≤ s.offset → ∀ fd k j, env.Loaded fd k → env.Stored j → env.seek.Done)
    (h : AfterLocal s file n env s' status) : s'.Tracked := by
  cases h with
  | stays _ => exact Tracked.of_eq hfile hoff
  | closed _ _ hnone _ => exact Tracked.of_none hnone
  | noFile _ _ _ _ => exact fun hpos => absurd hpos (Nat.lt_irrefl 0)
  | notSought hmax hl hp hd _ => exact absurd (hg hmax _ _ _ hl hp) hd
  | switched hmax hl hp hd =>
    refine Tracked.of_eq (handle_setHandle _ _) fun _ => ?_
    change s.offset = (s.offset.toNat : Int)
    have : (0 : Int) ≤ maxNewlyCreatedCacheSize := by decide
    omega

theorem Tracked.ifuseWrite {env : WriteEnv} (ht : s.Tracked) (hg : Intact s (.write data env))
    (h : s.ifuseWrite data env = (s', status)) : s'.Tracked := by
  rcases ifuseWrite_cases h with ⟨-, rfl⟩ | ⟨r, n, hloc, hconn, -, hn, hshort, -, -⟩ |
    ⟨r, n, -, hr, -, -, -, rfl⟩ | ⟨r, n, hloc, hr, hn, hafter⟩
  · exact ht
  · have := hg.1 hloc hconn n hn
    omega
  · refine Tracked.of_eq (r := r.rcDataObjWrite data) (handle_setHandle _ _) fun hpos => ?_
    have := ht (by simpa [addOffset] using hpos) r hr
    simp only [addOffset_offset, setHandle_offset, OpenedDataObj.rcDataObjWrite]
    omega
  · refine Tracked.afterLocal
      (s := (s.setHandle (r.rcDataObjWrite (data.take n))).addOffset (data.take n).length)
      (handle_setHandle _ _) ?_ ?_ hafter
    · intro hpos
      have := ht (by simpa [addOffset] using hpos) r hr
      simp only [addOffset_offset, setHandle_offset, OpenedDataObj.rcDataObjWrite]
      omega
    · intro hmax
      simp only [addOffset_offset, setHandle_offset] at hmax
      exact hg.2 ⟨hloc, n, hn, hmax⟩

theorem Tracked.step (ht : s.Tracked) (hg : Intact s c) (h : s.step c = (s', status)) : s'.Tracked := by
  cases c with
  | lseek offset env => exact ht.ifuseLseek h
  | read size env => exact ht.ifuseRead hg h
  | write data env => exact ht.ifuseWrite hg h

end State

/-! ## The content when all calls succeed -/

/-- Every call of the system and of the server that the step makes succeeds; in the
switch the local file is read and put to its end. -/
def Succeeds (s : State) : Call → Prop
  | .lseek offset env => 0 ≤ offset ∧ env.Done
  | .read _ env => env.conn = true ∧ ∃ n, env.reply = .ok n
  | .write data env =>
    env.conn = true ∧ ∃ n, env.reply = .ok n ∧ (s.locCacheState = .noFileCache → data.length ≤ n) ∧
      (s.Crosses data env → ∃ fd k j, 0 < fd ∧ env.Loaded fd k ∧ env.Stored j ∧ env.seek.Done ∧
        ∀ r, s.handle = some r → (r.rcDataObjWrite (data.take n)).content.length ≤ min k j)

/-- The file after the calls, each with the status it returned: a seek sets the position,
a read moves it, and a write overwrites what was there. -/
def lastWriteWins (r : OpenedDataObj) : List (Call × Int) → OpenedDataObj
  | [] => r
  | (.lseek offset _, _) :: cs => lastWriteWins { r with pos := offset.toNat } cs
  | (.read _ _, status) :: cs => lastWriteWins { r with pos := r.pos + status.toNat } cs
  | (.write data _, status) :: cs => lastWriteWins (r.rcDataObjWrite (data.take status.toNat)) cs

theorem mybuf_full {content : List Byte} (h : content.length ≤ n) (rest : Nat → Byte) :
    State.mybuf content n rest = content := by
  have h0 : content.length - n = 0 := by omega
  simp [State.mybuf, h0, List.take_of_length_le h]

namespace State

variable {s s' : State} {status : Int}

theorem succeeds_ifuseLseek {offset : Int} {env : SeekEnv} (hpos : 0 < s.iFd) (hr : s.handle = some r)
    (ht : s.Tracked) (hg : Succeeds s (.lseek offset env)) (h : s.ifuseLseek offset env = (s', status)) :
    0 ≤ status ∧ 0 < s'.iFd ∧ s'.handle = some { r with pos := offset.toNat } := by
  have hoff := ht hpos r hr
  by_cases heq : s.offset = offset
  · simp only [ifuseLseek, if_pos heq] at h
    cases h
    refine ⟨Int.le_refl 0, hpos, ?_⟩
    have heq : offset.toNat = r.pos := by omega
    rw [heq, hr]
  · simp only [ifuseLseek, if_neg heq, seekFile_done hr hg.1 (fun _ => hg.2.conn) hg.2.reply] at h
    cases h
    exact ⟨Int.le_refl 0, by simpa using hpos, handle_setHandle _ _⟩

theorem succeeds_ifuseRead {size : Nat} {env : ReadEnv} (hpos : 0 < s.iFd) (hr : s.handle = some r)
    (hg : Succeeds s (.read size env)) (h : s.ifuseRead size env = (s', status)) :
    0 ≤ status ∧ 0 < s'.iFd ∧ s'.handle = some { r with pos := r.pos + status.toNat } := by
  obtain ⟨hconn, n, hn⟩ := hg
  simp only [ifuseRead, readFile, hr, hn, hconn, if_true] at h
  have h' := (ite_self _).symm.trans h
  cases h'
  exact ⟨by omega, by simpa [addOffset] using hpos, handle_setHandle _ _⟩

theorem succeeds_ifuseWrite {env : WriteEnv} (hpos : 0 < s.iFd) (hr : s.handle = some r) (ht : s.Tracked)
    (hg : Succeeds s (.write data env)) (h : s.ifuseWrite data env = (s', status)) :
    0 ≤ status ∧ 0 < s'.iFd ∧ s'.handle = some (r.rcDataObjWrite (data.take status.toNat)) := by
  obtain ⟨hconn, n, hn, hfull, hsw⟩ := hg
  have hoff := ht hpos r hr
  by_cases hloc : s.locCacheState = .noFileCache
  · have hlen := hfull hloc
    have hw : s.writeFile data env.reply = some (s.setHandle (r.rcDataObjWrite data), data.length) := by
      simp only [writeFile, hr, hn, List.take_of_length_le hlen]
    simp only [ifuseWrite, if_pos hloc, if_pos hconn, hw, ne_eq, not_true_eq_false, if_false] at h
    cases h
    refine ⟨by omega, by simpa [addOffset] using hpos, ?_⟩
    rw [Int.toNat_natCast, List.take_length]
    exact handle_setHandle _ _
  · have hspec := ifuseWrite_local hloc hr hn h
    have htake : data.take ((data.take n).length : Int).toNat = data.take n := by
      rw [List.length_take, List.take_eq_take_iff]
      omega
    cases hspec with
    | stays _ =>
      rw [htake]
      exact ⟨Int.natCast_nonneg _, by simpa [addOffset] using hpos, handle_setHandle _ _⟩
    | closed hmax hl _ _ =>
      simp only [addOffset_offset, setHandle_offset] at hmax
      obtain ⟨fd, k, j, -, hl', -⟩ := hsw ⟨hloc, n, hn, hmax⟩
      exact absurd hl' (hl fd k)
    | noFile hmax _ hp _ =>
      simp only [addOffset_offset, setHandle_offset] at hmax
      obtain ⟨fd, k, j, -, -, hp', -⟩ := hsw ⟨hloc, n, hn, hmax⟩
      exact absurd hp' (hp j)
    | notSought hmax _ _ hd _ =>
      simp only [addOffset_offset, setHandle_offset] at hmax
      obtain ⟨fd, k, j, -, -, -, hd', -⟩ := hsw ⟨hloc, n, hn, hmax⟩
      exact absurd hd' hd
    | @switched fd k j hmax hl hp hd =>
      simp only [addOffset_offset, setHandle_offset] at hmax
      obtain ⟨fd', k', j', hfd, hl', hp', -, hlen⟩ := hsw ⟨hloc, n, hn, hmax⟩
      obtain rfl : fd = fd' := Except.ok.inj (hl.create.symm.trans hl'.create)
      obtain rfl : k = k' := Except.ok.inj (hl.read.symm.trans hl'.read)
      obtain rfl : j = j' := Except.ok.inj (hp.put.symm.trans hp'.put)
      have hle := hlen r hr
      have hbuf : (mybuf (r.rcDataObjWrite (data.take n)).content k env.rest).take j =
          (r.rcDataObjWrite (data.take n)).content := by
        rw [mybuf_full (Nat.le_trans hle (Nat.min_le_left k j))]
        exact List.take_of_length_le (Nat.le_trans hle (Nat.min_le_right k j))
      rw [htake, hbuf]
      refine ⟨Int.natCast_nonneg _, by simpa [toObject] using hfd, (handle_setHandle _ _).trans ?_⟩
      simp only [addOffset_offset, setHandle_offset, OpenedDataObj.rcDataObjWrite, hoff]
      rfl

/-- A call that succeeds does to the file what it says. -/
theorem succeeds_step (hpos : 0 < s.iFd) (hr : s.handle = some r) (ht : s.Tracked) (hg : Succeeds s c)
    (h : s.step c = (s', status)) : 0 ≤ status ∧ 0 < s'.iFd ∧ s'.handle = some (lastWriteWins r [(c, status)]) := by
  cases c with
  | lseek offset env => exact succeeds_ifuseLseek hpos hr ht hg h
  | read size env => exact succeeds_ifuseRead hpos hr hg h
  | write data env => exact succeeds_ifuseWrite hpos hr ht hg h

end State

theorem lastWriteWins_cons (r : OpenedDataObj) (c : Call × Int) (cs : List (Call × Int)) :
    lastWriteWins r (c :: cs) = lastWriteWins (lastWriteWins r [c]) cs := by
  rcases c with ⟨c, status⟩
  cases c <;> rfl

variable {s s' : State}

theorem machine_step_eq {status : Int} (h : machine.step s c = some (s', status)) : s.step c = (s', status) := by
  simpa [machine] using h

/-- The content after a run in which all calls succeed. -/
theorem succeeds_run {cs : List Call} {os : List Int} (hpos : 0 < s.iFd) (hr : s.handle = some r) (ht : s.Tracked)
    (hi : machine.Guarded Intact s cs) (hg : machine.Guarded Succeeds s cs) (hrun : machine.run s cs = some (s', os)) :
    (∀ o ∈ os, 0 ≤ o) ∧ s'.handle = some (lastWriteWins r (cs.zip os)) := by
  induction cs generalizing s r os with
  | nil =>
    cases hrun
    exact ⟨by simp, hr⟩
  | cons c cs ih =>
    obtain ⟨t, o, os', hstep, hrest, rfl⟩ := Machine.run_cons_eq_some.mp hrun
    have hstep' := machine_step_eq hstep
    obtain ⟨ho, hpos', hr'⟩ := State.succeeds_step hpos hr ht hg.1 hstep'
    obtain ⟨hos, hend⟩ := ih hpos' hr' (ht.step hi.1 hstep') (hi.2 t o hstep) (hg.2 t o hstep) hrest
    refine ⟨?_, ?_⟩
    · intro o' ho'
      rcases List.mem_cons.mp ho' with rfl | hmem
      · exact ho
      · exact hos o' hmem
    · rw [List.zip_cons_cons, lastWriteWins_cons]
      exact hend

/-- Along every run that takes none of the losing exits the offset is the position of the
open file, and if all calls succeed the file is the last-write-wins content. -/
theorem offset_eq_position {s s' : State} {cs : List Call} {os : List Int} (ht : s.Tracked)
    (hi : machine.Guarded Intact s cs) (hrun : machine.run s cs = some (s', os)) :
    s'.Tracked ∧ ∀ r, 0 < s.iFd → s.handle = some r → machine.Guarded Succeeds s cs →
      (∀ o ∈ os, 0 ≤ o) ∧ s'.handle = some (lastWriteWins r (cs.zip os)) := by
  refine ⟨?_, fun r hpos hr hg => succeeds_run hpos hr ht hi hg hrun⟩
  exact Machine.run_invariant State.Tracked
    (fun t c t' o h hc hstep => h.step hc (machine_step_eq hstep)) ht hi hrun

/-- A new file, and the calls that take it to the server. -/
def createdFile : State where
  iFd := 5
  locCacheState := .haveNewlyCreatedCache
  offset := 0
  newFlag := true
  bytesWritten := 0
  fds := fun fd => if fd = 5 then some ⟨[], 0⟩ else none
  l1descs := fun _ => none
  cached := true

def switchEnv : WriteEnv where
  conn := true
  reply := .ok 1
  errno := 0
  createConn := true
  create := .ok 3
  fstat := true
  read := .ok 4194304
  rest := fun _ => 0
  putConn := true
  put := .ok 4194304
  seek := ⟨true, none⟩

def switchCalls : List Call :=
  [.lseek 4194303 ⟨true, none⟩, .write [7] switchEnv, .lseek 0 ⟨true, none⟩]

theorem offset_eq_position_switch :
    ∃ s' os, machine.run createdFile switchCalls = some (s', os) ∧ s'.Tracked ∧
      (∀ o ∈ os, 0 ≤ o) ∧ s'.handle = some (lastWriteWins ⟨[], 0⟩ (switchCalls.zip os)) := by
  have ht : createdFile.Tracked := fun _ r hr => by cases hr; rfl
  have hi : machine.Guarded Intact createdFile switchCalls := by
    refine .cons trivial rfl (.cons ⟨?_, fun _ _ _ _ _ _ => ⟨rfl, rfl⟩⟩ rfl (.cons trivial rfl trivial))
    intro _ _ n hn
    cases hn
    exact Nat.le_refl 1
  have hg : machine.Guarded Succeeds createdFile switchCalls := by
    refine .cons ⟨by decide, rfl, rfl⟩ rfl (.cons ?_ rfl (.cons ⟨by decide, rfl, rfl⟩ rfl trivial))
    refine ⟨rfl, 1, rfl, fun _ => Nat.le_refl 1, fun _ => ⟨3, _, _, by decide, ⟨rfl, rfl, rfl, rfl⟩, ⟨rfl, rfl⟩,
      ⟨rfl, rfl⟩, ?_⟩⟩
    intro r hr
    obtain rfl : (⟨[], 4194303⟩ : OpenedDataObj) = r := Option.some.inj hr
    simp [OpenedDataObj.rcDataObjWrite, length_writeAt]
  refine ⟨_, _, rfl, ?_⟩
  have h := offset_eq_position ht hi rfl
  exact ⟨h.1, h.2 _ (by decide) rfl hg⟩

/-- An object of three bytes, open on the server. -/
def openedObject : State where
  iFd := 3
  locCacheState := .noFileCache
  offset := 0
  newFlag := false
  bytesWritten := 0
  fds := fun _ => none
  l1descs := fun fd => if fd = 3 then some ⟨[1, 2, 3], 0⟩ else none
  cached := false

/-- A read that finds no connection at offset 2 takes the offset to 0, and the seek to 0
that follows is left out with the object still at 2. -/
theorem seek_left_out_at_wrong_position :
    openedObject.Tracked ∧
      ∃ s', machine.run openedObject
          [.lseek 2 ⟨true, none⟩, .read 1 ⟨false, .ok 1, 0⟩, .lseek 0 ⟨true, none⟩] = some (s', [0, -2, 0]) ∧
        s'.offset = 0 ∧ s'.handle = some ⟨[1, 2, 3], 2⟩ ∧ ¬ s'.Tracked := by
  refine ⟨fun _ r hr => by cases hr; rfl, _, rfl, rfl, rfl, fun h => ?_⟩
  have hpos := h (by decide) ⟨[1, 2, 3], 2⟩ rfl
  cases hpos

/-! ## The error exits of the switch -/

namespace State

/-- The descriptor has a file of its own open, the local one it had or the object that was
created, and the content is there. -/
def Usable (s s' : State) (env : WriteEnv) (content : List Byte) : Prop :=
  (∃ r, s'.handle = some r ∧ r.content = content) ∧
    (s'.locCacheState = .noFileCache → env.create = .ok s'.iFd) ∧
    (s'.locCacheState ≠ .noFileCache → s'.iFd = s.iFd)

variable {t : State}

/-- What is behind descriptor 0 is not the local file. -/
theorem not_usable_noFile (hiFd : t.iFd = s.iFd) (hloc : t.locCacheState ≠ .noFileCache) (fd : Nat) (env : WriteEnv)
    (content : List Byte) : ¬ Usable s { (t.createObject fd).dropLocal with iFd := 0 } env content := by
  rintro ⟨⟨r, hr, -⟩, -, hown⟩
  have hz : 0 = t.iFd := (hown hloc).trans hiFd.symm
  rw [handle_of_local (s := { (t.createObject fd).dropLocal with iFd := 0 }) hloc] at hr
  have hnone : Function.update t.fds t.iFd none 0 = some r := hr
  rw [← hz, Function.update_self] at hnone
  cases hnone

/-- The object is usable when all of the content was put. -/
theorem usable_toObject_iff {env : WriteEnv} {fd : Nat} (hfd : env.create = .ok fd) (buf content : List Byte) :
    Usable s { t.toObject fd buf with offset := 0 } env content ↔ buf = content := by
  have hobj : { t.toObject fd buf with offset := 0 }.handle = some { content := buf, pos := buf.length } :=
    toObject_handle t fd buf
  constructor
  · rintro ⟨⟨r, hr, hc⟩, -⟩
    rw [hobj] at hr
    cases hr
    exact hc
  · intro hc
    exact ⟨⟨_, hobj, hc⟩, fun _ => hfd, fun hne => absurd rfl hne⟩

end State

/-- A write that fails after it took the local file to the limit leaves the descriptor
usable exactly when the whole file was put to the new object. -/
theorem switch_failure_usable_iff {s s' : State} {r : OpenedDataObj} {data : List Byte} {env : WriteEnv} {n : Nat}
    {status : Int} (hr : s.handle = some r) (hn : env.reply = .ok n) (hc : s.Crosses data env)
    (h : s.ifuseWrite data env = (s', status)) (herr : status < 0) :
    s.Usable s' env (writeAt r.content r.pos (data.take n)) ↔
      ∃ fd k j, env.Loaded fd k ∧ env.Stored j ∧
        (State.mybuf (writeAt r.content r.pos (data.take n)) k env.rest).take j =
          writeAt r.content r.pos (data.take n) := by
  obtain ⟨hloc, -, -, -⟩ := hc
  have hspec := State.ifuseWrite_local hloc hr hn h
  cases hspec with
  | stays _ => exact absurd herr (by omega)
  | closed _ hl hnone _ =>
    constructor
    · rintro ⟨⟨r', hr', -⟩, -⟩
      rw [hnone] at hr'
      cases hr'
    · rintro ⟨fd, k, -, hl', -⟩
      exact absurd hl' (hl fd k)
  | @noFile fd _ _ _ _ hp _ =>
    constructor
    · intro hu
      refine absurd hu (State.not_usable_noFile ?_ ?_ fd env _)
      · simp only [State.addOffset, State.setHandle_iFd]
      · simpa only [State.addOffset, State.setHandle_locCacheState] using hloc
    · rintro ⟨-, -, j, -, hp', -⟩
      exact absurd hp' (hp j)
  | @notSought fd k j _ _ hl hp _ _ =>
    rw [State.usable_toObject_iff hl.create]
    constructor
    · exact fun hbuf => ⟨fd, k, j, hl, hp, hbuf⟩
    · rintro ⟨fd', k', j', hl', hp', hbuf⟩
      obtain rfl : k = k' := Except.ok.inj (hl.read.symm.trans hl'.read)
      obtain rfl : j = j' := Except.ok.inj (hp.put.symm.trans hp'.put)
      exact hbuf
  | switched _ _ _ _ => exact absurd herr (by omega)

/-- The replies of a switch whose last seek fails. -/
def noSeekEnv : WriteEnv := { switchEnv with seek := ⟨true, some 0⟩ }

/-- The new file sought to one byte before the limit. -/
def soughtFile : State :=
  { createdFile with
    offset := 4194303, fds := fun fd => if fd = 5 then some ⟨[], 4194303⟩ else none }

theorem soughtFile_crosses {env : WriteEnv} (h : env.reply = .ok 1) : soughtFile.Crosses [7] env :=
  ⟨by decide, 1, h, by decide⟩

theorem switch_failure_usable_noSeek :
    ∃ s', soughtFile.ifuseWrite [7] noSeekEnv = (s', -1) ∧
      soughtFile.Usable s' noSeekEnv (writeAt [] 4194303 [7]) := by
  have hc : soughtFile.Crosses [7] noSeekEnv := soughtFile_crosses rfl
  refine ⟨_, rfl, (switch_failure_usable_iff (r := ⟨[], 4194303⟩) (n := 1) rfl rfl hc rfl (by decide)).mpr ?_⟩
  have hlen : (writeAt [] 4194303 [7]).length = 4194304 := by simp [length_writeAt]
  refine ⟨3, 4194304, 4194304, ⟨rfl, rfl, rfl, rfl⟩, ⟨rfl, rfl⟩, ?_⟩
  have hbuf := mybuf_full (Nat.le_of_eq hlen) switchEnv.rest
  refine (congrArg (List.take 4194304) hbuf).trans ?_
  exact List.take_of_length_le (Nat.le_of_eq hlen)

/-- Without a connection the local file is closed and gone, and the descriptor still has it. -/
theorem switch_failure_not_usable :
    ∃ s', soughtFile.ifuseWrite [7] { switchEnv with createConn := false } = (s', -2) ∧
      s'.iFd = soughtFile.iFd ∧ s'.locCacheState = soughtFile.locCacheState ∧
      s'.handle = none ∧ s'.cached = false ∧
      ¬ soughtFile.Usable s' { switchEnv with createConn := false } (writeAt [] 4194303 [7]) := by
  refine ⟨_, rfl, rfl, rfl, rfl, rfl, ?_⟩
  rintro ⟨⟨r, hr, -⟩, -⟩
  cases hr

end DescFile
