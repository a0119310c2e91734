-- SUMMARY: Lazy upload: writes gathered in a buffer file and committed.
import Irods.Base.Machine
import Irods.Base.CInt
import Irods.Api.DataObj

open ByteFile

/-!
# Lazy upload

A file made by `irodsMknod` is not written to the server at once. Its writes go to
a local buffer file, which `_commitLocalBuffer` uploads as a whole the first time and
copies behind what is there after that. The model follows one opened file from
`openLazyUploadBufferedFile` on. Local and remote calls succeed, except that a local
write may find the disk full, which is a choice of the environment. The mutex, which is
recursive, is not modelled; an empty write before the buffer's start returns holding it.

The descriptor that the first commit opens has `O_APPEND` among its flags. They reach
`open(2)` in the vault, so whether a write goes to the current position or to the end
is up to the vault's driver; `honoursAppend` says which, and nothing is assumed of it.
-/

namespace LazyUpload

/-! ## The descriptor -/

/-- The descriptor that `fi` names: the server's side, whether its writes go to the
end of the object, and the offset the client believes it is at. -/
structure IFuseDesc where
  obj : OpenedDataObj
  append : Bool
  offset : Nat
  deriving DecidableEq

/-- The server is asked to seek only if the client's own offset differs. -/
def IFuseDesc.ifuseLseek (d : IFuseDesc) (offset : Nat) : IFuseDesc :=
  if d.offset ≠ offset then { d with obj := { d.obj with pos := offset }, offset := offset } else d

def IFuseDesc.ifuseWrite (d : IFuseDesc) (buf : List Byte) : IFuseDesc :=
  let obj := if d.append then { d.obj with pos := d.obj.content.length } else d.obj
  { d with obj := obj.rcDataObjWrite buf, offset := d.offset + buf.length }

@[simp] theorem IFuseDesc.ifuseLseek_content (d : IFuseDesc) (offset : Nat) :
    (d.ifuseLseek offset).obj.content = d.obj.content := by
  unfold ifuseLseek
  split <;> rfl

@[simp] theorem IFuseDesc.ifuseLseek_append (d : IFuseDesc) (offset : Nat) :
    (d.ifuseLseek offset).append = d.append := by
  unfold ifuseLseek
  split <;> rfl

@[simp] theorem IFuseDesc.ifuseWrite_append (d : IFuseDesc) (buf : List Byte) :
    (d.ifuseWrite buf).append = d.append := rfl

/-- The client's offset is the server's position. -/
def IFuseDesc.InStep (d : IFuseDesc) : Prop := d.offset = d.obj.pos

variable {start curOffset fuel : Nat} {d : IFuseDesc} {rest : List Byte} {total : Nat}

theorem IFuseDesc.InStep.ifuseLseek (h : d.InStep) (offset : Nat) :
    (d.ifuseLseek offset).InStep ∧ (d.ifuseLseek offset).obj.pos = offset := by
  unfold IFuseDesc.ifuseLseek InStep
  split
  · exact ⟨rfl, rfl⟩
  · rename_i hoff
    simp only [ne_eq, Decidable.not_not] at hoff
    exact ⟨h, by rw [← h, hoff]⟩

theorem IFuseDesc.InStep.ifuseWrite (h : d.InStep) (hd : d.append = false)
    (buf : List Byte) : (d.ifuseWrite buf).InStep := by
  unfold InStep at h
  simp [InStep, IFuseDesc.ifuseWrite, OpenedDataObj.rcDataObjWrite, hd, h]

/-- On a descriptor that does not append, a write lands where the seek went. -/
theorem IFuseDesc.InStep.content_write (h : d.InStep) (hd : d.append = false) (offset : Nat) (buf : List Byte) :
    ((d.ifuseLseek offset).ifuseWrite buf).obj.content = writeAt d.obj.content offset buf := by
  have hpos := (h.ifuseLseek offset).2
  simp [IFuseDesc.ifuseWrite, OpenedDataObj.rcDataObjWrite, hd, hpos]

/-- On a descriptor that appends, a write goes to the end wherever the seek went. -/
theorem IFuseDesc.content_write_of_append (hd : d.append = true) (offset : Nat) (buf : List Byte) :
    ((d.ifuseLseek offset).ifuseWrite buf).obj.content = d.obj.content ++ buf := by
  simp [ifuseWrite, OpenedDataObj.rcDataObjWrite, hd, writeAt_length]

/-! ## The buffered file -/

def FUSE_LAZY_UPLOAD_MEM_BUFFER_SIZE : Nat := 500 * 1024

/-- The counters of `lazyUploadFileInfo_t`. -/
structure LazyUploadFileInfo where
  commitCount : Nat := 0
  curLocalOffsetStart : Nat := 0
  curOffset : Nat := 0
  deriving DecidableEq

/-- An opened file: its entry in the table of opened files, the local buffer file and
the descriptor on the server. The entry goes when the file is closed. -/
structure State where
  info : Option LazyUploadFileInfo
  buffer : List Byte
  desc : IFuseDesc
  deriving DecidableEq

def State.object (s : State) : List Byte := s.desc.obj.content

/-- After `irodsMknod` and `irodsOpen`: an empty object and an empty buffer. -/
def opened : State :=
  { info := some {}, buffer := [], desc := { obj := { content := [], pos := 0 }, append := false, offset := 0 } }

/-- The outer loop of an appending commit. A round reads up to the size of the memory buffer and
writes it at `start`. One that reads nothing changes nothing, so one round more than there are
bytes tells whether the loop ends. -/
def appendRounds (start curOffset : Nat) : Nat → IFuseDesc → List Byte → Int → Option IFuseDesc
  | 0, _, _, _ => none
  | fuel + 1, d, rest, grandTotalReadLen =>
    if grandTotalReadLen < curOffset then
      let chunk := rest.take FUSE_LAZY_UPLOAD_MEM_BUFFER_SIZE
      -- `ifuseWrite` takes all it is given or fails, so the inner loop runs once
      let d' := if chunk.isEmpty then d else (d.ifuseLseek start).ifuseWrite chunk
      appendRounds start curOffset fuel d' (rest.drop FUSE_LAZY_UPLOAD_MEM_BUFFER_SIZE)
        (int32 (grandTotalReadLen + chunk.length))
    else some d

/-- `_upload` and the new descriptor: the object is replaced by the buffer file and
opened again with `O_RDWR | O_APPEND`. -/
def uploadAndReopen (honoursAppend : Bool) (buffer : List Byte) : IFuseDesc :=
  { obj := { content := buffer, pos := 0 }, append := honoursAppend, offset := 0 }

def commitLocalBuffer (honoursAppend : Bool) (s : State) (f : LazyUploadFileInfo) :
    Option (State × LazyUploadFileInfo) :=
  if f.curOffset = 0 then some (s, f)
  else
    let desc :=
      if f.commitCount = 0 then some (uploadAndReopen honoursAppend s.buffer)
      else appendRounds f.curLocalOffsetStart f.curOffset (s.buffer.length + 2) s.desc s.buffer 0
    match desc with
    | none => none
    | some d =>
      let f' := { commitCount := f.commitCount + 1
                  curLocalOffsetStart := f.curLocalOffsetStart + f.curOffset
                  curOffset := 0 }
      some ({ info := some f', buffer := [], desc := d }, f')

/-- Seek in the buffer file and write there. A seek before its start fails. -/
def writeLocal (s : State) (f : LazyUploadFileInfo) (buf : List Byte) (offset : Nat) : Option State :=
  if offset < f.curLocalOffsetStart then none
  else some { s with
    info := some { f with curOffset := f.curOffset + buf.length }
    buffer := writeAt s.buffer (offset - f.curLocalOffsetStart) buf }

/-- `noSpace` is set if the first local write fails with `ENOSPC`. -/
def writeLazyUploadBufferedFile (honoursAppend : Bool) (s : State) (buf : List Byte) (offset : Nat)
    (noSpace : Bool) : Option (State × Nat) :=
  match s.info with
  | none => none
  | some f =>
    if offset < f.curLocalOffsetStart then
      match commitLocalBuffer honoursAppend s f with
      | none => none
      | some (s', _) =>
        let d := s'.desc.ifuseLseek offset
        if buf.isEmpty then some ({ s' with desc := d }, 0)
        else some ({ s' with desc := d.ifuseWrite buf }, buf.length)
    else if noSpace then
      match commitLocalBuffer honoursAppend s f with
      | none => none
      | some (s', f') => (writeLocal s' f' buf offset).map fun s'' => (s'', buf.length)
    else (writeLocal s f buf offset).map fun s' => (s', buf.length)

def syncLazyUploadBufferedFile (honoursAppend : Bool) (s : State) : Option (State × Nat) :=
  match s.info with
  | none => some (s, 0)
  | some f => (commitLocalBuffer honoursAppend s f).map fun r => (r.1, 0)

/-- The buffer file is removed as it is; nothing is committed here. -/
def closeLazyUploadBufferedFile (s : State) : State × Nat :=
  ({ s with info := none, buffer := [] }, 0)

inductive Call where
  | write (buf : List Byte) (offset : Nat) (noSpace : Bool)
  | sync
  | close
  deriving DecidableEq

/-- Calls on one file in the order they come; a call that fails or does not return
leaves the machine stuck. -/
def machine (honoursAppend : Bool) : Machine State Call Nat where
  step s
    | .write buf offset noSpace => writeLazyUploadBufferedFile honoursAppend s buf offset noSpace
    | .sync => syncLazyUploadBufferedFile honoursAppend s
    | .close => some (closeLazyUploadBufferedFile s)

/-! ## What the file should hold -/

def Call.apply (content : List Byte) : Call → List Byte
  | .write buf offset _ => writeAt content offset buf
  | .sync => content
  | .close => content

/-- The content after the calls if every write went straight to the file. -/
def lastWriteWins (calls : List Call) : List Byte := calls.foldl Call.apply []

/-- A file written to directly. -/
def direct : Machine (List Byte) Call Nat where
  step content c :=
    some (c.apply content, match c with | .write buf _ _ => buf.length | _ => 0)

theorem direct_run (content : List Byte) (calls : List Call) :
    ∃ os, direct.run content calls = some (calls.foldl Call.apply content, os) := by
  induction calls generalizing content with
  | nil => exact ⟨[], rfl⟩
  | cons c calls ih =>
    obtain ⟨os, hos⟩ := ih (c.apply content)
    exact ⟨_, Machine.run_cons_eq_some.mpr ⟨_, _, _, rfl, hos, rfl⟩⟩

/-! ## The commit loop -/

private theorem appendRounds_done (hdone : curOffset ≤ total) :
    appendRounds start curOffset (fuel + 1) d rest total = some d := by
  have h : ¬ (total : Int) < curOffset := by omega
  simp only [appendRounds, h, if_false]

/-- A round with bytes left to read and to count. -/
private theorem appendRounds_step (hlt : total < curOffset) (hrest : rest ≠ [])
    (hfits : total + rest.length < intBound) :
    appendRounds start curOffset (fuel + 1) d rest total =
      appendRounds start curOffset fuel
        ((d.ifuseLseek start).ifuseWrite (rest.take FUSE_LAZY_UPLOAD_MEM_BUFFER_SIZE))
        (rest.drop FUSE_LAZY_UPLOAD_MEM_BUFFER_SIZE)
        ((total + min FUSE_LAZY_UPLOAD_MEM_BUFFER_SIZE rest.length : Nat) : Int) := by
  have h : (total : Int) < curOffset := by omega
  have hchunk : (rest.take FUSE_LAZY_UPLOAD_MEM_BUFFER_SIZE).isEmpty = false := by
    simpa [FUSE_LAZY_UPLOAD_MEM_BUFFER_SIZE] using hrest
  have hint : int32 ((total : Int) + (rest.take FUSE_LAZY_UPLOAD_MEM_BUFFER_SIZE).length) =
      ((total + min FUSE_LAZY_UPLOAD_MEM_BUFFER_SIZE rest.length : Nat) : Int) := by
    rw [List.length_take, int32_eq_self] <;> omega
  simp only [appendRounds, h, if_true, hchunk, Bool.false_eq_true, if_false, hint]

/-- Rounds on an appending descriptor put the rest of the buffer file behind the
object, if the last round that finds bytes is begun and the count fits an `int`. -/
theorem appendRounds_of_append (start curOffset total : Nat) {fuel : Nat} {d : IFuseDesc}
    {rest : List Byte} (hd : d.append = true) (hfuel : rest.length < fuel)
    (hfits : total + rest.length < intBound) (hall : curOffset ≤ total + rest.length)
    (hlast : rest ≠ [] → total + (rest.length - 1) / FUSE_LAZY_UPLOAD_MEM_BUFFER_SIZE *
      FUSE_LAZY_UPLOAD_MEM_BUFFER_SIZE < curOffset) :
    ∃ d', appendRounds start curOffset fuel d rest total = some d' ∧
      d'.obj.content = d.obj.content ++ rest ∧ d'.append = true := by
  induction fuel generalizing d rest total with
  | zero => omega
  | succ fuel ih =>
    by_cases hrest : rest = []
    · subst hrest
      exact ⟨d, appendRounds_done hall, by simp, hd⟩
    · have hlast' := hlast hrest
      rw [appendRounds_step (by omega) hrest hfits]
      have hlast'' : rest.drop FUSE_LAZY_UPLOAD_MEM_BUFFER_SIZE ≠ [] →
          total + min FUSE_LAZY_UPLOAD_MEM_BUFFER_SIZE rest.length +
            ((rest.drop FUSE_LAZY_UPLOAD_MEM_BUFFER_SIZE).length - 1) / FUSE_LAZY_UPLOAD_MEM_BUFFER_SIZE *
              FUSE_LAZY_UPLOAD_MEM_BUFFER_SIZE < curOffset := by
        intro hne
        simp only [ne_eq, List.drop_eq_nil_iff, Nat.not_le] at hne
        simp only [FUSE_LAZY_UPLOAD_MEM_BUFFER_SIZE, List.length_drop] at hne hlast' ⊢
        omega
      have hlen := List.length_drop (i := FUSE_LAZY_UPLOAD_MEM_BUFFER_SIZE) (l := rest)
      have hchunk : 0 < FUSE_LAZY_UPLOAD_MEM_BUFFER_SIZE := by decide
      obtain ⟨d', hrun, hcontent, happend⟩ :=
        @ih (total + min FUSE_LAZY_UPLOAD_MEM_BUFFER_SIZE rest.length)
          ((d.ifuseLseek start).ifuseWrite (rest.take FUSE_LAZY_UPLOAD_MEM_BUFFER_SIZE))
          (rest.drop FUSE_LAZY_UPLOAD_MEM_BUFFER_SIZE) (by simpa using hd) (by omega) (by omega)
          (by omega) hlast''
      refine ⟨d', hrun, ?_, happend⟩
      rw [hcontent, IFuseDesc.content_write_of_append hd, List.append_assoc, List.take_append_drop]

/-- One round on a descriptor that writes in place. -/
theorem appendRounds_of_inStep {buffer : List Byte}
    (hd : d.append = false) (hstep : d.InStep) (hpos : 0 < curOffset) (hall : curOffset ≤ buffer.length)
    (hone : buffer.length ≤ FUSE_LAZY_UPLOAD_MEM_BUFFER_SIZE) :
    ∃ d', appendRounds start curOffset (fuel + 2) d buffer 0 = some d' ∧
      d'.obj.content = writeAt d.obj.content start buffer ∧ d'.append = false ∧ d'.InStep := by
  have hbuffer : buffer ≠ [] := by
    intro h
    subst h
    simp only [List.length_nil] at hall
    omega
  have hfits : 0 + buffer.length < intBound := by
    simp only [FUSE_LAZY_UPLOAD_MEM_BUFFER_SIZE] at hone
    simp only [intBound]
    omega
  have hround : appendRounds start curOffset (fuel + 2) d buffer 0 = _ :=
    appendRounds_step hpos hbuffer hfits
  rw [List.take_of_length_le hone, List.drop_of_length_le hone, Nat.min_eq_right hone,
    Nat.zero_add, appendRounds_done hall] at hround
  exact ⟨_, hround, hstep.content_write hd start buffer, by simpa using hd,
    (hstep.ifuseLseek start).1.ifuseWrite (by simpa using hd) buffer⟩

/-! ## When a call does what was asked -/

/-- The content as the application sees it: what is buffered in its place. -/
def State.view (s : State) (f : LazyUploadFileInfo) : List Byte :=
  writeAt s.object f.curLocalOffsetStart s.buffer

/-- A commit writes just the buffer: it is the first one, or the bytes counted end in the last
round, and a vault that writes in place needs no second round. -/
def CommitFaithful (honoursAppend : Bool) (s : State) (f : LazyUploadFileInfo) : Prop :=
  f.curOffset = 0 ∨ f.commitCount = 0 ∨
    (f.curOffset ≤ s.buffer.length ∧ s.buffer.length < intBound ∧
      (s.buffer.length - 1) / FUSE_LAZY_UPLOAD_MEM_BUFFER_SIZE * FUSE_LAZY_UPLOAD_MEM_BUFFER_SIZE
        < f.curOffset ∧
      (honoursAppend = false → s.buffer.length ≤ FUSE_LAZY_UPLOAD_MEM_BUFFER_SIZE))

instance (honoursAppend : Bool) (s : State) (f : LazyUploadFileInfo) :
    Decidable (CommitFaithful honoursAppend s f) := by
  unfold CommitFaithful
  infer_instance

/-- A write into a buffer of `buffered` bytes that stands for the object from `start` on:
it leaves no gap over bytes of the object, and where commits append, the buffer stands
for what follows the object's end. -/
def BufferFaithful (honoursAppend : Bool) (start buffered length : Nat) (buf : List Byte)
    (offset : Nat) : Prop :=
  buf = [] ∨ ((offset ≤ start + buffered ∨ length ≤ start + buffered) ∧
    (honoursAppend = true → start = length))

instance (honoursAppend : Bool) (start buffered length : Nat) (buf : List Byte) (offset : Nat) :
    Decidable (BufferFaithful honoursAppend start buffered length buf offset) := by
  unfold BufferFaithful
  infer_instance

/-- The condition on a call and the state it is made in. -/
def Faithful (honoursAppend : Bool) (s : State) (c : Call) : Prop :=
  match s.info, c with
  | none, .write _ _ _ => False
  | none, _ => True
  | some f, .write buf offset noSpace =>
    if offset < f.curLocalOffsetStart then
      -- committed, then rewritten at the server
      CommitFaithful honoursAppend s f ∧ (honoursAppend = true → buf = [])
    else if noSpace then
      CommitFaithful honoursAppend s f ∧ f.curLocalOffsetStart + f.curOffset ≤ offset ∧
        BufferFaithful honoursAppend (f.curLocalOffsetStart + f.curOffset) 0 (s.view f).length buf offset
    else BufferFaithful honoursAppend f.curLocalOffsetStart s.buffer.length s.object.length buf offset
  | some f, .sync => CommitFaithful honoursAppend s f
  | some f, .close => f.curOffset = 0

instance (honoursAppend : Bool) (s : State) (c : Call) : Decidable (Faithful honoursAppend s c) := by
  unfold Faithful
  split <;> infer_instance

/-! ## Refinement -/

/-- What an opened file keeps between faithful calls. -/
structure Coherent (honoursAppend : Bool) (s : State) (f : LazyUploadFileInfo) : Prop where
  fresh : f.commitCount = 0 → s.object = [] ∧ f.curLocalOffsetStart = 0
  empty : f.curOffset = 0 → s.buffer = []
  append : 0 < f.commitCount → s.desc.append = honoursAppend
  inPlace : honoursAppend = false → 0 < f.commitCount → s.desc.InStep
  atEnd : honoursAppend = true → s.buffer ≠ [] → f.curLocalOffsetStart = s.object.length

/-- The state of the file stands for a file with this content. -/
def Represents (honoursAppend : Bool) (s : State) (content : List Byte) : Prop :=
  match s.info with
  | none => s.object = content
  | some f => Coherent honoursAppend s f ∧ s.view f = content

theorem opened_represents (honoursAppend : Bool) : Represents honoursAppend opened [] := by
  refine ⟨⟨?_, ?_, ?_, ?_, ?_⟩, rfl⟩
  · exact fun _ => ⟨rfl, rfl⟩
  · exact fun _ => rfl
  · exact fun h => absurd h (Nat.lt_irrefl 0)
  · exact fun _ h => absurd h (Nat.lt_irrefl 0)
  · exact fun _ h => absurd rfl h

theorem Coherent.represents {honoursAppend : Bool} {s : State} {f : LazyUploadFileInfo}
    {content : List Byte} (hs : Coherent honoursAppend s f) (hinfo : s.info = some f)
    (hview : s.view f = content) : Represents honoursAppend s content := by
  simp only [Represents, hinfo]
  exact ⟨hs, hview⟩

theorem State.view_of_buffer_nil {s : State} {f : LazyUploadFileInfo} (h : s.buffer = []) :
    s.view f = s.object := by
  rw [view, h, writeAt_nil]

/-- A commit moves what is buffered into the object and resets the buffer. -/
theorem commitLocalBuffer_spec {honoursAppend : Bool} {s : State} {f : LazyUploadFileInfo}
    (hinfo : s.info = some f) (hs : Coherent honoursAppend s f)
    (hc : CommitFaithful honoursAppend s f) :
    ∃ s' f', commitLocalBuffer honoursAppend s f = some (s', f') ∧ s'.info = some f' ∧
      Coherent honoursAppend s' f' ∧ s'.buffer = [] ∧ s'.object = s.view f ∧
      f'.curLocalOffsetStart = f.curLocalOffsetStart + f.curOffset := by
  unfold commitLocalBuffer
  by_cases hzero : f.curOffset = 0
  · rw [if_pos hzero]
    have hbuf := hs.empty hzero
    exact ⟨s, f, rfl, hinfo, hs, hbuf, (State.view_of_buffer_nil hbuf).symm, by omega⟩
  rw [if_neg hzero]
  -- whatever descriptor the commit leaves, it is the one the next calls need
  have hdesc : ∃ d, (if f.commitCount = 0 then some (uploadAndReopen honoursAppend s.buffer)
        else appendRounds f.curLocalOffsetStart f.curOffset (s.buffer.length + 2) s.desc s.buffer 0)
        = some d ∧
      d.obj.content = s.view f ∧ d.append = honoursAppend ∧ (honoursAppend = false → d.InStep) := by
    by_cases hfirst : f.commitCount = 0
    · obtain ⟨hobj, hstart⟩ := hs.fresh hfirst
      refine ⟨_, if_pos hfirst, ?_, rfl, fun _ => rfl⟩
      rw [State.view, hobj, hstart, writeAt_empty]
      rfl
    · have hcount : 0 < f.commitCount := Nat.pos_of_ne_zero hfirst
      obtain ⟨hall, hfits, hlast, hone⟩ := (hc.resolve_left hzero).resolve_left hfirst
      rw [if_neg hfirst]
      cases honoursAppend with
      | true =>
        have hbuffer : s.buffer ≠ [] := by
          intro h
          simp only [h, List.length_nil] at hall
          omega
        have hfuel : s.buffer.length < s.buffer.length + 2 := by omega
        obtain ⟨d, hrun, hcontent, happend⟩ := appendRounds_of_append f.curLocalOffsetStart f.curOffset 0
          (hs.append hcount) hfuel (by omega) (by omega) (fun _ => by omega)
        refine ⟨d, hrun, ?_, happend, nofun⟩
        rw [hcontent, State.view, hs.atEnd rfl hbuffer, writeAt_length]
        rfl
      | false =>
        obtain ⟨d, hrun, hcontent, happend, hstep⟩ := appendRounds_of_inStep
          (hs.append hcount) (hs.inPlace rfl hcount) (Nat.pos_of_ne_zero hzero) hall (hone rfl)
        exact ⟨d, hrun, hcontent, happend, fun _ => hstep⟩
  obtain ⟨d, hd, hcontent, happend, hstep⟩ := hdesc
  simp only [hd]
  refine ⟨_, _, rfl, rfl, ?_, rfl, hcontent, rfl⟩
  refine ⟨?_, fun _ => rfl, fun _ => happend, fun h _ => hstep h, fun _ h => absurd rfl h⟩
  intro h
  simp only [Nat.add_one_ne_zero] at h

/-- A write into the buffer is a write into what the application sees. -/
theorem writeLocal_spec {honoursAppend : Bool} {s : State} {f : LazyUploadFileInfo} {buf : List Byte}
    {offset : Nat} (hs : Coherent honoursAppend s f) (hoff : f.curLocalOffsetStart ≤ offset)
    (hw : BufferFaithful honoursAppend f.curLocalOffsetStart s.buffer.length s.object.length buf offset) :
    ∃ s', writeLocal s f buf offset = some s' ∧
      Represents honoursAppend s' (writeAt (s.view f) offset buf) := by
  have hn : ¬ offset < f.curLocalOffsetStart := by omega
  refine ⟨_, if_neg hn, ⟨hs.fresh, ?_, hs.append, hs.inPlace, ?_⟩, ?_⟩
  · intro hzero
    simp only [Nat.add_eq_zero_iff, List.length_eq_zero_iff] at hzero
    simp only [hzero.2, writeAt_nil]
    exact hs.empty hzero.1
  · intro hh hne
    rcases hw with rfl | ⟨-, hend⟩
    · exact hs.atEnd hh hne
    · exact hend hh
  · rcases hw with rfl | ⟨hgap, -⟩
    · simp only [State.view, State.object, writeAt_nil]
    · exact writeAt_writeAt_sub hoff hgap buf

/-- A write behind the buffer goes to the object once the buffer is committed. -/
theorem rewrite_spec {honoursAppend : Bool} {s : State} {f : LazyUploadFileInfo} {buf : List Byte}
    (offset : Nat) (hinfo : s.info = some f) (hs : Coherent honoursAppend s f) (hbuffer : s.buffer = [])
    (hcount : 0 < f.commitCount) (hh : honoursAppend = false) :
    Represents honoursAppend { s with desc := (s.desc.ifuseLseek offset).ifuseWrite buf }
      (writeAt s.object offset buf) := by
  have happend : s.desc.append = false := (hs.append hcount).trans hh
  have hstep := hs.inPlace hh hcount
  have hcontent := hstep.content_write happend offset buf
  refine Coherent.represents ⟨fun h => ?_, hs.empty, fun _ => ?_, fun _ _ => ?_, fun h => ?_⟩ hinfo ?_
  · omega
  · simpa using happend.trans hh.symm
  · exact (hstep.ifuseLseek offset).1.ifuseWrite (by simpa using happend) buf
  · rw [hh] at h
    cases h
  · simp only [State.view, hbuffer, writeAt_nil]
    exact hcontent

/-- A seek at the server is not seen by the application. -/
theorem lseek_represents {honoursAppend : Bool} {s : State} {f : LazyUploadFileInfo} (offset : Nat)
    (hinfo : s.info = some f) (hs : Coherent honoursAppend s f) :
    Represents honoursAppend { s with desc := s.desc.ifuseLseek offset } (s.view f) := by
  have hobject : State.object { s with desc := s.desc.ifuseLseek offset } = s.object :=
    s.desc.ifuseLseek_content offset
  refine Coherent.represents ⟨?_, hs.empty, fun h => ?_, fun hh h => ?_, ?_⟩ hinfo ?_
  · rw [hobject]
    exact hs.fresh
  · exact (s.desc.ifuseLseek_append offset).trans (hs.append h)
  · exact ((hs.inPlace hh h).ifuseLseek offset).1
  · rw [hobject]
    exact hs.atEnd
  · rw [State.view, State.view, hobject]

/-- Nothing is behind the buffer before the first commit. -/
theorem Coherent.commitCount_pos {honoursAppend : Bool} {s : State} {f : LazyUploadFileInfo}
    (hs : Coherent honoursAppend s f) {offset : Nat} (hoff : offset < f.curLocalOffsetStart) :
    0 < f.commitCount := by
  by_contra h
  have := (hs.fresh (by omega)).2
  omega

/-- Every faithful call returns and does to the content what it would do to a file
written to directly. -/
theorem step_refines {honoursAppend : Bool} {s : State} {content : List Byte} {c : Call}
    (hs : Represents honoursAppend s content) (hc : Faithful honoursAppend s c) :
    ∃ s' o, (machine honoursAppend).step s c = some (s', o) ∧
      direct.step content c = some (c.apply content, o) ∧
      Represents honoursAppend s' (c.apply content) := by
  match hinfo : s.info, c with
  | none, .write _ _ _ =>
    simp only [Faithful, hinfo] at hc
  | none, .sync =>
    refine ⟨s, 0, ?_, rfl, hs⟩
    simp only [machine, syncLazyUploadBufferedFile, hinfo]
  | none, .close =>
    refine ⟨_, 0, rfl, rfl, ?_⟩
    simp only [Represents, hinfo] at hs
    exact hs
  | some f, .sync =>
    simp only [Represents, hinfo] at hs
    simp only [Faithful, hinfo] at hc
    obtain ⟨s', f', hcommit, hinfo', hs', hbuf, hobj, -⟩ := commitLocalBuffer_spec hinfo hs.1 hc
    refine ⟨s', 0, ?_, rfl, ?_⟩
    · simp only [machine, syncLazyUploadBufferedFile, hinfo, hcommit, Option.map_some]
    · exact hs'.represents hinfo' ((State.view_of_buffer_nil hbuf).trans (hobj.trans hs.2))
  | some f, .close =>
    simp only [Represents, hinfo] at hs
    simp only [Faithful, hinfo] at hc
    refine ⟨_, 0, rfl, rfl, ?_⟩
    exact (State.view_of_buffer_nil (hs.1.empty hc)).symm.trans hs.2
  | some f, .write buf offset noSpace =>
    simp only [Represents, hinfo] at hs
    simp only [Faithful, hinfo] at hc
    obtain ⟨hs, rfl⟩ := hs
    simp only [machine, writeLazyUploadBufferedFile, hinfo, direct, Call.apply]
    by_cases hback : offset < f.curLocalOffsetStart
    · simp only [hback, if_true] at hc ⊢
      obtain ⟨s', f', hcommit, hinfo', hs', hbuf, hobj, hstart⟩ :=
        commitLocalBuffer_spec hinfo hs hc.1
      simp only [hcommit]
      by_cases hempty : buf = []
      · subst hempty
        refine ⟨_, 0, rfl, rfl, ?_⟩
        have hrep := lseek_represents offset hinfo' hs'
        rwa [State.view_of_buffer_nil hbuf, hobj] at hrep
      · have hne : buf.isEmpty = false := by simpa using hempty
        have hh : honoursAppend = false := by
          cases honoursAppend with
          | true => exact absurd (hc.2 rfl) hempty
          | false => rfl
        simp only [hne, Bool.false_eq_true, if_false]
        refine ⟨_, buf.length, rfl, rfl, ?_⟩
        have hback' : offset < f'.curLocalOffsetStart := by omega
        rw [← hobj]
        exact rewrite_spec offset hinfo' hs' hbuf (hs'.commitCount_pos hback') hh
    · simp only [hback, if_false] at hc ⊢
      cases noSpace with
      | true =>
        simp only [if_true] at hc ⊢
        obtain ⟨s', f', hcommit, -, hs', hbuf, hobj, hstart⟩ :=
          commitLocalBuffer_spec hinfo hs hc.1
        have hw : BufferFaithful honoursAppend f'.curLocalOffsetStart s'.buffer.length
            s'.object.length buf offset := by
          rw [hbuf, hstart, hobj]
          exact hc.2.2
        obtain ⟨s'', hlocal, hrep⟩ := writeLocal_spec hs' (by omega) hw
        simp only [hcommit, hlocal, Option.map_some]
        refine ⟨s'', buf.length, rfl, rfl, ?_⟩
        rwa [State.view_of_buffer_nil hbuf, hobj] at hrep
      | false =>
        obtain ⟨s', hlocal, hrep⟩ := writeLocal_spec hs (by omega) hc
        simp only [hlocal, Option.map_some]
        exact ⟨s', buf.length, rfl, rfl, hrep⟩

/-! ## Whole runs -/

/-- Whatever sequence of faithful calls is made from the opening of a file to its
closing, every one returns and the object ends up with the last write to each byte. -/
theorem object_eq_lastWriteWins (honoursAppend : Bool) (calls : List Call)
    (hg : (machine honoursAppend).Guarded (Faithful honoursAppend) opened (calls ++ [.close])) :
    ∃ s os, (machine honoursAppend).run opened (calls ++ [.close]) = some (s, os) ∧
      s.info = none ∧ s.object = lastWriteWins calls := by
  obtain ⟨os, hdirect⟩ := direct_run [] (calls ++ [.close])
  rw [List.foldl_append] at hdirect
  have hagree := Machine.run_agree (n := direct) (R := Represents honoursAppend)
    (fun s content c hs hc => by
      obtain ⟨s', o, hm, hn, hs'⟩ := step_refines hs hc
      exact .inr ⟨s', _, o, hm, hn, hs'⟩)
    (opened_represents honoursAppend) hg
  rcases hagree with ⟨-, hnone⟩ | ⟨s, content, os', hrun, hdirect', hs⟩
  · rw [hnone] at hdirect
    cases hdirect
  · rw [hdirect'] at hdirect
    cases hdirect
    -- the last call was the close, so the object is all there is
    obtain ⟨t, os₁, os₂, -, hlast, -⟩ := Machine.run_append_eq_some.mp hrun
    obtain ⟨o, hclose, -⟩ := Machine.run_singleton_eq_some.mp hlast
    cases hclose
    exact ⟨_, _, hrun, rfl, hs⟩

/-- An upload, a byte that is appended, and one that finds the local disk full. -/
theorem object_eq_lastWriteWins_rewritten :
    ∃ s os, (machine true).run opened ([.write [1, 2] 0 false, .sync, .write [3] 2 false,
        .write [4] 3 true, .sync] ++ [.close]) = some (s, os) ∧ s.info = none ∧
      s.object = lastWriteWins [.write [1, 2] 0 false, .sync, .write [3] 2 false, .write [4] 3 true,
        .sync] :=
  object_eq_lastWriteWins true _ (by decide +kernel)

/-- A first write that leaves a gap is counted by its bytes: the next buffer begins inside the
object. In place, the byte at 1 is lost; appended, the gap lands behind the object. -/
theorem gap_overwrites_committed :
    ((machine true).run opened [.write [1] 1 false, .sync, .write [2] 2 false, .sync, .close]).map
        (fun r => r.1.object) = some [0, 1, 0, 2] ∧
      ((machine false).run opened [.write [1] 1 false, .sync, .write [2] 2 false, .sync, .close]).map
        (fun r => r.1.object) = some [0, 0, 2] ∧
      lastWriteWins [.write [1] 1 false, .sync, .write [2] 2 false, .sync] = [0, 1, 2] := by
  decide +kernel

end LazyUpload
