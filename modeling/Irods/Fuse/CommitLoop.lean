-- SUMMARY: When the append loop of a lazy-upload commit ends.
import Irods.Base.Rounds
import Irods.Fuse.DescFile
import Irods.Fuse.LazyUpload

open ByteFile
open DescFile (getErrno getErrno_nonneg errnoOf errnoOf_neg)

/-!
# The append loop

`_commitLocalBuffer` appends the buffer file to the object in rounds: a round reads until
the memory buffer is full, the file gives nothing or a read fails, and writes what it has
read until all is taken, nothing is taken or a write fails. The loop goes on until it has
read `curOffset` bytes. That is how many bytes the calls since the last commit wrote, and
not the length of the buffer file: where two of them wrote the same bytes the file is
shorter, and the loop goes on at its end for ever.
-/

namespace LazyUpload

open List (length_append length_drop length_take)

/-! ## The loop -/

/-- What one round is answered. `read` gives at most this many bytes, nothing at 0, and
fails below; `ifuseWrite` takes bytes in the same way; `ifuseLseek` fails below 0. -/
structure Round where
  read : Nat → Int
  ifuseLseek : Nat → Int
  ifuseWrite : Nat → Int

/-- The inner loop that reads. `rest` is what the file still has to give. -/
def readBuffer (read : Nat → Int) (i : Nat) (rest buffer : List Byte) (status : Int) :
    List Byte × List Byte × Int :=
  if buffer.length < FUSE_LAZY_UPLOAD_MEM_BUFFER_SIZE then
    let readLen : Int := min (read i) (min (FUSE_LAZY_UPLOAD_MEM_BUFFER_SIZE - buffer.length) rest.length : Nat)
    if 0 < readLen then
      readBuffer read (i + 1) (rest.drop readLen.toNat) (buffer ++ rest.take readLen.toNat) status
    else if readLen = 0 then (buffer, rest, status)
    else (buffer, rest, getErrno readLen)
  else (buffer, rest, status)
termination_by FUSE_LAZY_UPLOAD_MEM_BUFFER_SIZE - buffer.length
decreasing_by
  simp only [length_append, length_take]
  omega

/-- The inner loop that writes what the round has read from `totalWriteLen` on. What the
server took, and where it was to go, is added to `accepted`. -/
def writeBuffer (r : Round) (start i totalWriteLen : Nat) (todo : List Byte) (status : Int)
    (accepted : List (Nat × List Byte)) : Except Int (Int × List (Nat × List Byte)) :=
  if 0 < todo.length then
    if r.ifuseLseek i < 0 then .error (errnoOf (r.ifuseLseek i))
    else
      let writeLen : Int := min (r.ifuseWrite i) todo.length
      if 0 < writeLen then
        writeBuffer r start (i + 1) (totalWriteLen + writeLen.toNat) (todo.drop writeLen.toNat) (r.ifuseLseek i)
          (accepted ++ [(start + totalWriteLen, todo.take writeLen.toNat)])
      else if writeLen = 0 then .ok (r.ifuseLseek i, accepted)
      else .ok (getErrno writeLen, accepted)
  else .ok (status, accepted)
termination_by todo.length
decreasing_by
  simp only [length_drop]
  omega

structure LoopVars where
  rest : List Byte
  grandTotalReadLen : Int
  status : Int
  accepted : List (Nat × List Byte)
  deriving DecidableEq

/-- One pass of the outer loop. A seek that fails leaves `_commitLocalBuffer`. -/
def appendRound (env : Nat → Round) (start curOffset : Nat) (n : Nat) (l : LoopVars) :
    LoopVars ⊕ Except Int LoopVars :=
  if l.grandTotalReadLen < curOffset then
    let (buffer, rest, status) := readBuffer (env n).read 0 l.rest [] l.status
    let written :=
      if 0 ≤ status then writeBuffer (env n) start 0 0 buffer status l.accepted
      else .ok (status, l.accepted)
    match written with
    | .error e => .inr (.error e)
    | .ok (status', accepted) =>
      .inl { rest := rest
             grandTotalReadLen := int32 (l.grandTotalReadLen + buffer.length)
             status := status'
             accepted := accepted }
  else .inr (.ok l)

def loopStart (file : List Byte) : LoopVars :=
  { rest := file, grandTotalReadLen := 0, status := 0, accepted := [] }

/-- The loop over the buffer file `file`, for at most `fuel` rounds. -/
def appendLoop (env : Nat → Round) (start curOffset : Nat) (file : List Byte) (fuel : Nat) :
    Option (Except Int LoopVars) :=
  Rounds.run (appendRound env start curOffset) fuel 0 (loopStart file)

/-- The loop ends, by itself or through a seek that fails. -/
def AppendLoopEnds (env : Nat → Round) (start curOffset : Nat) (file : List Byte) : Prop :=
  ∃ fuel, (appendLoop env start curOffset file fuel).isSome = true

/-! ## What the environment's answers come to -/

/-- The bytes that the reads from the `i`-th on would give before the first that gives
none, if at most `n` of them are made. -/
def offeredFrom (read : Nat → Int) : Nat → Nat → Nat
  | 0, _ => 0
  | n + 1, i => if read i ≤ 0 then 0 else (read i).toNat + offeredFrom read n (i + 1)

/-- The bytes one round can be given: no more than the memory buffer holds. -/
def Round.offered (r : Round) : Nat :=
  min FUSE_LAZY_UPLOAD_MEM_BUFFER_SIZE (offeredFrom r.read FUSE_LAZY_UPLOAD_MEM_BUFFER_SIZE 0)

/-- The bytes of a file of `length` bytes that the first `n` rounds are given. -/
def given (env : Nat → Round) (length n : Nat) : Nat :=
  min length ((List.range n).map fun r => (env r).offered).sum

/-- The bytes that the first `i` writes of a round would take. -/
def Round.taken (r : Round) (i : Nat) : Nat := ((List.range i).map fun j => (r.ifuseWrite j).toNat).sum

/-- With `d` bytes to write a round comes to its `i`-th seek: what is before it succeeds
and does not take all. -/
def Round.ComesTo (r : Round) (d i : Nat) : Prop :=
  (∀ j < i, 0 ≤ r.ifuseLseek j ∧ 0 < r.ifuseWrite j) ∧ r.taken i < d

/-- A seek fails before the `d` bytes of a round are written. -/
def Round.SeekFails (r : Round) (d : Nat) : Prop := ∃ i, r.ComesTo d i ∧ r.ifuseLseek i < 0

/-- A write takes nothing before the `d` bytes of a round are written. -/
def Round.Refuses (r : Round) (d : Nat) : Prop :=
  ∃ i, r.ComesTo d i ∧ 0 ≤ r.ifuseLseek i ∧ r.ifuseWrite i ≤ 0

/-- The bytes that round `n` is given of a file of `length` bytes. -/
def givenIn (env : Nat → Round) (length n : Nat) : Nat := given env length (n + 1) - given env length n

/-- Round `n` begins with as many bytes read as were written, counted in an `int`, or a
seek in it fails. -/
def LeavesIn (env : Nat → Round) (curOffset length n : Nat) : Prop :=
  (curOffset : Int) ≤ int32 (given env length n) ∨ (env n).SeekFails (givenIn env length n)

variable (env : Nat → Round) (length n : Nat)

theorem given_succ : given env length (n + 1) = min length (given env length n + (env n).offered) := by
  simp only [given, List.range_succ, List.map_append, List.map_cons, List.map_nil, List.sum_append,
    List.sum_cons, List.sum_nil]
  omega

theorem given_le : given env length n ≤ length := Nat.min_le_left _ _

theorem given_le_succ : given env length n ≤ given env length (n + 1) := by
  have := given_le env length n
  rw [given_succ]
  omega

theorem Round.taken_succ (r : Round) (i : Nat) : r.taken (i + 1) = r.taken i + (r.ifuseWrite i).toNat := by
  simp [taken, List.range_succ]

variable {n : Nat}

/-- Reads past the first `m` cannot matter for `m` bytes. -/
theorem min_offeredFrom (read : Nat → Int) {m : Nat} (hmn : m ≤ n) (i : Nat) :
    min m (offeredFrom read n i) = min m (offeredFrom read m i) := by
  induction m generalizing n i with
  | zero => simp
  | succ m ih =>
    obtain ⟨n, rfl⟩ : ∃ k, n = k + 1 := ⟨n - 1, by omega⟩
    have h := ih (show m ≤ n by omega) (i + 1)
    simp only [offeredFrom]
    split
    · rfl
    · omega

/-! ## The inner loops -/

/-- The loop reads as many bytes as there is room for, as the reads offer and as the file has. The
status stays nonnegative: `getErrno` makes an error positive. -/
theorem readBuffer_spec (read : Nat → Int) (i : Nat) (rest buffer : List Byte) {status : Int}
    (hstatus : 0 ≤ status) :
    ∃ k status', readBuffer read i rest buffer status = (buffer ++ rest.take k, rest.drop k, status') ∧
      0 ≤ status' ∧
      k = min rest.length (min (FUSE_LAZY_UPLOAD_MEM_BUFFER_SIZE - buffer.length)
        (offeredFrom read (FUSE_LAZY_UPLOAD_MEM_BUFFER_SIZE - buffer.length) i)) := by
  induction hroom : FUSE_LAZY_UPLOAD_MEM_BUFFER_SIZE - buffer.length using Nat.strong_induction_on
    generalizing i rest buffer with
  | _ room ih =>
    unfold readBuffer
    by_cases hfull : buffer.length < FUSE_LAZY_UPLOAD_MEM_BUFFER_SIZE
    swap
    · exact ⟨0, status, by simp [hfull], hstatus, by omega⟩
    simp only [hfull, if_true, hroom]
    obtain ⟨left, rfl⟩ : ∃ left, room = left + 1 := ⟨room - 1, by omega⟩
    simp only [offeredFrom]
    by_cases hpos : 0 < min (read i) (min (left + 1) rest.length : Nat)
    · -- some bytes come, and the rest of the loop has less room
      obtain ⟨k, hk⟩ : ∃ k : Nat, min (read i) (min (left + 1) rest.length : Nat) = k :=
        ⟨_, (Int.toNat_of_nonneg (by omega)).symm⟩
      simp only [hk, Int.toNat_natCast] at hpos ⊢
      have hlen : (buffer ++ rest.take k).length = buffer.length + k := by
        simp only [length_append, length_take]
        omega
      have hroom' : FUSE_LAZY_UPLOAD_MEM_BUFFER_SIZE - (buffer ++ rest.take k).length = left + 1 - k := by
        omega
      obtain ⟨k', status', heq, hstatus', hk'⟩ :=
        ih (left + 1 - k) (by omega) (i + 1) (rest.drop k) (buffer ++ rest.take k) hroom'
      refine ⟨k + k', status', ?_, hstatus', ?_⟩
      · rw [if_pos hpos, heq, List.append_assoc, List.take_add, List.drop_drop]
      · have hoffer := min_offeredFrom read (show left + 1 - k ≤ left by omega) (i + 1)
        rw [hk', length_drop, if_neg (by omega)]
        omega
    · rw [if_neg hpos]
      by_cases hzero : min (read i) (min (left + 1) rest.length : Nat) = 0
      · rw [if_pos hzero]
        refine ⟨0, status, by simp, hstatus, ?_⟩
        split <;> omega
      · rw [if_neg hzero, if_pos (by omega)]
        refine ⟨0, getErrno (min (read i) (min (left + 1) rest.length : Nat)), by simp,
          getErrno_nonneg _, by omega⟩

variable {i j : Nat}

theorem Round.taken_mono (r : Round) (hij : i ≤ j) : r.taken i ≤ r.taken j := by
  induction j, hij using Nat.le_induction with
  | base => exact le_rfl
  | succ j _ ih =>
    rw [taken_succ]
    omega

variable {d : Nat} {r : Round}

/-- A round stops in one pass only. -/
theorem Round.ComesTo.eq (hi : r.ComesTo d i) (hj : r.ComesTo d j) (hstop : r.ifuseLseek i < 0 ∨ r.ifuseWrite i ≤ 0)
    (hstop' : r.ifuseLseek j < 0 ∨ r.ifuseWrite j ≤ 0) : i = j := by
  rcases Nat.lt_trichotomy i j with hlt | heq | hlt
  · have := hj.1 i hlt
    omega
  · exact heq
  · have := hi.1 j hlt
    omega

/-- A round whose first writes take everything does not stop before. -/
theorem Round.not_comesTo_of_taken (hbefore : ∀ j < i, 0 ≤ r.ifuseLseek j ∧ 0 < r.ifuseWrite j) (hall : d ≤ r.taken i)
    (hstop : r.ifuseLseek j < 0 ∨ r.ifuseWrite j ≤ 0) : ¬ r.ComesTo d j := by
  intro hj
  by_cases hlt : j < i
  · have := hbefore j hlt
    omega
  · have := r.taken_mono (Nat.le_of_not_lt hlt)
    have := hj.2
    omega

def acceptedBytes (accepted : List (Nat × List Byte)) : List Byte := accepted.flatMap Prod.snd

@[simp] theorem acceptedBytes_append (a b : List (Nat × List Byte)) :
    acceptedBytes (a ++ b) = acceptedBytes a ++ acceptedBytes b := by
  simp [acceptedBytes]

/-- The loop that writes, at its `i`-th pass with `d` bytes in all: it leaves with a seek
that fails, or takes everything, or stops at a write that takes nothing. -/
theorem writeBuffer_spec (r : Round) (start i totalWriteLen : Nat) {d : Nat} {todo : List Byte}
    {status : Int} (accepted : List (Nat × List Byte)) (hstatus : 0 ≤ status)
    (hbefore : ∀ j < i, 0 ≤ r.ifuseLseek j ∧ 0 < r.ifuseWrite j) (hlen : todo.length = d - r.taken i) :
    (∃ e, writeBuffer r start i totalWriteLen todo status accepted = .error e ∧ e < 0 ∧ r.SeekFails d) ∨
    (∃ status' more, writeBuffer r start i totalWriteLen todo status accepted = .ok (status', accepted ++ more) ∧
      0 ≤ status' ∧ ¬ r.SeekFails d ∧
      (acceptedBytes more = todo ∧ ¬ r.Refuses d ∨ (acceptedBytes more).length < todo.length ∧ r.Refuses d)) := by
  induction hlength : todo.length using Nat.strong_induction_on
    generalizing i totalWriteLen todo status accepted with
  | _ length ih =>
    unfold writeBuffer
    by_cases htodo : 0 < todo.length
    swap
    · -- everything is taken
      have hall : d ≤ r.taken i := by omega
      have hnil : todo = [] := List.eq_nil_of_length_eq_zero (by omega)
      refine .inr ⟨status, [], by simp [htodo], hstatus, ?_, .inl ⟨hnil.symm, ?_⟩⟩
      · rintro ⟨j, hj, hseek⟩
        exact Round.not_comesTo_of_taken hbefore hall (.inl hseek) hj
      · rintro ⟨j, hj, -, hwrite⟩
        exact Round.not_comesTo_of_taken hbefore hall (.inr hwrite) hj
    have hcomes : r.ComesTo d i := ⟨hbefore, by omega⟩
    rw [if_pos htodo]
    by_cases hseek : r.ifuseLseek i < 0
    · rw [if_pos hseek]
      exact .inl ⟨_, rfl, errnoOf_neg _, i, hcomes, hseek⟩
    rw [if_neg hseek]
    by_cases hpos : 0 < min (r.ifuseWrite i) todo.length
    · -- some bytes are taken
      obtain ⟨k, hk⟩ : ∃ k : Nat, min (r.ifuseWrite i) todo.length = k :=
        ⟨_, (Int.toNat_of_nonneg (by omega)).symm⟩
      simp only [hk, Int.toNat_natCast] at hpos ⊢
      rw [if_pos hpos]
      have hbefore' : ∀ j < i + 1, 0 ≤ r.ifuseLseek j ∧ 0 < r.ifuseWrite j := by
        intro j hj
        rcases Nat.lt_succ_iff_lt_or_eq.mp hj with hlt | rfl
        · exact hbefore j hlt
        · omega
      have hlen' : (todo.drop k).length = d - r.taken (i + 1) := by
        rw [length_drop, r.taken_succ]
        omega
      have hless : (todo.drop k).length < length := by
        rw [length_drop]
        omega
      rcases ih _ hless (i + 1) (totalWriteLen + k) (accepted ++ [(start + totalWriteLen, todo.take k)])
          (show 0 ≤ r.ifuseLseek i by omega) hbefore' hlen' rfl with
            hfail | ⟨status', more, heq, hstatus', hseeks, htaken⟩
      · exact .inl hfail
      · refine .inr ⟨status', (start + totalWriteLen, todo.take k) :: more, ?_, hstatus', hseeks, ?_⟩
        · rw [heq, List.append_assoc, List.singleton_append]
        · have hcons : acceptedBytes ((start + totalWriteLen, todo.take k) :: more) =
              todo.take k ++ acceptedBytes more := rfl
          rw [hcons]
          rcases htaken with ⟨hbytes, hnot⟩ | ⟨hfew, hrefuses⟩
          · exact .inl ⟨by rw [hbytes, List.take_append_drop], hnot⟩
          · refine .inr ⟨?_, hrefuses⟩
            simp only [length_append, length_take, length_drop] at hfew ⊢
            omega
    · -- the write takes nothing
      have hwrite : r.ifuseWrite i ≤ 0 := by omega
      have hrefuses : r.Refuses d := ⟨i, hcomes, by omega, hwrite⟩
      have hseeks : ¬ r.SeekFails d := by
        rintro ⟨j, hj, hseek'⟩
        have := hcomes.eq hj (.inr hwrite) (.inl hseek')
        subst this
        exact hseek hseek'
      have hnone : (acceptedBytes []).length < length := by
        simp only [acceptedBytes, List.flatMap_nil, List.length_nil]
        omega
      rw [if_neg hpos]
      by_cases hzero : min (r.ifuseWrite i) todo.length = 0
      · rw [if_pos hzero]
        exact .inr ⟨_, [], by rw [List.append_nil], by omega, hseeks, .inr ⟨hnone, hrefuses⟩⟩
      · rw [if_neg hzero]
        exact .inr ⟨_, [], by rw [List.append_nil], getErrno_nonneg _, hseeks, .inr ⟨hnone, hrefuses⟩⟩

/-! ## The outer loop -/

/-- The server took what was read, or some round's write took nothing and bytes are lost. -/
def Took (env : Nat → Round) (file : List Byte) (n : Nat) (accepted : List (Nat × List Byte)) : Prop :=
  (acceptedBytes accepted = file.take (given env file.length n) ∧
    ∀ m < n, ¬ (env m).Refuses (givenIn env file.length m)) ∨
  ((acceptedBytes accepted).length < given env file.length n ∧
    ∃ m < n, (env m).Refuses (givenIn env file.length m))

/-- The loop's variables before round `n`. -/
structure LoopVars.At (env : Nat → Round) (file : List Byte) (n : Nat) (l : LoopVars) : Prop where
  rest : l.rest = file.drop (given env file.length n)
  count : l.grandTotalReadLen = int32 (given env file.length n)
  status : 0 ≤ l.status
  took : Took env file n l.accepted

theorem loopStart_at (env : Nat → Round) (file : List Byte) : LoopVars.At env file 0 (loopStart file) := by
  have hnone : given env file.length 0 = 0 := by simp [given]
  refine ⟨?_, ?_, Int.le_refl 0, .inl ⟨?_, fun m hm => absurd hm (Nat.not_lt_zero m)⟩⟩
  · rw [hnone, List.drop_zero]
    rfl
  · rw [hnone]
    rfl
  · rw [hnone, List.take_zero]
    rfl

variable {file : List Byte}

theorem Took.next {env : Nat → Round} {accepted more : List (Nat × List Byte)} (h : Took env file n accepted)
    (hmore : acceptedBytes more = (file.drop (given env file.length n)).take (givenIn env file.length n) ∧
        ¬ (env n).Refuses (givenIn env file.length n) ∨
      (acceptedBytes more).length < givenIn env file.length n ∧ (env n).Refuses (givenIn env file.length n)) :
    Took env file (n + 1) (accepted ++ more) := by
  have hle := given_le_succ env file.length n
  have hsum : given env file.length (n + 1) = given env file.length n + givenIn env file.length n := by
    simp only [givenIn]
    omega
  rw [Took, acceptedBytes_append, length_append]
  rcases h with ⟨hall, hnone⟩ | ⟨hfew, m, hm, hrefuses⟩ <;> rcases hmore with ⟨hall', hnot⟩ | ⟨hfew', hrefuses'⟩
  · refine .inl ⟨?_, fun m hm => ?_⟩
    · rw [hall, hall', hsum, List.take_add]
    · rcases Nat.lt_succ_iff_lt_or_eq.mp hm with hlt | rfl
      · exact hnone m hlt
      · exact hnot
  · refine .inr ⟨?_, n, Nat.lt_succ_self n, hrefuses'⟩
    rw [hall, length_take]
    omega
  · refine .inr ⟨?_, m, by omega, hrefuses⟩
    rw [hall', length_take, length_drop]
    omega
  · exact .inr ⟨by omega, m, by omega, hrefuses⟩

variable {l : LoopVars}

/-- One pass of the outer loop leaves by itself, leaves through a seek, or goes on. -/
theorem appendRound_spec {env : Nat → Round} (start curOffset : Nat) (h : l.At env file n) :
    ((curOffset : Int) ≤ int32 (given env file.length n) ∧ appendRound env start curOffset n l = .inr (.ok l)) ∨
    (¬ (curOffset : Int) ≤ int32 (given env file.length n) ∧
      (env n).SeekFails (givenIn env file.length n) ∧
      ∃ e < 0, appendRound env start curOffset n l = .inr (.error e)) ∨
    (¬ LeavesIn env curOffset file.length n ∧
      ∃ l', appendRound env start curOffset n l = .inl l' ∧ l'.At env file (n + 1)) := by
  by_cases hdone : (curOffset : Int) ≤ int32 (given env file.length n)
  · refine .inl ⟨hdone, ?_⟩
    rw [appendRound, if_neg (by rw [h.count]; omega)]
  refine .inr ?_
  obtain ⟨k, status', hread, hstatus', hk⟩ := readBuffer_spec (env n).read 0 l.rest [] h.status
  have hle := given_le_succ env file.length n
  have hgiven : k = givenIn env file.length n := by
    rw [hk, givenIn, given_succ, h.rest, length_drop]
    simp only [Round.offered, List.length_nil, Nat.sub_zero]
    omega
  have hsum : given env file.length (n + 1) = given env file.length n + k := by
    rw [hgiven, givenIn]
    omega
  have hbuffer : (l.rest.take k).length = k := by
    rw [length_take]
    omega
  rw [List.nil_append] at hread
  simp only [appendRound, h.count, Int.not_le.mp hdone, if_true, hread, hstatus']
  rcases @writeBuffer_spec (env n) start 0 0 k (l.rest.take k) _ l.accepted hstatus'
      (fun j hj => absurd hj (Nat.not_lt_zero j)) (by simp [Round.taken, hbuffer]) with
    ⟨e, hwrite, he, hseek⟩ | ⟨status'', more, hwrite, hstatus'', hseek, htook⟩
  · rw [hgiven] at hseek
    exact .inl ⟨hdone, hseek, e, he, by rw [hwrite]⟩
  · rw [hgiven] at hseek
    refine .inr ⟨?_, _, by rw [hwrite], ?_, ?_, hstatus'', ?_⟩
    · rintro (hdone' | hseek')
      · exact hdone hdone'
      · exact hseek hseek'
    · rw [h.rest, List.drop_drop, hsum]
    · rw [int32_add, hbuffer, hsum, Int.natCast_add]
    · rw [hbuffer, hgiven, h.rest] at htook
      exact h.took.next htook

variable {curOffset start : Nat}

variable {env : Nat → Round}

theorem before_at
    (h : Rounds.before (appendRound env start curOffset) (loopStart file) n = some l) : l.At env file n := by
  refine Rounds.before_invariant (fun n l => LoopVars.At env file n l) (loopStart_at env file) ?_ h
  intro n l l' hl hstep
  rcases appendRound_spec start curOffset hl with ⟨-, heq⟩ | ⟨-, -, e, -, heq⟩ | ⟨-, m, heq, hm⟩
  · rw [heq] at hstep
    cases hstep
  · rw [heq] at hstep
    cases hstep
  · rw [heq] at hstep
    cases hstep
    exact hm

/-- The loop ends if and only if one of its rounds can leave it. -/
theorem appendLoopEnds_iff (env : Nat → Round) (start curOffset : Nat) (file : List Byte) :
    AppendLoopEnds env start curOffset file ↔ ∃ n, LeavesIn env curOffset file.length n := by
  have hends : AppendLoopEnds env start curOffset file ↔
      ∃ r, Rounds.EndsWith (appendRound env start curOffset) (loopStart file) r := by
    simp only [AppendLoopEnds, Rounds.EndsWith, Option.isSome_iff_exists, appendLoop]
    exact exists_comm
  rw [hends]
  refine Rounds.ends_iff fun n l hl => ?_
  rcases appendRound_spec start curOffset (before_at hl) with ⟨hdone, heq⟩ | ⟨-, hseek, e, -, heq⟩ | ⟨hnot, l', heq, -⟩
  · exact ⟨fun _ => ⟨_, heq⟩, fun _ => .inl hdone⟩
  · exact ⟨fun _ => ⟨_, heq⟩, fun _ => .inr hseek⟩
  · refine ⟨fun h => absurd h hnot, ?_⟩
    rintro ⟨r, hr⟩
    rw [heq] at hr
    cases hr

/-- A round is come to if the loop could not be left before. -/
theorem before_iff (env : Nat → Round) (start curOffset : Nat) (file : List Byte) (n : Nat) :
    (∃ l, Rounds.before (appendRound env start curOffset) (loopStart file) n = some l) ↔
      ∀ m < n, ¬ LeavesIn env curOffset file.length m := by
  constructor
  · rintro ⟨l, hl⟩
    refine (Rounds.before_invariant
      (fun n l => l.At env file n ∧ ∀ m < n, ¬ LeavesIn env curOffset file.length m)
      ⟨loopStart_at env file, fun m hm => absurd hm (Nat.not_lt_zero m)⟩ ?_ hl).2
    rintro n l l' ⟨hat, hbefore⟩ hstep
    rcases appendRound_spec start curOffset hat with ⟨-, heq⟩ | ⟨-, -, e, -, heq⟩ | ⟨hnot, m, heq, hm⟩
    · rw [heq] at hstep
      cases hstep
    · rw [heq] at hstep
      cases hstep
    · rw [heq] at hstep
      cases hstep
      refine ⟨hm, fun k hk => ?_⟩
      rcases Nat.lt_succ_iff_lt_or_eq.mp hk with hlt | rfl
      · exact hbefore k hlt
      · exact hnot
  · intro h
    by_contra hnone
    simp only [not_exists] at hnone
    obtain ⟨r, m, hm, l, hl, hleft⟩ := Rounds.endsWith_of_before_eq_none (Option.eq_none_iff_forall_ne_some.mpr hnone)
    rcases appendRound_spec start curOffset (before_at hl) with ⟨hdone, -⟩ | ⟨-, hseek, -⟩ | ⟨-, l', heq, -⟩
    · exact h m hm (.inl hdone)
    · exact h m hm (.inr hseek)
    · rw [heq] at hleft
      cases hleft

/-- A loop that is left through a seek gives a negative status. -/
theorem appendLoop_error_neg {fuel : Nat} {e : Int}
    (h : appendLoop env start curOffset file fuel = some (.error e)) : e < 0 := by
  obtain ⟨n, l, hl, hleft⟩ := Rounds.endsWith_iff.mp ⟨fuel, h⟩
  rcases appendRound_spec start curOffset (before_at hl) with ⟨-, heq⟩ | ⟨-, -, e', he', heq⟩ | ⟨-, l', heq, -⟩
  · rw [heq] at hleft
    cases hleft
  · rw [heq] at hleft
    cases hleft
    exact he'
  · rw [heq] at hleft
    cases hleft

/-- In the first round in which the loop can be left it has read enough and all of the
file, and no write before took nothing. -/
def AllTaken (env : Nat → Round) (curOffset length : Nat) : Prop :=
  ∀ n, (∀ m < n, ¬ LeavesIn env curOffset length m) → LeavesIn env curOffset length n →
    (curOffset : Int) ≤ int32 (given env length n) ∧ given env length n = length ∧
      ∀ m < n, ¬ (env m).Refuses (givenIn env length m)

theorem Took.all_iff {accepted : List (Nat × List Byte)} (h : Took env file n accepted) :
    acceptedBytes accepted = file ↔
      given env file.length n = file.length ∧ ∀ m < n, ¬ (env m).Refuses (givenIn env file.length m) := by
  have hle := given_le env file.length n
  rcases h with ⟨hall, hnone⟩ | ⟨hfew, m, hm, hrefuses⟩
  · constructor
    · intro hfile
      refine ⟨?_, hnone⟩
      have hlen := congrArg List.length (hall.symm.trans hfile)
      rw [length_take] at hlen
      omega
    · rintro ⟨hgiven, -⟩
      rw [hall, hgiven, List.take_length]
  · constructor
    · intro hfile
      rw [hfile] at hfew
      omega
    · rintro ⟨-, hnone⟩
      exact absurd hrefuses (hnone m hm)

/-- When the loop, if it ends, ends by itself with all of the file uploaded. -/
theorem appendLoop_uploads_iff (env : Nat → Round) (start curOffset : Nat) (file : List Byte) :
    (∀ fuel r, appendLoop env start curOffset file fuel = some r →
      ∃ l, r = .ok l ∧ acceptedBytes l.accepted = file) ↔ AllTaken env curOffset file.length := by
  constructor
  · intro h n hbefore hleaves
    obtain ⟨l, hl⟩ := (before_iff env start curOffset file n).mpr hbefore
    have hat := before_at hl
    have hend : ∀ r, appendRound env start curOffset n l = .inr r →
        ∃ l, r = .ok l ∧ acceptedBytes l.accepted = file := by
      intro r hr
      obtain ⟨fuel, hrun⟩ := Rounds.endsWith_iff.mpr ⟨n, l, hl, hr⟩
      exact h fuel r hrun
    rcases appendRound_spec start curOffset hat with ⟨hdone, heq⟩ | ⟨-, -, e, -, heq⟩ | ⟨hnot, -⟩
    · obtain ⟨l', hl', hfile⟩ := hend _ heq
      cases hl'
      exact ⟨hdone, hat.took.all_iff.mp hfile⟩
    · obtain ⟨l', hl', -⟩ := hend _ heq
      cases hl'
    · exact absurd hleaves hnot
  · intro h fuel r hrun
    obtain ⟨n, l, hl, hleft⟩ := Rounds.endsWith_iff.mp ⟨fuel, hrun⟩
    have hbefore := (before_iff env start curOffset file n).mp ⟨l, hl⟩
    have hat := before_at hl
    rcases appendRound_spec start curOffset hat with ⟨hdone, heq⟩ | ⟨hnot, hseek, -⟩ | ⟨-, l', heq, -⟩
    · rw [heq] at hleft
      cases hleft
      exact ⟨l, rfl, hat.took.all_iff.mpr (h n hbefore (.inl hdone)).2⟩
    · exact absurd (h n hbefore (.inr hseek)).1 hnot
    · rw [heq] at hleft
      cases hleft

/-- A file shorter than what is to be read keeps the loop going at its end. -/
theorem appendLoop_forever (start : Nat) (hshort : file.length < curOffset)
    (hfits : file.length < intBound) (hseek : ∀ n i, 0 ≤ (env n).ifuseLseek i) :
    ¬ AppendLoopEnds env start curOffset file := by
  rw [appendLoopEnds_iff]
  rintro ⟨n, hdone | ⟨i, -, hi⟩⟩
  · have hle := given_le env file.length n
    rw [int32_eq_self (by omega) (by omega)] at hdone
    omega
  · have := hseek n i
    omega

/-! ## After any writes -/

/-- The state a commit leaves. -/
def committed (desc : IFuseDesc) (commitCount start : Nat) : State :=
  { info := some { commitCount := commitCount, curLocalOffsetStart := start, curOffset := 0 }
    buffer := []
    desc := desc }

/-- A write into the buffer, so many bytes behind its start. -/
def bufferedWrite (start : Nat) (w : List Byte × Nat) : Call := .write w.1 (start + w.2) false

/-- The bytes that the writes count, rewritten ones again. -/
def written (history : List (List Byte × Nat)) : Nat := (history.map fun w => w.1.length).sum

/-- Where the last of the bytes ends. -/
def reach (history : List (List Byte × Nat)) : Nat :=
  (history.map fun w => if w.1 = [] then 0 else w.2 + w.1.length).foldr max 0

theorem length_writeAt_max (file d : List Byte) (off : Nat) :
    (writeAt file off d).length = max file.length (if d = [] then 0 else off + d.length) := by
  by_cases hd : d = []
  · simp [hd]
  · rw [length_writeAt hd, if_neg hd]

/-- The offset counts all bytes, the buffer only its length. -/
theorem run_bufferedWrites (honoursAppend : Bool) {s : State} {f : LazyUploadFileInfo} (hinfo : s.info = some f)
    (history : List (List Byte × Nat)) :
    ∃ s' os, (machine honoursAppend).run s (history.map (bufferedWrite f.curLocalOffsetStart)) = some (s', os) ∧
      s'.info = some { f with curOffset := f.curOffset + written history } ∧
      s'.buffer.length = max s.buffer.length (reach history) := by
  induction history generalizing s f with
  | nil => exact ⟨s, [], rfl, by simpa [written] using hinfo, by simp [reach]⟩
  | cons w history ih =>
    obtain ⟨buf, off⟩ := w
    have hstep : (machine honoursAppend).step s (bufferedWrite f.curLocalOffsetStart (buf, off)) =
        some ({ s with info := some { f with curOffset := f.curOffset + buf.length }
                       buffer := writeAt s.buffer off buf }, buf.length) := by
      have hnot : ¬ f.curLocalOffsetStart + off < f.curLocalOffsetStart := by omega
      simp only [machine, bufferedWrite, writeLazyUploadBufferedFile, hinfo, writeLocal, hnot, if_false,
        Bool.false_eq_true, Option.map_some, Nat.add_sub_cancel_left]
    obtain ⟨s', os, hrun, hinfo', hlen⟩ := @ih
      { s with info := some { f with curOffset := f.curOffset + buf.length }
               buffer := writeAt s.buffer off buf } { f with curOffset := f.curOffset + buf.length } rfl
    refine ⟨s', buf.length :: os, ?_, ?_, ?_⟩
    · exact Machine.run_cons_eq_some.mpr ⟨_, _, _, hstep, hrun, rfl⟩
    · rw [hinfo']
      simp [written, Nat.add_assoc]
    · rw [hlen, length_writeAt_max, Nat.max_assoc]
      rfl

/-- Whatever was written since a commit and is answered to the next: its loop ends if and only if in
some round as many bytes have been read as were written, counted in an `int`, or a seek fails. No
more can be read than up to the last byte. -/
theorem commit_ends_iff (honoursAppend : Bool) (desc : IFuseDesc) (commitCount start : Nat)
    (history : List (List Byte × Nat)) (env : Nat → Round) :
    ∃ s os, (machine honoursAppend).run (committed desc commitCount start)
        (history.map (bufferedWrite start)) = some (s, os) ∧
      ∃ f, s.info = some f ∧ (AppendLoopEnds env f.curLocalOffsetStart f.curOffset s.buffer ↔
        ∃ n, LeavesIn env (written history) (reach history) n) := by
  obtain ⟨s, os, hrun, hinfo, hlen⟩ :=
    run_bufferedWrites honoursAppend (s := committed desc commitCount start) rfl history
  refine ⟨s, os, hrun, _, hinfo, ?_⟩
  have hreach : s.buffer.length = reach history := by
    rw [hlen]
    exact Nat.zero_max _
  simp only [appendLoopEnds_iff, hreach, Nat.zero_add]

/-- One byte uploaded, and one behind it written twice: the buffer file has one byte, and
two are waited for. -/
theorem rewritten_byte_never_ends :
    ∃ s os f, (machine true).run opened [.write [1] 0 false, .sync, .write [2] 1 false, .write [3] 1 false] =
        some (s, os) ∧ s.info = some f ∧
      ¬ AppendLoopEnds (fun _ => ⟨fun _ => 512000, fun _ => 0, fun _ => 512000⟩) f.curLocalOffsetStart
        f.curOffset s.buffer :=
  ⟨_, _, _, rfl, rfl, appendLoop_forever 1 (by decide) (by decide) fun _ _ => Int.le_refl 0⟩

end LazyUpload
