-- SUMMARY: The buffered isio stream refines the direct one.
import Irods.Isio.Stream

open ByteFile
open Option (map_map map_some)

/-!
# Refinement of the unbuffered calls

`Stream.view` is the descriptor an application without a buffer would hold: the
pending writes applied, the prefetched bytes given back. A coherent buffer holds
either pending writes, or prefetched bytes, or neither, and what it holds is what
`view` assumes it to be; in the memory of the application it holds neither. Every call
keeps coherence and acts on `view` and on that memory like the direct call, in the states
its guard allows.
-/

namespace Isio

/-- The descriptor as the application sees it. -/
def Stream.view (s : Stream) : OpenedDataObj :=
  { content := writeAt s.obj.content s.obj.pos (s.cache.base.take s.cache.written)
    pos := s.obj.pos + s.cache.written - s.cache.count.toNat }

/-- What the buffer holds is what its counters say. -/
structure Stream.Coherent (s : Stream) : Prop where
  pending : 0 < s.cache.written →
    s.cache.ptr = s.cache.written ∧ s.cache.count ≤ 0 ∧ s.cache.written ≤ s.cache.base.length
  prefetched : 0 < s.cache.count →
    s.cache.count.toNat ≤ s.obj.pos ∧
    readAt s.cache.base s.cache.ptr s.cache.count.toNat =
      readAt s.obj.content (s.obj.pos - s.cache.count.toNat) s.cache.count.toNat ∧
    s.obj.pos ≤ s.obj.content.length
  users : s.cache.usingUsersBuffer = true → s.cache.count ≤ 0 ∧ s.cache.written = 0

variable {s : Stream}

theorem Stream.buffer_own (h : s.cache.usingUsersBuffer = false) : s.buffer = s.cache.base := by
  simp [buffer, h]

theorem Stream.setBuffer_own (h : s.cache.usingUsersBuffer = false) (bs : List Byte) :
    s.setBuffer bs = { s with cache := { s.cache with base := bs } } := by
  simp [setBuffer, h]

/-- Pending writes and prefetched bytes are in a buffer of the library's own. -/
theorem Stream.Coherent.own (h : s.Coherent) (hbusy : 0 < s.cache.written ∨ 0 < s.cache.count) :
    s.cache.usingUsersBuffer = false := by
  cases hu : s.cache.usingUsersBuffer with
  | false => rfl
  | true =>
    have := h.users hu
    omega

theorem Stream.Coherent.written_eq_zero (h : s.Coherent) (hc : 0 < s.cache.count) : s.cache.written = 0 := by
  by_contra hw
  have := (h.pending (by omega)).2.1
  omega

/-- With nothing in the buffer the application sees the server's descriptor. -/
theorem Stream.view_eq_obj (hw : s.cache.written = 0) (hc : s.cache.count ≤ 0) : s.view = s.obj := by
  have hn : s.cache.count.toNat = 0 := by omega
  simp [view, hw, hn]

/-- With bytes prefetched the application is that much behind. -/
theorem Stream.view_of_prefetched (hw : s.cache.written = 0) :
    s.view = { s.obj with pos := s.obj.pos - s.cache.count.toNat } := by
  simp [view, hw]

theorem isioFileOpen_coherent (obj : OpenedDataObj) : (isioFileOpen obj).Coherent where
  pending := by simp [isioFileOpen]
  prefetched := by simp [isioFileOpen]
  users := by simp [isioFileOpen]

theorem isioFileOpen_view (obj : OpenedDataObj) : (isioFileOpen obj).view = obj :=
  Stream.view_eq_obj rfl (Int.le_refl 0)

/-! ## Flush -/

theorem isioFlush_of_written_zero (h : s.cache.written = 0) : isioFlush s = s := by
  simp [isioFlush, h]

@[simp] theorem isioFlush_written (s : Stream) : (isioFlush s).cache.written = 0 := by
  unfold isioFlush
  split
  · rfl
  · omega

@[simp] theorem isioFlush_count (s : Stream) : (isioFlush s).cache.count = s.cache.count := by
  unfold isioFlush
  split <;> rfl

@[simp] theorem isioFlush_bufferSize (s : Stream) :
    (isioFlush s).cache.bufferSize = s.cache.bufferSize := by
  unfold isioFlush
  split <;> rfl

@[simp] theorem isioFlush_usingUsersBuffer (s : Stream) :
    (isioFlush s).cache.usingUsersBuffer = s.cache.usingUsersBuffer := by
  unfold isioFlush
  split <;> rfl

@[simp] theorem isioFlush_memory (s : Stream) : (isioFlush s).memory = s.memory := by
  unfold isioFlush
  split <;> rfl

/-- After a flush of pending writes the buffer is used from its start. -/
theorem isioFlush_ptr (h : s.cache.ptr = s.cache.written) : (isioFlush s).cache.ptr = 0 := by
  unfold isioFlush
  split
  · rfl
  · omega

theorem isioFlush_coherent (h : s.Coherent) : (isioFlush s).Coherent := by
  by_cases hw : 0 < s.cache.written
  · have hc : s.cache.count ≤ 0 := (h.pending hw).2.1
    refine ⟨fun hpos => ?_, fun hpos => ?_, fun _ => ⟨by simpa using hc, by simp⟩⟩
    · simp at hpos
    · simp only [isioFlush_count] at hpos; omega
  · rw [isioFlush_of_written_zero (by omega)]; exact h

theorem isioFlush_view (h : s.Coherent) : (isioFlush s).view = s.view := by
  by_cases hw : 0 < s.cache.written
  · obtain ⟨-, hc, hlen⟩ := h.pending hw
    have hn : s.cache.count.toNat = 0 := by omega
    have hmin : min s.cache.written s.cache.base.length = s.cache.written := by omega
    have hbuf : s.buffer = s.cache.base := Stream.buffer_own (h.own (.inl hw))
    simp [isioFlush, hw, Stream.view, OpenedDataObj.rcDataObjWrite, hn, hmin, hbuf]
  · rw [isioFlush_of_written_zero (by omega)]

/-! ## Read -/

/-- A read of `n` bytes is answered from the buffer, or nothing is in the buffer, or
the rest fits a buffer of the library's own. The size computation of the last two
must not overflow. -/
def ReadOk (c : CacheInfo) (n : Nat) : Prop :=
  (0 < c.count ∧ (n : Int) ≤ c.count) ∨
    (2 * n + 8 < intBound ∧ (c.count ≤ 0 ∨ 2 * n + 8 ≤ maxBufSize))

instance (c : CacheInfo) (n : Nat) : Decidable (ReadOk c n) :=
  inferInstanceAs (Decidable (_ ∨ _))

variable {n len : Nat} {t : Stream}

theorem readBufSize_eq (h : 2 * n + 8 < intBound) : readBufSize n = 2 * n + 8 := by
  apply int32_eq_self
  · unfold intBound at *; omega
  · exact_mod_cast h

/-- The buffer a refill uses: the caller's own, exactly as large as the request, or
one of the library's that the request fits in twice. -/
theorem Stream.resizeForRead_cases (s : Stream) (buffer : List Byte) (h : 2 * n + 8 < intBound) :
    ((s.resizeForRead n buffer).cache.usingUsersBuffer = true ∧
      (s.resizeForRead n buffer).cache.bufferSize = n ∧ (s.resizeForRead n buffer).memory = buffer ∧
      maxBufSize < 2 * n + 8) ∨
    ((s.resizeForRead n buffer).cache.usingUsersBuffer = false ∧
      2 * n + 8 ≤ (s.resizeForRead n buffer).cache.bufferSize ∧
      (s.resizeForRead n buffer).memory = s.memory) := by
  unfold resizeForRead
  split
  · rename_i hlt
    rw [readBufSize_eq h] at hlt ⊢
    split
    · right; exact ⟨rfl, by simp only; omega, rfl⟩
    · left; exact ⟨rfl, rfl, rfl, by omega⟩
  · rename_i hge
    rw [readBufSize_eq h] at hge
    unfold CacheInfo.ownSize at hge ⊢
    split at hge
    · omega
    · rename_i hu
      right; exact ⟨by simpa using hu, by simp only [if_neg hu]; omega, rfl⟩

@[simp] theorem Stream.resizeForRead_written (s : Stream) (n : Nat) (buffer : List Byte) :
    (s.resizeForRead n buffer).cache.written = s.cache.written := by
  unfold resizeForRead
  split
  · split <;> rfl
  · rfl

@[simp] theorem Stream.resizeForRead_obj (s : Stream) (n : Nat) (buffer : List Byte) :
    (s.resizeForRead n buffer).obj = s.obj := by
  unfold resizeForRead
  split
  · split <;> rfl
  · rfl

/-- What a refill of `n` bytes leaves: the `len` bytes the server sent, from the
buffer's start. -/
structure Filled (s t : Stream) (n len : Nat) : Prop where
  len_eq : len = min n (s.obj.content.length - s.obj.pos)
  written : t.cache.written = 0
  ptr : t.cache.ptr = 0
  count : t.cache.count = len
  base : readAt t.buffer 0 len = readAt s.obj.content s.obj.pos len
  content : t.obj.content = s.obj.content
  pos : t.obj.pos = s.obj.pos + len

@[simp] theorem isioFillBuffer_usingUsersBuffer (s : Stream) :
    (isioFillBuffer s).cache.usingUsersBuffer = s.cache.usingUsersBuffer := by
  cases hu : s.cache.usingUsersBuffer <;> simp [isioFillBuffer, Stream.setBuffer, hu]

theorem isioFillBuffer_buffer (s : Stream) :
    (isioFillBuffer s).buffer = writeAt s.buffer 0 (readAt s.obj.content s.obj.pos s.cache.bufferSize) := by
  cases hu : s.cache.usingUsersBuffer <;>
    simp [isioFillBuffer, Stream.setBuffer, Stream.buffer, OpenedDataObj.rcDataObjRead, hu]

theorem isioFillBuffer_memory (s : Stream) (hu : s.cache.usingUsersBuffer = false) :
    (isioFillBuffer s).memory = s.memory := by
  simp [isioFillBuffer, Stream.setBuffer, hu]

theorem isioFillBuffer_count (s : Stream) : (isioFillBuffer s).cache.count =
    (readAt s.obj.content s.obj.pos s.cache.bufferSize).length := rfl

theorem isioFillBuffer_filled (hw : s.cache.written = 0) :
    Filled s (isioFillBuffer s) s.cache.bufferSize
      (readAt s.obj.content s.obj.pos s.cache.bufferSize).length where
  len_eq := length_readAt _ _ _
  written := by
    cases hu : s.cache.usingUsersBuffer <;> simp [isioFillBuffer, Stream.setBuffer, hu, hw]
  ptr := rfl
  count := rfl
  base := by
    rw [readAt_length_self, isioFillBuffer_buffer]
    exact readAt_writeAt_self s.buffer 0 _
  content := rfl
  pos := rfl

/-- The server's answer to a request of at most the buffer's size is the beginning
of what a refill brought. -/
theorem Filled.rcDataObjRead_eq {k : Nat} (h : Filled s t n len) (hk : k ≤ n) :
    s.obj.rcDataObjRead k =
      ({ t.obj with pos := s.obj.pos + min len k }, readAt t.buffer 0 (min len k)) := by
  have hlen := h.len_eq
  have hread : readAt t.buffer 0 (min len k) = readAt s.obj.content s.obj.pos k := by
    have htake := congrArg (List.take (min len k)) h.base
    have hmin : min (min len k) len = min len k := by omega
    have hlenk : min len k = (readAt s.obj.content s.obj.pos k).length := by
      rw [length_readAt]; omega
    rw [readAt_take, readAt_take, hmin] at htake
    rw [htake, hlenk, readAt_length_self]
  have hpos : (readAt s.obj.content s.obj.pos k).length = min len k := by
    rw [length_readAt]; omega
  simp only [OpenedDataObj.rcDataObjRead, hread, hpos, h.content]

/-- What stays in the buffer after `k` bytes were taken is what follows on the server. -/
theorem Filled.rest (h : Filled s t n len) (k : Nat) :
    readAt t.buffer k (len - k) = readAt s.obj.content (s.obj.pos + k) (len - k) := by
  have hdrop := congrArg (List.drop k) h.base
  rwa [readAt_drop, readAt_drop, Nat.zero_add] at hdrop

/-- A read straight into the caller's buffer returns the whole answer. -/
theorem isioDeliver_users (h : Filled s t n len) (hu : t.cache.usingUsersBuffer = true) :
    (isioDeliver t n []).2 = (s.obj.rcDataObjRead n).2 ∧
    (isioDeliver t n []).1.view = (s.obj.rcDataObjRead n).1 ∧
    (isioDeliver t n []).1.Coherent := by
  have hlen := h.len_eq
  have hmin : min len n = len := by omega
  rw [h.rcDataObjRead_eq le_rfl, hmin]
  unfold isioDeliver
  rw [if_pos hu]
  refine ⟨?_, ?_, ?_⟩
  · simp only [h.count, Int.toNat_natCast, Stream.buffer, hu, if_true]
  · rw [← h.pos]
    exact Stream.view_eq_obj h.written (Int.le_refl 0)
  · refine ⟨fun hpos => ?_, fun hpos => ?_, fun _ => ⟨Int.le_refl 0, h.written⟩⟩
    · simp only [h.written] at hpos; omega
    · simp at hpos

/-- A read through the library's buffer returns what is left of the request and
keeps the rest as prefetched bytes. -/
theorem isioDeliver_own {size : Nat} (n : Nat) (head : List Byte) (h : Filled s t size len)
    (hu : t.cache.usingUsersBuffer = false) (hsize : n - head.length ≤ size) :
    (isioDeliver t n head).2 = head ++ (s.obj.rcDataObjRead (n - head.length)).2 ∧
    (isioDeliver t n head).1.view = (s.obj.rcDataObjRead (n - head.length)).1 ∧
    (isioDeliver t n head).1.Coherent := by
  have hlen := h.len_eq
  rw [h.rcDataObjRead_eq hsize]
  have hbase := h.rest
  rw [Stream.buffer_own hu] at hbase ⊢
  unfold isioDeliver
  rw [if_neg (by simp [hu])]
  generalize hk : n - head.length = k at *
  have hcount : t.cache.count.toNat = len := by rw [h.count, Int.toNat_natCast]
  have hleft : (t.cache.count - (min len k : Nat)).toNat = len - min len k := by
    rw [h.count]; omega
  simp only [hcount]
  refine ⟨by simp [h.ptr], ?_, ?_⟩
  · have hpos : t.obj.pos - (len - min len k) = s.obj.pos + min len k := by
      rw [h.pos]; omega
    rw [Stream.view_of_prefetched (by exact h.written)]
    simp only [hleft, hpos]
  · refine ⟨fun hw => ?_, fun hpos => ?_, fun hu' => ?_⟩
    · simp only [h.written] at hw; omega
    · simp only [h.count] at hpos
      simp only [hleft, h.ptr, Nat.zero_add, h.content, h.pos]
      have hshift : s.obj.pos + len - (len - min len k) = s.obj.pos + min len k := by omega
      exact ⟨by omega, by rw [hshift]; exact hbase _, by omega⟩
    · simp only [hu] at hu'; cases hu'

/-- A refill after everything prefetched was handed out gives the application what
is left of its request. -/
theorem isioRefill_spec (head : List Byte) (hw : s.cache.written = 0) (hn : 2 * n + 8 < intBound)
    (hhead : head = [] ∨ 2 * n + 8 ≤ maxBufSize) :
    (isioRefill s n head).2 = head ++ (s.obj.rcDataObjRead (n - head.length)).2 ∧
    (isioRefill s n head).1.view = (s.obj.rcDataObjRead (n - head.length)).1 ∧
    (isioRefill s n head).1.Coherent := by
  obtain ⟨hu, hsize, -, hbig⟩ | ⟨hu, hsize, -⟩ := s.resizeForRead_cases head hn
  · have hnil : head = [] := hhead.resolve_right (by omega)
    subst hnil
    have hfill := isioFillBuffer_filled (s := s.resizeForRead n []) (by simpa using hw)
    simp only [hsize] at hfill
    have huser := isioDeliver_users hfill (by rw [isioFillBuffer_usingUsersBuffer]; exact hu)
    rw [Stream.resizeForRead_obj] at huser
    exact huser
  · have hfill := isioFillBuffer_filled (s := s.resizeForRead n head) (by simpa using hw)
    have hown := isioDeliver_own n head hfill
      (by rw [isioFillBuffer_usingUsersBuffer]; exact hu) (by omega)
    rw [Stream.resizeForRead_obj] at hown
    exact hown

theorem isioDeliver_cache (t : Stream) (n : Nat) (head : List Byte) :
    (isioDeliver t n head).1.cache.usingUsersBuffer = t.cache.usingUsersBuffer ∧
    (isioDeliver t n head).1.memory = t.memory := by
  unfold isioDeliver
  split <;> exact ⟨rfl, rfl⟩

/-- A refill into the memory of the caller leaves the answer there, and one of a buffer of the
library's leaves that memory alone. -/
theorem isioRefill_memory (head : List Byte) (hn : 2 * n + 8 < intBound) (hhead : head = [] ∨ 2 * n + 8 ≤ maxBufSize) :
    (isioRefill s n head).1.memory =
      if (isioRefill s n head).1.cache.usingUsersBuffer then (isioRefill s n head).2 else s.memory := by
  obtain ⟨husers, hmem⟩ := isioDeliver_cache (isioFillBuffer (s.resizeForRead n head)) n head
  rw [isioFillBuffer_usingUsersBuffer] at husers
  unfold isioRefill
  rw [hmem, husers]
  obtain ⟨hu, -, hbuf, hbig⟩ | ⟨hu, -, hbuf⟩ := s.resizeForRead_cases head hn
  · obtain rfl : head = [] := hhead.resolve_right (by omega)
    have hfill := isioFillBuffer_buffer (s.resizeForRead n [])
    rw [Stream.buffer, isioFillBuffer_usingUsersBuffer, if_pos hu, Stream.buffer, if_pos hu, hbuf,
      writeAt_empty] at hfill
    have hcount := isioFillBuffer_count (s.resizeForRead n [])
    rw [if_pos hu, isioDeliver, isioFillBuffer_usingUsersBuffer, if_pos hu, hfill, hcount, Int.toNat_natCast,
      readAt_all]
  · rw [if_neg (by simp [hu]), isioFillBuffer_memory _ hu, hbuf]

/-- A short read does not borrow the memory of its caller. -/
theorem isioRefill_short (head : List Byte) (hn : 2 * n + 8 ≤ maxBufSize) :
    (isioRefill s n head).1.cache.usingUsersBuffer = false := by
  have hint : 2 * n + 8 < intBound := by
    unfold maxBufSize at hn
    unfold intBound
    omega
  unfold isioRefill
  rw [(isioDeliver_cache _ n head).1, isioFillBuffer_usingUsersBuffer]
  obtain ⟨-, -, -, hbig⟩ | ⟨hu, -, -⟩ := s.resizeForRead_cases head hint
  · omega
  · exact hu

/-- What is prefetched continues the application's position. -/
theorem Stream.Coherent.length_prefetched (h : s.Coherent) (hc : 0 < s.cache.count) :
    (readAt s.cache.base s.cache.ptr s.cache.count.toNat).length = s.cache.count.toNat := by
  obtain ⟨hle, hread, hpos⟩ := h.prefetched hc
  rw [hread, length_readAt]
  omega

/-- A request that is answered from the prefetched bytes alone. -/
theorem read_prefetched (h : s.Coherent) (hc : 0 < s.cache.count) (hn : (n : Int) ≤ s.cache.count) :
    s.view.rcDataObjRead n =
      (Stream.view { s with cache := { s.cache with ptr := s.cache.ptr + n
                                                    count := s.cache.count - n } },
        readAt s.buffer s.cache.ptr n) ∧
    Stream.Coherent { s with cache := { s.cache with ptr := s.cache.ptr + n
                                                     count := s.cache.count - n } } := by
  obtain ⟨hle, hread, hpos⟩ := h.prefetched hc
  have hw := h.written_eq_zero hc
  rw [Stream.buffer_own (h.own (.inr hc))]
  generalize hk : s.cache.count.toNat = k at *
  have hleft : (s.cache.count - n).toNat = k - n := by omega
  have htake : readAt s.cache.base s.cache.ptr n = readAt s.obj.content (s.obj.pos - k) n := by
    have hmin : min n k = n := by omega
    have := congrArg (List.take n) hread
    rwa [readAt_take, readAt_take, hmin] at this
  have hdrop : readAt s.cache.base (s.cache.ptr + n) (k - n) =
      readAt s.obj.content (s.obj.pos - k + n) (k - n) := by
    have := congrArg (List.drop n) hread
    rwa [readAt_drop, readAt_drop] at this
  have hshift : s.obj.pos - (k - n) = s.obj.pos - k + n := by omega
  constructor
  · rw [Stream.view_of_prefetched hw, Stream.view_of_prefetched (by exact hw)]
    simp only [OpenedDataObj.rcDataObjRead, hleft, htake, length_readAt, hk]
    have hlen : s.obj.pos - k + min n (s.obj.content.length - (s.obj.pos - k)) =
        s.obj.pos - (k - n) := by omega
    rw [hlen]
  · refine ⟨fun hpos' => ?_, fun hpos' => ?_, fun hu => ?_⟩
    · simp only [hw] at hpos'; omega
    · simp only [hleft, hshift]
      exact ⟨by omega, hdrop, hpos⟩
    · have := h.users hu
      omega

/-- A request that needs more than what is prefetched. -/
theorem read_refill (h : s.Coherent) (hw : s.cache.written = 0)
    (hc : ¬ (0 < s.cache.count ∧ (n : Int) ≤ s.cache.count)) (hn : 2 * n + 8 < intBound)
    (hown : s.cache.count ≤ 0 ∨ 2 * n + 8 ≤ maxBufSize) :
    s.view.rcDataObjRead n =
      ((isioRefill s.drain.1 n s.drain.2).1.view, (isioRefill s.drain.1 n s.drain.2).2) ∧
    (isioRefill s.drain.1 n s.drain.2).1.Coherent := by
  unfold Stream.drain
  split
  · -- the prefetched bytes come first, the server's answer continues them
    rename_i hpos
    rw [Stream.buffer_own (h.own (.inr hpos))]
    have hlen := h.length_prefetched hpos
    obtain ⟨hle, hread, hend⟩ := h.prefetched hpos
    obtain ⟨hbytes, hview, hcoh⟩ := isioRefill_spec
      (s := { s with cache := { s.cache with ptr := s.cache.ptr + s.cache.count.toNat, count := 0 } })
      (readAt s.cache.base s.cache.ptr s.cache.count.toNat) hw hn (.inr (by omega))
    refine ⟨?_, hcoh⟩
    rw [hview, hbytes, hlen, hread, Stream.view_of_prefetched hw]
    have hlt : s.cache.count.toNat < n := by omega
    generalize s.cache.count.toNat = k at *
    have hsplit := readAt_append s.obj.content (s.obj.pos - k) k (n - k)
    have hk : s.obj.pos - k + k = s.obj.pos := by omega
    have hkn : k + (n - k) = n := by omega
    rw [hk, hkn] at hsplit
    have hmoved : s.obj.pos - k + (min k (s.obj.content.length - (s.obj.pos - k)) +
        min (n - k) (s.obj.content.length - s.obj.pos)) =
        s.obj.pos + min (n - k) (s.obj.content.length - s.obj.pos) := by omega
    simp only [OpenedDataObj.rcDataObjRead, ← hsplit, List.length_append, length_readAt, hmoved]
  · obtain ⟨hbytes, hview, hcoh⟩ := isioRefill_spec [] hw hn (.inl rfl)
    refine ⟨?_, hcoh⟩
    rw [hview, hbytes, Stream.view_eq_obj hw (by omega)]
    simp

theorem Stream.drain_memory (s : Stream) : s.drain.1.memory = s.memory := by
  unfold drain
  split <;> rfl

theorem Stream.drain_head (h : s.cache.count ≤ 0) : s.drain.2 = [] := by
  unfold drain
  rw [if_neg (by omega)]

/-- A read acts on the view like the direct read, and returns the same bytes. -/
theorem isioFileRead_spec (h : s.Coherent) (hok : ReadOk s.cache n) :
    s.view.rcDataObjRead n = ((isioFileRead s n).1.view, (isioFileRead s n).2) ∧
    (isioFileRead s n).1.Coherent := by
  rw [← isioFlush_view h]
  unfold isioFileRead
  simp only [isioFlush_count]
  split
  · rename_i hc
    have hread := read_prefetched (isioFlush_coherent h) (n := n)
      (by simpa using hc.1) (by simpa using hc.2)
    simpa only [isioFlush_count] using hread
  · rename_i hc
    have hok' := hok.resolve_left hc
    exact read_refill (isioFlush_coherent h) (by simp) (by simpa using hc) hok'.1
      (by simpa using hok'.2)

theorem isioFileRead_memory (h : s.Coherent) (hok : ReadOk s.cache n) :
    (isioFileRead s n).1.memory =
      if (isioFileRead s n).1.cache.usingUsersBuffer then (isioFileRead s n).2 else s.memory := by
  unfold isioFileRead
  simp only [isioFlush_count]
  split
  · rename_i hc
    have hown := (isioFlush_coherent h).own (.inr (by simpa using hc.1))
    rw [if_neg (by simpa using hown)]
    exact isioFlush_memory s
  · rename_i hc
    obtain ⟨hint, hhead⟩ := hok.resolve_left hc
    have hrefill := isioRefill_memory (s := (isioFlush s).drain.1) (isioFlush s).drain.2 hint
      (hhead.imp_left fun hle => Stream.drain_head (by simpa using hle))
    rwa [Stream.drain_memory, isioFlush_memory] at hrefill

theorem isioFileRead_short (h : s.Coherent) (hn : 2 * n + 8 ≤ maxBufSize) :
    (isioFileRead s n).1.cache.usingUsersBuffer = false := by
  unfold isioFileRead
  simp only [isioFlush_count]
  split
  · rename_i hc
    exact (isioFlush_coherent h).own (.inr (by simpa using hc.1))
  · exact isioRefill_short _ hn

/-! ## Write -/

/-- A write of `n` bytes is stored in the buffer there is. -/
def CacheInfo.StoresInPlace (c : CacheInfo) (n : Nat) : Prop :=
  c.Fits n ∨ (n ≤ maxBufSize ∧ writeBufSize n ≤ c.bufferSize)

instance (c : CacheInfo) (n : Nat) : Decidable (c.StoresInPlace n) :=
  inferInstanceAs (Decidable (_ ∨ _))

/-- A write of `n` bytes goes behind the pending ones. With nothing pending and nothing prefetched
no read has left `ptr` behind, unless the write gets a buffer of its own or goes to the server;
and the count that a write through a full buffer leaves is an `int`. Nothing is stored in the memory
of the application. -/
structure WriteOk (c : CacheInfo) (n : Nat) : Prop where
  sized : n < intBound
  lent : c.usingUsersBuffer = true → n = 0 ∨ ¬ c.StoresInPlace n
  placed : 0 < c.count ∨ c.ptr = c.written ∨ n = 0 ∨
    (¬ c.Fits n ∧ (maxBufSize < n ∨ c.bufferSize < writeBufSize n))
  counted : c.Fits n ∨ maxBufSize < n ∨ -(intBound : Int) ≤ min c.count 0 - n

instance (c : CacheInfo) (n : Nat) : Decidable (WriteOk c n) :=
  decidable_of_iff
    (n < intBound ∧ (c.usingUsersBuffer = true → n = 0 ∨ ¬ c.StoresInPlace n) ∧
      (0 < c.count ∨ c.ptr = c.written ∨ n = 0 ∨
        (¬ c.Fits n ∧ (maxBufSize < n ∨ c.bufferSize < writeBufSize n))) ∧
      (c.Fits n ∨ maxBufSize < n ∨ -(intBound : Int) ≤ min c.count 0 - n))
    ⟨fun h => ⟨h.1, h.2.1, h.2.2.1, h.2.2.2⟩, fun h => ⟨h.sized, h.lent, h.placed, h.counted⟩⟩

/-- Giving back what is prefetched changes nothing for the application. -/
theorem isioUnread_spec (h : s.Coherent) :
    ∃ t, isioUnread s = some t ∧ t.view = s.view ∧ t.Coherent ∧
      t.cache.count = min s.cache.count 0 ∧ t.cache.written = s.cache.written ∧
      t.cache.bufferSize = s.cache.bufferSize ∧ t.cache.usingUsersBuffer = s.cache.usingUsersBuffer ∧
      t.memory = s.memory ∧
      (0 < s.cache.count ∨ s.cache.ptr = s.cache.written → t.cache.ptr = t.cache.written) ∧
      (s.cache.count ≤ 0 → t = s) := by
  unfold isioUnread
  split
  · rename_i hc
    obtain ⟨hle, -, -⟩ := h.prefetched hc
    have hw := h.written_eq_zero hc
    have hneg : -s.cache.count = -(s.cache.count.toNat : Int) := by omega
    have hmin : min s.cache.count 0 = 0 := by omega
    refine ⟨{ s with
              cache := { s.cache with ptr := 0, count := 0 }
              obj := { s.obj with pos := s.obj.pos - s.cache.count.toNat } },
      ?_, ?_, ?_, hmin.symm, rfl, rfl, rfl, rfl, fun _ => hw.symm, fun hle => by omega⟩
    · simp only [isioFileSeek, hneg, OpenedDataObj.rcDataObjLseek_cur_neg _ hle, map_some]
    · rw [Stream.view_of_prefetched hw]
      exact Stream.view_eq_obj hw (Int.le_refl 0)
    · refine ⟨fun hpos => ?_, fun hpos => ?_, fun _ => ⟨Int.le_refl 0, hw⟩⟩
      · simp only [hw] at hpos; omega
      · simp at hpos
  · have hmin : s.cache.count = min s.cache.count 0 := by omega
    refine ⟨s, rfl, rfl, h, hmin, rfl, rfl, rfl, rfl, ?_, fun _ => rfl⟩
    rintro (hpos | hptr)
    · omega
    · exact hptr

variable {count : Int} {c : CacheInfo} {d : List Byte}

theorem Stream.store_own (hu : s.cache.usingUsersBuffer = false) (d : List Byte) :
    s.store d = { s with cache := { s.cache with
      base := writeAt s.cache.base s.cache.ptr d, ptr := s.cache.ptr + d.length
      written := s.cache.written + d.length } } := by
  simp [store, setBuffer_own hu, buffer_own hu]

theorem Stream.store_nil (s : Stream) : s.store [] = s := by
  unfold store setBuffer buffer
  split <;> rfl

@[simp] theorem Stream.store_count (s : Stream) (d : List Byte) : (s.store d).cache.count = s.cache.count := by
  cases hu : s.cache.usingUsersBuffer <;> simp [store, setBuffer, hu]

/-- Bytes stored behind the pending ones are written after them. -/
theorem store_spec (d : List Byte) (h : s.Coherent) (hu : s.cache.usingUsersBuffer = false) (hc : s.cache.count ≤ 0)
    (hptr : s.cache.ptr = s.cache.written) (hcount : count ≤ 0) :
    Stream.view { s.store d with cache := { (s.store d).cache with count := count } } = s.view.rcDataObjWrite d ∧
    Stream.Coherent { s.store d with cache := { (s.store d).cache with count := count } } := by
  have hlen : s.cache.written ≤ s.cache.base.length := by
    by_cases hw : 0 < s.cache.written
    · exact (h.pending hw).2.2
    · omega
  have htake : (writeAt s.cache.base s.cache.written d).take (s.cache.written + d.length) =
      s.cache.base.take s.cache.written ++ d := take_writeAt hlen d
  have hn₁ : s.cache.count.toNat = 0 := by omega
  have hn₂ : count.toNat = 0 := by omega
  have hmin : min s.cache.written s.cache.base.length = s.cache.written := by omega
  rw [Stream.store_own hu]
  constructor
  · have happend := writeAt_writeAt_append s.obj.content s.obj.pos (s.cache.base.take s.cache.written) d
    rw [List.length_take, hmin] at happend
    simp only [Stream.view, OpenedDataObj.rcDataObjWrite, hn₁, hn₂, hptr, htake,
      happend, Nat.sub_zero, Nat.add_assoc]
  · refine ⟨fun _ => ⟨?_, hcount, ?_⟩, fun hpos => ?_, fun hu' => ?_⟩
    · simp only [hptr]
    · have := congrArg List.length htake
      simp only [List.length_take, List.length_append, hmin] at this
      simp only [hptr]
      omega
    · simp only at hpos; omega
    · rw [show s.cache.usingUsersBuffer = true from hu'] at hu
      cases hu

/-- A stream with an empty buffer is coherent whatever its descriptor. -/
theorem Stream.coherent_of_empty (hw : s.cache.written = 0) (hc : s.cache.count ≤ 0) : s.Coherent := by
  refine ⟨fun hpos => ?_, fun hpos => ?_, fun _ => ⟨hc, hw⟩⟩
  · omega
  · omega

/-- A write into an empty buffer, used from its start. -/
theorem store_empty (hw : s.cache.written = 0) (hc : s.cache.count ≤ 0)
    (hptr : (s.cache.usingUsersBuffer = false ∧ s.cache.ptr = 0) ∨ d = []) (hcount : count ≤ 0) :
    Stream.view { s.store d with cache := { (s.store d).cache with count := count } } = s.obj.rcDataObjWrite d ∧
    Stream.Coherent { s.store d with cache := { (s.store d).cache with count := count } } := by
  rcases hptr with ⟨hu, hptr⟩ | rfl
  · have hspec := store_spec d (Stream.coherent_of_empty hw hc) hu hc (hptr.trans hw.symm) hcount
    rwa [Stream.view_eq_obj hw hc] at hspec
  · rw [Stream.store_nil, OpenedDataObj.rcDataObjWrite_nil]
    exact ⟨Stream.view_eq_obj hw hcount, Stream.coherent_of_empty hw hcount⟩

/-- The buffer of a write that did not fit behind the pending ones. -/
theorem CacheInfo.resizeForWrite_spec :
    (c.resizeForWrite n).written = c.written ∧ (c.resizeForWrite n).count = c.count ∧
    (c.bufferSize < writeBufSize n →
      (c.resizeForWrite n).ptr = 0 ∧ (c.resizeForWrite n).usingUsersBuffer = false) ∧
    (¬ c.bufferSize < writeBufSize n → c.resizeForWrite n = c) := by
  unfold resizeForWrite
  split
  · rename_i h
    exact ⟨rfl, rfl, fun _ => ⟨rfl, rfl⟩, fun h' => absurd h h'⟩
  · rename_i h
    exact ⟨rfl, rfl, fun h' => absurd h' h, fun _ => rfl⟩

/-- A write acts on the view like the direct write. -/
theorem isioFileWrite_spec (h : s.Coherent) (hok : WriteOk s.cache d.length) :
    ∃ t, isioFileWrite s d = some t ∧ t.view = s.view.rcDataObjWrite d ∧ t.Coherent ∧ t.memory = s.memory := by
  obtain ⟨t, ht, hview, hcoh, hcount, hwritten, hsize, husers, hmem, hptr, -⟩ := isioUnread_spec h
  have hfits : t.cache.Fits d.length ↔ s.cache.Fits d.length := by
    simp only [CacheInfo.Fits, hsize, hwritten]
  have hc : t.cache.count ≤ 0 := by omega
  -- what is stored in place is stored in a buffer of the library's own
  have hown : s.cache.StoresInPlace d.length → d = [] ∨ t.cache.usingUsersBuffer = false := by
    intro hplace
    cases hu : t.cache.usingUsersBuffer with
    | false => exact .inr rfl
    | true =>
      obtain hnil | hnot := hok.lent (husers ▸ hu)
      · exact .inl (List.length_eq_zero_iff.mp hnil)
      · exact absurd hplace hnot
  simp only [isioFileWrite, ht, map_some, Option.some.injEq, exists_eq_left']
  rw [← hview, ← hmem]
  split
  · rename_i hfit
    obtain rfl | hu := hown (.inl (hfits.mp hfit))
    · rw [Stream.store_nil, OpenedDataObj.rcDataObjWrite_nil]
      exact ⟨rfl, hcoh, rfl⟩
    · have hmemory : (t.store d).memory = t.memory := by rw [Stream.store_own hu]
      have hplaced : t.cache.ptr = t.cache.written → _ := fun hp => store_spec d hcoh hu hc hp hc
      rw [Stream.store_own hu] at hplaced hmemory ⊢
      rcases hok.placed with hp | hp | hp | hp
      · exact ⟨(hplaced (hptr (.inl hp))).1, (hplaced (hptr (.inl hp))).2, hmemory⟩
      · exact ⟨(hplaced (hptr (.inr hp))).1, (hplaced (hptr (.inr hp))).2, hmemory⟩
      · obtain rfl : d = [] := List.length_eq_zero_iff.mp hp
        exact ⟨rfl, hcoh, hmemory⟩
      · exact absurd (hfits.mp hfit) hp.1
  · rename_i hfit
    have hfit' : ¬ s.cache.Fits d.length := fun hf => hfit (hfits.mpr hf)
    have huview := isioFlush_view hcoh
    have huc : (isioFlush t).cache.count ≤ 0 := by simpa using hc
    rw [← huview, Stream.view_eq_obj (s := isioFlush t) (by simp) huc]
    split
    · refine ⟨Stream.view_eq_obj (by simp) (by simpa using hc), ?_, isioFlush_memory t⟩
      exact Stream.coherent_of_empty (by simp) (by simpa using hc)
    · rename_i hbig
      obtain ⟨hrw, hrc, hrgrow, hrkeep⟩ :=
        CacheInfo.resizeForWrite_spec (c := (isioFlush t).cache) (n := d.length)
      rw [isioFlush_written] at hrw
      rw [isioFlush_count] at hrc
      rw [isioFlush_bufferSize, hsize] at hrgrow hrkeep
      have hlow : -(intBound : Int) ≤ t.cache.count - d.length := by
        have := (hok.counted.resolve_left hfit').resolve_left hbig
        omega
      have hfresh : ((isioFlush t).cache.resizeForWrite d.length).usingUsersBuffer = false ∧
          ((isioFlush t).cache.resizeForWrite d.length).ptr = 0 ∨ d = [] := by
        by_cases hgrow : s.cache.bufferSize < writeBufSize d.length
        · exact .inl ⟨(hrgrow hgrow).2, (hrgrow hgrow).1⟩
        · obtain hnil | hu := hown (.inr ⟨Nat.not_lt.mp hbig, Nat.not_lt.mp hgrow⟩)
          · exact .inr hnil
          · rw [hrkeep hgrow]
            have hu' : (isioFlush t).cache.usingUsersBuffer = false := by simpa using hu
            rcases hok.placed with hp | hp | hp | hp
            · exact .inl ⟨hu', isioFlush_ptr (hptr (.inl hp))⟩
            · exact .inl ⟨hu', isioFlush_ptr (hptr (.inr hp))⟩
            · exact .inr (List.length_eq_zero_iff.mp hp)
            · exact absurd hp.2 (by simp only [not_or]; exact ⟨hbig, hgrow⟩)
      simp only [Stream.store_count, hrc]
      have hleft : int32 (t.cache.count - d.length) ≤ 0 := by
        rw [int32_eq_self hlow (by unfold intBound; omega)]
        omega
      have hstored := store_empty
        (s := { isioFlush t with cache := (isioFlush t).cache.resizeForWrite d.length })
        hrw (hrc ▸ hc) hfresh hleft
      refine ⟨hstored.1, hstored.2, ?_⟩
      obtain ⟨hu, -⟩ | rfl := hfresh
      · rw [Stream.store_own hu]
        exact isioFlush_memory t
      · rw [Stream.store_nil]
        exact isioFlush_memory t

/-! ## Every call, and every run -/

/-- When a call does on the buffered stream what it does without a buffer. -/
def CallOk (s : Stream) : Call → Prop
  | .irodsfread size => ReadOk s.cache size
  | .irodsfwrite d => WriteOk s.cache d.length
  -- a seek moves only the server's position: nothing may be in the buffer, unless it stays put
  | .irodsfseek off wh => (off = 0 ∧ wh = .seekCur) ∨ (s.cache.written = 0 ∧ s.cache.count ≤ 0)
  | .irodsfgetc => ReadOk s.cache 1
  | .irodsfputc _ => WriteOk s.cache 1
  | .irodsfflush => True
  | .userStore _ _ => True
  | .userLook _ _ => True

instance (s : Stream) : (c : Call) → Decidable (CallOk s c)
  | .irodsfread size => inferInstanceAs (Decidable (ReadOk s.cache size))
  | .irodsfwrite d => inferInstanceAs (Decidable (WriteOk s.cache d.length))
  | .irodsfseek off wh => inferInstanceAs (Decidable
      ((off = 0 ∧ wh = .seekCur) ∨ (s.cache.written = 0 ∧ s.cache.count ≤ 0)))
  | .irodsfgetc => inferInstanceAs (Decidable (ReadOk s.cache 1))
  | .irodsfputc _ => inferInstanceAs (Decidable (WriteOk s.cache 1))
  | .irodsfflush => inferInstanceAs (Decidable True)
  | .userStore _ _ => inferInstanceAs (Decidable True)
  | .userLook _ _ => inferInstanceAs (Decidable True)

variable {c : Call}

/-- The buffered stream as the application sees it, with its memory. -/
def Stream.asDirect (s : Stream) : Direct := ⟨s.view, s.memory⟩

/-- After a read the bytes are in the memory of the application either way. -/
theorem Stream.handOver_memory {bs : List Byte} (h : s.cache.usingUsersBuffer = true → s.memory = bs) :
    (s.handOver bs).memory = bs := by
  unfold handOver
  split
  case isTrue hu => exact h hu
  case isFalse => rfl

theorem Stream.handOver_rest (s : Stream) (bs : List Byte) :
    (s.handOver bs).cache = s.cache ∧ (s.handOver bs).obj = s.obj := by
  unfold handOver
  split <;> exact ⟨rfl, rfl⟩

/-- Only the cache and the descriptor matter. -/
theorem Stream.Coherent.of_eq {t : Stream} (h : s.Coherent) (hcache : t.cache = s.cache) (hobj : t.obj = s.obj) :
    t.Coherent := by
  refine ⟨?_, ?_, ?_⟩
  · rw [hcache]; exact h.pending
  · rw [hcache, hobj]; exact h.prefetched
  · rw [hcache]; exact h.users

theorem Stream.view_congr {t : Stream} (hcache : t.cache = s.cache) (hobj : t.obj = s.obj) : t.view = s.view := by
  unfold view
  rw [hcache, hobj]

/-- One call: the direct call on the view answers the same, and coherence is kept. -/
theorem step_refines {s' : Stream} {r : Reply} (h : s.Coherent) (hok : CallOk s c) (hstep : step s c = some (s', r)) :
    directStep s.asDirect c = some (s'.asDirect, r) ∧ s'.Coherent := by
  cases c with
  | irodsfread size =>
    obtain ⟨hread, hcoh⟩ := isioFileRead_spec h hok
    have hmem := isioFileRead_memory h hok
    simp only [step, Option.some.injEq, Prod.mk.injEq] at hstep
    obtain ⟨rfl, rfl⟩ := hstep
    obtain ⟨hcache, hobj⟩ := (isioFileRead s size).1.handOver_rest (isioFileRead s size).2
    refine ⟨?_, hcoh.of_eq hcache hobj⟩
    have hmemory : ((isioFileRead s size).1.handOver (isioFileRead s size).2).memory = (isioFileRead s size).2 :=
      Stream.handOver_memory fun hu => by rw [hmem, if_pos hu]
    simp only [directStep, Stream.asDirect, hread, Stream.view_congr hcache hobj, hmemory]
  | irodsfwrite d =>
    obtain ⟨t, ht, hview, hcoh, hmem⟩ := isioFileWrite_spec h hok
    simp only [step, ht, map_some, Option.some.injEq, Prod.mk.injEq] at hstep
    obtain ⟨rfl, rfl⟩ := hstep
    exact ⟨by simp only [directStep, Stream.asDirect, hview, hmem], hcoh⟩
  | irodsfseek off wh =>
    simp only [step, isioFileSeek, map_map, Option.map_eq_some_iff] at hstep
    obtain ⟨obj, hseek, heq⟩ := hstep
    obtain ⟨rfl, rfl⟩ := heq
    rcases hok with ⟨rfl, rfl⟩ | ⟨hw, hc⟩
    · rw [OpenedDataObj.rcDataObjLseek_cur_zero] at hseek
      cases hseek
      exact ⟨by simp only [directStep, OpenedDataObj.rcDataObjLseek_cur_zero, map_some], h⟩
    · refine ⟨?_, Stream.coherent_of_empty hw hc⟩
      rw [Stream.asDirect, Stream.asDirect, Stream.view_eq_obj hw hc,
        Stream.view_eq_obj (s := ⟨s.cache, obj, s.memory⟩) hw hc]
      simp only [directStep, hseek, map_some]
  | irodsfgetc =>
    obtain ⟨hread, hcoh⟩ := isioFileRead_spec h hok
    have hmem := isioFileRead_memory h hok
    rw [isioFileRead_short h (by decide)] at hmem
    simp only [step, Option.some.injEq, Prod.mk.injEq] at hstep
    obtain ⟨rfl, rfl⟩ := hstep
    refine ⟨?_, hcoh⟩
    simp only [directStep, Stream.asDirect, hread, show (isioFileRead s 1).1.memory = s.memory from hmem]
  | irodsfputc inchar =>
    obtain ⟨t, ht, hview, hcoh, hmem⟩ := isioFileWrite_spec (d := [lowByte inchar]) h hok
    simp only [step, ht, map_some, Option.some.injEq, Prod.mk.injEq] at hstep
    obtain ⟨rfl, rfl⟩ := hstep
    exact ⟨by simp only [directStep, Stream.asDirect, hview, hmem], hcoh⟩
  | irodsfflush =>
    obtain ⟨rfl, rfl⟩ := hstep
    exact ⟨by simp only [directStep, Stream.asDirect, isioFlush_view h, isioFlush_memory], isioFlush_coherent h⟩
  | userStore off d =>
    obtain ⟨rfl, rfl⟩ := hstep
    exact ⟨rfl, h.of_eq rfl rfl⟩
  | userLook off n =>
    obtain ⟨rfl, rfl⟩ := hstep
    exact ⟨rfl, h⟩

/-- A call that gets no answer on the buffered stream gets none directly. -/
theorem step_stuck (h : s.Coherent) (hok : CallOk s c) (hstep : step s c = none) :
    directStep s.asDirect c = none := by
  cases c with
  | irodsfread size => simp [step] at hstep
  | irodsfwrite d =>
    obtain ⟨t, ht, -⟩ := isioFileWrite_spec h hok
    simp [step, ht] at hstep
  | irodsfseek off wh =>
    simp only [step, isioFileSeek, map_map, Option.map_eq_none_iff] at hstep
    rcases hok with ⟨rfl, rfl⟩ | ⟨hw, hc⟩
    · cases hstep
    · rw [Stream.asDirect, Stream.view_eq_obj hw hc, directStep, hstep, Option.map_none]
  | irodsfgetc => simp [step] at hstep
  | irodsfputc inchar =>
    obtain ⟨t, ht, -⟩ := isioFileWrite_spec (d := [lowByte inchar]) h hok
    simp [step, ht] at hstep
  | irodsfflush => simp [step] at hstep
  | userStore off d => simp [step] at hstep
  | userLook off n => simp [step] at hstep

/-- What a closed stream leaves is what the application saw last. -/
theorem irodsfclose_eq (h : s.Coherent) : irodsfclose s = s.view.content := by
  rw [irodsfclose, ← isioFlush_view h]
  simp [Stream.view]

/-- **Buffered and direct calls are the same.** Along every run whose calls meet `CallOk` the two
answer alike, with the same replies, leave the same bytes in the memory of the application and the
same object after the close. -/
theorem buffered_run_iff_direct {obj : OpenedDataObj} {calls : List Call} {rs : List Reply}
    {content memory : List Byte} (hok : buffered.Guarded CallOk (isioFileOpen obj) calls) :
    (∃ s, buffered.run (isioFileOpen obj) calls = some (s, rs) ∧ irodsfclose s = content ∧ s.memory = memory) ↔
      (∃ r, direct.run ⟨obj, []⟩ calls = some (r, rs) ∧ r.obj.content = content ∧ r.memory = memory) := by
  have hagree := Machine.run_agree (m := buffered) (n := direct)
    (R := fun s r => s.Coherent ∧ s.asDirect = r) ?_ (s := isioFileOpen obj) (t := ⟨obj, []⟩)
    ⟨isioFileOpen_coherent obj, by rw [Stream.asDirect, isioFileOpen_view]; rfl⟩ hok
  · rcases hagree with ⟨hm, hn⟩ | ⟨s, r, os, hm, hn, hcoh, rfl⟩
    · simp [hm, hn]
    · simp only [hm, hn, Option.some.injEq, Prod.mk.injEq]
      constructor
      · rintro ⟨_, ⟨rfl, rfl⟩, rfl, rfl⟩
        exact ⟨s.asDirect, ⟨rfl, rfl⟩, (irodsfclose_eq hcoh).symm, rfl⟩
      · rintro ⟨_, ⟨rfl, rfl⟩, rfl, rfl⟩
        exact ⟨s, ⟨rfl, rfl⟩, irodsfclose_eq hcoh, rfl⟩
  · rintro s _ c ⟨hcoh, rfl⟩ hc
    cases hstep : step s c with
    | none => exact .inl ⟨hstep, step_stuck hcoh hc hstep⟩
    | some p =>
      obtain ⟨s', o⟩ := p
      obtain ⟨hdirect, hcoh'⟩ := step_refines hcoh hc hstep
      exact .inr ⟨s', s'.asDirect, o, hstep, hdirect, hcoh', rfl⟩

/-- Bytes written, flushed and read back after a seek. -/
theorem buffered_run_iff_direct_reread :
    ∃ r, direct.run ⟨⟨[1, 2, 3], 0⟩, []⟩
        [.irodsfwrite [7, 8], .irodsfflush, .irodsfseek 0 .seekSet, .irodsfread 2, .userStore 1 [9], .irodsfread 9,
          .userLook 0 1] =
          some (r, [.count 2, .done, .done, .bytes [7, 8], .done, .bytes [3], .bytes [3]]) ∧
      r.obj.content = [7, 8, 3] ∧ r.memory = [3] :=
  (buffered_run_iff_direct (by decide)).mp ⟨_, rfl, rfl, rfl⟩

/-- A seek goes past what is prefetched: the second `irodsfgetc` still returns what
the first one left in the buffer. -/
theorem seek_ignores_prefetched :
    ¬ ∀ (obj : OpenedDataObj) (calls : List Call) (rs : List Reply) (content : List Byte),
      (∃ s, buffered.run (isioFileOpen obj) calls = some (s, rs) ∧ irodsfclose s = content) →
        ∃ r, direct.run ⟨obj, []⟩ calls = some (r, rs) ∧ r.obj.content = content := by
  intro h
  have hbuffered : ∃ s, buffered.run (isioFileOpen ⟨[1, 2, 3], 0⟩)
      [.irodsfgetc, .irodsfseek 0 .seekSet, .irodsfgetc] = some (s, [.char 1, .done, .char 2]) ∧
      irodsfclose s = [1, 2, 3] := ⟨_, rfl, rfl⟩
  obtain ⟨r, hrun, -⟩ := h _ _ _ _ hbuffered
  have hdirect : direct.run ⟨⟨[1, 2, 3], 0⟩, []⟩
      [.irodsfgetc, .irodsfseek 0 .seekSet, .irodsfgetc] =
        some (⟨⟨[1, 2, 3], 1⟩, []⟩, [.char 1, .done, .char 1]) := rfl
  rw [hdirect] at hrun
  simp at hrun

end Isio
