-- SUMMARY: Copying the shared rule cache without the lock.
import Irods.Re.SharedCache

/-!
# Snapshots of the shared rule cache

`restoreCache` reads the version, then the header fields and the bytes without the lock,
and reads the version again. A byte of the shared memory is known here by the call of
`updateCache` that wrote it. Only updaters write, so one reader is enough.

Storing sets the version of an initialising updater back to 0, announcing leaves it as it
is, and the size is read twice, once for the allocation and once for the copy.
-/

namespace SharedCache

open List (replicate)

def SHMMAX : Nat := 30000000

/-- Where `copyCache` has put things, at the addresses of the updater. -/
structure Image where
  address : Nat
  pointers : Nat
  dataSize : Nat
  deriving DecidableEq

/-- The bytes that storing an image writes: the data and the relocation table. -/
def Image.Covers (m : Image) (k : Nat) : Prop :=
  k < m.dataSize ∨ m.pointers - m.address ≤ k ∧ k < SHMMAX

instance (m : Image) (k : Nat) : Decidable (m.Covers k) :=
  inferInstanceAs (Decidable (_ ∨ _))

/-- The data and the table fit and do not overlap; `ts` are the bytes of `updateTS`. -/
structure Image.Laid (ts : Nat → Bool) (m : Image) : Prop where
  header : ∀ k, ts k → k < m.dataSize
  data : m.address + m.dataSize ≤ m.pointers
  table : m.pointers ≤ m.address + SHMMAX

/-- What an attempt has read of the header. -/
structure Fields where
  version : Nat
  dataSize : Nat
  pointers : Nat
  address : Nat
  deriving DecidableEq

def Fields.pointersSize (f : Fields) : Nat := f.address + SHMMAX - f.pointers

/-- A copy of the shared memory. -/
structure Copy (ι : Type) where
  fields : Fields
  bufCopy : List (Option ι)
  pointersCopy : List (Option ι)
  deriving DecidableEq

inductive Reader (ι : Type) where
  | start
  | version (version : Nat)
  | dataSize (version dataSize : Nat)
  | pointers (version dataSize pointersMapped : Nat)
  | checked (f : Fields)
  | allocated (f : Fields)
  /-- `size` is `dataSize` read once more. -/
  | copying (f : Fields) (size : Nat) (bufCopy : List (Option ι))
  | table (c : Copy ι)
  | returned (cache : Option (Copy ι))
  deriving DecidableEq

inductive Read where
  | lock (ok : Bool)
  | field
  | malloc (ok : Bool)
  | copy (bytes : Nat)
  deriving DecidableEq

/-- `bytes` bytes of the shared memory. -/
def chunk {ι : Type} (wroteBy : Nat → Option ι) (from' bytes : Nat) : List (Option ι) :=
  (List.range' from' bytes).map wroteBy

/-- The steps of `restoreCache`. -/
def restoreCache {ι τ : Type} (shared : Cache τ Image) (wroteBy : Nat → Option ι) :
    Reader ι → Read → Option (Reader ι)
  | .start, .lock ok => some (if ok then .version shared.version else .returned none)
  | .version v, .field => some (.dataSize v shared.coreRuleSet.dataSize)
  | .dataSize v d, .field => some (.pointers v d shared.coreRuleSet.pointers)
  | .pointers v d p, .field =>
    let a := shared.coreRuleSet.address
    if p < a ∨ p - a > SHMMAX ∨ d > SHMMAX then some .start
    else some (.checked ⟨v, d, p, a⟩)
  | .checked f, .malloc ok => some (if ok then .allocated f else .returned none)
  | .allocated f, .field => some (.copying f shared.coreRuleSet.dataSize [])
  | .copying f n buf, .copy k =>
    if buf.length + k ≤ n then some (.copying f n (buf ++ chunk wroteBy buf.length k)) else none
  | .copying f n buf, .malloc ok =>
    if buf.length = n then some (if ok then .table ⟨f, buf, []⟩ else .returned none) else none
  | .table c, .copy k =>
    if c.pointersCopy.length + k ≤ c.fields.pointersSize then
      some (.table { c with
        pointersCopy := c.pointersCopy ++
          chunk wroteBy (c.fields.pointers - c.fields.address + c.pointersCopy.length) k })
    else none
  | .table c, .lock ok =>
    if c.pointersCopy.length = c.fields.pointersSize then
      some (if ok then if shared.version = c.fields.version then .returned (some c) else .start
        else .returned none)
    else none
  | _, _ => none

structure Snapshot (ι τ : Type) where
  updates : State ι τ Image
  /-- The call that wrote each byte of the shared memory. -/
  wroteBy : Nat → Option ι
  reader : Reader ι

inductive SnapshotEvent (ι : Type) where
  | read (r : Read)
  | update (e : Event ι)
  deriving DecidableEq

namespace Snapshot

variable {ι τ : Type} [DecidableEq ι] [LinearOrder τ] (ts : Nat → Bool) (updater : ι → Updater τ Image)

/-- What a call of `updateCache` stores. -/
def image (i : ι) : Image := (updater i).cache.coreRuleSet

/-- Who has written what after a section of `updateCache`. -/
def written (s : Snapshot ι τ) : Event ι → Nat → Option ι
  | .announce i =>
    if passesAnnounce (updater i) s.updates.shared then fun k => if ts k then some i else s.wroteBy k
    else s.wroteBy
  | .store i =>
    if passesStore (updater i) s.updates.shared then
      fun k => if (image updater i).Covers k then some i else s.wroteBy k
    else s.wroteBy
  | _ => s.wroteBy

def step (s : Snapshot ι τ) : SnapshotEvent ι → Option (Snapshot ι τ × Unit)
  | .read r =>
    (restoreCache s.updates.shared s.wroteBy s.reader r).map fun reader =>
      ({ s with reader := reader }, ())
  | .update e =>
    (SharedCache.step updater s.updates e).map fun (updates, _) =>
      ({ s with updates := updates, wroteBy := s.written ts updater e }, ())

def machine : Machine (Snapshot ι τ) (SnapshotEvent ι) Unit := ⟨step ts updater⟩

/-! ## What can go wrong -/

/-- The shared memory is what one call has stored. -/
def StoredBy (s : Snapshot ι τ) (i : ι) : Prop :=
  s.updates.shared.coreRuleSet = image updater i ∧
    ∀ k, (image updater i).Covers k → s.wroteBy k = some i

end Snapshot

namespace Reader

variable {ι : Type}

/-- The version that an attempt compares with at its end. -/
def version? : Reader ι → Option Nat
  | .version v => some v
  | .dataSize v _ => some v
  | .pointers v _ _ => some v
  | .checked f => some f.version
  | .allocated f => some f.version
  | .copying f _ _ => some f.version
  | .table c => some c.fields.version
  | _ => none

/-- The attempt has read only the version. -/
def Fresh : Reader ι → Prop
  | .version _ => True
  | _ => False

/-- How many bytes of the data are copied. -/
def copied : Reader ι → Nat
  | .copying _ _ buf => buf.length
  | .table c => c.bufCopy.length
  | _ => 0

/-- The size the attempt will allocate or has allocated, before it reads it again. -/
def allocating : Reader ι → Option Nat
  | .dataSize _ d => some d
  | .pointers _ d _ => some d
  | .checked f => some f.dataSize
  | .allocated f => some f.dataSize
  | _ => none

end Reader

namespace Snapshot

variable {ι τ : Type} [DecidableEq ι] [LinearOrder τ] (ts : Nat → Bool) (updater : ι → Updater τ Image)

/-- An attempt begins when the shared memory is what one call has stored; nothing is announced in
the bytes it still has to copy, unless the version has changed since; a store does not bring back
the version it has read, nor enlarge the data between its two reads of the size. -/
def KeepsSnapshot (s : Snapshot ι τ) : SnapshotEvent ι → Prop
  | .read (.lock true) => s.reader = .start → ∃ i, s.StoredBy updater i
  | .update (.announce i) =>
    passesAnnounce (updater i) s.updates.shared →
      s.reader.version? ≠ some s.updates.shared.version ∨ ∀ k, ts k → k < s.reader.copied
  | .update (.store i) =>
    passesStore (updater i) s.updates.shared →
      (s.reader.version? ≠ some (stored (updater i) s.updates.shared).version ∨ s.reader.Fresh) ∧
      ∀ d, s.reader.allocating = some d → (image updater i).dataSize ≤ d
  | _ => True

end Snapshot

/-- A copy of what a call has stored: all of its data and all of its table. -/
structure Copy.Of {ι : Type} (c : Copy ι) (i : ι) (m : Image) : Prop where
  data : c.bufCopy = replicate m.dataSize (some i)
  table : c.pointersCopy = replicate (m.address + SHMMAX - m.pointers) (some i)
  fields : c.fields.dataSize = m.dataSize ∧ c.fields.pointers = m.pointers ∧
    c.fields.address = m.address

/-- Nothing is copied past the end of a buffer. -/
def Reader.Within {ι : Type} : Reader ι → Prop
  | .copying f _ buf => buf.length ≤ f.dataSize
  | .table c => c.bufCopy.length ≤ c.fields.dataSize ∧
      c.pointersCopy.length ≤ c.fields.pointersSize
  | .returned (some c) => c.bufCopy.length ≤ c.fields.dataSize ∧
      c.pointersCopy.length ≤ c.fields.pointersSize
  | _ => True

instance {ι : Type} (r : Reader ι) : Decidable r.Within := by
  unfold Reader.Within
  split <;> infer_instance

/-! ## The invariant -/

structure Fields.Of (f : Fields) (m : Image) : Prop where
  dataSize : f.dataSize = m.dataSize
  pointers : f.pointers = m.pointers
  address : f.address = m.address

/-- What an attempt has read so far is what call `i` stored. -/
def Reader.ReadOf {ι : Type} (i : ι) (m : Image) : Reader ι → Prop
  | .dataSize _ d => d = m.dataSize
  | .pointers _ d p => d = m.dataSize ∧ p = m.pointers
  | .checked f => f.Of m
  | .allocated f => f.Of m
  | .copying f n buf => f.Of m ∧ n = m.dataSize ∧ buf = replicate buf.length (some i)
  | .table c => c.fields.Of m ∧ c.bufCopy = replicate m.dataSize (some i) ∧
      c.pointersCopy = replicate c.pointersCopy.length (some i)
  | _ => True

/-- What is allocated is enough for what will be copied, if the size stays `size`. -/
def Reader.Sized {ι : Type} (size : Nat) : Reader ι → Prop
  | .dataSize _ d => size ≤ d
  | .pointers _ d _ => size ≤ d
  | .checked f => size ≤ f.dataSize
  | .allocated f => size ≤ f.dataSize
  | .copying f n buf => n ≤ f.dataSize ∧ buf.length ≤ n
  | r => r.Within

variable {ι : Type} {r : Reader ι}

variable {size : Nat}

theorem Reader.Sized.within (h : r.Sized size) : r.Within := by
  cases r with
  | copying f n buf => exact Nat.le_trans h.2 h.1
  | table c => exact h
  | returned cache => exact h
  | _ => trivial

/-- Only the size that is yet to be read matters. -/
theorem Reader.Sized.of_allocating {size' : Nat} (h : r.Sized size) (hsize : ∀ d, r.allocating = some d → size' ≤ d) :
    r.Sized size' := by
  cases r with
  | dataSize v d => exact hsize d rfl
  | pointers v d p => exact hsize d rfl
  | checked f => exact hsize f.dataSize rfl
  | allocated f => exact hsize f.dataSize rfl
  | _ => exact h

theorem Reader.Fresh.eq_version (h : r.Fresh) : ∃ v, r = .version v := by
  cases r with
  | version v => exact ⟨v, rfl⟩
  | _ => cases h

theorem chunk_eq {wroteBy : Nat → Option ι} {i : ι} {first bytes : Nat}
    (h : ∀ k, first ≤ k → k < first + bytes → wroteBy k = some i) :
    chunk wroteBy first bytes = replicate bytes (some i) := by
  refine List.eq_replicate_iff.mpr ⟨by simp [chunk], fun b hb => ?_⟩
  obtain ⟨k, hk, rfl⟩ := List.mem_map.mp hb
  obtain ⟨hfirst, hlast⟩ := List.mem_range'_1.mp hk
  exact h k hfirst hlast

@[simp] theorem length_chunk (wroteBy : Nat → Option ι) (first bytes : Nat) :
    (chunk wroteBy first bytes).length = bytes := by
  simp [chunk]

namespace Snapshot

variable {ι τ : Type} (ts : Nat → Bool) (updater : ι → Updater τ Image)

/-- The shared memory is what one call has stored, but for announcements in the first
`copied` bytes. -/
def StoredBut (s : Snapshot ι τ) (i : ι) (copied : Nat) : Prop :=
  s.updates.shared.coreRuleSet = image updater i ∧
    ∀ k, (image updater i).Covers k → (ts k → copied ≤ k) → s.wroteBy k = some i

structure Inv (s : Snapshot ι τ) : Prop where
  size : s.reader.Sized s.updates.shared.coreRuleSet.dataSize
  snapshot : s.reader.version? = some s.updates.shared.version →
    ∃ i, s.StoredBut ts updater i s.reader.copied ∧ s.reader.ReadOf i (image updater i)
  returned : ∀ c, s.reader = .returned (some c) → ∃ i, c.Of i (image updater i)

variable {ts updater} {s s' : Snapshot ι τ}

variable {i : ι}

theorem StoredBy.but (h : s.StoredBy updater i) (n : Nat) : s.StoredBut ts updater i n :=
  ⟨h.1, fun k hk _ => h.2 k hk⟩

theorem StoredBut.mono {m n : Nat} (h : s.StoredBut ts updater i m) (hle : m ≤ n) : s.StoredBut ts updater i n :=
  ⟨h.1, fun k hk hts => h.2 k hk fun h => Nat.le_trans hle (hts h)⟩

/-! ## Steps of the reader -/

variable {reader : Reader ι}

/-- A step that leaves the attempt open, and the version it compares with. -/
theorem Inv.read (h : Inv ts updater s) (hsize : reader.Sized s.updates.shared.coreRuleSet.dataSize)
    (hversion : reader.version? = s.reader.version?) (hreturned : ∀ cache, reader ≠ .returned cache)
    (hread : ∀ i, s.StoredBut ts updater i s.reader.copied → s.reader.ReadOf i (image updater i) →
      s.reader.copied ≤ reader.copied ∧ reader.ReadOf i (image updater i)) :
    Inv ts updater { s with reader := reader } := by
  refine ⟨hsize, fun hv => ?_, fun c hc => absurd hc (hreturned _)⟩
  obtain ⟨i, hstored, hof⟩ := h.snapshot (hversion ▸ hv)
  obtain ⟨hle, hof⟩ := hread i hstored hof
  exact ⟨i, hstored.mono hle, hof⟩

/-- A step that ends the attempt without a cache. -/
theorem Inv.giveUp (h : reader = .start ∨ reader = .returned none) : Inv ts updater { s with reader := reader } := by
  rcases h with rfl | rfl
  · exact ⟨trivial, nofun, nofun⟩
  · exact ⟨trivial, nofun, nofun⟩

/-- Everything the reader does keeps the invariant. -/
theorem Inv.restoreCache {r : Read} (hlaid : ∀ i, (image updater i).Laid ts) (h : Inv ts updater s)
    (hbegin : s.reader = .start → r = .lock true → ∃ i, s.StoredBy updater i)
    (hstep : restoreCache s.updates.shared s.wroteBy s.reader r = some reader) :
    Inv ts updater { s with reader := reader } := by
  obtain ⟨updates, wroteBy, reader₀⟩ := s
  simp only [SharedCache.restoreCache] at hstep
  split at hstep
  case h_1 ok =>
    obtain rfl := Option.some.inj hstep
    cases ok with
    | false => exact Inv.giveUp (.inr rfl)
    | true =>
      refine ⟨trivial, fun _ => ?_, nofun⟩
      obtain ⟨i, hstored⟩ := hbegin rfl rfl
      exact ⟨i, hstored.but _, trivial⟩
  case h_2 v =>
    obtain rfl := Option.some.inj hstep
    exact h.read (Nat.le_refl _) rfl nofun fun i hstored _ =>
      ⟨Nat.le_refl _, congrArg Image.dataSize hstored.1⟩
  case h_3 v d =>
    obtain rfl := Option.some.inj hstep
    exact h.read h.size rfl nofun fun i hstored hof =>
      ⟨Nat.le_refl _, hof, congrArg Image.pointers hstored.1⟩
  case h_4 v d p =>
    split at hstep
    · obtain rfl := Option.some.inj hstep
      exact Inv.giveUp (.inl rfl)
    · obtain rfl := Option.some.inj hstep
      exact h.read h.size rfl nofun fun i hstored hof =>
        ⟨Nat.le_refl _, hof.1, hof.2, congrArg Image.address hstored.1⟩
  case h_5 f ok =>
    obtain rfl := Option.some.inj hstep
    cases ok with
    | false => exact Inv.giveUp (.inr rfl)
    | true => exact h.read h.size rfl nofun fun i _ hof => ⟨Nat.le_refl _, hof⟩
  case h_6 f =>
    obtain rfl := Option.some.inj hstep
    exact h.read ⟨h.size, Nat.zero_le _⟩ rfl nofun fun i hstored hof =>
      ⟨Nat.le_refl _, hof, congrArg Image.dataSize hstored.1, rfl⟩
  case h_7 f n buf k =>
    split at hstep
    case isFalse => cases hstep
    case isTrue hle =>
      obtain rfl := Option.some.inj hstep
      refine h.read ⟨h.size.1, by simpa using hle⟩ rfl nofun fun i hstored ⟨hof, hn, hbuf⟩ => ?_
      refine ⟨by simp [Reader.copied], hof, hn, ?_⟩
      have hchunk : chunk wroteBy buf.length k = replicate k (some i) :=
        chunk_eq fun j hfirst hlast => hstored.2 j (.inl (by omega)) fun _ => hfirst
      rw [hchunk, List.length_append, List.length_replicate, ← List.replicate_append_replicate, ← hbuf]
  case h_8 f n buf ok =>
    split at hstep
    case isFalse => cases hstep
    case isTrue hlength =>
      obtain rfl := Option.some.inj hstep
      cases ok with
      | false => exact Inv.giveUp (.inr rfl)
      | true =>
        refine h.read ⟨Nat.le_trans h.size.2 h.size.1, Nat.zero_le _⟩ rfl nofun
          fun i _ ⟨hof, hn, hbuf⟩ => ⟨Nat.le_refl _, hof, ?_, rfl⟩
        rw [← hn, ← hlength]
        exact hbuf
  case h_9 c k =>
    split at hstep
    case isFalse => cases hstep
    case isTrue hle =>
      obtain rfl := Option.some.inj hstep
      refine h.read ⟨h.size.1, by simpa using hle⟩ rfl nofun fun i hstored ⟨hof, hbuf, htab⟩ => ?_
      refine ⟨Nat.le_refl _, hof, hbuf, ?_⟩
      have hchunk : chunk wroteBy (c.fields.pointers - c.fields.address + c.pointersCopy.length) k =
          replicate k (some i) := by
        have hdata := (hlaid i).data
        rw [Fields.pointersSize, hof.pointers, hof.address] at hle
        rw [hof.pointers, hof.address]
        refine chunk_eq fun j hfirst hlast => hstored.2 j (.inr ⟨by omega, by omega⟩) fun hts => ?_
        have hheader := (hlaid i).header j hts
        omega
      rw [hchunk, List.length_append, List.length_replicate, ← List.replicate_append_replicate, ← htab]
  case h_10 c ok =>
    split at hstep
    case isFalse => cases hstep
    case isTrue hlength =>
      cases ok with
      | false =>
        obtain rfl := Option.some.inj hstep
        exact Inv.giveUp (.inr rfl)
      | true =>
        simp only [if_true] at hstep
        split at hstep
        case isFalse =>
          obtain rfl := Option.some.inj hstep
          exact Inv.giveUp (.inl rfl)
        case isTrue hversion =>
          obtain rfl := Option.some.inj hstep
          refine ⟨h.size, nofun, fun c' hc' => ?_⟩
          obtain rfl : c = c' := by simpa using hc'
          obtain ⟨i, -, hof, hbuf, htab⟩ := h.snapshot (congrArg some hversion.symm)
          refine ⟨i, hbuf, ?_, hof.dataSize, hof.pointers, hof.address⟩
          rw [htab, hlength, Fields.pointersSize, hof.pointers, hof.address]
  case h_11 => cases hstep

/-! ## Steps of the updaters -/

variable [DecidableEq ι] [LinearOrder τ]

variable {updates : State ι τ Image} {ret : Option Int}

/-- What a section of `updateCache` does to the shared memory: nothing that a reader reads,
an announcement, or a store. -/
theorem update_cases {e : Event ι} (hstep : SharedCache.step updater s.updates e = some (updates, ret)) :
    (updates.shared = s.updates.shared ∧ s.written ts updater e = s.wroteBy) ∨
    (∃ i, e = .announce i ∧ passesAnnounce (updater i) s.updates.shared ∧
      updates.shared = { s.updates.shared with updateTS := (updater i).cache.timestamp } ∧
      s.written ts updater e = fun k => if ts k then some i else s.wroteBy k) ∨
    (∃ i, e = .store i ∧ passesStore (updater i) s.updates.shared ∧
      updates.shared = stored (updater i) s.updates.shared ∧
      s.written ts updater e = fun k => if (image updater i).Covers k then some i else s.wroteBy k) := by
  cases e with
  | lockFails i =>
    simp only [SharedCache.step] at hstep
    split at hstep
    · cases hstep
      exact .inl ⟨rfl, rfl⟩
    · cases hstep
  | announce i =>
    simp only [SharedCache.step] at hstep
    split at hstep
    · split at hstep
      case isTrue hpass =>
        cases hstep
        exact .inr (.inl ⟨i, rfl, hpass, rfl, if_pos hpass⟩)
      case isFalse hpass =>
        cases hstep
        exact .inl ⟨rfl, if_neg hpass⟩
    · cases hstep
  | fails i f =>
    simp only [SharedCache.step] at hstep
    split at hstep
    · cases hstep
      exact .inl ⟨rfl, rfl⟩
    · cases hstep
  | store i =>
    simp only [SharedCache.step] at hstep
    split at hstep
    · split at hstep
      case isTrue hpass =>
        cases hstep
        exact .inr (.inr ⟨i, rfl, hpass, rfl, if_pos hpass⟩)
      case isFalse hpass =>
        cases hstep
        exact .inl ⟨rfl, if_neg hpass⟩
    · cases hstep

/-- Everything the updaters do keeps the invariant, when they keep to the condition. -/
theorem Inv.update {e : Event ι} (h : Inv ts updater s) (hkeeps : s.KeepsSnapshot ts updater (.update e))
    (hstep : SharedCache.step updater s.updates e = some (updates, ret)) :
    Inv ts updater { s with updates := updates, wroteBy := s.written ts updater e } := by
  have hcases : (_ ∧ s.written ts updater e = s.wroteBy) ∨ _ := update_cases hstep
  rcases hcases with ⟨hshared, hwrote⟩ | ⟨i, rfl, hpass, hshared, hwrote⟩ |
    ⟨i, rfl, hpass, hshared, hwrote⟩
  · rw [hwrote]
    refine ⟨by rw [hshared]; exact h.size, fun hv => ?_, h.returned⟩
    rw [hshared] at hv
    obtain ⟨j, hstored, hof⟩ := h.snapshot hv
    exact ⟨j, ⟨by rw [hshared]; exact hstored.1, hstored.2⟩, hof⟩
  · rw [hwrote]
    refine ⟨by rw [hshared]; exact h.size, fun hv => ?_, h.returned⟩
    rw [hshared] at hv
    obtain ⟨j, hstored, hof⟩ := h.snapshot hv
    refine ⟨j, ⟨by rw [hshared]; exact hstored.1, fun k hk hts => ?_⟩, hof⟩
    rcases hkeeps hpass with hdoomed | hcopied
    · exact absurd hv hdoomed
    · have hnot : ts k ≠ true := fun htrue => Nat.lt_irrefl k (Nat.lt_of_lt_of_le (hcopied k htrue) (hts htrue))
      exact (if_neg hnot).trans (hstored.2 k hk hts)
  · obtain ⟨hversion, hsize⟩ := hkeeps hpass
    rw [hwrote]
    refine ⟨by rw [hshared]; exact h.size.of_allocating hsize, fun hv => ?_, h.returned⟩
    rw [hshared] at hv
    rcases hversion with hversion | hfresh
    · exact absurd hv hversion
    · obtain ⟨v, hreader⟩ := hfresh.eq_version
      refine ⟨i, ⟨by rw [hshared]; rfl, fun k hk _ => if_pos hk⟩, ?_⟩
      simp only [hreader]
      trivial

theorem Inv.step {e : SnapshotEvent ι} {u : Unit} (hlaid : ∀ i, (image updater i).Laid ts)
    (h : Inv ts updater s) (hkeeps : s.KeepsSnapshot ts updater e)
    (hstep : step ts updater s e = some (s', u)) : Inv ts updater s' := by
  cases e with
  | read r =>
    obtain ⟨reader, hread, heq⟩ := Option.map_eq_some_iff.mp hstep
    cases heq
    refine h.restoreCache hlaid (fun hstart hr => ?_) hread
    subst hr
    exact hkeeps hstart
  | update e =>
    obtain ⟨⟨updates, ret⟩, hupdate, heq⟩ := Option.map_eq_some_iff.mp hstep
    cases heq
    exact h.update hkeeps hupdate

/-- In a run that keeps to the condition nothing is copied past the end of a buffer, and a
cache that is returned is what one call has stored. -/
theorem snapshot_of_one_call {es : List (SnapshotEvent ι)} {os : List Unit}
    (hlaid : ∀ i, (image updater i).Laid ts) (hstart : s.reader = .start)
    (hkeeps : (machine ts updater).Guarded (KeepsSnapshot ts updater) s es)
    (hrun : (machine ts updater).run s es = some (s', os)) :
    s'.reader.Within ∧ ∀ c, s'.reader = .returned (some c) → ∃ i, c.Of i (image updater i) := by
  have hinit : Inv ts updater s := by
    obtain ⟨updates, wroteBy, reader⟩ := s
    subst hstart
    exact ⟨trivial, nofun, nofun⟩
  have h : Inv ts updater s' :=
    Machine.run_invariant (Inv ts updater) (fun _ _ _ _ hinv hg hstep => hinv.step hlaid hg hstep) hinit
      hkeeps hrun
  exact ⟨h.size.within, h.returned⟩

/-- While nothing is written every attempt keeps to the condition. -/
theorem guarded_of_reads {es : List (SnapshotEvent ι)} (hstored : s.StoredBy updater i)
    (hreads : ∀ e ∈ es, ∃ r, e = .read r) : (machine ts updater).Guarded (KeepsSnapshot ts updater) s es := by
  induction es generalizing s with
  | nil => trivial
  | cons e es ih =>
    obtain ⟨r, rfl⟩ := hreads e List.mem_cons_self
    refine ⟨?_, fun s' o hstep => ?_⟩
    · cases r with
      | lock ok =>
        cases ok with
        | false => trivial
        | true => exact fun _ => ⟨i, hstored⟩
      | _ => trivial
    · obtain ⟨reader, -, heq⟩ := Option.map_eq_some_iff.mp hstep
      cases heq
      exact ih hstored fun e he => hreads e (List.mem_cons_of_mem _ he)

/-- `updateTS` is the second byte. -/
def secondByte (k : Nat) : Bool := k = 1

/-- An updater that has stored two bytes, and one that stores `dataSize`. -/
def twoUpdaters (processType : ProcessType) (dataSize : Nat) (i : Bool) : Updater Int Image :=
  if i then ⟨⟨⟨0, SHMMAX - 1, dataSize⟩, 10, 0, 0⟩, processType⟩
  else ⟨⟨⟨0, SHMMAX - 1, 2⟩, 3, 0, 0⟩, .initCache⟩

/-- The shared memory as the first updater has stored it. -/
def twoBytes : Snapshot Bool Int where
  updates := ⟨⟨⟨0, SHMMAX - 1, 2⟩, 3, 0, 0⟩, fun i => if i then .start else .returned 0⟩
  wroteBy k := if (⟨0, SHMMAX - 1, 2⟩ : Image).Covers k then some false else none
  reader := .start

theorem twoUpdaters_laid (processType : ProcessType) {dataSize : Nat} (htwo : 2 ≤ dataSize)
    (hfits : dataSize < SHMMAX) (i : Bool) :
    (image (twoUpdaters processType dataSize) i).Laid secondByte := by
  cases i with
  | false =>
    refine ⟨fun k hk => ?_, by simp [image, twoUpdaters, SHMMAX], by simp [image, twoUpdaters]⟩
    obtain rfl : k = 1 := by simpa [secondByte] using hk
    exact Nat.one_lt_two
  | true =>
    refine ⟨fun k hk => ?_, ?_, by simp [image, twoUpdaters]⟩
    · obtain rfl : k = 1 := by simpa [secondByte] using hk
      exact htwo
    · simp only [image, twoUpdaters, if_true]
      omega

theorem twoBytes_stored (processType : ProcessType) (dataSize : Nat) :
    twoBytes.StoredBy (twoUpdaters processType dataSize) false :=
  ⟨rfl, fun _ hk => if_pos hk⟩

def beginning : List (SnapshotEvent Bool) :=
  [.read (.lock true), .read .field, .read .field, .read .field, .read (.malloc true)]

def ending : List (SnapshotEvent Bool) :=
  [.read (.malloc true), .read (.copy 1), .read (.lock true)]

def reads : List (SnapshotEvent Bool) := beginning ++ [.read .field, .read (.copy 3)] ++ ending

def bothSections : List (SnapshotEvent Bool) := [.update (.announce true), .update (.store true)]

/-- An update in the middle of an attempt, which begins anew. -/
def overlapping : List (SnapshotEvent Bool) :=
  beginning ++ [.read .field, .read (.copy 2)] ++ bothSections ++ ending ++ reads

theorem snapshot_of_one_call_after :
    ∃ s' os c, (machine secondByte (twoUpdaters .tryCache 3)).run twoBytes overlapping = some (s', os) ∧
      s'.reader = .returned (some c) ∧ s'.reader.Within ∧
      ∀ c, s'.reader = .returned (some c) → ∃ i, c.Of i (image (twoUpdaters .tryCache 3) i) := by
  have hkeeps : (machine secondByte (twoUpdaters .tryCache 3)).Guarded
      (KeepsSnapshot secondByte (twoUpdaters .tryCache 3)) twoBytes overlapping := by
    refine .cons (fun _ => ⟨false, twoBytes_stored _ _⟩) rfl (.cons trivial rfl (.cons trivial rfl ?_))
    refine .cons trivial rfl (.cons trivial rfl (.cons trivial rfl (.cons trivial rfl ?_)))
    -- the header is copied, and the version is another one after the store
    refine .cons (fun _ => .inr fun k hk => ?_) rfl (.cons (fun _ => ⟨.inl (by decide), nofun⟩) rfl ?_)
    · obtain rfl : k = 1 := by simpa [secondByte] using hk
      exact Nat.one_lt_two
    exact guarded_of_reads (i := true) ⟨rfl, fun k hk => if_pos hk⟩ (by simp [reads, beginning, ending])
  refine ⟨_, _, _, rfl, rfl, ?_⟩
  exact snapshot_of_one_call (twoUpdaters_laid .tryCache (by decide) (by decide)) rfl hkeeps rfl

/-- A cache that grows between the two reads of its size overruns the buffer; a second one of
version 0 stored meanwhile, and an announcement alone, leave bytes of two calls in the copy. -/
theorem torn_copies :
    twoBytes.reader = .start ∧
    (∀ processType, twoBytes.StoredBy (twoUpdaters processType 2) false) ∧
    (∃ s' os, (machine secondByte (twoUpdaters .tryCache 3)).run twoBytes
        (beginning ++ bothSections ++ [.read .field, .read (.copy 3)]) = some (s', os) ∧
      ¬ s'.reader.Within) ∧
    (∃ s' os c, (machine secondByte (twoUpdaters .initCache 2)).run twoBytes
        (beginning ++ [.read .field, .read (.copy 1)] ++ bothSections ++ [.read (.copy 1)] ++ ending) =
          some (s', os) ∧
      s'.reader = .returned (some c) ∧ c.bufCopy = [some false, some true] ∧
      ¬ ∃ i, c.Of i (image (twoUpdaters .initCache 2) i)) ∧
    (∃ s' os c, (machine secondByte (twoUpdaters .tryCache 2)).run twoBytes
        (.update (.announce true) :: beginning ++ [.read .field, .read (.copy 2)] ++ ending) =
          some (s', os) ∧
      s'.reader = .returned (some c) ∧ c.bufCopy = [some false, some true] ∧
      ¬ ∃ i, c.Of i (image (twoUpdaters .tryCache 2) i)) := by
  refine ⟨rfl, fun _ => twoBytes_stored _ _, ⟨_, _, rfl, by decide⟩,
    ⟨_, _, _, rfl, rfl, rfl, ?_⟩, ⟨_, _, _, rfl, rfl, rfl, ?_⟩⟩
  · rintro ⟨i, h⟩
    cases i <;> exact absurd h.data (by decide)
  · rintro ⟨i, h⟩
    cases i <;> exact absurd h.data (by decide)

end Snapshot

end SharedCache
