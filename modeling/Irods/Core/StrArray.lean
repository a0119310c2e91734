-- SUMMARY: strArray_t: strings at a stride that grows, and parseMultiStr.
import Irods.Api.RodsDef
import Irods.Base.CBuffer
import Mathlib.Algebra.Order.Ring.Int

/-!
# Arrays of strings

A `strArray_t` has its strings in one block, `size` characters for each. A longer string doubles `size`
until it fits, and the block is laid out anew then and at every tenth string. Sizes are taken to be in the
range of an `int`, and no array is NULL. An operation has no result (`none`) where the code would read or
write outside of a block.
-/

structure StrArray where
  len : Nat
  size : Int
  value : Text
  deriving DecidableEq

namespace StrArray

open CBuffer
open List (append_assoc append_nil length_append length_cons length_singleton mem_append)
open Option (bind_eq_bind bind_some)

def SYS_INTERNAL_NULL_INPUT_ERR : Int := -24000

def empty : StrArray := ⟨0, 0, []⟩

/-- `while (size < need) size = size * 2;`, `n` times at most. -/
def fittingSize (need : Nat) : Nat → Nat → Nat
  | 0, size => size
  | n + 1, size => if size < need then fittingSize need n (size * 2) else size

/-- The first strings of a block are copied to another one with another stride. -/
def relay (old : Text) (oldSize : Nat) (new : Text) (size : Nat) : Nat → Option Text
  | 0 => some new
  | n + 1 => do rstrcpy (← relay old oldSize new size n) (n * size) (← textAt old (n * oldSize)) size

/-- A larger block with a new stride. -/
def relaid (a : StrArray) (size : Nat) : Option StrArray := do
  let newLen := a.len + PTR_ARRAY_MALLOC_LEN
  return { a with size, value := ← relay a.value a.size.toNat (cleared (newLen * size)) size a.len }

/-- The block in which there is room for a string of less than `size` characters. -/
def makeRoom (a : StrArray) (size : Nat) : Option StrArray :=
  if size ≠ a.size ∨ a.len % PTR_ARRAY_MALLOC_LEN = 0 then relaid a size else some a

/-- The string behind the others, with the status. -/
def addStrArray (a : StrArray) (value : Text) : Option (Int × StrArray) := do
  if a.size ≤ 0 ∧ a.len ≠ 0 then return (SYS_INTERNAL_NULL_INPUT_ERR, a)
  let a := if a.size ≤ 0 then { a with size := NAME_LEN } else a
  let size := fittingSize (value.length + 1) (value.length + 1) a.size.toNat
  let a ← makeRoom a size
  return (0, { a with len := a.len + 1, value := ← rstrcpy a.value (a.len * size) value size })

def resizeStrArray (a : StrArray) (newSize : Int) : Option StrArray :=
  if newSize > a.size ∨ a.len % PTR_ARRAY_MALLOC_LEN = 0 then
    relaid a (if a.size > newSize then a.size else newSize).toNat
  else
    some a

/-- The loop of `parseMultiStr`, `fuel` times at most. The text is cut where a single `%` is found. -/
def parseLoop (strInput : Text) (startPtr endPtr : Nat) (a : StrArray) : Nat → Option StrArray
  | 0 => none
  | fuel + 1 => do
    let endPtr := endPtr + ((strInput.drop endPtr).takeWhile fun c => c ≠ '%' ∧ c ≠ nul).length
    if (← strInput[endPtr]?) = '%' then
      if (← strInput[endPtr + 1]?) = '%' then parseLoop strInput startPtr (endPtr + 2) a fuel
      else
        let strInput := strInput.set endPtr nul
        let (_, a) ← addStrArray a (← textAt strInput startPtr)
        parseLoop strInput (endPtr + 1) (endPtr + 1) a fuel
    else
      let (_, a) ← addStrArray a (← textAt strInput startPtr)
      return a

/-- Each round goes on by a character at least. -/
def parseMultiStr (strInput : Text) (a : StrArray) : Option (Int × StrArray) := do
  let a ← parseLoop (strInput ++ [nul]) 0 0 a (strInput.length + 1)
  return (a.len, a)

/-! ## Strings in the block -/

/-- The strings are in the block, and it reaches up to a multiple of `PTR_ARRAY_MALLOC_LEN` strings. -/
structure Shows (a : StrArray) (xs : List Text) : Prop where
  len : a.len = xs.length
  size : 0 ≤ a.size
  laid : Laid a.size.toNat a.value xs
  room : ∃ k, xs.length ≤ PTR_ARRAY_MALLOC_LEN * k ∧ PTR_ARRAY_MALLOC_LEN * k * a.size.toNat ≤ a.value.length

theorem shows_empty : Shows empty [] := ⟨rfl, Int.le_refl 0, .nil, 0, Nat.le_refl 0, Nat.le_refl 0⟩

variable {a : StrArray} {xs : List Text} {t old new : Text} {size oldSize n : Nat}

theorem fittingSize_le (need : Nat) (n size : Nat) : size ≤ fittingSize need n size := by
  induction n generalizing size with
  | zero => exact le_rfl
  | succ n ih =>
    rw [fittingSize]
    split
    · exact (Nat.le_mul_of_pos_right size Nat.zero_lt_two).trans (ih (size * 2))
    · exact le_rfl

variable {need : Nat}

theorem fittingSize_fits (hpos : 0 < size) (h : need ≤ size + n) : need ≤ fittingSize need n size := by
  induction n generalizing size with
  | zero => exact h
  | succ n ih =>
    rw [fittingSize]
    split
    · exact ih (by omega) (by omega)
    · rename_i hge
      exact Nat.le_of_not_lt hge

/-- The strings are where they belong after the copy. -/
theorem relay_spec (h : Laid oldSize old xs) (hsize : oldSize ≤ size) (hroom : xs.length * size ≤ new.length) :
    ∃ new', relay old oldSize new size xs.length = some new' ∧ Laid size new' xs ∧ new'.length = new.length := by
  have hsteps (n : Nat) (hn : n ≤ xs.length) :
      ∃ new', relay old oldSize new size n = some new' ∧ Laid size new' (xs.take n) ∧ new'.length = new.length := by
    induction n with
    | zero => exact ⟨new, rfl, .nil, rfl⟩
    | succ n ih =>
      obtain ⟨new', hrelay, hlaid, hlen⟩ := ih (Nat.le_of_succ_le hn)
      have hshort : xs[n].length < size := (h.short _ (List.getElem_mem hn)).trans_le hsize
      have htake : (xs.take n).length = n := List.length_take_of_le (Nat.le_of_succ_le hn)
      have hbefore : (n + 1) * size ≤ xs.length * size := Nat.mul_le_mul_right size hn
      rw [Nat.add_mul] at hbefore
      have hinside : n * size + (xs[n] ++ nul :: []).length ≤ new'.length := by
        rw [length_append, length_singleton]
        omega
      have hstore := store_eq hinside
      refine ⟨_, ?_, ?_, (length_store hstore).trans hlen⟩
      · rw [relay, hrelay, h.textAt hn]
        exact (rstrcpy_fits hshort).trans hstore
      · rw [← List.take_append_getElem hn]
        refine hlaid.push (w := []) ?_ (h.text n hn).ends hshort
        rw [htake]
        exact hstore
  have := hsteps xs.length le_rfl
  rwa [List.take_length] at this

/-- The block that is laid out anew has room for one string more. -/
theorem relaid_spec (hlen : a.len = xs.length) (hlaid : Laid a.size.toNat a.value xs) (hsize : a.size.toNat ≤ size) :
    ∃ a', relaid a size = some a' ∧ a'.len = xs.length ∧ a'.size = size ∧ Laid size a'.value xs ∧
      a'.value.length = (xs.length + PTR_ARRAY_MALLOC_LEN) * size := by
  have hcleared : (cleared ((a.len + PTR_ARRAY_MALLOC_LEN) * size)).length =
      (xs.length + PTR_ARRAY_MALLOC_LEN) * size := by
    rw [cleared, List.length_replicate, hlen]
  obtain ⟨new, hrelay, hlaid, hnew⟩ := @relay_spec xs _
    (cleared ((a.len + PTR_ARRAY_MALLOC_LEN) * size)) size _ hlaid hsize
    (by rw [hcleared]; exact Nat.mul_le_mul_right size (Nat.le_add_right _ _))
  rw [← hlen] at hrelay
  refine ⟨{ a with size, value := new }, ?_, hlen, rfl, hlaid, hnew.trans hcleared⟩
  simp only [relaid, hrelay, bind_eq_bind, bind_some]
  rfl

/-- Up to the next multiple of `PTR_ARRAY_MALLOC_LEN` there is room. -/
theorem room_of_relaid (n size : Nat) : ∃ k, n + 1 ≤ PTR_ARRAY_MALLOC_LEN * k ∧
    PTR_ARRAY_MALLOC_LEN * k * size ≤ (n + PTR_ARRAY_MALLOC_LEN) * size := by
  unfold PTR_ARRAY_MALLOC_LEN
  exact ⟨n / 10 + 1, by omega, Nat.mul_le_mul_right size (by omega)⟩

theorem resizeStrArray_spec (h : Shows a xs) (newSize : Int) :
    ∃ a', resizeStrArray a newSize = some a' ∧ Shows a' xs := by
  unfold resizeStrArray
  split
  · obtain ⟨a', hrelaid, hlen, hsize, hlaid, hvalue⟩ := @relaid_spec a xs _ h.len h.laid
      (show a.size.toNat ≤ (if a.size > newSize then a.size else newSize).toNat by split <;> omega)
    obtain ⟨k, hk, hroom⟩ := room_of_relaid xs.length (if a.size > newSize then a.size else newSize).toNat
    refine ⟨a', hrelaid, hlen, by rw [hsize]; exact Int.natCast_nonneg _, ?_, k, Nat.le_of_succ_le hk, ?_⟩
    · rwa [hsize, Int.toNat_natCast]
    · rwa [hsize, Int.toNat_natCast, hvalue]
  · exact ⟨a, rfl, h⟩

/-- In the block in force there is room for the string. -/
theorem makeRoom_spec (h : Shows a xs) (hsize : a.size.toNat ≤ size) :
    ∃ a', makeRoom a size = some a' ∧ a'.len = xs.length ∧ a'.size = size ∧ Laid size a'.value xs ∧
      ∃ k, xs.length + 1 ≤ PTR_ARRAY_MALLOC_LEN * k ∧ PTR_ARRAY_MALLOC_LEN * k * size ≤ a'.value.length := by
  unfold makeRoom
  split
  · obtain ⟨a', hrelaid, hlen, hsize', hlaid, hvalue⟩ := relaid_spec h.len h.laid hsize
    exact ⟨a', hrelaid, hlen, hsize', hlaid, hvalue ▸ room_of_relaid xs.length size⟩
  · rename_i hsame
    obtain ⟨heq, hmod⟩ := not_or.mp hsame
    have heq : a.size = size := (not_not.mp heq).symm
    obtain ⟨k, hk, hroom⟩ := h.room
    have hlaid := h.laid
    rw [heq, Int.toNat_natCast] at hroom hlaid
    have hne : xs.length ≠ PTR_ARRAY_MALLOC_LEN * k := fun hfull =>
      hmod (by rw [h.len, hfull]; exact Nat.mul_mod_right _ k)
    exact ⟨a, rfl, h.len, heq, hlaid, k, by omega, hroom⟩

/-- The string is stored where there is room for it. -/
theorem addStrArray_stored {c : StrArray} (hstart : ¬ (a.size ≤ 0 ∧ a.len ≠ 0)) {b : StrArray}
    (hb : (if a.size ≤ 0 then { a with size := NAME_LEN } else a) = b)
    (hsize : fittingSize (t.length + 1) (t.length + 1) b.size.toNat = size) (hc : makeRoom b size = some c)
    (hlen : c.len = xs.length) (hcsize : c.size = size) (hlaid : Laid size c.value xs)
    (hroom : ∃ k, xs.length + 1 ≤ PTR_ARRAY_MALLOC_LEN * k ∧ PTR_ARRAY_MALLOC_LEN * k * size ≤ c.value.length)
    (hfits : t.length + 1 ≤ size) (ht : nul ∉ t) : ∃ a', addStrArray a t = some (0, a') ∧ Shows a' (xs ++ [t]) := by
  obtain ⟨k, hk, hroom⟩ := hroom
  have hinside : xs.length * size + (t ++ nul :: []).length ≤ c.value.length := by
    have hmul : (xs.length + 1) * size ≤ PTR_ARRAY_MALLOC_LEN * k * size := Nat.mul_le_mul_right size hk
    rw [Nat.add_mul] at hmul
    rw [length_append, length_singleton]
    omega
  obtain ⟨value, hstore⟩ : ∃ value, store c.value (xs.length * size) (t ++ nul :: []) = some value :=
    ⟨_, store_eq hinside⟩
  refine ⟨{ c with len := c.len + 1, value }, ?_, ?_, ?_, ?_, k, ?_, ?_⟩
  · simp only [addStrArray, if_neg hstart, hb, hsize, hc, bind_eq_bind, bind_some]
    rw [hlen, rstrcpy_fits hfits, hstore]
    rfl
  · rw [length_append, length_singleton, hlen]
  · rw [hcsize]
    exact Int.natCast_nonneg _
  · rw [hcsize, Int.toNat_natCast]
    exact hlaid.push (w := []) hstore ht hfits
  · rwa [length_append, length_singleton]
  · rw [hcsize, Int.toNat_natCast, length_store hstore]
    exact hroom

theorem addStrArray_spec (h : Shows a xs) (ht : nul ∉ t) :
    ∃ a', addStrArray a t = some (0, a') ∧ Shows a' (xs ++ [t]) := by
  -- an array that was not sized before has no strings
  have hstart : ¬ (a.size ≤ 0 ∧ a.len ≠ 0) := by
    rintro ⟨hle, hne⟩
    obtain ⟨x, hx⟩ := List.exists_mem_of_length_pos (h.len ▸ Nat.pos_of_ne_zero hne)
    have := h.laid.short x hx
    omega
  have hsized : ∃ b : StrArray, (if a.size ≤ 0 then { a with size := NAME_LEN } else a) = b ∧
      0 < b.size ∧ Shows b xs := by
    split
    · have hnone : xs = [] := List.length_eq_zero_iff.mp (h.len ▸ by omega)
      subst hnone
      exact ⟨_, rfl, show (0 : Int) < NAME_LEN by decide, h.len, show (0 : Int) ≤ NAME_LEN by decide, .nil, 0,
        Nat.le_refl 0, by simp⟩
    · exact ⟨a, rfl, by omega, h⟩
  obtain ⟨b, hb, hpos, hshows⟩ := hsized
  have hle := fittingSize_le (t.length + 1) (t.length + 1) b.size.toNat
  have hfits : t.length + 1 ≤ fittingSize (t.length + 1) (t.length + 1) b.size.toNat :=
    fittingSize_fits (by omega) (by omega)
  obtain ⟨c, hc, hclen, hcsize, hlaid, hroom⟩ := makeRoom_spec hshows hle
  exact addStrArray_stored hstart hb rfl hc hclen hcsize hlaid hroom hfits ht

/-- A string that is too long for the size in force has the block laid out anew. -/
theorem addStrArray_longer (hlen : a.len = xs.length) (hpos : 0 < a.size) (hlaid : Laid a.size.toNat a.value xs)
    (hlong : a.size ≤ t.length) (ht : nul ∉ t) : ∃ a', addStrArray a t = some (0, a') ∧ Shows a' (xs ++ [t]) := by
  have hle := fittingSize_le (t.length + 1) (t.length + 1) a.size.toNat
  have hfits : t.length + 1 ≤ fittingSize (t.length + 1) (t.length + 1) a.size.toNat :=
    fittingSize_fits (by omega) (by omega)
  obtain ⟨c, hc, hclen, hcsize, hlaid', hvalue⟩ := relaid_spec hlen hlaid hle
  have hroom : makeRoom a (fittingSize (t.length + 1) (t.length + 1) a.size.toNat) = some c := by
    rw [makeRoom, if_pos (.inl (by omega)), hc]
  exact addStrArray_stored (fun h => by omega) (if_neg (by omega)) rfl hroom hclen hcsize hlaid'
    (hvalue ▸ room_of_relaid _ _) hfits ht

theorem fittingSize_eq (h : need ≤ size) (n : Nat) : fittingSize need n size = size := by
  cases n with
  | zero => rfl
  | succ n => exact if_neg (Nat.not_lt.mpr h)

/-- A string that fits is written behind a block that is full, unless the block is laid out anew. -/
theorem addStrArray_full (hfull : a.value.length ≤ a.len * a.size.toNat) (hmod : a.len % PTR_ARRAY_MALLOC_LEN ≠ 0)
    (hfits : (t.length : Int) < a.size) : addStrArray a t = none := by
  have hsize : fittingSize (t.length + 1) (t.length + 1) a.size.toNat = a.size.toNat := fittingSize_eq (by omega) _
  have hsame : makeRoom a a.size.toNat = some a := if_neg (by omega)
  have houtside : rstrcpy a.value (a.len * a.size.toNat) t a.size.toNat = none := by
    rw [rstrcpy_fits (by omega), store, if_neg]
    rw [length_append, length_singleton]
    omega
  have hstart : ¬ (a.size ≤ 0 ∧ a.len ≠ 0) := fun h => by omega
  have hkept : (if a.size ≤ 0 then { a with size := NAME_LEN } else a) = a := if_neg (by omega)
  simp only [addStrArray, if_neg hstart, hkept, hsize, hsame, houtside, bind_eq_bind, bind_some,
    Option.bind_none]

/-! ## Splitting -/

/-- Characters in front of the first piece. -/
def onto (p : Text) : List Text → List Text
  | [] => [p]
  | x :: xs => (p ++ x) :: xs

/-- The pieces between single `%`, where two of them in a row are part of a piece. -/
def pieces : Text → List Text
  | [] => [[]]
  | '%' :: '%' :: s => onto ['%', '%'] (pieces s)
  | '%' :: s => [] :: pieces s
  | c :: s => onto [c] (pieces s)

section Splitting

variable {A P Q R : Text}

theorem onto_onto (P Q : Text) (xs : List Text) : onto P (onto Q xs) = onto (P ++ Q) xs := by
  cases xs with
  | nil => rfl
  | cons x xs => exact congrArg (· :: xs) (append_assoc P Q x).symm

theorem pieces_ne_nil (s : Text) : ∃ x xs, pieces s = x :: xs := by
  have honto (p : Text) (xs : List Text) : ∃ y ys, onto p xs = y :: ys := by
    cases xs <;> exact ⟨_, _, rfl⟩
  unfold pieces
  split
  · exact ⟨_, _, rfl⟩
  · exact honto _ _
  · exact ⟨_, _, rfl⟩
  · exact honto _ _

theorem pieces_plain (h : '%' ∉ Q) (R : Text) : pieces (Q ++ R) = onto Q (pieces R) := by
  induction Q with
  | nil =>
    obtain ⟨x, xs, hx⟩ := pieces_ne_nil R
    rw [hx]
    exact hx
  | cons c Q ih =>
    obtain ⟨hc, hQ⟩ := not_or.mp fun hmem => h (List.mem_cons.mpr hmem)
    have hstep : pieces (c :: (Q ++ R)) = onto [c] (pieces (Q ++ R)) := by
      rw [pieces]
      · rintro s rfl -
        exact hc rfl
      · rintro rfl
        exact hc rfl
    rw [List.cons_append, hstep, ih hQ, onto_onto]
    rfl

/-- A text is read up to its first `%`. -/
theorem scan_eq (hQ : '%' ∉ Q) (hnul : nul ∉ Q) {c : Char} (hc : c = '%' ∨ c = nul) (R : Text) :
    (Q ++ c :: R).takeWhile (fun c => c ≠ '%' ∧ c ≠ nul) = Q := by
  have hall : ∀ d ∈ Q, decide (d ≠ '%' ∧ d ≠ nul) = true := fun d hd =>
    decide_eq_true ⟨fun heq => hQ (heq ▸ hd), fun heq => hnul (heq ▸ hd)⟩
  have hstop : (c :: R).takeWhile (fun c => c ≠ '%' ∧ c ≠ nul) = [] := by
    obtain rfl | rfl := hc <;> exact List.takeWhile_cons_of_neg (by decide)
  rw [List.takeWhile_append_of_pos hall, hstop, append_nil]

theorem textAt_piece (hP : nul ∉ P) (hQ : nul ∉ Q) (A T : Text) :
    textAt (A ++ P ++ Q ++ nul :: T) A.length = some (P ++ Q) := by
  rw [append_assoc (A ++ P), append_assoc A, ← append_assoc P]
  exact textAt_cut (fun hmem => (mem_append.mp hmem).elim hP hQ) A T

section Round

variable {c : Char}

theorem length_parts (A P Q : Text) : (A ++ P ++ Q).length = A.length + P.length + Q.length := by
  simp only [length_append]

variable (hQ : '%' ∉ Q) (hQnul : nul ∉ Q)
include hQ hQnul

/-- A round starts behind `P` and comes to the first `%` or the end. -/
theorem parseLoop_round (hc : c = '%' ∨ c = nul) (A P T : Text) (a : StrArray) (n : Nat) :
    parseLoop (A ++ P ++ Q ++ c :: T) A.length (A.length + P.length) a (n + 1) =
      if c = '%' then
        (T[0]?).bind fun d =>
          if d = '%' then parseLoop (A ++ P ++ Q ++ c :: T) A.length ((A ++ P ++ Q).length + 2) a n
          else (textAt (A ++ P ++ Q ++ nul :: T) A.length).bind fun s => (addStrArray a s).bind fun r =>
            parseLoop (A ++ P ++ Q ++ nul :: T) ((A ++ P ++ Q).length + 1) ((A ++ P ++ Q).length + 1) r.2 n
      else (textAt (A ++ P ++ Q ++ c :: T) A.length).bind fun s => (addStrArray a s).bind fun r => some r.2 := by
  have hdrop : (A ++ P ++ Q ++ c :: T).drop (A.length + P.length) = Q ++ c :: T := by
    rw [append_assoc (A ++ P), ← length_append, List.drop_left]
  have hfirst : (A ++ P ++ Q ++ c :: T)[(A ++ P ++ Q).length]? = some c := by
    rw [List.getElem?_append_right le_rfl, Nat.sub_self]
    rfl
  have hsecond : (A ++ P ++ Q ++ c :: T)[(A ++ P ++ Q).length + 1]? = T[0]? := by
    rw [List.getElem?_append_right (Nat.le_succ _), Nat.succ_sub le_rfl, Nat.sub_self]
    rfl
  have hset : (A ++ P ++ Q ++ c :: T).set (A ++ P ++ Q).length nul = A ++ P ++ Q ++ nul :: T := by
    rw [List.set_append_right _ _ le_rfl, Nat.sub_self]
    rfl
  rw [parseLoop, hdrop, scan_eq hQ hQnul hc, ← length_parts, hfirst, hsecond, hset]
  rfl

end Round

/-- The part from the start on that is read already is the beginning of the next piece. -/
theorem parseLoop_spec (n : Nat) (hlen : R.length < n) (h : Shows a xs) (hP : nul ∉ P) (hR : nul ∉ R) :
    ∃ a', parseLoop (A ++ P ++ R ++ [nul]) A.length (A.length + P.length) a n = some a' ∧
      Shows a' (xs ++ onto P (pieces R)) := by
  induction n generalizing A P R a xs with
  | zero => exact absurd hlen (Nat.not_lt_zero _)
  | succ n ih =>
    by_cases hmem : '%' ∈ R
    · obtain ⟨Q, S, rfl, hQ⟩ := List.eq_append_cons_of_mem hmem
      have hQnul : nul ∉ Q := fun hmem => hR (List.mem_append_left _ hmem)
      have hS : nul ∉ S := fun hmem => hR (List.mem_append_right _ (List.mem_cons_of_mem _ hmem))
      have hbuffer : A ++ P ++ (Q ++ '%' :: S) ++ [nul] = A ++ P ++ Q ++ '%' :: (S ++ [nul]) := by simp
      rw [length_append, length_cons] at hlen
      rw [pieces_plain hQ, hbuffer, parseLoop_round hQ hQnul (.inl rfl), if_pos rfl]
      by_cases htwo : ∃ T, S = '%' :: T
      · -- two in a row are read over
        obtain ⟨T, rfl⟩ := htwo
        have hpart : nul ∉ P ++ Q ++ ['%', '%'] := fun hmem =>
          (mem_append.mp hmem).elim (fun hmem => (mem_append.mp hmem).elim hP hQnul) (by decide)
        obtain ⟨a', hrun, hshows⟩ := ih (A := A) (R := T) (by rw [length_cons] at hlen; omega) h hpart
          fun hmem => hS (List.mem_cons_of_mem _ hmem)
        refine ⟨a', ?_, ?_⟩
        · have hpos : A.length + (P ++ Q ++ ['%', '%']).length = (A ++ P ++ Q).length + 2 := by
            simp only [length_append, length_cons, List.length_nil]
            omega
          rw [hpos] at hrun
          simpa using hrun
        · rwa [pieces, onto_onto, onto_onto]
      · -- a single one ends the piece
        have hnext : ∃ d, d ≠ '%' ∧ (S ++ [nul])[0]? = some d := by
          cases S with
          | nil => exact ⟨nul, by decide, rfl⟩
          | cons d T => exact ⟨d, fun hd => htwo ⟨T, by rw [hd]⟩, rfl⟩
        obtain ⟨d, hd, hnext⟩ := hnext
        obtain ⟨a₁, hadd, hshows₁⟩ := addStrArray_spec h fun hmem => (mem_append.mp hmem).elim hP hQnul
        obtain ⟨a', hrun, hshows⟩ := ih (A := A ++ P ++ Q ++ [nul]) (P := []) (R := S) (by omega) hshows₁ nofun hS
        refine ⟨a', ?_, ?_⟩
        · rw [hnext, bind_some, if_neg hd, textAt_piece hP hQnul, bind_some, hadd, bind_some]
          simpa [Nat.add_assoc] using hrun
        · have hpieces : pieces ('%' :: S) = [] :: pieces S := by
            rw [pieces]
            exact fun T hT => htwo ⟨T, hT⟩
          obtain ⟨x, ys, hx⟩ := pieces_ne_nil S
          rw [hpieces]
          rw [hx] at hshows ⊢
          simpa [onto] using hshows
    · -- the end of the text
      obtain ⟨a', hadd, hshows⟩ := addStrArray_spec h fun hmem => (mem_append.mp hmem).elim hP hR
      refine ⟨a', ?_, ?_⟩
      · rw [parseLoop_round hmem hR (.inr rfl), if_neg (by decide), textAt_piece hP hR, bind_some, hadd]
        rfl
      · have hplain := pieces_plain hmem []
        rw [append_nil] at hplain
        rw [hplain]
        simpa [pieces, onto] using hshows

theorem parseMultiStr_spec {s : Text} (h : Shows a xs) (hs : nul ∉ s) :
    ∃ a', parseMultiStr s a = some (a'.len, a') ∧ Shows a' (xs ++ pieces s) := by
  obtain ⟨a', hrun, hshows⟩ := parseLoop_spec (A := []) (P := []) (s.length + 1) (Nat.lt_succ_self _) h nofun hs
  refine ⟨a', ?_, ?_⟩
  · rw [parseMultiStr, show parseLoop (s ++ [nul]) 0 0 a (s.length + 1) = some a' from hrun]
    rfl
  · obtain ⟨x, ys, hx⟩ := pieces_ne_nil s
    rw [hx] at hshows ⊢
    exact hshows

end Splitting

example : pieces "a%b%%c%".toList = ["a".toList, "b%%c".toList, []] := by decide

/-! ## Runs -/

inductive Op where
  | addStrArray (value : Text)
  | resizeStrArray (newSize : Int)
  | parseMultiStr (strInput : Text)
  deriving DecidableEq

/-- The text of the operation is a C string. -/
def Op.Ended : Op → Prop
  | .addStrArray value => nul ∉ value
  | .resizeStrArray _ => True
  | .parseMultiStr strInput => nul ∉ strInput

/-- The strings that an operation adds. -/
def Op.strings : Op → List Text
  | .addStrArray value => [value]
  | .resizeStrArray _ => []
  | .parseMultiStr strInput => pieces strInput

def step (a : StrArray) : Op → Option StrArray
  | .addStrArray value => return (← StrArray.addStrArray a value).2
  | .resizeStrArray newSize => StrArray.resizeStrArray a newSize
  | .parseMultiStr strInput => return (← StrArray.parseMultiStr strInput a).2

def run (ops : List Op) (a : StrArray) : Option StrArray := ops.foldlM step a

theorem step_spec {op : Op} (h : Shows a xs) (hop : op.Ended) : ∃ a', step a op = some a' ∧
    Shows a' (xs ++ op.strings) := by
  cases op with
  | addStrArray value =>
    obtain ⟨a', hadd, hshows⟩ := addStrArray_spec h hop
    exact ⟨a', by rw [step, hadd]; rfl, hshows⟩
  | resizeStrArray newSize =>
    obtain ⟨a', hresize, hshows⟩ := resizeStrArray_spec h newSize
    exact ⟨a', hresize, by rwa [Op.strings, append_nil]⟩
  | parseMultiStr strInput =>
    obtain ⟨a', hparse, hshows⟩ := parseMultiStr_spec h hop
    exact ⟨a', by rw [step, hparse]; rfl, hshows⟩

theorem run_spec {ops : List Op} (h : Shows a xs) (hops : ∀ op ∈ ops, op.Ended) :
    ∃ a', run ops a = some a' ∧ Shows a' (xs ++ ops.flatMap Op.strings) := by
  induction ops generalizing a xs with
  | nil => exact ⟨a, rfl, by rwa [List.flatMap_nil, append_nil]⟩
  | cons op ops ih =>
    obtain ⟨a₁, hstep, hshows₁⟩ := step_spec h (hops op List.mem_cons_self)
    obtain ⟨a', hrun, hshows⟩ := ih hshows₁ fun op hop => hops op (List.mem_cons_of_mem _ hop)
    refine ⟨a', ?_, by rwa [List.flatMap_cons, ← append_assoc]⟩
    rw [run, List.foldlM_cons, hstep]
    exact hrun

/-- Each string that was added, or that is a piece of a text, is found at its multiple of `size`. -/
theorem strArray_keeps (ops : List Op) (h : ∀ op ∈ ops, op.Ended) :
    ∃ a, run ops empty = some a ∧ a.len = (ops.flatMap Op.strings).length ∧
      ∀ i (hi : i < (ops.flatMap Op.strings).length),
        textAt a.value (i * a.size.toNat) = some (ops.flatMap Op.strings)[i] := by
  obtain ⟨a, hrun, hshows⟩ := run_spec shows_empty h
  exact ⟨a, hrun, hshows.len, fun i hi => hshows.laid.textAt hi⟩

/-- A short string, room for longer ones, and a text of three pieces. -/
def resized : List Op := [.addStrArray "x".toList, .resizeStrArray 100, .parseMultiStr "a%b%%c%".toList]

theorem resized_keeps : (∀ op ∈ resized, op.Ended) ∧
    ∃ a, run resized empty = some a ∧ a.len = (resized.flatMap Op.strings).length ∧
      ∀ i (hi : i < (resized.flatMap Op.strings).length),
        textAt a.value (i * a.size.toNat) = some (resized.flatMap Op.strings)[i] := by
  have hended : ∀ op ∈ resized, op.Ended := by simp [resized, Op.Ended, nul]
  exact ⟨hended, strArray_keeps resized hended⟩

end StrArray
