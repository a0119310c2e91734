-- SUMMARY: Bounded blocks of characters with strings in them.
import Irods.Base.CString

/-!
# Blocks of characters

A block is the list of its characters, all of them set. A string in it ends before the next `nul`; where
there is none, reading it would leave the block. A table keeps its strings at the multiples of a stride.
-/

namespace CBuffer

open List (append_nil length_append length_take replicate)

def nul : Char := '\x00'

/-- `malloc` and `memset` to 0. -/
def cleared (n : Nat) : Text := replicate n nul

def textAt (mem : Text) (pos : Nat) : Option Text :=
  let s := mem.drop pos
  if nul ∈ s then some (s.takeWhile (· ≠ nul)) else none

/-- What `strncpy` reads of a block: it stops at the end of a string. -/
def textWithin (mem : Text) (pos n : Nat) : Option Text :=
  let s := (mem.drop pos).take n
  if nul ∈ s ∨ s.length = n then some (s.takeWhile (· ≠ nul)) else none

/-- The characters are written, unless they reach over the end of the block. -/
def store (mem : Text) (pos : Nat) (cs : Text) : Option Text :=
  if pos + cs.length ≤ mem.length then some (mem.take pos ++ (cs ++ mem.drop (pos + cs.length))) else none

/-- Nothing is written when the string is as long as the room for it. -/
def rstrcpy (mem : Text) (pos : Nat) (src : Text) (maxLen : Nat) : Option Text :=
  if src.length ≥ maxLen then some mem else store mem pos (src ++ [nul])

/-- The room is filled up with `nul`, but a longer string is not ended. -/
def strncpy (mem : Text) (pos : Nat) (src : Text) (n : Nat) : Option Text :=
  store mem pos (src.take n ++ replicate (n - src.length) nul)

variable {mem mem' t cs w : Text} {p pos stride n : Nat} {xs : List Text}

/-! ## One string -/

/-- The string is at the position, with its end. -/
structure HasText (mem : Text) (pos : Nat) (t : Text) : Prop where
  ends : nul ∉ t
  chars : t ++ [nul] <+: mem.drop pos

theorem HasText.textAt (h : HasText mem pos t) : textAt mem pos = some t := by
  obtain ⟨rest, hrest⟩ := h.chars
  have hdrop : mem.drop pos = t ++ nul :: rest := by simpa using hrest.symm
  have htake : (t ++ nul :: rest).takeWhile (· ≠ nul) = t := by
    have hnot : ∀ c ∈ t, decide (c ≠ nul) = true := fun c hc => decide_eq_true fun heq => h.ends (heq ▸ hc)
    rw [List.takeWhile_append_of_pos hnot, List.takeWhile_cons_of_neg (by simp), append_nil]
  simp only [CBuffer.textAt, hdrop, htake]
  exact if_pos (List.mem_append_right _ List.mem_cons_self)

/-- The string between a position and the next `nul`. -/
theorem textAt_cut (h : nul ∉ t) (A R : Text) : textAt (A ++ (t ++ nul :: R)) A.length = some t :=
  HasText.textAt ⟨h, by rw [List.drop_left]; exact ⟨R, by simp⟩⟩

theorem HasText.textWithin (h : HasText mem pos t) (hn : t.length < n) : textWithin mem pos n = some t := by
  obtain ⟨rest, hrest⟩ := h.chars
  obtain ⟨m, hm⟩ : ∃ m, n = t.length + (m + 1) := ⟨n - t.length - 1, by omega⟩
  have hdrop : (mem.drop pos).take n = t ++ nul :: rest.take m := by
    rw [show mem.drop pos = t ++ nul :: rest by simpa using hrest.symm, hm, List.take_length_add_append,
      List.take_succ_cons]
  have hnot : ∀ c ∈ t, decide (c ≠ nul) = true := fun c hc => decide_eq_true fun heq => h.ends (heq ▸ hc)
  simp only [CBuffer.textWithin, hdrop]
  rw [if_pos (.inl (List.mem_append_right _ List.mem_cons_self)), List.takeWhile_append_of_pos hnot,
    List.takeWhile_cons_of_neg (by simp), append_nil]

theorem hasText_of_textAt (h : textAt mem pos = some t) : HasText mem pos t := by
  simp only [CBuffer.textAt] at h
  split at h
  · rename_i hmem
    obtain ⟨s, rest, hdrop, hs⟩ := List.eq_append_cons_of_mem hmem
    have hnot : ∀ c ∈ s, decide (c ≠ nul) = true := fun c hc => decide_eq_true fun heq => hs (heq ▸ hc)
    rw [hdrop, List.takeWhile_append_of_pos hnot, List.takeWhile_cons_of_neg (by simp), append_nil] at h
    obtain rfl := Option.some.inj h
    exact ⟨hs, rest, by rw [hdrop]; simp⟩
  · cases h

theorem HasText.length_lt (h : HasText mem pos t) : pos + t.length < mem.length := by
  have := h.chars.length_le
  rw [length_append, List.length_singleton, List.length_drop] at this
  omega

theorem store_eq (h : pos + cs.length ≤ mem.length) :
    store mem pos cs = some (mem.take pos ++ (cs ++ mem.drop (pos + cs.length))) := if_pos h

theorem length_store (h : store mem pos cs = some mem') : mem'.length = mem.length := by
  unfold store at h
  split at h
  · cases h
    simp
    omega
  · cases h

theorem store_bound (h : store mem pos cs = some mem') : pos + cs.length ≤ mem.length := by
  unfold store at h
  split at h
  · assumption
  · cases h

theorem getElem?_store (h : store mem pos cs = some mem') (i : Nat) :
    mem'[i]? = if i < pos then mem[i]? else if i < pos + cs.length then cs[i - pos]? else mem[i]? := by
  have hbound := store_bound h
  rw [store_eq hbound] at h
  cases h
  have hlen : (mem.take pos).length = pos := by
    rw [length_take]
    omega
  split
  · rename_i hi
    rw [List.getElem?_append_left (by omega), List.getElem?_take, if_pos hi]
  · rw [List.getElem?_append_right (by omega), hlen]
    split
    · rw [List.getElem?_append_left (by omega)]
    · rw [List.getElem?_append_right (by omega), List.getElem?_drop]
      congr 1
      omega

/-- A string stays where nothing is written over it. -/
theorem HasText.store (h : HasText mem p t) (hs : store mem pos cs = some mem')
    (hapart : p + t.length < pos ∨ pos + cs.length ≤ p) : HasText mem' p t := by
  refine ⟨h.ends, ?_⟩
  have hchars := h.chars
  rw [List.prefix_iff_getElem?] at hchars ⊢
  intro i hi
  have hi' : i < t.length + 1 := by simpa using hi
  rw [← hchars i hi, List.getElem?_drop, List.getElem?_drop, getElem?_store hs]
  split
  · rfl
  · rw [if_neg (by omega)]

theorem hasText_store (hs : store mem pos (t ++ nul :: w) = some mem') (ht : nul ∉ t) : HasText mem' pos t := by
  refine ⟨ht, List.prefix_iff_getElem?.mpr fun i hi => ?_⟩
  have hi' : i < t.length + 1 := by simpa using hi
  rw [List.getElem?_drop, getElem?_store hs, if_neg (by omega), if_pos (by simp; omega), Nat.add_sub_cancel_left,
    ← List.getElem?_eq_getElem hi, show t ++ nul :: w = (t ++ [nul]) ++ w by simp, List.getElem?_append_left hi]

theorem hasText_cleared (h : pos < n) : HasText (cleared n) pos [] := by
  refine ⟨nofun, ?_⟩
  obtain ⟨k, hk⟩ : ∃ k, n - pos = k + 1 := ⟨n - pos - 1, by omega⟩
  rw [cleared, List.drop_replicate, hk, List.replicate_succ]
  exact ⟨_, rfl⟩

/-! ## Copies of strings -/

theorem rstrcpy_fits (h : t.length < n) : rstrcpy mem pos t n = store mem pos (t ++ nul :: []) := if_neg (by omega)

theorem strncpy_eq (hn : pos + n ≤ mem.length) (t : Text) : ∃ mem', strncpy mem pos t n = some mem' := by
  refine ⟨_, store_eq ?_⟩
  rw [length_append, length_take, List.length_replicate]
  omega

theorem strncpy_fits (h : t.length < n) :
    strncpy mem pos t n = store mem pos (t ++ nul :: replicate (n - t.length - 1) nul) := by
  obtain ⟨k, hk⟩ : ∃ k, n - t.length = k + 1 := ⟨n - t.length - 1, by omega⟩
  rw [strncpy, List.take_of_length_le h.le, hk, List.replicate_succ, Nat.add_sub_cancel]

/-! ## Tables of strings -/

/-- The strings are at the multiples of the stride. -/
structure Laid (stride : Nat) (mem : Text) (xs : List Text) : Prop where
  text : ∀ k (hk : k < xs.length), HasText mem (k * stride) xs[k]
  short : ∀ t ∈ xs, t.length < stride

theorem Laid.nil : Laid stride mem [] := ⟨nofun, nofun⟩

/-- What is written behind the strings does not touch them. -/
theorem Laid.store (h : Laid stride mem xs) (hs : store mem pos cs = some mem') (hpos : xs.length * stride ≤ pos) :
    Laid stride mem' xs := by
  refine ⟨fun k hk => ?_, h.short⟩
  have hbefore : (k + 1) * stride ≤ xs.length * stride := Nat.mul_le_mul_right stride hk
  have hlen := h.short xs[k] (List.getElem_mem hk)
  rw [Nat.add_mul] at hbefore
  exact (h.text k hk).store hs (.inl (by omega))

theorem Laid.push (h : Laid stride mem xs) (hs : CBuffer.store mem (xs.length * stride) (t ++ nul :: w) = some mem')
    (ht : nul ∉ t) (hshort : t.length < stride) : Laid stride mem' (xs ++ [t]) := by
  refine ⟨fun k hk => ?_, fun u hu => ?_⟩
  · obtain hlt | rfl : k < xs.length ∨ k = xs.length := by
      rw [length_append, List.length_singleton] at hk
      omega
    · rw [List.getElem_append_left hlt]
      exact (h.store hs le_rfl).text k hlt
    · rw [List.getElem_concat_length rfl]
      exact hasText_store hs ht
  · obtain hu | hu := List.mem_append.mp hu
    · exact h.short u hu
    · exact List.mem_singleton.mp hu ▸ hshort

theorem Laid.textAt {k : Nat} (h : Laid stride mem xs) (hk : k < xs.length) : textAt mem (k * stride) = some xs[k] :=
  (h.text k hk).textAt

theorem drop_store (h : store mem pos cs = some mem') (hp : pos + cs.length ≤ p) : mem'.drop p = mem.drop p := by
  refine List.ext_getElem? fun i => ?_
  rw [List.getElem?_drop, List.getElem?_drop, getElem?_store h, if_neg (by omega), if_neg (by omega)]

theorem length_copied (hn : t.length ≤ n) : (t.take n ++ replicate (n - t.length) nul).length = n := by
  rw [length_append, length_take, List.length_replicate]
  omega

/-- A table with the room that is left clear. -/
structure Filled (stride size : Nat) (mem : Text) (xs : List Text) : Prop extends Laid stride mem xs where
  length : mem.length = size
  clear : mem.drop (xs.length * stride) = cleared (size - xs.length * stride)

variable {size : Nat}

theorem filled_cleared : Filled stride size (cleared size) [] where
  toLaid := .nil
  length := List.length_replicate
  clear := by simp [cleared]

/-- The next string is copied with as many characters as the stride has at most. -/
theorem Filled.push (h : Filled stride size mem xs) (ht : nul ∉ t) (hshort : t.length < n) (hn : n ≤ stride)
    (hs : strncpy mem (xs.length * stride) t n = some mem') : Filled stride size mem' (xs ++ [t]) := by
  have hlaid : Laid stride mem' (xs ++ [t]) :=
    h.toLaid.push ((strncpy_fits hshort).symm.trans hs) ht (hshort.trans_le hn)
  refine ⟨hlaid, (length_store hs).trans h.length, ?_⟩
  rw [length_append, List.length_singleton, Nat.add_mul, Nat.one_mul,
    drop_store hs (by rw [length_copied hshort.le]; omega), ← List.drop_drop, h.clear, cleared,
    List.drop_replicate, cleared, Nat.sub_sub]

/-- Where no string is yet, the empty one is read. -/
theorem Filled.textWithin_rest (h : Filled stride size mem xs) (hroom : xs.length * stride < size) (hn : 0 < n) :
    textWithin mem (xs.length * stride) n = some [] := by
  obtain ⟨m, hm⟩ : ∃ m, size - xs.length * stride = m + 1 := ⟨size - xs.length * stride - 1, by omega⟩
  obtain ⟨k, rfl⟩ : ∃ k, n = k + 1 := ⟨n - 1, by omega⟩
  simp only [textWithin, h.clear, hm, cleared, List.replicate_succ, List.take_succ_cons]
  rw [if_pos (.inl List.mem_cons_self), List.takeWhile_cons_of_neg (by simp)]

theorem Filled.textWithin_none (h : Filled stride size mem xs) (hroom : size ≤ xs.length * stride) (hn : 0 < n) :
    textWithin mem (xs.length * stride) n = none := by
  simp only [textWithin, h.clear, Nat.sub_eq_zero_of_le hroom, cleared, List.replicate_zero, List.take_nil]
  refine if_neg ?_
  simp
  omega

/-- The empty string is copied to where it is. -/
theorem Filled.strncpy_nil (h : Filled stride size mem xs) (hs : strncpy mem (xs.length * stride) [] n = some mem') :
    Filled stride size mem' xs := by
  have hbound := store_bound hs
  have heq := hs
  rw [strncpy, store_eq hbound] at heq
  obtain rfl := Option.some.inj heq
  have hlen : (mem.take (xs.length * stride)).length = xs.length * stride := by
    rw [length_take]
    omega
  refine ⟨h.toLaid.store hs le_rfl, (length_store hs).trans h.length, ?_⟩
  rw [length_copied (Nat.zero_le _), h.length] at hbound
  rw [List.drop_left' hlen, length_copied (Nat.zero_le _), ← List.drop_drop, h.clear, cleared, List.drop_replicate,
    List.take_nil, List.nil_append, List.replicate_append_replicate, List.length_nil]
  congr 1
  omega

end CBuffer
