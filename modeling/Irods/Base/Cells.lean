-- SUMMARY: Bounded arrays of cells, and lists in arrays that grow by blocks.
import Mathlib.Data.List.Infix

/-!
# Cells

An access outside of an array is an error. A list is kept in the first cells; the array is replaced by
one that is larger by a block whenever the length of the list is a multiple of the size of a block.
-/

/-- An array. A cell that was not written is `none`. -/
abbrev Cells (α : Type) := List (Option α)

namespace Cells

open List (length_append length_cons length_map length_set)

variable {α : Type} {cells old new : Cells α} {xs : List α} {x : α} {i n B : Nat}

def alloc (n : Nat) : Cells α := List.replicate n none

def put (cells : Cells α) (i : Nat) (c : Option α) : Option (Cells α) :=
  if i < cells.length then some (cells.set i c) else none

/-- `for (i = 0; i < n; i++) new[i] = old[i];` -/
def copy (old new : Cells α) : Nat → Option (Cells α)
  | 0 => some new
  | n + 1 => do put (← copy old new n) n (← old[n]?)

/-- `for (; n > 0; j++, n--) cells[j] = cells[j + 1];` -/
def shift (cells : Cells α) (j : Nat) : Nat → Option (Cells α)
  | 0 => some cells
  | n + 1 => do shift (← put cells j (← cells[j + 1]?)) (j + 1) n

/-- The array in which there is a cell for one more than `n` elements. -/
def grown (B n : Nat) (cells : Cells α) : Option (Cells α) :=
  if n % B = 0 then copy cells (alloc (n + B)) n else some cells

/-! ## Lists in the first cells -/

def Holds (cells : Cells α) (xs : List α) : Prop := xs.map some <+: cells

theorem Holds.length_le (h : Holds cells xs) : xs.length ≤ cells.length := by
  have := List.IsPrefix.length_le h
  rwa [length_map] at this

theorem Holds.getElem? (h : Holds cells xs) (hi : i < xs.length) : cells[i]? = some (some xs[i]) := by
  obtain ⟨rest, rfl⟩ := h
  rw [List.getElem?_append_left (by rwa [length_map]), List.getElem?_map, List.getElem?_eq_getElem hi]
  rfl

variable {ys zs : List α}

theorem Holds.getElem?_length (h : Holds cells (ys ++ x :: zs)) : cells[ys.length]? = some (some x) := by
  rw [h.getElem? (by rw [length_append, length_cons]; omega), List.getElem_append_right le_rfl]
  simp

/-- Two lists of one length in the first cells are the same. -/
theorem Holds.unique (h : Holds cells xs) (h' : Holds cells ys) (hlen : xs.length = ys.length) : xs = ys := by
  have hprefix := List.prefix_of_prefix_length_le h h' (by simp [hlen])
  have heq : xs.map some = ys.map some := hprefix.eq_of_length (by simp [hlen])
  exact List.map_injective_iff.mpr (fun _ _ => Option.some.inj) heq

theorem put_eq (hi : i < cells.length) (c : Option α) : put cells i c = some (cells.set i c) := if_pos hi

theorem Holds.set (h : Holds cells xs) (hi : i < xs.length) : Holds (cells.set i (some x)) (xs.set i x) := by
  obtain ⟨rest, rfl⟩ := h
  refine ⟨rest, ?_⟩
  rw [List.set_append_left _ _ (by rwa [length_map]), List.map_set]

theorem Holds.push (h : Holds cells xs) (hroom : xs.length < cells.length) :
    Holds (cells.set xs.length (some x)) (xs ++ [x]) := by
  obtain ⟨rest, rfl⟩ := h
  obtain _ | ⟨c, rest⟩ := rest
  · rw [List.append_nil, length_map] at hroom
    exact absurd hroom (Nat.lt_irrefl _)
  · refine ⟨rest, ?_⟩
    simp

theorem Holds.copied (h : Holds old xs) (hroom : xs.length ≤ new.length) :
    ∃ new', copy old new xs.length = some new' ∧ Holds new' xs ∧ new'.length = new.length := by
  have hsteps (n : Nat) (hn : n ≤ xs.length) :
      ∃ new', copy old new n = some new' ∧ Holds new' (xs.take n) ∧ new'.length = new.length := by
    induction n with
    | zero => exact ⟨new, rfl, List.nil_prefix, rfl⟩
    | succ n ih =>
      obtain ⟨new', hcopy, hholds, hlen⟩ := ih (Nat.le_of_succ_le hn)
      have hlt : n < new'.length := by omega
      have htake : (xs.take n).length = n := List.length_take_of_le (Nat.le_of_succ_le hn)
      have hpush := hholds.push (x := xs[n]) (by rwa [htake])
      rw [htake, List.take_append_getElem hn] at hpush
      refine ⟨new'.set n (some xs[n]), ?_, hpush, by rw [length_set, hlen]⟩
      rw [copy, hcopy, h.getElem? hn]
      exact put_eq hlt _
  have := hsteps xs.length le_rfl
  rwa [List.take_length] at this

/-- The cells behind the one that is removed move down. -/
theorem Holds.shifted (ys zs : List α) (h : Holds cells (ys ++ x :: zs)) :
    ∃ cells', shift cells ys.length zs.length = some cells' ∧ Holds cells' (ys ++ zs) ∧
    cells'.length = cells.length := by
  induction zs generalizing cells ys x with
  | nil =>
    refine ⟨cells, rfl, ?_, rfl⟩
    rw [List.append_nil]
    exact (List.map_append ▸ List.prefix_append (ys.map some) _ : ys.map some <+: (ys ++ [x]).map some).trans h
  | cons z zs ih =>
    have hlen := h.length_le
    rw [length_append, length_cons, length_cons] at hlen
    have hset : Holds (cells.set ys.length (some z)) ((ys ++ [z]) ++ z :: zs) := by
      have := h.set (i := ys.length) (x := z) (by simp)
      simpa using this
    obtain ⟨cells', hshift, hholds, hlen'⟩ := ih (ys ++ [z]) hset
    refine ⟨cells', ?_, by simpa using hholds, by rw [hlen', length_set]⟩
    have hnext : cells[ys.length + 1]? = some (some z) := by
      have h : Holds cells ((ys ++ [x]) ++ z :: zs) := by simpa using h
      simpa using h.getElem?_length
    rw [length_cons, shift, hnext]
    dsimp only [Option.bind_eq_bind, Option.bind_some]
    rw [put_eq (by omega)]
    rwa [length_append, List.length_singleton] at hshift

/-! ## Arrays that grow by blocks -/

/-- The list is in the first cells, and the array reaches up to a multiple of the size of a block. -/
structure Kept (B : Nat) (cells : Cells α) (xs : List α) : Prop where
  holds : Holds cells xs
  room : ∃ k, xs.length ≤ B * k ∧ B * k ≤ cells.length

theorem Kept.nil : Kept B ([] : Cells α) [] := ⟨List.nil_prefix, 0, Nat.zero_le _, le_rfl⟩

theorem Kept.set (h : Kept B cells xs) (hi : i < xs.length) : Kept B (cells.set i (some x)) (xs.set i x) := by
  obtain ⟨k, hle, hroom⟩ := h.room
  exact ⟨h.holds.set hi, k, by rwa [length_set], by rwa [length_set]⟩

theorem Kept.shifted (h : Kept B cells (ys ++ x :: zs)) :
    ∃ cells', shift cells ys.length zs.length = some cells' ∧ Kept B cells' (ys ++ zs) := by
  obtain ⟨cells', hshift, hholds, hlen⟩ := h.holds.shifted ys zs
  obtain ⟨k, hle, hroom⟩ := h.room
  refine ⟨cells', hshift, hholds, k, ?_, hlen ▸ hroom⟩
  simp only [length_append, length_cons] at hle ⊢
  omega

/-- A list of the length of the array is kept only at the end of a block. -/
theorem kept_full (hholds : Holds cells xs) (hfull : xs.length = cells.length) : Kept B cells xs ↔ B ∣ xs.length := by
  refine ⟨fun h => ?_, fun ⟨k, hk⟩ => ⟨hholds, k, Nat.le_of_eq hk, by omega⟩⟩
  obtain ⟨k, hle, hroom⟩ := h.room
  exact ⟨k, by omega⟩

/-- In the array in force after the growth there is a cell for the next element. -/
theorem Kept.push (hB : 0 < B) (h : Kept B cells xs) (x : α) :
    ∃ cells', grown B xs.length cells = some cells' ∧
    put cells' xs.length (some x) = some (cells'.set xs.length (some x)) ∧
      Kept B (cells'.set xs.length (some x)) (xs ++ [x]) := by
  obtain ⟨k, hle, hroom⟩ := h.room
  unfold grown
  split
  · rename_i hmod
    obtain ⟨j, hj⟩ := Nat.dvd_of_mod_eq_zero hmod
    obtain ⟨cells', hcopy, hholds, hlen⟩ := @Holds.copied _ _ (alloc (xs.length + B)) _ h.holds
      (by rw [alloc, List.length_replicate]; omega)
    rw [alloc, List.length_replicate] at hlen
    refine ⟨cells', hcopy, put_eq (by omega) _, hholds.push (by omega), j + 1, ?_, ?_⟩
    · rw [length_append, List.length_singleton, Nat.mul_succ]
      omega
    · rw [length_set, Nat.mul_succ]
      omega
  · rename_i hmod
    have hne : xs.length ≠ B * k := fun heq => hmod (heq ▸ Nat.mul_mod_right B k)
    refine ⟨cells, rfl, put_eq (by omega) _, h.holds.push (by omega), k, ?_, by rwa [length_set]⟩
    rw [length_append, List.length_singleton]
    omega

end Cells
