-- SUMMARY: Linked lists in a heap, and what one changed link does to them.
import Mathlib.Data.List.Nodup
import Mathlib.Data.List.Perm.Subperm

/-!
# Chains

A singly linked list is a start and a link out of every cell. `Chain next p xs q`
says that following the links from `p` visits the cells `xs` and ends at `q`. The
lemmas change one link at a time, which is all that list surgery does.
-/

universe u

namespace Chain

variable {α : Type u}

/-- From `p` the links lead through `xs` to `q`. -/
def Path (next : α → Option α) : Option α → List α → Option α → Prop
  | p, [], q => p = q
  | p, x :: xs, q => p = some x ∧ Path next (next x) xs q

/-- The cells met from `p` on, at most `fuel` of them. -/
def walk (next : α → Option α) : Nat → Option α → List α
  | 0, _ => []
  | _ + 1, none => []
  | fuel + 1, some x => x :: walk next fuel (next x)

variable {next next' : α → Option α} {p q r : Option α} {x : α} {xs ys : List α}

@[simp] theorem path_nil : Path next p [] q ↔ p = q := Iff.rfl

@[simp] theorem path_cons : Path next p (x :: xs) q ↔ p = some x ∧ Path next (next x) xs q := Iff.rfl

theorem path_append : Path next p (xs ++ ys) q ↔ ∃ m, Path next p xs m ∧ Path next m ys q := by
  induction xs generalizing p with
  | nil => simp
  | cons x xs ih => simp [ih, and_assoc]

/-- A path to its end is what a walk finds. -/
theorem walk_eq_of_path {fuel : Nat} (h : Path next p xs none) (hfuel : xs.length ≤ fuel) :
    walk next fuel p = xs := by
  induction xs generalizing p fuel with
  | nil =>
    subst h
    cases fuel <;> rfl
  | cons x xs ih =>
    obtain ⟨rfl, h⟩ := h
    cases fuel with
    | zero => simp at hfuel
    | succ fuel => rw [walk, ih h (by simpa using hfuel)]

/-- Links out of other cells do not matter to a path. -/
theorem path_congr (hagree : ∀ x ∈ xs, next x = next' x) :
    Path next p xs q ↔ Path next' p xs q := by
  induction xs generalizing p with
  | nil => simp
  | cons x xs ih =>
    rw [path_cons, path_cons, hagree x List.mem_cons_self,
      ih fun y hy => hagree y (List.mem_cons_of_mem x hy)]

/-- Where a path through at least one cell ends is where the last one links to. -/
theorem path_concat : Path next p (xs ++ [x]) q ↔ Path next p xs (some x) ∧ next x = q := by
  rw [path_append]
  constructor
  · rintro ⟨m, hxs, rfl, hq⟩
    exact ⟨hxs, hq⟩
  · rintro ⟨hxs, hq⟩
    exact ⟨some x, hxs, rfl, hq⟩

/-- Relink the last cell of a path. -/
theorem path_relink (h : Path next p (xs ++ [x]) q) (hx : x ∉ xs) (hlink : next' x = r)
    (hagree : ∀ y, y ≠ x → next' y = next y) : Path next' p (xs ++ [x]) r := by
  rw [path_concat] at h ⊢
  refine ⟨(path_congr ?_).mp h.1, hlink⟩
  intro y hy
  exact (hagree y fun hyx => hx (hyx ▸ hy)).symm

/-- Cells without repetition below a bound are no more than the bound. -/
theorem length_le_of_nodup {cells : List Nat} {size : Nat} (hnodup : cells.Nodup)
    (hlt : ∀ c ∈ cells, c < size) : cells.length ≤ size := by
  have hsub : cells ⊆ List.range size := fun c hc => List.mem_range.mpr (hlt c hc)
  simpa using (hnodup.subperm hsub).length_le

end Chain
