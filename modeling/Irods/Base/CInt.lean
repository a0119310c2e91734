-- SUMMARY: The C type `int` with its wrap-around.
import Mathlib.Algebra.Ring.Int.Defs
import Mathlib.Algebra.Ring.Nat

/-!
# C integers

Signed 32-bit arithmetic, computed in `Int` and wrapped after each operation whose
result can leave the range.
-/

/-- The value an `int` holds after an operation with the mathematical result `x`. -/
def int32 (x : Int) : Int := x.bmod (2 ^ 32)

/-- The largest value of an `int`, plus one. -/
def intBound : Nat := 2147483648

theorem int32_eq_self {x : Int} (hlo : -(intBound : Int) ≤ x) (hhi : x < intBound) :
    int32 x = x := by
  unfold intBound at hlo hhi
  apply Int.bmod_eq_of_le <;> omega

theorem int32_natCast {x : Nat} (h : x < intBound) : int32 x = x := int32_eq_self (by omega) (by omega)

theorem int32_range (x : Int) : -(intBound : Int) ≤ int32 x ∧ int32 x < intBound := by
  unfold int32 intBound
  have hle := Int.le_bmod (x := x) (m := 2 ^ 32) (by decide)
  have hlt := Int.bmod_lt (x := x) (m := 2 ^ 32) (by decide)
  omega

theorem int32_add (x y : Int) : int32 (int32 x + y) = int32 (x + y) := by
  simp [int32, Int.bmod_add_bmod]

/-- An operation that wrapped is off by a multiple of 2^32. -/
theorem exists_int32_eq (x : Int) : ∃ q, int32 x = x + 4294967296 * q :=
  ⟨-Int.bdiv x (2 ^ 32), by have := Int.bmod_add_bdiv x (2 ^ 32); unfold int32; lia⟩

theorem int32_congr {x y : Int} (q : Int) (h : x = y + 4294967296 * q) : int32 x = int32 y :=
  h ▸ Int.add_mul_bmod_self_left y (2 ^ 32) q
