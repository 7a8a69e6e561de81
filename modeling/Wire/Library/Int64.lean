import Mathlib

/-!
# Signed 64-bit arithmetic

Numbers are integers, and `int64` is what a computation comes to in 64 bits: the number itself, if
it is in range. -/

namespace Int64Range

def minInt64 : ℤ := -2 ^ 63

def maxInt64 : ℤ := 2 ^ 63 - 1

/-- The value of a computation in 64 bits. -/
def int64 (x : ℤ) : ℤ :=
  x.bmod (2 ^ 64)

theorem int64_eq {x : ℤ} (hmin : minInt64 ≤ x) (hmax : x ≤ maxInt64) : int64 x = x := by
  rw [minInt64] at hmin
  rw [maxInt64] at hmax
  exact Int.bmod_eq_of_le_mul_two (by omega) (by omega)

end Int64Range
