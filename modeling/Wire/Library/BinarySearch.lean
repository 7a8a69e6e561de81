import Mathlib

/-!
# Binary search

`search n f` looks for the first of the numbers below `n` at which `f` is true, and returns `n` if
there is none.  It asks for half of the numbers that are left at a time, so it is right if `f` stays
true once it is true.
-/

namespace BinarySearch

variable {f : ℕ → Bool}

/-- The loop, with the numbers from `i` to `j` left, and at most so many rounds. -/
def loop (f : ℕ → Bool) : ℕ → ℕ → ℕ → ℕ
  | 0, i, _ => i
  | rounds + 1, i, j =>
    if i < j then
      let h := (i + j) / 2
      if f h then loop f rounds i h else loop f rounds (h + 1) j
    else i

def search (n : ℕ) (f : ℕ → Bool) : ℕ :=
  loop f n 0 n

/-- `f` is false before `i`, and true from `i` on below `n`. -/
structure IsFirst (n : ℕ) (f : ℕ → Bool) (i : ℕ) : Prop where
  le : i ≤ n
  before : ∀ k < i, f k = false
  after : ∀ k, i ≤ k → k < n → f k = true

theorem isFirst_loop {n rounds i j : ℕ} (hmono : ∀ k l, k ≤ l → l < n → f k = true → f l = true)
    (hrounds : j - i ≤ rounds) (hij : i ≤ j) (hj : j ≤ n) (hbefore : ∀ k < i, f k = false)
    (hafter : ∀ k, j ≤ k → k < n → f k = true) : IsFirst n f (loop f rounds i j) := by
  induction rounds generalizing i j with
  | zero =>
    have hji : j = i := by omega
    exact ⟨Nat.le_trans hij hj, hbefore, hji ▸ hafter⟩
  | succ rounds ih =>
    rw [loop]
    split
    · next hlt =>
      dsimp only
      split
      · next hf =>
        refine ih (by omega) (by omega) (by omega) hbefore fun k hk hkn => ?_
        exact hmono _ k hk hkn hf
      · next hf =>
        refine ih (by omega) (by omega) hj (fun k hk => ?_) hafter
        by_contra hfk
        exact hf (hmono k _ (by omega) (by omega) (Bool.not_eq_false _ ▸ hfk))
    · next hlt =>
      have hji : j = i := by omega
      exact ⟨Nat.le_trans hij hj, hbefore, hji ▸ hafter⟩

/-- **The search finds the first number.** -/
theorem isFirst_search {n : ℕ} (hmono : ∀ k l, k ≤ l → l < n → f k = true → f l = true) :
    IsFirst n f (search n f) :=
  isFirst_loop hmono (Nat.sub_le n 0) (Nat.zero_le n) (Nat.le_refl n)
    (fun k hk => absurd hk (Nat.not_lt_zero k)) fun _ hk hkn => absurd hkn (Nat.not_lt.mpr hk)

end BinarySearch
