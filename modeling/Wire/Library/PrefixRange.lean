import Mathlib

/-!
# The strings with a given prefix

In the lexicographic order the strings that start with `p` are an interval: `p` is the first of them
(`prefix_le`), and a string between `p` and one of them is one of them (`prefix_of_between`).  Over
the digits below `n + 1` there is also a first string after them, unless all the digits of `p` are
the largest one: `upperBound p` counts up the last digit of `p`, with a carry, and cuts off what is
behind (`prefix_iff`).  Where zeros are left behind it, the strings in between have fewer of them
(`between_zeros_iff`). -/

namespace PrefixRange

open List

section Order

variable {α : Type} [LinearOrder α] {p k l : List α} {a b : α}

theorem cons_le_cons_iff : a :: k ≤ b :: l ↔ a < b ∨ a = b ∧ k ≤ l := by
  rw [← not_lt, ← not_lt, cons_lt_cons_iff]
  constructor
  · intro h
    rw [not_or, not_and] at h
    rcases (not_lt.mp h.1).lt_or_eq with hlt | heq
    · exact .inl hlt
    · exact .inr ⟨heq, h.2 heq.symm⟩
  · rintro (hlt | ⟨rfl, hle⟩) (hgt | ⟨heq, hgt⟩)
    · exact lt_asymm hlt hgt
    · exact hlt.ne heq.symm
    · exact lt_irrefl _ hgt
    · exact hle hgt

theorem prefix_le (h : p <+: k) : p ≤ k :=
  not_lt.mp (List.not_lt.mpr h.le)

theorem prefix_of_between (hpk : p ≤ k) (hkl : k ≤ l) (h : p <+: l) : p <+: k := by
  induction p generalizing k l with
  | nil => exact nil_prefix
  | cons a p ih =>
    obtain ⟨rest, rfl⟩ := h
    cases k with
    | nil => exact absurd (prefix_le nil_prefix) (not_le.mpr (lt_of_le_of_ne hpk (by simp)))
    | cons b k =>
      rw [cons_le_cons_iff] at hpk
      rw [cons_append, cons_le_cons_iff] at hkl
      rcases hpk with hab | ⟨rfl, hpk⟩
      · rcases hkl with hba | ⟨rfl, -⟩
        · exact absurd hab hba.asymm
        · exact absurd hab (lt_irrefl _)
      · rcases hkl with hba | ⟨-, hkl⟩
        · exact absurd hba (lt_irrefl _)
        · exact cons_prefix_cons.mpr ⟨rfl, ih hpk hkl (prefix_append p rest)⟩

theorem append_lt_append_iff : p ++ k < p ++ l ↔ k < l := by
  induction p with
  | nil => rfl
  | cons a p ih => simp [ih]

end Order

/-! ## The first string after them -/

variable {n : ℕ} {p k : List (Fin (n + 1))} {b : Fin (n + 1)}

/-- Count up the digit before index `i`, and if that gives zero go on before it. -/
def upperLoop (upper : List (Fin (n + 1))) : ℕ → Option (List (Fin (n + 1)))
  | 0 => none
  | i + 1 =>
    let bumped := upper.modify i (· + 1)
    if bumped[i]? = some 0 then upperLoop bumped i else some (bumped.take (i + 1))

def upperBound (p : List (Fin (n + 1))) : Option (List (Fin (n + 1))) :=
  upperLoop p p.length

theorem singleton_le_iff : [b] ≤ k ↔ ∃ c rest, k = c :: rest ∧ b ≤ c := by
  cases k with
  | nil => simp
  | cons c rest =>
    have hnil : ([] : List (Fin (n + 1))) ≤ rest := prefix_le nil_prefix
    rw [cons_le_cons_iff, and_iff_left hnil, ← le_iff_lt_or_eq]
    simp

/-- A digit counts up to zero only from the largest one. -/
theorem lt_add_one_iff {c : Fin (n + 1)} (hb : b + 1 ≠ 0) : c < b + 1 ↔ c ≤ b := by
  have hlast : b ≠ .last n := by
    rintro rfl
    exact hb (Fin.last_add_one n)
  rw [Fin.lt_def, Fin.val_add_one, if_neg hlast, Fin.le_def]
  omega

theorem add_one_ne_zero (hb : b ≠ .last n) : b + 1 ≠ 0 := by
  intro h
  have hval := congrArg Fin.val h
  rw [Fin.val_add_one, if_neg hb] at hval
  exact absurd hval (Nat.succ_ne_zero _)

theorem eq_of_add_one_eq_zero {c : Fin (n + 1)} (hb : b + 1 = 0) (h : b ≤ c) : b = c := by
  have hlast : b = .last n := by
    by_contra hne
    exact add_one_ne_zero hne hb
  exact le_antisymm h (hlast ▸ Fin.le_last c)

/-- Where the digit is not the largest one: the strings before the next one. -/
theorem prefix_iff_lt_succ (hb : b + 1 ≠ 0) (h : p ++ [b] ≤ k) :
    p ++ [b] <+: k ↔ k < p ++ [b + 1] := by
  induction p generalizing k with
  | nil =>
    obtain ⟨c, rest, rfl, hle⟩ := singleton_le_iff.mp h
    rw [nil_append, nil_append, cons_prefix_cons, cons_lt_cons_iff, lt_add_one_iff hb]
    constructor
    · rintro ⟨rfl, -⟩
      exact .inl le_rfl
    · rintro (hcb | ⟨-, hnil⟩)
      · exact ⟨le_antisymm hle hcb, nil_prefix⟩
      · exact absurd hnil (not_lt_nil rest)
  | cons a p ih =>
    cases k with
    | nil => exact absurd h (by simp)
    | cons c rest =>
      rw [cons_append, cons_le_cons_iff] at h
      rw [cons_append, cons_append, cons_prefix_cons, cons_lt_cons_iff]
      rcases h with hac | ⟨rfl, h⟩
      · simp [hac.ne, hac.asymm, hac.ne']
      · simp [ih h]

/-- Where it is the largest one: the prefix without it. -/
theorem prefix_iff_of_add_one_eq_zero (hb : b + 1 = 0) (h : p ++ [b] ≤ k) :
    p ++ [b] <+: k ↔ p <+: k := by
  constructor
  · exact (prefix_append p [b]).trans
  · rintro ⟨rest, rfl⟩
    rw [prefix_append_right_inj]
    have hrest : [b] ≤ rest := by
      induction p with
      | nil => exact h
      | cons a p ih =>
        rw [cons_append, cons_append, cons_le_cons_iff] at h
        rcases h with haa | ⟨-, h⟩
        · exact absurd haa (lt_irrefl a)
        · exact ih h
    obtain ⟨c, rest, rfl, hle⟩ := singleton_le_iff.mp hrest
    rw [eq_of_add_one_eq_zero hb hle]
    exact ⟨rest, rfl⟩

/-- Largest digits at the end do not count. -/
theorem prefix_iff_append_last {m : ℕ} (h : p ++ replicate m (.last n) ≤ k) :
    p ++ replicate m (.last n) <+: k ↔ p <+: k := by
  induction m with
  | zero => rw [replicate_zero, append_nil]
  | succ m ih =>
    rw [replicate_succ', ← append_assoc] at h ⊢
    rw [prefix_iff_of_add_one_eq_zero (Fin.last_add_one n) h]
    exact ih ((prefix_le (prefix_append _ _)).trans h)

theorem prefix_iff_upperLoop {upper : List (Fin (n + 1))} {i : ℕ} (hi : i ≤ upper.length)
    (h : upper.take i ≤ k) : upper.take i <+: k ↔ ∀ u, upperLoop upper i = some u → k < u := by
  induction i generalizing upper with
  | zero => simp [upperLoop]
  | succ i ih =>
    obtain ⟨b, hb⟩ : ∃ b, upper[i]? = some b := ⟨_, getElem?_eq_getElem hi⟩
    have htake : upper.take (i + 1) = upper.take i ++ [b] := by
      rw [take_add_one, hb]
      rfl
    have hbumped : (upper.modify i (· + 1))[i]? = some (b + 1) := by
      rw [getElem?_modify_eq, hb]
      rfl
    have hbefore : (upper.modify i (· + 1)).take i = upper.take i := by
      rw [modify_eq_take_drop]
      exact take_left' (length_take_of_le (Nat.le_of_succ_le hi))
    rw [htake] at h ⊢
    rw [upperLoop, hbumped, take_add_one, hbumped, hbefore]
    by_cases hzero : b + 1 = 0
    · rw [prefix_iff_of_add_one_eq_zero hzero h, if_pos (congrArg some hzero), ← hbefore]
      refine ih (by rw [length_modify]; omega) ?_
      rw [hbefore]
      exact (prefix_le (prefix_append _ _)).trans h
    · rw [prefix_iff_lt_succ hzero h, if_neg (fun h => hzero (Option.some.inj h))]
      simp

/-- **The strings with a prefix** are those from the prefix on and before the upper bound. -/
theorem prefix_iff : p <+: k ↔ p ≤ k ∧ ∀ u, upperBound p = some u → k < u := by
  constructor
  · intro h
    have hle := prefix_le h
    refine ⟨hle, (prefix_iff_upperLoop le_rfl ?_).mp ?_⟩
    · rwa [take_length]
    · rwa [take_length]
  · rintro ⟨hle, hupper⟩
    have h := (prefix_iff_upperLoop le_rfl (by rwa [take_length])).mpr hupper
    rwa [take_length] at h

/-! ## Zeros at the end -/

theorem lt_zeros_iff {m : ℕ} : k < replicate m 0 ↔ ∃ j < m, k = replicate j 0 := by
  induction k generalizing m with
  | nil =>
    cases m with
    | zero => simp
    | succ m => exact iff_of_true (nil_lt_cons _ _) ⟨0, Nat.succ_pos m, rfl⟩
  | cons a k ih =>
    cases m with
    | zero => simp
    | succ m =>
      rw [replicate_succ, cons_lt_cons_iff, or_iff_right (Fin.not_lt_zero a), ih]
      constructor
      · rintro ⟨rfl, j, hj, rfl⟩
        exact ⟨j + 1, Nat.succ_lt_succ hj, rfl⟩
      · rintro ⟨j, hj, hk⟩
        cases j with
        | zero => cases hk
        | succ j =>
          obtain ⟨rfl, rfl⟩ := cons.inj hk
          exact ⟨rfl, j, Nat.lt_of_succ_lt_succ hj, rfl⟩

/-- Between a string and the same with zeros behind it there are those with fewer zeros. -/
theorem between_zeros_iff {m : ℕ} :
    p ≤ k ∧ k < p ++ replicate m 0 ↔ ∃ j < m, k = p ++ replicate j 0 := by
  constructor
  · rintro ⟨hle, hlt⟩
    obtain ⟨rest, rfl⟩ := prefix_of_between hle hlt.le (prefix_append p _)
    obtain ⟨j, hj, rfl⟩ := lt_zeros_iff.mp (append_lt_append_iff.mp hlt)
    exact ⟨j, hj, rfl⟩
  · rintro ⟨j, hj, rfl⟩
    exact ⟨prefix_le (prefix_append _ _), append_lt_append_iff.mpr (lt_zeros_iff.mpr ⟨j, hj, rfl⟩)⟩

end PrefixRange
