import Mathlib

/-!
# Computations with a cost

A computation that may fail, together with what it has spent when it comes to its end, whether that
is a result or an error.  A reader that goes through its input from left to right is `Frugal` if it
never fails in a forbidden way and never spends more than it has read; that is kept by doing one
reader after another (`Frugal.bind`).
-/

/-- What a computation returns and what it has spent. -/
structure Metered (ε α : Type) where
  result : Except ε α
  spent : ℕ

namespace Metered

variable {ε α β : Type}

def fail (e : ε) : Metered ε α :=
  ⟨.error e, 0⟩

/-- Spend so much. -/
def spend (n : ℕ) : Metered ε Unit :=
  ⟨.ok (), n⟩

instance : Monad (Metered ε) where
  pure a := ⟨.ok a, 0⟩
  bind m f :=
    match m.result with
    | .error e => ⟨.error e, m.spent⟩
    | .ok a => ⟨(f a).result, m.spent + (f a).spent⟩

/-- Go on if the condition holds, and otherwise fail. -/
def require (c : Prop) [Decidable c] (e : ε) : Metered ε Unit :=
  if c then pure () else fail e

@[simp] theorem result_pure (a : α) : (pure a : Metered ε α).result = .ok a := rfl

@[simp] theorem spent_pure (a : α) : (pure a : Metered ε α).spent = 0 := rfl

@[simp] theorem result_spend (n : ℕ) : (spend n : Metered ε Unit).result = .ok () := rfl

theorem bind_eq (m : Metered ε α) (f : α → Metered ε β) : m >>= f = match m.result with
    | .error e => ⟨.error e, m.spent⟩
      | .ok a => ⟨(f a).result, m.spent + (f a).spent⟩ := rfl

variable {f : α → Metered ε β} {m : Metered ε α} {c : Prop} {e : ε} {k n : ℕ}

@[simp] theorem bind_eq_ok {b : β} :
    (m >>= f).result = .ok b ↔ ∃ a, m.result = .ok a ∧ (f a).result = .ok b := by
  rw [bind_eq]
  cases m.result with
  | error e =>
    constructor
    · intro h
      cases h
    · rintro ⟨a, h, -⟩
      cases h
  | ok a =>
    constructor
    · exact fun h => ⟨a, rfl, h⟩
    · rintro ⟨a', h, hf⟩
      cases h
      exact hf

@[simp] theorem require_eq_ok [Decidable c] {u : Unit} : (require c e).result = .ok u ↔ c := by
  rw [require]
  split
  · next h => exact iff_of_true rfl h
  · next h => exact iff_of_false (fun hh => nomatch hh) h

theorem require_true [Decidable c] (h : c) : require c e = pure () :=
  if_pos h

theorem require_false [Decidable c] (h : ¬ c) : require c e = fail e :=
  if_neg h

theorem pure_bind_eq (a : α) (f : α → Metered ε β) : (pure a >>= f) = f a := by
  rw [bind_eq]
  cases hf : f a
  simp [hf]

/-! ## Bounds -/

/-- The computation has not failed with `bad` and has spent at most `n`. -/
structure Within (bad : ε) (n : ℕ) (m : Metered ε α) : Prop where
  safe : m.result ≠ .error bad
  bounded : m.spent ≤ n

theorem Within.pure {bad : ε} (a : α) : Within bad 0 (Pure.pure a : Metered ε α) :=
  ⟨(fun h => nomatch h), Nat.le_refl 0⟩

theorem Within.mono {bad : ε} (h : Within bad k m) (hkn : k ≤ n) : Within bad n m :=
  ⟨h.safe, Nat.le_trans h.bounded hkn⟩

theorem Within.bind {bad : ε}
    (hm : Within bad k m) (hf : ∀ a, m.result = .ok a → Within bad n (f a)) :
    Within bad (k + n) (m >>= f) := by
  obtain ⟨result, spent⟩ := m
  cases result with
  | error e =>
    refine ⟨fun h => hm.safe ?_, Nat.le_add_right_of_le hm.bounded⟩
    cases h
    rfl
  | ok a =>
    have hnext := hf a rfl
    exact ⟨hnext.safe, Nat.add_le_add hm.bounded hnext.bounded⟩

theorem Within.spend {bad : ε} {m : Unit → Metered ε α} (hm : Within bad k (m ())) :
    Within bad (n + k) (Metered.spend n >>= m) :=
  Within.bind ⟨(fun h => nomatch h), Nat.le_refl n⟩ fun _ _ => hm

/-- A check before a computation. -/
theorem Within.require {bad : ε} [Decidable c]
    {m : Unit → Metered ε α} (he : e ≠ bad) (hm : c → Within bad n (m ())) :
    Within bad n (Metered.require c e >>= m) := by
  by_cases hc : c
  · rw [require_true hc, pure_bind_eq]
    exact hm hc
  · rw [require_false hc]
    exact ⟨fun h => he (Except.error.inj h), Nat.zero_le n⟩

/-! ## Readers -/

/-- The reader has not failed with `bad` and has spent at most what it has read, from `pos` on and
up to `limit`. -/
structure Frugal (bad : ε) (limit pos : ℕ) (m : Metered ε (α × ℕ)) : Prop where
  safe : m.result ≠ .error bad
  bounded : pos + m.spent ≤ limit
  read : ∀ a stop, m.result = .ok (a, stop) → pos + m.spent ≤ stop ∧ stop ≤ limit

variable {bad : ε} {limit pos : ℕ}

theorem Frugal.pure (a : α) (h : pos ≤ limit) :
    Frugal bad limit pos (Pure.pure (a, pos) : Metered ε (α × ℕ)) where
  safe := fun h => nomatch h
  bounded := h
  read := by
    rintro a' stop ⟨⟩
    exact ⟨Nat.le_refl _, h⟩

/-- To read so much, and spend as much. -/
theorem Frugal.spend {stop : ℕ} (a : α) (hread : pos + n ≤ stop) (hstop : stop ≤ limit) :
    Frugal bad limit pos (Metered.spend n >>= fun _ => Pure.pure (a, stop)) where
  safe := fun h => nomatch h
  bounded := Nat.le_trans hread hstop
  read := by
    rintro a' stop' ⟨⟩
    exact ⟨hread, hstop⟩

theorem Frugal.bind {m : Metered ε (α × ℕ)} {f : α × ℕ → Metered ε (β × ℕ)}
    (hm : Frugal bad limit pos m)
    (hf : ∀ a stop, m.result = .ok (a, stop) → Frugal bad limit stop (f (a, stop))) :
    Frugal bad limit pos (m >>= f) := by
  obtain ⟨result, spent⟩ := m
  cases result with
  | error e =>
    refine ⟨fun h => hm.safe ?_, hm.bounded, fun a stop h => nomatch h⟩
    cases h
    rfl
  | ok r =>
    obtain ⟨a, stop⟩ := r
    have hread := hm.read a stop rfl
    have hnext := hf a stop rfl
    rw [bind_eq]
    refine ⟨hnext.safe, ?_, fun b last h => ?_⟩
    · have hlimit := hnext.bounded
      simp only at hread hlimit ⊢
      omega
    · have hlast := hnext.read b last h
      simp only at hread hlast ⊢
      omega

theorem Frugal.within {m : Metered ε (α × ℕ)} (h : Frugal bad limit pos m) :
    Within bad (limit - pos) m :=
  ⟨h.safe, Nat.le_sub_of_add_le' h.bounded⟩

/-- A check before a reader. -/
theorem Frugal.require [Decidable c] {m : Unit → Metered ε (α × ℕ)}
    (he : e ≠ bad) (hpos : pos ≤ limit) (hm : c → Frugal bad limit pos (m ())) :
    Frugal bad limit pos (Metered.require c e >>= m) := by
  by_cases hc : c
  · rw [require_true hc, pure_bind_eq]
    exact hm hc
  · rw [require_false hc]
    exact ⟨fun h => he (Except.error.inj h), hpos, fun a stop h => nomatch h⟩

end Metered
