import Mathlib

/-!
# Computations that check and go on

A request handler checks one thing after another and gives up at the first that fails.  In the
`Except` monad that is a sequence of `require` and `demand`, and all that a caller ever needs
to know of such a handler is what has been checked when it comes to its end: the lemmas here
turn "the handler returned this" into the list of those facts, by rewriting.
-/

namespace Guard

open List

variable {ε α β : Type}

/-- Go on if the condition holds, and otherwise give up with an error. -/
def require (c : Prop) [Decidable c] (e : ε) : Except ε Unit :=
  if c then .ok () else .error e

/-- Go on with a value that has to be there. -/
def demand (o : Option α) (e : ε) : Except ε α :=
  match o with
  | some a => .ok a
  | none => .error e

variable {f : α → Except ε β} {m : Except ε α} {a : α} {c : Prop} {e : ε} {u : Unit} {l : List α}

@[simp] theorem bind_eq_ok {b : β} : (m >>= f) = .ok b ↔ ∃ a, m = .ok a ∧ f a = .ok b := by
  cases m with
  | error e =>
    constructor
    · intro h
      cases h
    · rintro ⟨a, h, -⟩
      cases h
  | ok a =>
    constructor
    · exact fun h => ⟨a, rfl, h⟩
    · rintro ⟨a', h, hf⟩
      cases h
      exact hf

@[simp] theorem pure_eq_ok {b : α} : (pure a : Except ε α) = .ok b ↔ a = b :=
  ⟨fun h => Except.ok.inj h, fun h => congrArg Except.ok h⟩

@[simp] theorem require_eq_ok [Decidable c] : require c e = .ok u ↔ c := by
  rw [require]
  split
  · next h => exact iff_of_true rfl h
  · next h => exact iff_of_false (fun hh => nomatch hh) h

theorem require_bind_of_not [Decidable c] (h : ¬ c) {f : Unit → Except ε β} :
    (require c e >>= f) = .error e := by
  rw [require, if_neg h]
  rfl

@[simp] theorem demand_eq_ok {o : Option α} : demand o e = .ok a ↔ o = some a := by
  cases o with
  | none => exact iff_of_false (fun h => nomatch h) (fun h => nomatch h)
  | some b => exact ⟨fun h => congrArg some (Except.ok.inj h), fun h => by cases h; rfl⟩

@[simp] theorem mapError_eq_ok {δ : Type} {f : ε → δ} : m.mapError f = .ok a ↔ m = .ok a := by
  cases m with
  | error e => exact iff_of_false (fun h => nomatch h) (fun h => nomatch h)
  | ok b => exact ⟨fun h => congrArg Except.ok (Except.ok.inj h), fun h => by cases h; rfl⟩

/-- A computation that can be evaluated, and what it returns. -/
theorem exists_ok {p : α → Prop} (h : ∃ a ∈ m.toOption, p a) : ∃ a, m = .ok a ∧ p a := by
  obtain ⟨a, ha, hp⟩ := h
  cases m with
  | error e => cases ha
  | ok b =>
    cases ha
    exact ⟨a, rfl, hp⟩

theorem forM_eq_ok {f : α → Except ε Unit} (h : forM l f = .ok u) : ∀ a ∈ l, f a = .ok () := by
  induction l with
  | nil => exact fun a ha => absurd ha not_mem_nil
  | cons b l ih =>
    rw [forM_cons, bind_eq_ok] at h
    obtain ⟨v, hv, hrest⟩ := h
    exact forall_mem_cons.mpr ⟨hv, ih hrest⟩

theorem forM_ok {f : α → Except ε Unit} (h : ∀ a ∈ l, f a = .ok ()) : forM l f = .ok () := by
  induction l with
  | nil => rfl
  | cons a l ih =>
    rw [forM_cons, h a mem_cons_self]
    exact ih fun c hc => h c (mem_cons_of_mem a hc)

theorem mapM_eq_ok {r : List β} (h : l.mapM f = .ok r) :
    List.Forall₂ (fun a b => f a = .ok b) l r := by
  induction l generalizing r with
  | nil =>
    rw [mapM_nil, pure_eq_ok] at h
    exact h ▸ .nil
  | cons a l ih =>
    rw [mapM_cons] at h
    simp only [bind_eq_ok, pure_eq_ok] at h
    obtain ⟨b, hb, r, hr, rfl⟩ := h
    exact .cons hb (ih hr)

/-- A computation that goes over a list keeps what each of its steps keeps; the list is what has
been gone over. -/
theorem foldlM_invariant {σ : Type} {f : σ → α → Except ε σ} (P : List α → σ → Prop)
    (step : ∀ done a s s', P done s → f s a = .ok s' → P (done ++ [a]) s')
    {s s' : σ} (h0 : P [] s) (h : l.foldlM f s = .ok s') : P l s' := by
  suffices hall : ∀ (l done : List α) (s : σ), P done s → l.foldlM f s = .ok s' →
      P (done ++ l) s' from
    hall l [] s h0 h
  intro l
  induction l with
  | nil =>
    intro done s hs h
    rw [foldlM_nil, pure_eq_ok] at h
    rw [append_nil, ← h]
    exact hs
  | cons a l ih =>
    intro done s hs h
    rw [foldlM_cons, bind_eq_ok] at h
    obtain ⟨s₁, hs₁, hrest⟩ := h
    have := ih (done ++ [a]) s₁ (step done a s s₁ hs hs₁) hrest
    rwa [append_assoc, singleton_append] at this

end Guard
