import Mathlib

/-!
# A ledger of decisions

What a coordinator of atomic commitments is for, whatever it decides about: a ledger of
numbered entries, each of which expects reports and is decided once.  An entry may be opened
only when every earlier one is decided, under a number greater than all of theirs; reports
are taken for undecided entries; and an entry is committed only when all that it expects has
been reported.

## What is proved

`Sound` is kept by every move: there is at most one undecided entry, it is the newest, and a
committed entry has all its reports.  `Extends` is the relation between a ledger and any later
one: no entry is lost, none changes what it expects, and a decision is final.

An implementation is connected to the ledger by showing that each of its steps is a sequence
of moves; both results then hold of it.
-/

namespace Ledger

variable {τ : Type*}

inductive Verdict where
  | commit | abort
deriving DecidableEq

/-- What an entry expects, what has been reported for it, and how it was decided. -/
structure Entry (τ : Type*) where
  expected : Set τ
  reported : Set τ
  verdict : Option Verdict

end Ledger

/-- The entries by number. -/
abbrev Ledger (τ : Type*) := ℕ → Option (Ledger.Entry τ)

namespace Ledger

variable {τ : Type*} {L L' L'' : Ledger τ}

/-- The moves of a ledger. -/
inductive Move (L : Ledger τ) : Ledger τ → Prop where
  | begin (n : ℕ) (expected : Set τ) (h : ∀ i e, L i = some e → i < n ∧ e.verdict ≠ none) :
      Move L (Function.update L n (some ⟨expected, ∅, none⟩))
  | report (n : ℕ) (e : Entry τ) (t : τ) (he : L n = some e) (hopen : e.verdict = none) :
      Move L (Function.update L n (some { e with reported := insert t e.reported }))
  | decide (n : ℕ) (e : Entry τ) (v : Verdict) (he : L n = some e) (hopen : e.verdict = none)
      (hall : v = .commit → e.expected ⊆ e.reported) :
      Move L (Function.update L n (some { e with verdict := some v }))

/-! ## Soundness -/

/-- What is true of a ledger at all times. -/
structure Sound (L : Ledger τ) : Prop where
  /-- The undecided entry is the newest one. -/
  newest : ∀ n e, L n = some e → e.verdict = none → ∀ i e', L i = some e' → i ≤ n
  /-- A committed entry has all its reports. -/
  complete : ∀ n e, L n = some e → e.verdict = some .commit → e.expected ⊆ e.reported

theorem sound_empty : Sound (fun _ => none : Ledger τ) where
  newest := nofun
  complete := nofun

/-- **At most one entry is undecided.** -/
theorem Sound.eq_of_undecided (h : Sound L) {m n : ℕ} {d e : Entry τ} (hd : L m = some d)
    (he : L n = some e) (hdo : d.verdict = none) (heo : e.verdict = none) : m = n :=
  le_antisymm (h.newest n e he heo m d hd) (h.newest m d hd hdo n e he)

/-- Changing an entry that is there. -/
theorem Sound.update (h : Sound L) {n : ℕ} {e e' : Entry τ} (he : L n = some e)
    (hopen : e'.verdict = none → e.verdict = none)
    (hall : e'.verdict = some .commit → e'.expected ⊆ e'.reported) :
    Sound (Function.update L n (some e')) where
  newest := by
    intro m d hm hdo i d' hi
    -- The numbers in the ledger are the same as before.
    obtain ⟨d₀, hd₀⟩ : ∃ d₀, L i = some d₀ := by
      rcases eq_or_ne i n with rfl | hne
      · exact ⟨e, he⟩
      · exact ⟨d', by rwa [Function.update_of_ne hne] at hi⟩
    rcases eq_or_ne m n with rfl | hne
    · rw [Function.update_self, Option.some.injEq] at hm
      exact h.newest m e he (hopen (hm ▸ hdo)) i d₀ hd₀
    · rw [Function.update_of_ne hne] at hm
      exact h.newest m d hm hdo i d₀ hd₀
  complete := by
    intro m d hm hdo
    rcases eq_or_ne m n with rfl | hne
    · rw [Function.update_self, Option.some.injEq] at hm
      exact hm ▸ hall (hm ▸ hdo)
    · rw [Function.update_of_ne hne] at hm
      exact h.complete m d hm hdo

theorem Sound.move (h : Sound L) (hm : Move L L') : Sound L' := by
  cases hm with
  | report n e t he hopen =>
    exact h.update he (fun _ => hopen) fun hc => nomatch hopen.symm.trans hc
  | decide n e v he hopen hall =>
    exact h.update he (fun hc => nomatch hc) fun hc => hall (Option.some.inj hc)
  | begin n expected hnew =>
    constructor
    · intro m d hm hdo i d' hi
      rcases eq_or_ne m n with rfl | hmn
      · rcases eq_or_ne i m with rfl | him
        · exact le_rfl
        · rw [Function.update_of_ne him] at hi
          exact (hnew i d' hi).1.le
      · rw [Function.update_of_ne hmn] at hm
        exact absurd hdo (hnew m d hm).2
    · intro m d hm hdo
      rcases eq_or_ne m n with rfl | hmn
      · rw [Function.update_self, Option.some.injEq] at hm
        exact nomatch (congrArg Entry.verdict hm).trans hdo
      · rw [Function.update_of_ne hmn] at hm
        exact h.complete m d hm hdo

theorem Sound.moves (h : Sound L) (hm : Relation.ReflTransGen Move L L') : Sound L' := by
  induction hm with
  | refl => exact h
  | tail _ hmove ih => exact ih.move hmove

/-! ## Finality -/

/-- The second ledger is a later state of the first: entries stay, with what they expect, and
decisions are final. -/
def Extends (L L' : Ledger τ) : Prop :=
  ∀ n e, L n = some e → ∃ e', L' n = some e' ∧ e'.expected = e.expected ∧
    (e.verdict ≠ none → e'.verdict = e.verdict)

theorem Extends.refl (L : Ledger τ) : Extends L L := fun _ e he => ⟨e, he, rfl, fun _ => rfl⟩

theorem Extends.trans (h : Extends L L') (h' : Extends L' L'') : Extends L L'' := by
  intro n e he
  obtain ⟨e₁, he₁, hexp₁, hv₁⟩ := h n e he
  obtain ⟨e₂, he₂, hexp₂, hv₂⟩ := h' n e₁ he₁
  refine ⟨e₂, he₂, hexp₂.trans hexp₁, fun hdecided => ?_⟩
  rw [hv₂ (by rwa [hv₁ hdecided]), hv₁ hdecided]

/-- Changing an undecided entry, keeping what it expects. -/
theorem Extends.update {n : ℕ} {e e' : Entry τ} (he : L n = some e) (hopen : e.verdict = none)
    (hexp : e'.expected = e.expected) : Extends L (Function.update L n (some e')) := by
  intro m d hd
  rcases eq_or_ne m n with rfl | hne
  · cases Option.some.inj (he.symm.trans hd)
    exact ⟨e', Function.update_self _ _ _, hexp, fun hdecided => absurd hopen hdecided⟩
  · exact ⟨d, by rwa [Function.update_of_ne hne], rfl, fun _ => rfl⟩

theorem Move.extends (h : Move L L') : Extends L L' := by
  cases h with
  | begin n expected hnew =>
    intro m d hd
    have hne : m ≠ n := (hnew m d hd).1.ne
    exact ⟨d, by rwa [Function.update_of_ne hne], rfl, fun _ => rfl⟩
  | report _ _ _ he hopen | decide _ _ _ he hopen => exact .update he hopen rfl

/-- **Decisions are final.** -/
theorem extends_of_moves (h : Relation.ReflTransGen Move L L') : Extends L L' := by
  induction h with
  | refl => exact .refl L
  | tail _ hmove ih => exact ih.trans hmove.extends

end Ledger
