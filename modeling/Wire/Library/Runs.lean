import Mathlib

/-!
# Runs of partial step functions, and traces justified by their past

A system is a partial step function: a state and an action give the next state,
or nothing when the action is not enabled.  Every nondeterministic choice --- the
scheduler's, an external call's outcome, the instant a message arrives --- is part
of the action, so the step function itself stays a function that can be evaluated.

## What is proved

`Reaches.invariant` is the one induction over runs.  A run may be restricted by a
condition `ok` on the state before each step and the action taken there: results of
the form "in every run all of whose steps meet the condition" are stated with it, and
`Reachable` is the unrestricted case.  `Reaches.since` goes back from a state to the one in which
what holds there was brought about.  `Reaches.map` transports runs along a function
between systems, which is how a component's results are used inside a larger system.
`timed` adds a clock that never goes back to a system whose actions carry their time.

The second half is about the traces such systems record.  A trace only ever grows at
its end, so a safety property of traces is one of the form "each entry is justified by
the entries before it"; `Justified.snoc` is the single step of every such proof.
-/

namespace Runs

open Option

variable {σ τ α β : Type*}

/-! ## Reachability -/

/-- The states reached from `s₀` by steps that each satisfy `ok`. -/
inductive Reaches (step : σ → α → Option σ) (ok : σ → α → Prop) (s₀ : σ) : σ → Prop where
  | refl : Reaches step ok s₀ s₀
  | tail {s s' : σ} {a : α} :
      Reaches step ok s₀ s → ok s a → step s a = some s' → Reaches step ok s₀ s'

/-- The states reached from `s₀` with no restriction on the steps taken. -/
abbrev Reachable (step : σ → α → Option σ) (s₀ : σ) : σ → Prop :=
  Reaches step (fun _ _ => True) s₀

variable {step : σ → α → Option σ} {ok : σ → α → Prop} {s₀ s s' : σ}

/-- **The invariant rule.**  What holds at the start and is preserved by each permitted
step out of a reached state holds in every reached state. -/
theorem Reaches.invariant {P : σ → Prop} (h : Reaches step ok s₀ s) (start : P s₀)
    (next : ∀ s a s', Reaches step ok s₀ s → P s → ok s a → step s a = some s' → P s') : P s := by
  induction h with
  | refl => exact start
  | tail hs hok hstep ih => exact next _ _ _ hs ih hok hstep

/-- A run under a condition is a run under any weaker one. -/
theorem Reaches.mono {ok' : σ → α → Prop} (weaken : ∀ s a, ok s a → ok' s a)
    (h : Reaches step ok s₀ s) : Reaches step ok' s₀ s := by
  induction h with
  | refl => exact .refl
  | tail _ hok hstep ih => exact ih.tail (weaken _ _ hok) hstep

/-- Forgetting the condition on the steps. -/
theorem Reaches.reachable (h : Reaches step ok s₀ s) : Reachable step s₀ s :=
  h.mono fun _ _ _ => trivial

/-- An unrestricted step prolongs an unrestricted run. -/
theorem Reaches.next {a : α} (h : Reachable step s₀ s) (hstep : step s a = some s') :
    Reachable step s₀ s' :=
  h.tail trivial hstep

/-- One run after another. -/
theorem Reaches.trans (h : Reaches step ok s₀ s) (h' : Reaches step ok s s') :
    Reaches step ok s₀ s' := by
  induction h' with
  | refl => exact h
  | tail _ hok hstep ih => exact ih.tail hok hstep

/-- **Where a property comes from.**  One that is false at the start, and that a step keeps or
brings about from a state with `Q`, holds only after such a state. -/
theorem Reaches.since {P Q : σ → Prop} (h : Reachable step s₀ s) (start : ¬ P s₀)
    (next : ∀ s a s', Reachable step s₀ s → step s a = some s' → P s' → P s ∨ Q s) (hs : P s) :
    ∃ u, Reachable step s₀ u ∧ Reachable step u s ∧ Q u := by
  induction h with
  | refl => exact absurd hs start
  | tail hreach _ hstep ih =>
    rcases next _ _ _ hreach hstep hs with hold | hnew
    · obtain ⟨u, hu, hus, hq⟩ := ih hold
      exact ⟨u, hu, hus.next hstep, hq⟩
    · exact ⟨_, hreach, Reaches.refl.next hstep, hnew⟩

/-- **Runs along a projection.**  If every step of one system is, after `f`, a step of
another or nothing at all, then `f` carries reachable states to reachable states. -/
theorem Reaches.map {step' : τ → β → Option τ} (f : σ → τ)
    (sim : ∀ s a s', step s a = some s' → f s' = f s ∨ ∃ b, step' (f s) b = some (f s'))
    (h : Reaches step ok s₀ s) : Reachable step' (f s₀) (f s) := by
  induction h with
  | refl => exact .refl
  | tail _ _ hstep ih =>
    rcases sim _ _ _ hstep with hsame | ⟨b, hb⟩
    · rw [hsame]
      exact ih
    · exact ih.next hb

/-! ## Time -/

section Time

variable {θ : Type*} [LE θ] [DecidableLE θ] {now : α → θ} {x y : σ × θ} {a : α}

/-- The steps of a system whose actions carry the time at which they are taken, with a clock that
never goes back. -/
def timed (step : σ → α → Option σ) (now : α → θ) (x : σ × θ) (a : α) : Option (σ × θ) :=
  if x.2 ≤ now a then (step x.1 a).map fun s => (s, now a) else none

theorem timed_eq_some :
    timed step now x a = some y ↔ x.2 ≤ now a ∧ step x.1 a = some y.1 ∧ y.2 = now a := by
  rw [timed]
  split
  · next hle =>
    rw [map_eq_some_iff]
    constructor
    · rintro ⟨s, hs, rfl⟩
      exact ⟨hle, hs, rfl⟩
    · rintro ⟨-, hs, hy⟩
      exact ⟨y.1, hs, Prod.ext rfl hy.symm⟩
  · next hle => exact iff_of_false nofun fun h => hle h.1

end Time

/-! ## Executing a list of actions -/

/-- Take the listed actions one after another. -/
def run (step : σ → α → Option σ) : σ → List α → Option σ
  | s, [] => some s
  | s, a :: as => (step s a).bind fun s' => run step s' as

/-- Prolonging a run by an executed list of actions, each of them checked first. -/
theorem Reaches.run {check : σ → α → Bool} {as : List α} (h : Reaches step ok s₀ s)
    (hcheck : ∀ s a, check s a = true → ok s a)
    (hrun : run (fun s a => if check s a then step s a else none) s as = some s') :
    Reaches step ok s₀ s' := by
  induction as generalizing s with
  | nil =>
    rw [Runs.run, some.injEq] at hrun
    exact hrun ▸ h
  | cons a as ih =>
    rw [Runs.run, bind_eq_some_iff] at hrun
    obtain ⟨t, ht, hrest⟩ := hrun
    split at ht
    · next hc => exact ih (h.tail (hcheck s a hc) ht) hrest
    · simp at ht

/-- A state found by executing checked actions, together with a property of it. -/
theorem reaches_of_run (step : σ → α → Option σ) (ok : σ → α → Prop) (check : σ → α → Bool)
    (hcheck : ∀ s a, check s a = true → ok s a) (s₀ : σ) (as : List α) {p : σ → Prop}
    (h : ∃ s ∈ run (fun s a => if check s a then step s a else none) s₀ as, p s) :
    ∃ s, Reaches step ok s₀ s ∧ p s := by
  obtain ⟨s, hs, hp⟩ := h
  exact ⟨s, Reaches.refl.run hcheck hs, hp⟩

/-- The unrestricted case. -/
theorem reachable_of_run (step : σ → α → Option σ) (s₀ : σ) (as : List α) {p : σ → Prop}
    (h : ∃ s ∈ run step s₀ as, p s) : ∃ s, Reachable step s₀ s ∧ p s :=
  reaches_of_run step _ (fun _ _ => true) (fun _ _ _ => trivial) s₀ as h

end Runs

/-! ## Traces -/

namespace Traces

variable {ω : Type*}

/-- Each entry of the trace stands in the relation `Q` to the entries before it. -/
def Justified (Q : List ω → ω → Prop) (t : List ω) : Prop :=
  ∀ past o future, t = past ++ o :: future → Q past o

variable {Q : List ω → ω → Prop} {t : List ω}

theorem Justified.nil : Justified Q ([] : List ω) := by
  intro past o future h
  simp at h

/-- A trace grown by one entry is justified as soon as that entry is. -/
theorem Justified.snoc {o : ω} (h : Justified Q t) (ho : Q t o) : Justified Q (t ++ [o]) := by
  intro past p future hsplit
  rcases List.append_eq_append_iff.mp hsplit with ⟨l, hpast, hrest⟩ | ⟨l, ht, hrest⟩
  · -- the entry in question is the new one
    cases l with
    | nil =>
      simp only [List.nil_append, List.cons.injEq] at hrest
      rw [List.append_nil] at hpast
      rw [hpast, ← hrest.1]
      exact ho
    | cons q l => simp at hrest
  · cases l with
    | nil =>
      simp only [List.nil_append, List.cons.injEq] at hrest
      rw [List.append_nil] at ht
      rw [← ht, hrest.1]
      exact ho
    | cons q l =>
      simp only [List.cons_append, List.cons.injEq] at hrest
      exact h past p l (by rw [ht, hrest.1])

/-- Several entries appended at once, each justified by all that stand before it. -/
theorem Justified.append {l : List ω} (h : Justified Q t)
    (hl : ∀ before o after, l = before ++ o :: after → Q (t ++ before) o) :
    Justified Q (t ++ l) := by
  induction l generalizing t with
  | nil => rwa [List.append_nil]
  | cons o l ih =>
    have hstep : Justified Q (t ++ [o]) := h.snoc (by simpa using hl [] o l rfl)
    have := ih hstep fun before p after hsplit => by
      simpa using hl (o :: before) p after (by rw [hsplit]; rfl)
    simpa using this

/-- The part of a justified trace that was written first is justified. -/
theorem Justified.left {l : List ω} (h : Justified Q (t ++ l)) : Justified Q t := by
  intro past o future ht
  exact h past o (future ++ l) (by simp [ht])

/-- An entry that is not among those appended was there before. -/
theorem split_of_notMem {past future l : List ω} {o : ω} (h : t ++ l = past ++ o :: future)
    (ho : o ∉ l) : ∃ mid, t = past ++ o :: mid ∧ future = mid ++ l := by
  rcases List.append_eq_append_iff.mp h with ⟨m, hpast, hl⟩ | ⟨m, ht, hrest⟩
  · exact absurd (by simp [hl]) ho
  · cases m with
    | nil =>
      rw [List.nil_append] at hrest
      exact absurd (hrest ▸ List.mem_cons_self) ho
    | cons p m =>
      obtain ⟨rfl, hfuture⟩ := List.cons.inj hrest
      exact ⟨m, ht, hfuture⟩

end Traces
