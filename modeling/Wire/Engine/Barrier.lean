import Wire.Engine.Event

/-!
# The barrier aligner

Chandy--Lamport alignment over the inputs of one task.  When the barrier of a checkpoint
arrives on one input, later items of that input go to its side buffer until the barrier
has arrived on every input; then the side buffers are released in input order.

Each function below is one critical section of the aligner's mutex.  The two functions
that may wait --- `bufferAlignedEvent` on a full buffer, `waitForPriorAlignment` on an
earlier alignment --- are given by one turn of their loop, with a result that says whether
the caller goes on or has to try again after the next change.

## What is proved

`BarrierAligner.Wf` is the representation invariant: only inputs in range have arrived,
nothing has arrived while no alignment is active, only arrived inputs have buffered
events, and what is buffered for an input belongs to it.  Every operation keeps it.
`Wf.inputItems_released` computes what a release hands out for one input.

`calls_sound` is about any sequence of calls, with any events: what is buffered stays within its
bounds and is counted, and an identity that is retired never becomes active again.
-/

namespace Wire.Engine

open List Function

/-- The state behind the aligner's mutex. -/
structure BarrierAligner where
  retiredID : ℕ := 0
  retiredEpoch : ℕ := 0
  draining : Bool := false
  bufferedBytes : ℕ := 0
  numInputs : ℕ
  maxBufferSize : ℕ
  /-- `0` when no alignment is active. -/
  activeID : ℕ := 0
  activeEpoch : ℕ := 0
  /-- The inputs that have reported the active barrier. -/
  arrived : Finset ℕ := ∅
  sideBuffers : ℕ → List Event := fun _ => []

/-- One turn of `bufferAlignedEvent`. -/
inductive BufferResult where
  /-- The input is not aligning: the event goes to the event channel. -/
  | notAligning
  | buffered (ba : BarrierAligner)
  /-- The side buffer is full: wait for a change and try again. -/
  | full

/-- One turn of `waitForPriorAlignment`. -/
inductive WaitResult where
  | proceed
  /-- The input never reported the active checkpoint, yet moves on to a later one. -/
  | skipped (active : ℕ)
  | wait
deriving DecidableEq

namespace BarrierAligner

/-- Retirement is a high-water mark in the order of (epoch, id). -/
def isRetired (ba : BarrierAligner) (b : CheckpointIdentity) : Bool :=
  b.epoch < ba.retiredEpoch || (b.epoch == ba.retiredEpoch && b.id ≤ ba.retiredID)

/-- Raise the high-water mark to `b`. -/
def retire (ba : BarrierAligner) (b : CheckpointIdentity) : BarrierAligner :=
  if b.id ≠ 0 ∧ ba.isRetired b = false then
    { ba with retiredID := b.id, retiredEpoch := b.epoch }
  else ba

/-- The identity of the active alignment. -/
def active (ba : BarrierAligner) : CheckpointIdentity :=
  ⟨ba.activeID, ba.activeEpoch⟩

/-- Record the barrier `b` on `input`; the flag tells whether every input has arrived.
Retired identities, inputs out of range, checkpoint zero and barriers other than the
active one are ignored. -/
def onBarrier (ba : BarrierAligner) (input : ℕ) (b : CheckpointIdentity) : BarrierAligner × Bool :=
  if ba.isRetired b || ba.draining || ba.numInputs ≤ input || b.id == 0 then (ba, false)
  else if ba.activeID ≠ 0 ∧ ba.active ≠ b then (ba, false)
  else
    let ba := { ba with
      activeID := b.id, activeEpoch := b.epoch, arrived := insert input ba.arrived }
    (ba, ba.numInputs ≤ ba.arrived.card)

/-- Does the side buffer of `input` take its events? -/
def isAligning (ba : BarrierAligner) (input : ℕ) : Bool :=
  ba.activeID ≠ 0 && input ∈ ba.arrived

/-- Have all inputs reported the barrier of checkpoint `checkpointID`? -/
def allAligned (ba : BarrierAligner) (checkpointID : ℕ) : Bool :=
  checkpointID ≠ 0 && ba.activeID == checkpointID && ba.numInputs ≤ ba.arrived.card

/-- Decide atomically whether `e` belongs in the side buffer of `input`. -/
def bufferAlignedEvent (ba : BarrierAligner) (input : ℕ) (e : Event) : BufferResult :=
  if ba.isAligning input = false then .notAligning
  else if (ba.sideBuffers input).length < ba.maxBufferSize then
    .buffered { ba with
      sideBuffers := Function.update ba.sideBuffers input (ba.sideBuffers input ++ [e])
      bufferedBytes := ba.bufferedBytes + eventPayloadBytes e }
  else .full

/-- Keep a fast input's next barrier from being discarded while the previous alignment
is still being finished. -/
def waitForPriorAlignment (ba : BarrierAligner) (input checkpointID : ℕ) : WaitResult :=
  if ba.activeID = 0 ∨ checkpointID ≤ ba.activeID then .proceed
  else if input ∉ ba.arrived then .skipped ba.activeID
  else .wait

/-- The buffered events, in input order. -/
def buffered (ba : BarrierAligner) : List Event :=
  (List.range ba.numInputs).flatMap ba.sideBuffers

/-- End the active alignment and empty the side buffers. -/
def reset (ba : BarrierAligner) : BarrierAligner :=
  { ba with
    activeID := 0
    activeEpoch := 0
    arrived := ∅
    bufferedBytes := 0
    sideBuffers := fun i => if i < ba.numInputs then [] else ba.sideBuffers i }

/-- Complete the alignment of `checkpointID` and hand out what it buffered. -/
def finishAlignment (ba : BarrierAligner) (checkpointID : ℕ) : BarrierAligner × List Event :=
  if ba.activeID ≠ checkpointID then (ba, [])
  else ((ba.retire ba.active).reset, ba.buffered)

/-- Fence `b` and, only if it is the active alignment, hand out what it buffered. -/
def abortAlignment (ba : BarrierAligner) (b : CheckpointIdentity) : BarrierAligner × List Event :=
  if ba.active ≠ b then (ba.retire b, [])
  else ((ba.retire b).reset, ba.buffered)

/-- Stop all future alignment and hand out everything buffered. -/
def beginDrain (ba : BarrierAligner) : BarrierAligner × List Event :=
  ({ ba.reset with draining := true }, ba.buffered)

/-! ## Frame lemmas -/

section Frame

variable (ba : BarrierAligner) (b : CheckpointIdentity)

@[simp] theorem retire_numInputs : (ba.retire b).numInputs = ba.numInputs := by
  unfold retire; split <;> rfl

@[simp] theorem retire_active : (ba.retire b).active = ba.active := by
  unfold retire; split <;> rfl

@[simp] theorem retire_arrived : (ba.retire b).arrived = ba.arrived := by
  unfold retire; split <;> rfl

@[simp] theorem retire_sideBuffers : (ba.retire b).sideBuffers = ba.sideBuffers := by
  unfold retire; split <;> rfl

@[simp] theorem reset_numInputs : ba.reset.numInputs = ba.numInputs := rfl

theorem reset_sideBuffers (i : ℕ) :
    ba.reset.sideBuffers i = if i < ba.numInputs then [] else ba.sideBuffers i := rfl

@[simp] theorem onBarrier_numInputs (i : ℕ) : (ba.onBarrier i b).1.numInputs = ba.numInputs := by
  unfold onBarrier; split_ifs <;> rfl

@[simp] theorem onBarrier_sideBuffers (i : ℕ) :
    (ba.onBarrier i b).1.sideBuffers = ba.sideBuffers := by
  unfold onBarrier; split_ifs <;> rfl

end Frame

/-! ## The representation invariant -/

/-- The representation invariant of the aligner. -/
structure Wf (ba : BarrierAligner) : Prop where
  /-- Only inputs of the task arrive. -/
  arrived_lt : ∀ i ∈ ba.arrived, i < ba.numInputs
  /-- Without an active alignment nothing has arrived. -/
  arrived_active : ba.activeID = 0 → ba.arrived = ∅
  /-- Only arrived inputs have buffered events. -/
  buffered_arrived : ∀ i, ba.sideBuffers i ≠ [] → i ∈ ba.arrived
  /-- What is buffered for an input belongs to it. -/
  buffered_input : ∀ i, ∀ e ∈ ba.sideBuffers i, e.input = some i

/-- The aligner of a new task. -/
def new (numInputs maxBufferSize : ℕ) : BarrierAligner :=
  { numInputs, maxBufferSize }

theorem Wf.new (numInputs maxBufferSize : ℕ) : Wf (new numInputs maxBufferSize) where
  arrived_lt i h := by simp [BarrierAligner.new] at h
  arrived_active _ := rfl
  buffered_arrived i h := absurd rfl h
  buffered_input i e h := by simp [BarrierAligner.new] at h

variable {ba : BarrierAligner}

variable {i j : ℕ} {e : Event}

theorem Wf.sideBuffers_of_notMem (h : Wf ba) (hi : i ∉ ba.arrived) : ba.sideBuffers i = [] :=
  not_imp_comm.mp (h.buffered_arrived i) hi

/-- A reset aligner holds nothing at all. -/
theorem Wf.reset_sideBuffers_eq_nil (h : Wf ba) (i : ℕ) : ba.reset.sideBuffers i = [] := by
  rw [BarrierAligner.reset_sideBuffers]
  split
  · rfl
  · next hi => exact h.sideBuffers_of_notMem fun hmem => hi (h.arrived_lt i hmem)

/-- `onBarrier` either ignores the barrier or marks the input under it. -/
theorem onBarrier_cases (ba : BarrierAligner) (i : ℕ) (b : CheckpointIdentity) :
    (ba.onBarrier i b).1 = ba ∨
      (i < ba.numInputs ∧ b.id ≠ 0 ∧ (ba.activeID ≠ 0 → ba.active = b) ∧
        ba.isRetired b = false ∧ ba.draining = false ∧
        (ba.onBarrier i b).1 =
          { ba with
            activeID := b.id, activeEpoch := b.epoch, arrived := insert i ba.arrived }) := by
  unfold onBarrier
  split
  · exact .inl rfl
  · next hguard =>
    split
    · exact .inl rfl
    · next hactive =>
      simp only [Bool.or_eq_true, decide_eq_true_eq, beq_iff_eq, not_or, not_le,
        Bool.not_eq_true] at hguard
      refine .inr ⟨hguard.1.2, hguard.2, ?_, hguard.1.1.1, hguard.1.1.2, rfl⟩
      intro hne
      by_contra hb
      exact hactive ⟨hne, hb⟩

theorem Wf.onBarrier (h : Wf ba) (i : ℕ) (b : CheckpointIdentity) : Wf (ba.onBarrier i b).1 := by
  rcases onBarrier_cases ba i b with hsame | ⟨hi, hb, -, -, -, hmark⟩
  · rw [hsame]
    exact h
  · rw [hmark]
    refine ⟨?_, fun h0 => absurd h0 hb, ?_, h.buffered_input⟩
    · intro j hj
      rcases Finset.mem_insert.mp hj with rfl | hj
      · exact hi
      · exact h.arrived_lt j hj
    · intro j hj
      exact Finset.mem_insert_of_mem (h.buffered_arrived j hj)

theorem arrived_subset_onBarrier (ba : BarrierAligner) (i : ℕ) (b : CheckpointIdentity) :
    ba.arrived ⊆ (ba.onBarrier i b).1.arrived := by
  rcases onBarrier_cases ba i b with hsame | ⟨-, -, -, -, -, hmark⟩
  · rw [hsame]
  · rw [hmark]
    exact Finset.subset_insert _ _

/-- While some input has reported, a further report does not change what is aligned. -/
theorem Wf.onBarrier_active (h : Wf ba) (hj : j ∈ ba.arrived) (i : ℕ)
    (b : CheckpointIdentity) : (ba.onBarrier i b).1.active = ba.active := by
  rcases onBarrier_cases ba i b with hsame | ⟨-, -, hactive, -, -, hmark⟩
  · rw [hsame]
  · rw [hmark]
    exact (hactive fun h0 => by simp [h.arrived_active h0] at hj).symm

/-- Nor does it concern the other inputs. -/
theorem Wf.onBarrier_others (h : Wf ba) (i : ℕ) (b : CheckpointIdentity) (hj : j ≠ i)
    (hmem : j ∈ (ba.onBarrier i b).1.arrived) :
    j ∈ ba.arrived ∧ (ba.onBarrier i b).1.active = ba.active ∧
      (ba.onBarrier i b).1.sideBuffers j = ba.sideBuffers j := by
  have hj' : j ∈ ba.arrived := by
    rcases onBarrier_cases ba i b with hsame | ⟨-, -, -, -, -, hmark⟩
    · rwa [hsame] at hmem
    · rw [hmark] at hmem
      exact Finset.mem_of_mem_insert_of_ne hmem hj
  exact ⟨hj', h.onBarrier_active hj' i b, by simp⟩

/-- What a successful `bufferAlignedEvent` does. -/
theorem bufferAlignedEvent_buffered {ba' : BarrierAligner}
    (h : ba.bufferAlignedEvent i e = .buffered ba') :
    ba.activeID ≠ 0 ∧ i ∈ ba.arrived ∧ (ba.sideBuffers i).length < ba.maxBufferSize ∧
      ba' = { ba with
        sideBuffers := update ba.sideBuffers i (ba.sideBuffers i ++ [e])
        bufferedBytes := ba.bufferedBytes + eventPayloadBytes e } := by
  unfold bufferAlignedEvent at h
  split at h
  · simp at h
  · next hal =>
    split at h
    · simp only [isAligning, ne_eq, decide_not, Bool.and_eq_false_imp, Bool.not_eq_eq_eq_not,
        Bool.not_true, decide_eq_false_iff_not, not_forall, not_not] at hal
      obtain ⟨h0, hi⟩ := hal
      exact ⟨h0, by simpa using hi, ‹_›, (BufferResult.buffered.inj h).symm⟩
    · simp at h

/-- An event is passed on unbuffered only while its input is not aligning. -/
theorem Wf.notMem_of_notAligning (h : Wf ba)
    (hnot : ba.bufferAlignedEvent i e = .notAligning) : i ∉ ba.arrived := by
  unfold bufferAlignedEvent at hnot
  split at hnot
  · next hal =>
    intro hi
    by_cases h0 : ba.activeID = 0
    · simp [h.arrived_active h0] at hi
    · simp [isAligning, h0, hi] at hal
  · split at hnot <;> simp at hnot

theorem Wf.buffered (h : Wf ba) {ba' : BarrierAligner}
    (he : e.input = some i) (hb : ba.bufferAlignedEvent i e = .buffered ba') : Wf ba' := by
  obtain ⟨-, hi, -, rfl⟩ := bufferAlignedEvent_buffered hb
  refine ⟨h.arrived_lt, h.arrived_active, ?_, ?_⟩
  · intro j hj
    by_cases hji : j = i
    · exact hji ▸ hi
    · exact h.buffered_arrived j (by simpa [update_of_ne hji] using hj)
  · intro j f hf
    by_cases hji : j = i
    · subst hji
      simp only [update_self, mem_append, mem_singleton] at hf
      rcases hf with hf | rfl
      · exact h.buffered_input j f hf
      · exact he
    · exact h.buffered_input j f (by simpa [update_of_ne hji] using hf)

/-- All inputs of the task have reported the active barrier. -/
theorem Wf.mem_of_allAligned (h : Wf ba) {id : ℕ} (hall : ba.allAligned id = true)
    (hi : i < ba.numInputs) : i ∈ ba.arrived := by
  simp only [allAligned, Bool.and_eq_true, decide_eq_true_eq] at hall
  have hsub : ba.arrived ⊆ .range ba.numInputs := fun j hj =>
    Finset.mem_range.mpr (h.arrived_lt j hj)
  have heq := Finset.eq_of_subset_of_card_le hsub (by simpa using hall.2)
  rw [heq]
  exact Finset.mem_range.mpr hi

/-! ## What a release hands out -/

/-- The events a release hands out for input `i` are those buffered for it. -/
theorem Wf.inputItems_buffered (h : Wf ba) (i : ℕ) :
    inputItems i ba.buffered = ba.sideBuffers i := by
  have key : ∀ n, inputItems i ((range n).flatMap ba.sideBuffers) =
      if i < n then ba.sideBuffers i else [] := by
    intro n
    induction n with
    | zero => rfl
    | succ n ih =>
      rw [range_succ, flatMap_append, inputItems_append, ih, flatMap_singleton]
      rcases Nat.lt_trichotomy i n with hlt | rfl | hgt
      · rw [inputItems_eq_nil hlt.ne (h.buffered_input n)]
        simp [hlt, Nat.lt_succ_of_lt hlt]
      · rw [inputItems_eq_self (h.buffered_input i)]
        simp
      · rw [inputItems_eq_nil hgt.ne' (h.buffered_input n)]
        have h1 : ¬ i < n := by omega
        have h2 : ¬ i < n + 1 := by omega
        simp [h1, h2]
  rw [BarrierAligner.buffered, key]
  split
  · rfl
  · next hi => exact (h.sideBuffers_of_notMem fun hmem => hi (h.arrived_lt i hmem)).symm

/-- The three ways to end an alignment hand out everything buffered or nothing at all. -/
structure Releases (ba ba' : BarrierAligner) (released : List Event) : Prop where
  numInputs : ba'.numInputs = ba.numInputs
  all_or_nothing :
    (released = [] ∧ ba'.arrived = ba.arrived ∧ ba'.active = ba.active ∧
      ba'.sideBuffers = ba.sideBuffers) ∨
    (released = ba.buffered ∧ ba'.arrived = ∅ ∧ ba'.sideBuffers = ba.reset.sideBuffers)

theorem releases_finishAlignment (ba : BarrierAligner) (id : ℕ) :
    Releases ba (ba.finishAlignment id).1 (ba.finishAlignment id).2 := by
  unfold finishAlignment
  split
  · exact ⟨rfl, .inl ⟨rfl, rfl, rfl, rfl⟩⟩
  · refine ⟨by simp, .inr ⟨rfl, rfl, ?_⟩⟩
    funext i
    simp [reset_sideBuffers]

theorem releases_abortAlignment (ba : BarrierAligner) (b : CheckpointIdentity) :
    Releases ba (ba.abortAlignment b).1 (ba.abortAlignment b).2 := by
  unfold abortAlignment
  split
  · exact ⟨by simp, .inl ⟨rfl, by simp, by simp, by simp⟩⟩
  · refine ⟨by simp, .inr ⟨rfl, rfl, ?_⟩⟩
    funext i
    simp [reset_sideBuffers]

theorem releases_beginDrain (ba : BarrierAligner) : Releases ba ba.beginDrain.1 ba.beginDrain.2 :=
  ⟨rfl, .inr ⟨rfl, rfl, rfl⟩⟩

section Releases

variable {ba' : BarrierAligner} {released : List Event}

theorem Wf.releases (h : Wf ba) (hrel : Releases ba ba' released) : Wf ba' := by
  rcases hrel.all_or_nothing with ⟨-, harrived, hactive, hside⟩ | ⟨-, harrived, hside⟩
  · refine ⟨?_, ?_, ?_, ?_⟩
    · rw [harrived, hrel.numInputs]
      exact h.arrived_lt
    · rw [harrived, show ba'.activeID = ba.activeID from congrArg CheckpointIdentity.id hactive]
      exact h.arrived_active
    · rw [hside, harrived]
      exact h.buffered_arrived
    · rw [hside]
      exact h.buffered_input
  · refine ⟨by simp [harrived], fun _ => harrived, ?_, ?_⟩
    · intro i hi
      rw [hside] at hi
      exact absurd (h.reset_sideBuffers_eq_nil i) hi
    · intro i e he
      rw [hside, h.reset_sideBuffers_eq_nil i] at he
      simp at he

/-- What is handed out for an input together with what stays is what was buffered. -/
theorem Wf.inputItems_released (h : Wf ba) (hrel : Releases ba ba' released) (i : ℕ) :
    inputItems i released ++ ba'.sideBuffers i = ba.sideBuffers i := by
  rcases hrel.all_or_nothing with ⟨rfl, -, -, hside⟩ | ⟨rfl, -, hside⟩
  · rw [hside]
    rfl
  · rw [hside, h.reset_sideBuffers_eq_nil i, append_nil, h.inputItems_buffered i]

end Releases

/-! ## Calls -/

inductive Call where
  | onBarrier (input : ℕ) (b : CheckpointIdentity)
  | bufferAlignedEvent (input : ℕ) (e : Event)
  | finishAlignment (checkpointID : ℕ)
  | abortAlignment (b : CheckpointIdentity)
  | beginDrain

/-- The aligner after a call; one that waits on a full buffer has not changed it. -/
def call (ba : BarrierAligner) : Call → BarrierAligner
  | .onBarrier input b => (ba.onBarrier input b).1
  | .bufferAlignedEvent input e =>
    match ba.bufferAlignedEvent input e with
    | .buffered ba => ba
    | .notAligning | .full => ba
  | .finishAlignment id => (ba.finishAlignment id).1
  | .abortAlignment b => (ba.abortAlignment b).1
  | .beginDrain => ba.beginDrain.1

/-- What a call can do. -/
theorem call_cases (ba : BarrierAligner) (c : Call) :
    (∃ i b, i < ba.numInputs ∧ b.id ≠ 0 ∧ ba.isRetired b = false ∧ ba.draining = false ∧
      ba.call c =
        { ba with activeID := b.id, activeEpoch := b.epoch, arrived := insert i ba.arrived }) ∨
    (∃ i e, i ∈ ba.arrived ∧ ba.activeID ≠ 0 ∧ (ba.sideBuffers i).length < ba.maxBufferSize ∧
      ba.call c = { ba with
        sideBuffers := update ba.sideBuffers i (ba.sideBuffers i ++ [e])
        bufferedBytes := ba.bufferedBytes + eventPayloadBytes e }) ∨
    (∃ b, ba.call c = ba.retire b ∨ ba.call c = (ba.retire b).reset) ∨
    ba.call c = { ba.reset with draining := true } := by
  have hsame : ∃ b, ba = ba.retire b ∨ ba = (ba.retire b).reset := ⟨⟨0, 0⟩, .inl rfl⟩
  cases c with
  | onBarrier i b =>
    rw [call]
    rcases onBarrier_cases ba i b with heq | ⟨hi, hb, -, hretired, hdraining, hmark⟩
    · rw [heq]
      exact .inr (.inr (.inl hsame))
    · exact .inl ⟨i, b, hi, hb, hretired, hdraining, hmark⟩
  | bufferAlignedEvent i e =>
    rw [call]
    split
    · next ba' hbuffered =>
      obtain ⟨hactive, hi, hroom, rfl⟩ := bufferAlignedEvent_buffered hbuffered
      exact .inr (.inl ⟨i, e, hi, hactive, hroom, rfl⟩)
    all_goals exact .inr (.inr (.inl hsame))
  | finishAlignment id =>
    rw [call, finishAlignment]
    split
    · exact .inr (.inr (.inl hsame))
    · exact .inr (.inr (.inl ⟨ba.active, .inr rfl⟩))
  | abortAlignment b =>
    rw [call, abortAlignment]
    split
    · exact .inr (.inr (.inl ⟨b, .inl rfl⟩))
    · exact .inr (.inr (.inl ⟨b, .inr rfl⟩))
  | beginDrain => exact .inr (.inr (.inr rfl))

/-! ## Identities that are over -/

section Past

variable {b : CheckpointIdentity}

theorem isRetired_eq_true : ba.isRetired b = true ↔
    b.epoch < ba.retiredEpoch ∨ b.epoch = ba.retiredEpoch ∧ b.id ≤ ba.retiredID := by
  simp [isRetired]

/-- The high-water mark never falls. -/
theorem isRetired_retire (h : ba.isRetired b = true) (c : CheckpointIdentity) :
    (ba.retire c).isRetired b = true := by
  unfold retire
  split
  · next hc =>
    have hnot := mt isRetired_eq_true.mpr (Bool.eq_false_iff.mp hc.2)
    rw [isRetired_eq_true] at h ⊢
    dsimp only
    omega
  · exact h

/-- What is retired is at or below the mark. -/
theorem isRetired_retire_self (hb : b.id ≠ 0) : (ba.retire b).isRetired b = true := by
  unfold retire
  split
  · rw [isRetired_eq_true]
    exact .inr ⟨rfl, le_rfl⟩
  · next hc => exact Bool.not_eq_false _ ▸ fun h => hc ⟨hb, h⟩

theorem reset_active_ne (hb : b.id ≠ 0) : ba.reset.active ≠ b := by
  rintro rfl
  exact hb rfl

/-- What was retired stays retired, and a drain that has begun goes on. -/
structure Fences (ba later : BarrierAligner) : Prop where
  retired : ∀ b, ba.isRetired b = true → later.isRetired b = true
  draining : ba.draining = true → later.draining = true

theorem Fences.refl (ba : BarrierAligner) : Fences ba ba := ⟨fun _ => id, id⟩

theorem Fences.call {later : BarrierAligner} (h : Fences ba later) (c : Call) :
    Fences ba (later.call c) := by
  have hretire : ∀ b, Fences ba (later.retire b) := by
    refine fun b => ⟨fun b' hb' => isRetired_retire (h.retired b' hb') b, fun hd => ?_⟩
    unfold BarrierAligner.retire
    split <;> exact h.draining hd
  rcases call_cases later c with ⟨i, b, -, -, -, -, heq⟩ | ⟨i, e, -, -, -, heq⟩ | ⟨b, heq | heq⟩ |
    heq <;> rw [heq]
  · exact { h with }
  · exact { h with }
  · exact hretire b
  · exact ⟨(hretire b).retired, (hretire b).draining⟩
  · exact ⟨h.retired, fun _ => rfl⟩

/-- No call makes an identity active that is retired, and none does when the drain has begun. -/
theorem active_of_call {c : Call} (hb : b.id ≠ 0)
    (h : ba.isRetired b = true ∨ ba.draining = true) (hactive : (ba.call c).active = b) :
    ba.active = b := by
  rcases call_cases ba c with ⟨i, b', -, -, hretired, hdraining, heq⟩ | ⟨i, e, -, -, -, heq⟩ |
    ⟨b', heq | heq⟩ | heq <;> rw [heq] at hactive
  · subst hactive
    rcases h with h | h
    · exact absurd (hretired.symm.trans h) Bool.false_ne_true
    · exact absurd (hdraining.symm.trans h) Bool.false_ne_true
  · exact hactive
  · rwa [retire_active] at hactive
  · exact absurd hactive (reset_active_ne hb)
  · exact absurd (show ba.reset.active = b from hactive) (reset_active_ne hb)

/-- The barrier `b` will be ignored from now on: it is retired, and not being aligned. -/
structure Past (ba : BarrierAligner) (b : CheckpointIdentity) : Prop where
  retired : ba.isRetired b = true
  inactive : ba.active ≠ b

/-- No call brings it back. -/
theorem Past.call (h : Past ba b) (hb : b.id ≠ 0) (c : Call) : Past (ba.call c) b :=
  ⟨((Fences.refl ba).call c).retired b h.retired,
    fun hactive => h.inactive (active_of_call hb (.inl h.retired) hactive)⟩

/-- **A finished alignment is over.** -/
theorem past_finishAlignment (hactive : ba.active = b) (hb : b.id ≠ 0) :
    Past (ba.finishAlignment b.id).1 b := by
  have hid : ba.activeID = b.id := congrArg CheckpointIdentity.id hactive
  unfold BarrierAligner.finishAlignment
  rw [if_neg (not_not.mpr hid), hactive]
  exact ⟨isRetired_retire_self hb, reset_active_ne hb⟩

end Past

/-! ## Sequences of calls -/

section Calls

/-- The aligner of a new task after some calls. -/
def afterCalls (numInputs maxBufferSize : ℕ) (calls : List Call) : BarrierAligner :=
  calls.foldl call (new numInputs maxBufferSize)

/-- What holds after any calls, whatever the events. -/
structure Sound (ba : BarrierAligner) : Prop where
  arrived_lt : ∀ i ∈ ba.arrived, i < ba.numInputs
  /-- Without an active alignment nothing has arrived and nothing is buffered. -/
  idle : ba.activeID = 0 → ba.arrived = ∅ ∧ ∀ i, ba.sideBuffers i = []
  buffered_arrived : ∀ i, ba.sideBuffers i ≠ [] → i ∈ ba.arrived
  bounded : ∀ i, (ba.sideBuffers i).length ≤ ba.maxBufferSize
  bytes : ba.bufferedBytes =
    ∑ i ∈ Finset.range ba.numInputs, ((ba.sideBuffers i).map eventPayloadBytes).sum

theorem Sound.retire (h : Sound ba) (b : CheckpointIdentity) : Sound (ba.retire b) := by
  unfold BarrierAligner.retire
  split
  · exact { h with }
  · exact h

theorem Sound.reset (h : Sound ba) : Sound ba.reset := by
  have hempty : ∀ i, ba.reset.sideBuffers i = [] := by
    intro i
    rw [BarrierAligner.reset_sideBuffers]
    split
    · rfl
    · next hi => exact not_imp_comm.mp (h.buffered_arrived i) fun hmem => hi (h.arrived_lt i hmem)
  refine ⟨nofun, fun _ => ⟨rfl, hempty⟩, fun i hi => absurd (hempty i) hi, fun i => ?_, ?_⟩
  · rw [hempty i]
    exact Nat.zero_le _
  · exact (Finset.sum_eq_zero fun i _ => by rw [hempty i]; rfl).symm

theorem Sound.call (h : Sound ba) (c : Call) : Sound (ba.call c) := by
  rcases call_cases ba c with ⟨i, b, hi, hb, -, -, heq⟩ | ⟨i, e, hi, hactive, hroom, heq⟩ |
    ⟨b, heq | heq⟩ | heq <;> rw [heq]
  · refine ⟨fun j hj => ?_, fun h0 => absurd h0 hb, fun j hj => ?_, h.bounded, h.bytes⟩
    · rcases Finset.mem_insert.mp hj with rfl | hj
      · exact hi
      · exact h.arrived_lt j hj
    · exact Finset.mem_insert_of_mem (h.buffered_arrived j hj)
  · refine ⟨h.arrived_lt, fun h0 => absurd h0 hactive, fun j hj => ?_, fun j => ?_, ?_⟩
    · by_cases hji : j = i
      · exact hji ▸ hi
      · exact h.buffered_arrived j (by simpa [update_of_ne hji] using hj)
    · by_cases hji : j = i
      · subst hji
        simpa using Nat.succ_le_of_lt hroom
      · simpa [update_of_ne hji] using h.bounded j
    · have hmem := Finset.mem_range.mpr (h.arrived_lt i hi)
      have hrest : ∑ j ∈ (Finset.range ba.numInputs).erase i,
            ((update ba.sideBuffers i (ba.sideBuffers i ++ [e]) j).map eventPayloadBytes).sum =
          ∑ j ∈ (Finset.range ba.numInputs).erase i,
            ((ba.sideBuffers j).map eventPayloadBytes).sum :=
        Finset.sum_congr rfl fun j hj => by rw [update_of_ne (Finset.ne_of_mem_erase hj)]
      show ba.bufferedBytes + _ = _
      rw [h.bytes, ← Finset.add_sum_erase _ _ hmem, ← Finset.add_sum_erase _ _ hmem, hrest]
      simp only [update_self, map_append, sum_append, map_cons, map_nil, sum_singleton]
      omega
  · exact h.retire b
  · exact (h.retire b).reset
  · exact { h.reset with }

theorem Fences.calls {later : BarrierAligner} (h : Fences ba later) (calls : List Call) :
    Fences ba (calls.foldl BarrierAligner.call later) :=
  foldlRecOn calls _ h fun _ h c _ => h.call c

theorem Sound.calls (h : Sound ba) (calls : List Call) :
    Sound (calls.foldl BarrierAligner.call ba) :=
  foldlRecOn calls _ h fun _ h c _ => h.call c

/-- **Any sequence of calls.**  The aligner is sound, its high-water mark grows by (epoch, id), and
no later call makes an identity active that is at or below the mark, or any once it drains. -/
theorem calls_sound (numInputs maxBufferSize : ℕ) (calls more : List Call) :
    let ba := afterCalls numInputs maxBufferSize calls
    let later := afterCalls numInputs maxBufferSize (calls ++ more)
    ba.Sound ∧
    (ba.retiredEpoch < later.retiredEpoch ∨
      ba.retiredEpoch = later.retiredEpoch ∧ ba.retiredID ≤ later.retiredID) ∧
    ∀ b c, b.id ≠ 0 → ba.isRetired b = true ∨ ba.draining = true →
      (later.call c).active = b → later.active = b := by
  intro ba later
  have hsound : (new numInputs maxBufferSize).Sound :=
    ⟨nofun, fun _ => ⟨rfl, fun _ => rfl⟩, fun i hi => absurd rfl hi, fun _ => Nat.zero_le _,
      (Finset.sum_eq_zero fun _ _ => rfl).symm⟩
  have hfences : Fences ba later := by
    rw [show later = more.foldl call ba from foldl_append]
    exact (Fences.refl ba).calls more
  refine ⟨hsound.calls calls, ?_, fun b c hb h hactive => ?_⟩
  · exact isRetired_eq_true.mp
      (hfences.retired ⟨ba.retiredID, ba.retiredEpoch⟩ (isRetired_eq_true.mpr (.inr ⟨rfl, le_rfl⟩)))
  · exact active_of_call hb (h.imp (hfences.retired b) hfences.draining) hactive

end Calls

end BarrierAligner
end Wire.Engine
