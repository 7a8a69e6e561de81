import Wire.Engine.ChainInvariant

/-!
# What a step of the chain does to its transaction

The sink sees the chain only through the calls it receives, and the chain's promises about
those calls are promises about the order of observations in the trace.  This file says once
what each step can add to the trace and what it does to the flags that govern the
transaction; the results about two-phase commit and about the cleanup are read off from it
without looking at the code again.

`Effect` lists the possibilities, one constructor per kind of external call, and
`step_effect` shows that they are exhaustive.  A step that ends the chain has, besides its
effect, the deferred cleanup to run; `Ends` accounts for both.
-/

namespace Wire.Engine

open Option List

/-- The part of the chain's context that governs its transaction. -/
structure Transaction where
  prepared : Option CheckpointIdentity
  lastCommitted : ℕ
  decisionPending : Bool
  aborted : Bool
deriving DecidableEq

/-- What the deferred cleanup adds to the trace. -/
def Transaction.cleanup (cfg : ChainConfig) (t : Transaction) : List Obs :=
  if cfg.txnSink && !(t.decisionPending || t.aborted) then [.cleanupAbort] else []

namespace Chain

/-- The transaction as the chain's context describes it. -/
def transaction (s : Chain) : Transaction where
  prepared := if s.transactionPrepared then some s.prepared else none
  lastCommitted := s.lastCommitted
  decisionPending := s.transactionDecisionPending
  aborted := s.transactionAborted

/-- The observations a step adds, and the transaction it leaves behind.  The index is the
stretch of code that ran, or `none` for an action of the main loop. -/
inductive Effect (s : Chain) : Option ChainOp → List Obs → Transaction → Prop
  | silent (op : Option ChainOp) : Effect s op [] s.transaction
  | received (c : ControlMsg) : Effect s none [.received c] s.transaction
  /-- Events are processed outside a prepared transaction, or in the aftermath of an
  abort. -/
  | processed (op : Option ChainOp) (e : Event) (writes : ℕ)
      (h : s.transactionPrepared = false ∨ op = some .process ∨
        ∃ c remaining, op = some (.abortDrain c remaining)) :
      Effect s op (.processed e :: List.replicate writes .write) s.transaction
  | deciding (c : ControlMsg) :
      Effect s (some (.handle c)) [] { s.transaction with decisionPending := true }
  | preCommitted (c : ControlMsg) :
      Effect s (some (.barrier c .prepare)) [.preCommit c.identity true]
        { s.transaction with prepared := some c.identity }
  | preCommitFailed (c : ControlMsg) :
      Effect s (some (.barrier c .prepare)) [.preCommit c.identity false] s.transaction
  | captured (c : ControlMsg) (ok : Bool) :
      Effect s (some (.barrier c .capture)) [.captured c.identity ok] s.transaction
  | acknowledged (c : ControlMsg) :
      Effect s (some (.barrier c .report)) [.acknowledged c.identity]
        { s.transaction with decisionPending := true }
  | forwarded (c : ControlMsg) :
      Effect s (some (.barrier c .report)) [.outputBarrier c.identity] s.transaction
  | resubmitted (c : ControlMsg) :
      Effect s (some (.barrier c .submit)) []
        { s.transaction with decisionPending := s.transactionPrepared }
  | submitted (c : ControlMsg) :
      Effect s (some (.barrier c .submit)) [.uploadStarted c.identity]
        { s.transaction with decisionPending := s.transactionPrepared }
  | committed (c : ControlMsg) (attempt : ℕ) :
      Effect s (some (.commit c attempt)) [.commit c.identity true]
        { s.transaction with
          prepared := none, lastCommitted := c.identity.id, decisionPending := false }
  | commitFailed (c : ControlMsg) (attempt : ℕ) :
      Effect s (some (.commit c attempt)) [.commit c.identity false] s.transaction
  | begun (ok : Bool) : Effect s (some .beginTransaction) [.beginTransaction ok] s.transaction
  | aborted (c : ControlMsg) :
      Effect s (some (.abortSink c)) [.abort true]
        { s.transaction with prepared := none, decisionPending := false, aborted := true }
  | abortFailed (c : ControlMsg) : Effect s (some (.abortSink c)) [.abort false] s.transaction
  /-- The end comes once the last input has ended, at once or after the pending uploads. -/
  | ended (op : Option ChainOp) (h : op = some .chainEnd ∨ op = none ∧ s.endPending = true) :
      Effect s op [.outputEnd] s.transaction

/-- A step from `s` to `s'` that adds `obs` and leaves the transaction `t`; if it ends the
chain, the cleanup follows. -/
structure Ends (cfg : ChainConfig) (s s' : Chain) (obs : List Obs) (t : Transaction) : Prop where
  trace : s'.trace = s.trace ++ obs ++ if s'.exit.isSome then t.cleanup cfg else []
  running : s'.exit = none → s'.transaction = t

variable {cfg : ChainConfig} {s s' t : Chain} {c : ControlMsg} {o : Outcome} {w : ℕ}
  {op : Option ChainOp} {obs : List Obs}

/-- A step that leaves the chain running. -/
theorem Ends.of_running (hexit : t.exit = none) (htrace : t.trace = s.trace ++ obs) :
    Ends cfg s t obs t.transaction :=
  ⟨by simp [hexit, htrace], fun _ => rfl⟩

/-- A step that ends the chain: the cleanup consults the flags as they are at that
moment. -/
theorem Ends.leave (reason : ExitReason) (htrace : t.trace = s.trace ++ obs) :
    Ends cfg s (t.leave cfg reason) obs t.transaction := by
  refine ⟨?_, fun h => by simp [Chain.leave] at h⟩
  have hflags : t.transaction.cleanup cfg = if t.cleansUp cfg then [.cleanupAbort] else [] := rfl
  simp only [Chain.leave, isSome_some, if_true, htrace, hflags]
  split
  · rfl
  · rw [append_nil]

/-- The step has one of the listed effects. -/
def HasEffect (cfg : ChainConfig) (s : Chain) (op : Option ChainOp) (s' : Chain) : Prop :=
  ∃ obs t, Effect s op obs t ∧ Ends cfg s s' obs t

/-- The chain runs, and has recorded nothing and left its transaction alone since `s`. -/
def Resumes (s t : Chain) : Prop :=
  t.exit = none ∧ t.trace = s.trace ∧ t.transaction = s.transaction

theorem HasEffect.silent (hs : Resumes s t) : HasEffect cfg s op t :=
  ⟨[], _, .silent op, hs.2.2 ▸ .of_running hs.1 (by simp [hs.2.1])⟩

theorem HasEffect.silent_leave (reason : ExitReason) (hs : Resumes s t) :
    HasEffect cfg s op (t.leave cfg reason) :=
  ⟨[], _, .silent op, hs.2.2 ▸ .leave reason (by simp [hs.2.1])⟩

theorem HasEffect.silent_fail (e : ChainError) (hs : Resumes s t) :
    HasEffect cfg s op (t.fail cfg e) :=
  .silent_leave _ hs

/-- Processing an event, wherever the chain takes it from. -/
theorem HasEffect.processEvent {e : Event} (hs : Resumes s t)
    (h : s.transactionPrepared = false ∨ op = some .process ∨
      ∃ c remaining, op = some (.abortDrain c remaining)) :
    HasEffect cfg s op (processEvent cfg t e o w) := by
  unfold Chain.processEvent
  split
  · exact ⟨_, _, .processed op e 0 h, hs.2.2 ▸ .of_running hs.1 (by simp [emit, hs.2.1])⟩
  · refine ⟨_, _, .processed op e w h, ?_⟩
    split
    · rw [← hs.2.2]
      exact .of_running hs.1 (by simp [hs.2.1])
    · rw [← hs.2.2]
      exact .leave _ (by simp [hs.2.1])

theorem HasEffect.drainInputCh {again done : ChainOp} (hs : Resumes s t)
    (hp : s.transactionPrepared = false) :
    HasEffect cfg s op (drainInputCh cfg t again done o w) := by
  unfold Chain.drainInputCh
  split
  · exact .silent hs
  · exact .processEvent hs (.inl hp)

theorem HasEffect.emitChainEnd (hs : Resumes s t)
    (h : op = some .chainEnd ∨ op = none ∧ s.endPending = true) :
    HasEffect cfg s op (emitChainEnd cfg t o) := by
  unfold Chain.emitChainEnd
  split
  · exact .silent_fail _ hs
  · split
    · refine ⟨_, _, .ended op h, ?_⟩
      rw [← hs.2.2]
      exact .leave _ (by simp [emit, hs.2.1])
    · exact .silent_fail _ hs

theorem HasEffect.handleControl (hs : Resumes s t) :
    HasEffect cfg s (some (.handle c)) (handleControl cfg t c) := by
  obtain ⟨cp, -, hhandled⟩ := handled cfg t c
  generalize Chain.handleControl cfg t c = u at hhandled
  cases hhandled with
  | left => exact .silent_leave _ hs
  | overrun => exact .silent_fail _ hs
  | committing =>
    refine ⟨_, _, .deciding c, ?_⟩
    rw [← hs.2.2]
    exact .of_running hs.1 (by simp [push, hs.2.1])
  | _ => exact .silent hs

theorem HasEffect.barrierStep {stage : BarrierStage} (hs : Resumes s t)
    (hat : s.At cfg (.barrier c stage)) :
    HasEffect cfg s (some (.barrier c stage)) (barrierStep cfg t c o w stage) := by
  cases stage with
  | drain => exact .drainInputCh hs hat.1
  | prepare =>
    simp only [Chain.barrierStep]
    split
    · exact .silent hs
    · split
      · exact .silent_fail _ hs
      · split
        · refine ⟨_, _, .preCommitted c, ?_⟩
          rw [← hs.2.2]
          exact .of_running hs.1 (by simp [push, emit, hs.2.1])
        · refine ⟨_, _, .preCommitFailed c, ?_⟩
          rw [← hs.2.2]
          exact .leave _ (by simp [emit, hs.2.1])
  | capture =>
    simp only [Chain.barrierStep]
    split
    · refine ⟨_, _, .captured c true, ?_⟩
      rw [← hs.2.2]
      exact .of_running hs.1 (by simp [push, emit, hs.2.1])
    · refine ⟨_, _, .captured c false, ?_⟩
      rw [← hs.2.2]
      exact .leave _ (by simp [emit, hs.2.1])
  | report =>
    simp only [Chain.barrierStep]
    split
    · split
      · refine ⟨_, _, .acknowledged c, ?_⟩
        rw [← hs.2.2]
        split
        · exact .leave _ (by simp [emit, hs.2.1])
        · exact .of_running hs.1 (by simp [push, emit, hs.2.1])
      · exact .silent hs
    · split
      · refine ⟨_, _, .forwarded c, ?_⟩
        rw [← hs.2.2]
        exact .of_running hs.1 (by simp [push, emit, hs.2.1])
      · exact .silent_fail _ hs
  | submit =>
    have hp : s.transactionPrepared = t.transactionPrepared := by
      have := congrArg Transaction.prepared hs.2.2
      simp only [transaction] at this
      cases hs : s.transactionPrepared <;> cases ht : t.transactionPrepared <;>
        simp [hs, ht] at this ⊢
    simp only [Chain.barrierStep]
    split
    · exact .silent hs
    · split
      · refine ⟨_, _, .resubmitted c, ?_⟩
        rw [← hs.2.2, hp]
        exact .of_running hs.1 (by simp [push, hs.2.1])
      · refine ⟨_, _, .submitted c, ?_⟩
        rw [← hs.2.2, hp]
        split
        · exact .of_running hs.1 (by simp [push, emit, hs.2.1])
        · exact .leave _ (by simp [emit, hs.2.1])
  | finish =>
    simp only [Chain.barrierStep]
    split <;> exact .silent hs

theorem HasEffect.commitStep {attempt : ℕ} (hs : Resumes s t) :
    HasEffect cfg s (some (.commit c attempt)) (commitStep cfg t c attempt o) := by
  unfold Chain.commitStep
  split
  · exact .silent_fail _ hs
  · refine ⟨_, _, .committed c attempt, ?_⟩
    rw [← hs.2.2]
    exact .of_running hs.1 (by simp [push, emit, hs.2.1])
  all_goals
    refine ⟨_, _, .commitFailed c attempt, ?_⟩
    rw [← hs.2.2]
    split
    · exact .leave _ (by simp [emit, hs.2.1])
    · exact .of_running hs.1 (by simp [push, emit, hs.2.1])

theorem HasEffect.abortSinkStep (hs : Resumes s t) :
    HasEffect cfg s (some (.abortSink c)) (abortSinkStep cfg t c o) := by
  unfold Chain.abortSinkStep
  split
  · refine ⟨_, _, .aborted c, ?_⟩
    rw [← hs.2.2]
    exact .leave _ (by simp [emit, hs.2.1])
  · refine ⟨_, _, .abortFailed c, ?_⟩
    rw [← hs.2.2]
    exact .leave _ (by simp [emit, hs.2.1])

/-- **The effects of a stretch of code.** -/
theorem opStep_effect {op : ChainOp} {rest : List ChainOp} (hinv : Inv cfg s)
    (hexit : s.exit = none) (htodo : s.todo = op :: rest)
    (hstep : opStep cfg { s with todo := rest } o w op = some s') :
    HasEffect cfg s (some op) s' := by
  have hat : s.At cfg op := hinv.point op (by simp [htodo])
  have hs : Resumes s s := ⟨hexit, rfl, rfl⟩
  cases op with try cases hstep
  | handle c =>
    exact .handleControl hs
  | barrier c stage =>
    exact .barrierStep hs hat
  | commit c attempt =>
    exact .commitStep hs
  | beginTransaction =>
    simp only [Chain.opStep] at hstep
    split at hstep <;> cases hstep
    · exact ⟨_, _, .begun true, .of_running hs.1 rfl⟩
    · exact ⟨_, _, .begun false, .leave _ rfl⟩
  | abortSink c =>
    exact .abortSinkStep hs
  | abortDrain c remaining =>
    cases remaining with
    | zero =>
      cases hstep
      exact .silent hs
    | succ remaining =>
      simp only [Chain.opStep, abortDrainStep] at hstep
      split at hstep
      · cases hstep
        exact .silent_fail _ hs
      · split at hstep
        · simp at hstep
        · cases hstep
          exact .processEvent hs (.inr (.inr ⟨_, _, rfl⟩))
  | endOfPartition | drainInputs =>
    exact .drainInputCh hs hat
  | chainEnd =>
    unfold chainEndStep
    split
    · exact .emitChainEnd hs (.inl rfl)
    · split
      · exact .emitChainEnd hs (.inl rfl)
      · exact .silent hs
  | shutdown =>
    simp only [Chain.opStep] at hstep
    split at hstep
    · next hopen =>
      split at hstep <;> cases hstep
      · exact .silent_leave _ hs
      · exact .processEvent hs (.inl hopen.2)
    · cases hstep
      exact .silent_leave _ hs
  | process =>
    simp only [Chain.opStep] at hstep
    split at hstep <;> cases hstep
    · exact .silent hs
    · exact .processEvent hs (.inr (.inl rfl))
  | epilogue =>
    unfold epilogueStep
    split
    · exact .silent hs
    · split <;> exact .silent hs
  | abortCheckpoint c | abortAlignment c | beginDrain =>
    exact .silent hs

/-- **The effects of an action of the main loop.** -/
theorem loopStep_effect {a : Act} (hexit : s.exit = none) (hstep : loopStep cfg s a = some s') :
    HasEffect cfg s none s' := by
  have hs : Resumes s s := ⟨hexit, rfl, rfl⟩
  cases turn_of_loopStep hstep with
  | received => exact ⟨_, _, .received _, .of_running hexit rfl⟩
  | processed e rest o w hp => exact .processEvent hs (.inl hp)
  | turned => exact .silent hs
  | ended cp o hready hend =>
    exact .emitChainEnd hs (.inr ⟨rfl, hend ▸ endPending_of_endReady hready⟩)
  | failed => exact .silent_fail _ hs

/-- The cleanup records nothing but its call of `Abort`. -/
theorem eq_cleanupAbort_of_cleanup {txn : Transaction} {x : Obs} (h : x ∈ txn.cleanup cfg) :
    x = .cleanupAbort := by
  unfold Transaction.cleanup at h
  split at h
  · simpa using h
  · simp at h

/-- What a step records first comes from the effect of the code that ran, unless it is a
begin or the cleanup. -/
theorem Inv.effect_of_trace {a : Act} {x : Obs} {l : List Obs} (hinv : Inv cfg s)
    (hstep : s.step cfg a = some s') (htrace : s'.trace = s.trace ++ x :: l)
    (hbegin : ∀ ok, x ≠ .beginTransaction ok) (hcleanup : x ≠ .cleanupAbort) :
    ∃ obs txn, Effect s s.todo.head? (x :: obs) txn := by
  have hfirst : ∀ {op : Option ChainOp}, HasEffect cfg s op s' →
      ∃ obs txn, Effect s op (x :: obs) txn := by
    rintro op ⟨obs, txn, heff, hends⟩
    have hadded := hends.trace
    rw [htrace, append_assoc, append_cancel_left_eq] at hadded
    cases obs with
    | nil =>
      have hmem : x ∈ txn.cleanup cfg := by
        rw [nil_append] at hadded
        split at hadded
        · exact hadded ▸ mem_cons_self
        · simp at hadded
      exact absurd (eq_cleanupAbort_of_cleanup hmem) hcleanup
    | cons y obs =>
      obtain ⟨rfl, -⟩ := cons.inj hadded
      exact ⟨obs, txn, heff⟩
  obtain ⟨hexit, ⟨o, -, -, rfl⟩ | ⟨o, w, op, rest, -, -, htodo, hop⟩ | ⟨-, htodo, hloop⟩⟩ :=
    step_cases hstep
  · exfalso
    unfold Chain.startStep at htrace
    repeat' split at htrace
    · simp at htrace
    all_goals
      have : [.beginTransaction _] = x :: l := append_cancel_left htrace
      exact hbegin _ (cons.inj this).1.symm
  · rw [htodo]
    exact hfirst (opStep_effect hinv hexit htodo hop)
  · rw [htodo]
    exact hfirst (loopStep_effect hexit hloop)

end Chain
end Wire.Engine
