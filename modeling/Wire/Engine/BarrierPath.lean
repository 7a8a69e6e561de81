import Wire.Engine.TaskFlow
import Wire.Engine.TwoPhaseCommit

/-!
# The way of a barrier through a task

A barrier that a stream delivers is reported to the aligner, announced on the control channel,
and handled; its code prepares the sink's transaction, starts the upload and passes the barrier
on.  Three facts about this way are what a larger system needs to know about a task.

* `Carries.step`: a task has no barriers of its own.  Whatever it handles or passes on was
  delivered to it.
* `preCommit_notMem_of_prepare`: no checkpoint is prepared twice.  The aligner retires an identity
  when its alignment is finished, and ignores what is retired.
* `overrun_of_step`: the chain fails because a barrier arrived while a transaction is prepared
  only where it handles that barrier and still holds that transaction.

A stream can deliver more at any time: `Task.deliver` appends to what it will deliver, and a run
in which that happens is the run in which it was there from the start (`Sound.deliver`).
-/

namespace Wire.Engine

open List Option Function Runs

/-! ## The chain -/

/-- The barrier that a stretch of code is about. -/
def ChainOp.carries : ChainOp → Option CheckpointIdentity
  | .handle c => if c.type = .barrierReceived then some c.identity else none
  | .barrier c _ => some c.identity
  | _ => none

variable {maxBufferSize : ℕ}

namespace Chain

variable {cfg : ChainConfig} {s s' : Chain} {a : Act} {c : ControlMsg} {o : Outcome} {w : ℕ}
  {b : CheckpointIdentity}

/-- **The code of a message is about the barrier of that message**, if it is about one. -/
theorem opStep_carries {op p : ChainOp} {rest : List ChainOp} (hinv : Inv cfg s)
    (htodo : s.todo = op :: rest) (hstep : opStep cfg { s with todo := rest } o w op = some s')
    (hp : s'.todo.head? = some p) (hb : p.carries = some b) : op.carries = some b := by
  rcases opStep_leads hinv htodo hstep hp with hplain | ⟨hpasses, htype⟩
  · cases p with
    | handle c =>
      rw [ChainOp.carries, if_neg (hplain.2 c rfl)] at hb
      cases hb
    | barrier => cases hplain.1
    | _ => cases hb
  · cases hpasses with
    | aligned c =>
      rw [ChainOp.carries, if_pos ((htype c rfl).resolve_left nofun)]
      exact hb
    | draining | drained | staged => exact hb
    | _ => cases hb

theorem processEvent_controlCh (e : Event) : (processEvent cfg s e o w).controlCh = s.controlCh :=
  congrArg Prod.snd (processEvent_loopState cfg s o w e)

theorem emitChainEnd_controlCh : (emitChainEnd cfg s o).controlCh = s.controlCh :=
  congrArg Prod.snd (emitChainEnd_loopState cfg s o)

/-- The main loop only takes messages from the control channel. -/
theorem loopStep_controlCh (hstep : loopStep cfg s a = some s') : s'.controlCh <:+ s.controlCh := by
  cases turn_of_loopStep hstep with
  | received c rest hch =>
    rw [hch]
    exact suffix_cons c rest
  | processed => rw [processEvent_controlCh]
  | ended => rw [emitChainEnd_controlCh]
  | turned | failed => exact suffix_refl _

/-! ### What a step records -/

/-- What a step adds to the trace comes from the effect of the code that ran, unless it is a
begin or the cleanup. -/
theorem Inv.recorded_of_step (hinv : Inv cfg s) (hstep : s.step cfg a = some s') :
    ∃ l, s'.trace = s.trace ++ l ∧ ∀ x ∈ l, (∃ ok, x = .beginTransaction ok) ∨
      x = .cleanupAbort ∨ ∃ obs txn, Effect s s.todo.head? obs txn ∧ x ∈ obs := by
  have heffect : ∀ {op : Option ChainOp}, op = s.todo.head? → HasEffect cfg s op s' →
      ∃ l, s'.trace = s.trace ++ l ∧ ∀ x ∈ l, (∃ ok, x = .beginTransaction ok) ∨
        x = .cleanupAbort ∨ ∃ obs txn, Effect s s.todo.head? obs txn ∧ x ∈ obs := by
    rintro op rfl ⟨obs, txn, heff, hends⟩
    refine ⟨_, by rw [hends.trace, append_assoc], fun x hx => ?_⟩
    rcases mem_append.mp hx with hx | hx
    · exact .inr (.inr ⟨obs, txn, heff, hx⟩)
    · split at hx
      · exact .inr (.inl (eq_cleanupAbort_of_cleanup hx))
      · simp at hx
  obtain ⟨hexit, ⟨o, -, -, rfl⟩ | ⟨o, w, op, rest, -, -, htodo, hop⟩ | ⟨-, htodo, hloop⟩⟩ :=
    step_cases hstep
  · unfold Chain.startStep
    repeat' split
    · exact ⟨[], (append_nil _).symm, nofun⟩
    all_goals exact ⟨[_], rfl, fun x hx => .inl ⟨_, mem_singleton.mp hx⟩⟩
  · exact heffect (by rw [htodo]; rfl) (opStep_effect hinv hexit htodo hop)
  · exact heffect (by rw [htodo]; rfl) (loopStep_effect hexit hloop)

/-- A transaction is prepared by the code of its barrier. -/
theorem Inv.prepared_of_step (hinv : Inv cfg s) (hstep : s.step cfg a = some s')
    (hexit' : s'.exit = none) (hb : s'.transaction.prepared = some b) :
    s.transaction.prepared = some b ∨
      ∃ c, s.todo.head? = some (.barrier c .prepare) ∧ c.identity = b := by
  have heffect : ∀ {op : Option ChainOp}, op = s.todo.head? → HasEffect cfg s op s' →
      s.transaction.prepared = some b ∨
        ∃ c, s.todo.head? = some (.barrier c .prepare) ∧ c.identity = b := by
    rintro op hop ⟨obs, txn, heff, hends⟩
    rw [hends.running hexit'] at hb
    cases heff with
    | preCommitted c => exact .inr ⟨c, hop.symm, some.inj hb⟩
    | committed | aborted => cases hb
    | _ => exact .inl hb
  obtain ⟨hexit, ⟨o, -, -, rfl⟩ | ⟨o, w, op, rest, -, -, htodo, hop⟩ | ⟨-, htodo, hloop⟩⟩ :=
    step_cases hstep
  · refine .inl (hb ▸ ?_)
    unfold Chain.startStep
    repeat' split
    all_goals rfl
  · exact heffect (by rw [htodo]; rfl) (opStep_effect hinv hexit htodo hop)
  · exact heffect (by rw [htodo]; rfl) (loopStep_effect hexit hloop)

/-- What the trace says is prepared has been prepared. -/
theorem preCommit_mem_of_preparedOf {t : List Obs} (h : preparedOf t = some b) :
    .preCommit b true ∈ t := by
  have key : ∀ (t : List Obs) (p : Option CheckpointIdentity),
      t.foldl preparedAfter p = some b → p = some b ∨ .preCommit b true ∈ t := by
    intro t
    induction t with
    | nil => exact fun p hp => .inl hp
    | cons x t ih =>
      intro p hp
      rcases ih _ hp with hx | hx
      · unfold preparedAfter at hx
        split at hx
        · cases hx
          exact .inr mem_cons_self
        · cases hx
        · cases hx
        · exact .inl hx
      · exact .inr (mem_cons_of_mem _ hx)
  exact (key t none h).resolve_left nofun

/-- **An upload of a sink is of something prepared.** -/
theorem preCommit_mem_of_uploadStarted
    (h : Reachable (openStep cfg) (initial cfg maxBufferSize) s) (hsink : cfg.txnSink = true)
    (hb : .uploadStarted b ∈ s.trace) : .preCommit b true ∈ s.trace := by
  refine h.invariant (P := fun s => .uploadStarted b ∈ s.trace → .preCommit b true ∈ s.trace)
    nofun ?_ hb
  intro s a s' hs ih _ hstep hmem
  cases a with
  | chain a =>
    have hinv := inv_of_reachable hs (exit_eq_none_of_step hstep)
    have hledger := (recorded_of_reachable hs).ledger (exit_eq_none_of_step hstep)
    obtain ⟨l, htrace, hnew⟩ := hinv.recorded_of_step hstep
    rw [htrace] at hmem ⊢
    refine mem_append_left _ ?_
    rcases mem_append.mp hmem with hmem | hmem
    · exact ih hmem
    · rcases hnew _ hmem with ⟨ok, hx⟩ | hx | ⟨obs, txn, heff, hx⟩
      · cases hx
      · cases hx
      · generalize hhead : s.todo.head? = head at heff
        cases heff with
        | submitted c =>
          cases mem_singleton.mp hx
          obtain ⟨hprepared, hid⟩ := (hinv.point _ hhead).1 hsink
          refine preCommit_mem_of_preparedOf ?_
          rw [hledger.prepared, transaction_prepared_eq_some]
          exact ⟨hprepared, hid⟩
        | processed =>
          rcases mem_cons.mp hx with hx | hx
          · cases hx
          · cases eq_of_mem_replicate hx
        | _ => simp at hx
  | surroundings m =>
    rw [← some.inj hstep] at hmem ⊢
    exact ih hmem

/-! ### The failure of a barrier that comes too early -/

section Overrun

variable {m n : ℕ}

/-- The chain failed because the barrier of checkpoint `m` arrived while the transaction of
checkpoint `n` was prepared. -/
def Overrun (s : Chain) (m n : ℕ) : Prop :=
  s.exit = some (.failed (.arrivedWhilePrepared m n))

theorem not_overrun_of_running (h : s.exit = none) : ¬ Overrun s m n := by
  simp [Overrun, h]

theorem not_overrun_leave {e : ExitReason} (he : e ≠ .failed (.arrivedWhilePrepared m n)) :
    ¬ Overrun (s.leave cfg e) m n := by
  simpa [Overrun, leave] using he

variable {e : ChainError}

theorem not_overrun_fail (he : e ≠ .arrivedWhilePrepared m n) : ¬ Overrun (s.fail cfg e) m n :=
  not_overrun_leave fun h => he (ExitReason.failed.inj h)

/-- The failure of an external call is another one. -/
theorem failure_ne (he : e ≠ .arrivedWhilePrepared m n) :
    o.failure e ≠ .arrivedWhilePrepared m n := by
  cases o with
  | panic => exact nofun
  | _ => exact he

theorem not_overrun_processEvent (h : s.exit = none) (e : Event) :
    ¬ Overrun (processEvent cfg s e o w) m n := by
  unfold Chain.processEvent
  split
  · exact not_overrun_of_running h
  · dsimp only
    split
    · exact not_overrun_of_running h
    · exact not_overrun_fail (failure_ne nofun)

theorem not_overrun_emitChainEnd : ¬ Overrun (emitChainEnd cfg s o) m n := by
  unfold Chain.emitChainEnd
  split
  · exact not_overrun_fail nofun
  · split
    · exact not_overrun_leave nofun
    · exact not_overrun_fail nofun

section

variable (h : s.exit = none)
include h

theorem overrun_of_handleControl (hover : Overrun (handleControl cfg s c) m n) :
    c.type = .barrierReceived ∧ c.identity.id = m ∧
      s.transaction.prepared = some ⟨n, c.identity.epoch⟩ := by
  obtain ⟨cp, -, hhandled⟩ := handled cfg s c
  generalize handleControl cfg s c = t at hover hhandled
  cases hhandled with
  | left _ _ hreason => exact absurd hover (not_overrun_leave (hreason m n))
  | overrun hc hp hepoch =>
    have herror := ExitReason.failed.inj (some.inj hover)
    obtain ⟨hm, hn⟩ := ChainError.arrivedWhilePrepared.inj herror
    refine ⟨hc, hm, transaction_prepared_eq_some.mpr ⟨hp, ?_⟩⟩
    rw [Chain.prepared, ← hn, hepoch]
  | _ => exact absurd hover (not_overrun_of_running h)

theorem not_overrun_barrierStep (stage : BarrierStage) :
    ¬ Overrun (barrierStep cfg s c o w stage) m n := by
  cases stage with
  | drain =>
    simp only [barrierStep, drainInputCh]
    split
    · exact not_overrun_of_running h
    · refine not_overrun_processEvent ?_ _
      exact h
  | _ =>
    simp only [barrierStep]
    repeat' split
    all_goals first
      | exact not_overrun_of_running h
      | exact not_overrun_fail (failure_ne (by simp))
      | exact not_overrun_fail (by simp)

/-- Only the code of a message can fail in this way. -/
theorem not_overrun_opStep {op : ChainOp} (hop : ∀ c, op ≠ .handle c)
    (hstep : opStep cfg s o w op = some s') : ¬ Overrun s' m n := by
  cases op with
  | handle c => exact absurd rfl (hop c)
  | barrier c stage =>
    cases hstep
    exact not_overrun_barrierStep h stage
  | chainEnd =>
    cases hstep
    unfold chainEndStep
    repeat' split
    all_goals first
      | exact not_overrun_of_running h
      | exact not_overrun_emitChainEnd
  | _ =>
    simp only [opStep, abortDrainStep, epilogueStep, commitStep, abortSinkStep,
      drainInputCh] at hstep
    repeat' split at hstep
    all_goals cases hstep
    all_goals first
      | exact not_overrun_of_running h
      | exact not_overrun_fail (failure_ne (by simp))
      | exact not_overrun_fail (by simp)
      | exact not_overrun_leave (by simp)
      | refine not_overrun_processEvent ?_ _
        exact h

theorem not_overrun_loopStep (hstep : loopStep cfg s a = some s') : ¬ Overrun s' m n := by
  cases turn_of_loopStep hstep with
  | received | turned => exact not_overrun_of_running h
  | processed =>
    refine not_overrun_processEvent ?_ _
    exact h
  | ended => exact not_overrun_emitChainEnd
  | failed cp err herr =>
    rcases herr with rfl | ⟨o, rfl⟩
    · exact not_overrun_fail nofun
    · exact not_overrun_fail (failure_ne nofun)

end

/-- **A barrier fails the chain where it is handled**, while the transaction of another
checkpoint of its epoch is prepared. -/
theorem overrun_of_step (hstep : s.step cfg a = some s') (hover : Overrun s' m n) :
    ∃ c, s.todo.head? = some (.handle c) ∧ c.type = .barrierReceived ∧ c.identity.id = m ∧
      s.transaction.prepared = some ⟨n, c.identity.epoch⟩ := by
  obtain ⟨hexit, ⟨o, -, -, rfl⟩ | ⟨o, w, op, rest, -, -, htodo, hop⟩ | ⟨-, -, hloop⟩⟩ :=
    step_cases hstep
  · exfalso
    unfold Chain.startStep at hover
    split at hover
    · exact not_overrun_of_running hexit hover
    split at hover
    · exact not_overrun_of_running hexit hover
    · have herror : o.failure .beginTransactionFailed = .arrivedWhilePrepared m n :=
        ExitReason.failed.inj (some.inj hover)
      exact failure_ne (e := .beginTransactionFailed) nofun herror
  · by_cases hhandle : ∃ c, op = .handle c
    · obtain ⟨c, rfl⟩ := hhandle
      rw [← some.inj hop] at hover
      obtain ⟨htype, hm, hn⟩ := overrun_of_handleControl (s := { s with todo := rest }) hexit hover
      exact ⟨c, by rw [htodo]; rfl, htype, hm, hn⟩
    · have hne : ∀ c, op ≠ .handle c := fun c hc => hhandle ⟨c, hc⟩
      exact absurd hover (not_overrun_opStep (s := { s with todo := rest }) hexit hne hop)
  · exact absurd hover (not_overrun_loopStep hexit hloop)

end Overrun

end Chain

/-! ## Streams that deliver more -/

/-- A reader has the barrier still to read, to report or to announce. -/
def Reader.Carries (r : Reader) (b : CheckpointIdentity) : Prop :=
  .checkpointBarrier b ∈ r.inbox ∨ r.pc = .mark b ∨ r.pc = .notify b

namespace Task

variable {cfg : ChainConfig} {t t' : Task} {a : Act} {i : ℕ} {b : CheckpointIdentity}

/-- Let each stream deliver some more messages. -/
def extend (t : Task) (more : ℕ → List InputMsg) : Task :=
  { t with readers := fun i => { t.readers i with inbox := (t.readers i).inbox ++ more i } }

/-- A message comes in on the stream of input `i`. -/
def deliver (t : Task) (i : ℕ) (m : InputMsg) : Task :=
  t.extend (update (fun _ => []) i [m])

section Extend

variable (more : ℕ → List InputMsg)

theorem extend_setReader (r : Reader) : (t.setReader i r).extend more =
    (t.extend more).setReader i { r with inbox := r.inbox ++ more i } := by
  simp only [extend, setReader, Task.mk.injEq, true_and, and_true]
  funext j
  by_cases hj : j = i
  · subst hj
    simp
  · simp [update_of_ne hj]

theorem extend_sendEvent (e : Event) : (t.sendEvent e).extend more = (t.extend more).sendEvent e :=
  rfl

theorem extend_sendControl (c : ControlMsg) :
    (t.sendControl c).extend more = (t.extend more).sendControl c :=
  rfl

variable {rest : List InputMsg}

theorem extend_dispatchItem {m : InputMsg} {e : Event} (h : t.dispatchItem i m rest e = some t') :
    (t.extend more).dispatchItem i m (rest ++ more i) e = some (t'.extend more) := by
  have haligner : (t.extend more).chain.aligner = t.chain.aligner := rfl
  unfold dispatchItem at h ⊢
  rw [haligner]
  split at h <;> cases h
  · rw [extend_setReader]
    rfl
  · rw [extend_setReader]
    rfl

theorem extend_dispatchBarrier (h : t.dispatchBarrier i b rest = some t') :
    (t.extend more).dispatchBarrier i b (rest ++ more i) = some (t'.extend more) := by
  have haligner : (t.extend more).chain.aligner = t.chain.aligner := rfl
  have hcompleted : (t.extend more).completed = t.completed := rfl
  unfold dispatchBarrier at h ⊢
  rw [haligner, hcompleted]
  split at h
  · next hdone =>
    cases h
    rw [if_pos hdone, extend_setReader]
    rfl
  · next hdone =>
    rw [if_neg hdone]
    split at h <;> cases h
    · rw [extend_setReader]
      rfl
    · rw [extend_setReader]
      rfl

/-- A reader does not look beyond the next message. -/
theorem extend_readerStep (h : t.readerStep cfg i = some t') :
    (t.extend more).readerStep cfg i = some (t'.extend more) := by
  have hpc : ((t.extend more).readers i).pc = (t.readers i).pc := rfl
  have hinbox : ((t.extend more).readers i).inbox = (t.readers i).inbox ++ more i := rfl
  unfold readerStep at h ⊢
  obtain ⟨hi, h⟩ := ite_none_left_eq_some.mp h
  rw [if_neg hi, hpc, hinbox]
  split at h
  · next hpc' hinbox' =>
    rw [hpc', hinbox']
    exact extend_dispatchItem more h
  · next hpc' hinbox' =>
    rw [hpc', hinbox']
    exact extend_dispatchItem more h
  · next hpc' hinbox' =>
    rw [hpc', hinbox']
    exact extend_dispatchBarrier more h
  · next hpc' hinbox' =>
    cases h
    rw [hpc', hinbox', extend_sendControl, extend_setReader]
    rfl
  · simp at h
  · next hpc' =>
    cases h
    rw [hpc', extend_sendEvent, extend_setReader]
    rfl
  · next hpc' =>
    cases h
    rw [hpc', markBarrier, extend_setReader]
    rfl
  · next hpc' =>
    cases h
    rw [hpc', extend_sendControl, extend_setReader]
    rfl
  · simp at h
  · simp at h

theorem extend_step (h : t.step cfg a = some t') :
    (t.extend more).step cfg a = some (t'.extend more) := by
  cases a with
  | chain a =>
    simp only [step, map_eq_some_iff] at h ⊢
    obtain ⟨chain, hchain, rfl⟩ := h
    exact ⟨chain, hchain, rfl⟩
  | reader i => exact extend_readerStep more h
  | decide c =>
    simp only [step] at h ⊢
    split at h <;> cases h
    next hc => rw [if_pos hc, extend_sendControl]
  | drainInputs | shutdown | propagate _ | complete _ _ =>
    cases h
    rfl

end Extend

/-- A state of a task whose streams deliver anything. -/
def Sound (cfg : ChainConfig) (maxBufferSize : ℕ) (t : Task) : Prop :=
  ∃ inboxes, Reachable (step cfg) (initial cfg maxBufferSize inboxes) t

section Sound

variable {maxBufferSize : ℕ}

theorem Sound.initial (cfg : ChainConfig) (maxBufferSize : ℕ) (inboxes : ℕ → List InputMsg) :
    Sound cfg maxBufferSize (initial cfg maxBufferSize inboxes) :=
  ⟨inboxes, .refl⟩

section

variable (h : Sound cfg maxBufferSize t)
include h

theorem Sound.step (hstep : t.step cfg a = some t') : Sound cfg maxBufferSize t' := by
  obtain ⟨inboxes, hreach⟩ := h
  exact ⟨inboxes, hreach.next hstep⟩

/-- **What comes in later could have been there from the start.** -/
theorem Sound.deliver (i : ℕ) (m : InputMsg) : Sound cfg maxBufferSize (t.deliver i m) := by
  obtain ⟨inboxes, hreach⟩ := h
  let more : ℕ → List InputMsg := update (fun _ => []) i [m]
  exact ⟨fun j => inboxes j ++ more j,
    hreach.map (extend · more) fun _ a _ hstep => .inr ⟨a, extend_step more hstep⟩⟩

theorem Sound.chain : Reachable (Chain.openStep cfg) (.initial cfg maxBufferSize) t.chain := by
  obtain ⟨inboxes, hreach⟩ := h
  exact chain_reachable hreach

theorem Sound.inv (hexit : t.chain.exit = none) : t.chain.Inv cfg :=
  Chain.inv_of_reachable h.chain hexit

end

end Sound

/-! ## No barrier comes from nowhere -/

/-- Where a barrier can be on its way through a task. -/
inductive Carries (t : Task) (b : CheckpointIdentity) : Prop
  | reader (i : ℕ) (h : (t.readers i).Carries b)
  | control (c : ControlMsg) (h : c ∈ t.chain.controlCh) (hc : c.type = .barrierReceived)
      (hb : c.identity = b)
  | code (op : ChainOp) (h : t.chain.todo.head? = some op) (hop : op.carries = some b)
      (hrun : t.chain.exit = none)

section Carries

/-- A task that has not begun has what its streams will deliver. -/
theorem Carries.of_initial {inboxes : ℕ → List InputMsg}
    (h : Carries (initial cfg maxBufferSize inboxes) b) :
    ∃ i, .checkpointBarrier b ∈ inboxes i := by
  cases h with
  | reader i h =>
    rcases h with h | h | h
    · exact ⟨i, h⟩
    · cases h
    · cases h
  | control c h => exact absurd h not_mem_nil
  | code op h => cases h

/-- The code of the chain and its control channel decide for themselves. -/
theorem Carries.of_readers (h : Carries t' b) (hreaders : t'.readers = t.readers)
    (hcontrol : ∀ c ∈ t'.chain.controlCh, c.type = .barrierReceived → c.identity = b →
      Carries t b) (hcode : ∀ op, t'.chain.todo.head? = some op → op.carries = some b →
      t'.chain.exit = none → Carries t b) : Carries t b := by
  cases h with
  | reader i h => exact .reader i (hreaders ▸ h)
  | control c h hc hb => exact hcontrol c h hc hb
  | code op h hop hrun => exact hcode op h hop hrun

/-- A step of the chain takes a message from its channel or goes on with its code. -/
theorem Carries.chain {a : Chain.Act} (h : Carries t' b) (hreaders : t'.readers = t.readers)
    (hinv : t.chain.Inv cfg) (hstep : t.chain.step cfg a = some t'.chain) : Carries t b := by
  obtain ⟨hexit, ⟨o, -, -, heq⟩ | ⟨o, w, op, rest, -, -, htodo, hop⟩ | ⟨-, htodo, hloop⟩⟩ :=
    Chain.step_cases hstep
  · have hloopState : t'.chain.controlCh = t.chain.controlCh ∧ t'.chain.todo = t.chain.todo := by
      rw [heq, Chain.startStep]
      repeat' split
      all_goals exact ⟨rfl, rfl⟩
    refine h.of_readers hreaders (fun c hc => ?_) fun op hp hcarries _ => ?_
    · exact .control c (hloopState.1 ▸ hc)
    · exact .code op (hloopState.2 ▸ hp) hcarries hexit
  · have hcontrol : t'.chain.controlCh = t.chain.controlCh :=
      congrArg Prod.snd (Chain.opStep_loopState hop)
    refine h.of_readers hreaders (fun c hc => ?_) fun p hp hcarries _ => ?_
    · exact .control c (hcontrol ▸ hc)
    · exact .code op (by rw [htodo]; rfl) (Chain.opStep_carries hinv htodo hop hp hcarries) hexit
  · rcases Chain.loopStep_todo htodo hloop with ⟨c, rest, hch, heq⟩ | hnil
    · refine h.of_readers hreaders (fun d hd => ?_) fun p hp hcarries _ => ?_
      · rw [heq] at hd
        exact .control d (hch ▸ mem_cons_of_mem c hd)
      · rw [heq] at hp
        cases some.inj hp
        by_cases hc : c.type = .barrierReceived
        · rw [ChainOp.carries, if_pos hc] at hcarries
          exact .control c (hch ▸ mem_cons_self) hc (some.inj hcarries)
        · rw [ChainOp.carries, if_neg hc] at hcarries
          cases hcarries
    · refine h.of_readers hreaders (fun d hd => ?_) fun p hp => ?_
      · exact .control d ((Chain.loopStep_controlCh hloop).subset hd)
      · rw [hnil] at hp
        cases hp

/-- What a reader passes on, it had before. -/
structure Passes (t t' : Task) (i : ℕ) (r : Reader) (messages : List ControlMsg) : Prop where
  readers : t'.readers = update t.readers i r
  controlCh : t'.chain.controlCh = t.chain.controlCh ++ messages
  todo : t'.chain.todo = t.chain.todo
  exit : t'.chain.exit = t.chain.exit
  kept : ∀ b, r.Carries b → (t.readers i).Carries b
  announced : ∀ c ∈ messages, c.type = .barrierReceived → (t.readers i).pc = .notify c.identity

theorem Reads.passes (h : Reads t i t') : ∃ r messages, Passes t t' i r messages := by
  have hquiet : ∀ (b : CheckpointIdentity) {m : InputMsg} {rest : List InputMsg} {pc : ReaderPc},
      (t.readers i).inbox = m :: rest → pc ≠ .mark b → pc ≠ .notify b →
      ((t.readers i).consume m rest pc).Carries b → (t.readers i).Carries b := by
    rintro b m rest pc hinbox hmark hnotify (h | h | h)
    · exact .inl (hinbox ▸ mem_cons_of_mem m h)
    · exact absurd h hmark
    · exact absurd h hnotify
  have hreading : ∀ (b : CheckpointIdentity),
      ({ t.readers i with pc := .reading } : Reader).Carries b → (t.readers i).Carries b := by
    rintro b (h | h | h)
    · exact .inl h
    · cases h
    · cases h
  cases h with
  | buffer m rest e ba hpc hinbox | hold m rest e hpc hinbox =>
    exact ⟨_, [], rfl, (append_nil _).symm, rfl, rfl, fun b => hquiet b hinbox nofun nofun, nofun⟩
  | send e hpc => exact ⟨_, [], rfl, (append_nil _).symm, rfl, rfl, hreading, nofun⟩
  | barrier c rest pc hpc hinbox hpc' =>
    refine ⟨_, [], rfl, (append_nil _).symm, rfl, rfl, fun b h => ?_, nofun⟩
    rcases hpc' with rfl | rfl | rfl
    · refine hquiet b hinbox ?_ ?_ h <;> exact nofun
    · refine hquiet b hinbox ?_ ?_ h <;> exact nofun
    · rcases h with h | h | h
      · exact .inl (hinbox ▸ mem_cons_of_mem _ h)
      · cases h
        exact .inl (hinbox ▸ mem_cons_self)
      · cases h
  | mark c hpc =>
    refine ⟨_, [], rfl, (append_nil _).symm, rfl, rfl, fun b h => ?_, nofun⟩
    rcases h with h | h | h
    · exact .inl h
    · cases h
    · cases h
      exact .inr (.inl hpc)
  | notify c hpc =>
    refine ⟨_, [_], rfl, rfl, rfl, rfl, hreading, fun d hd _ => ?_⟩
    rw [mem_singleton.mp hd]
    exact hpc
  | finish rest hpc hinbox =>
    refine ⟨_, [_], rfl, rfl, rfl, rfl, fun b => hquiet b hinbox nofun nofun, fun d hd htype => ?_⟩
    rw [mem_singleton.mp hd] at htype
    cases htype

theorem Carries.reads (h : Carries t' b) (hreads : Reads t i t') : Carries t b := by
  obtain ⟨r, messages, hpasses⟩ := hreads.passes
  cases h with
  | reader j h =>
    rw [hpasses.readers] at h
    by_cases hj : j = i
    · subst hj
      rw [update_self] at h
      exact .reader j (hpasses.kept b h)
    · rw [update_of_ne hj] at h
      exact .reader j h
  | control c h hc hb =>
    rw [hpasses.controlCh] at h
    rcases mem_append.mp h with h | h
    · exact .control c h hc hb
    · exact .reader i (.inr (.inr (hb ▸ hpasses.announced c h hc)))
  | code op h hop hrun => exact .code op (hpasses.todo ▸ h) hop (hpasses.exit ▸ hrun)

theorem Carries.sendControl {c : ControlMsg} (h : Carries (t.sendControl c) b)
    (hc : c.type ≠ .barrierReceived) : Carries t b := by
  cases h with
  | reader i h => exact .reader i h
  | control d h hd hb =>
    rcases mem_append.mp h with h | h
    · exact .control d h hd hb
    · rw [mem_singleton.mp h] at hd
      exact absurd hd hc
  | code op h hop hrun => exact .code op h hop hrun

/-- **A task has no barriers of its own.** -/
theorem Carries.step (h : Carries t' b) (hsound : Sound cfg maxBufferSize t)
    (hstep : t.step cfg a = some t') : Carries t b := by
  cases a with
  | chain a =>
    simp only [Task.step, map_eq_some_iff] at hstep
    obtain ⟨chain, hchain, rfl⟩ := hstep
    exact h.chain rfl (hsound.inv (Chain.exit_eq_none_of_step hchain)) hchain
  | reader i => exact h.reads (reads_of_readerStep hstep).2
  | decide c =>
    simp only [Task.step] at hstep
    split at hstep <;> cases hstep
    next hc => exact h.sendControl fun htype => by simp [htype, isDecision] at hc
  | drainInputs | shutdown =>
    cases hstep
    exact h.sendControl (by simp)
  | propagate | complete =>
    cases hstep
    cases h with
    | reader i h => exact .reader i h
    | control c h hc hb => exact .control c h hc hb
    | code op h hop hrun => exact .code op h hop hrun

/-- What is delivered may be a barrier. -/
theorem Carries.deliver {m : InputMsg} (h : Carries (t.deliver i m) b) :
    Carries t b ∨ m = .checkpointBarrier b := by
  cases h with
  | reader j h =>
    rcases h with h | h | h
    · rcases mem_append.mp h with h | h
      · exact .inl (.reader j (.inl h))
      · by_cases hj : j = i
        · subst hj
          rw [update_self] at h
          exact .inr (mem_singleton.mp h).symm
        · rw [update_of_ne hj] at h
          cases h
    · exact .inl (.reader j (.inr (.inl h)))
    · exact .inl (.reader j (.inr (.inr h)))
  | control c h hc hb => exact .inl (.control c h hc hb)
  | code op h hop hrun => exact .inl (.code op h hop hrun)

/-- What a step records, in a task. -/
theorem Sound.recorded (hsound : Sound cfg maxBufferSize t) (hstep : t.step cfg a = some t') :
    ∃ l, t'.chain.trace = t.chain.trace ++ l ∧ ∀ x ∈ l, t.chain.exit = none ∧
      ((∃ ok, x = .beginTransaction ok) ∨ x = .cleanupAbort ∨
        ∃ obs txn, Chain.Effect t.chain t.chain.todo.head? obs txn ∧ x ∈ obs) := by
  rcases step_cases hstep with ⟨a, -, -, hchain⟩ | ⟨i, -, hreads⟩ | ⟨events, messages, hsends⟩
  · have hexit := Chain.exit_eq_none_of_step hchain
    obtain ⟨l, htrace, hl⟩ := (hsound.inv hexit).recorded_of_step hchain
    exact ⟨l, htrace, fun x hx => ⟨hexit, hl x hx⟩⟩
  · refine ⟨[], ?_, nofun⟩
    rw [append_nil]
    cases hreads <;> rfl
  · exact ⟨[], by rw [hsends.chain, append_nil], nofun⟩

/-- What is passed on was being handled. -/
theorem Carries.of_outputBarrier {l : List Obs} (hsound : Sound cfg maxBufferSize t)
    (hstep : t.step cfg a = some t') (htrace : t'.chain.trace = t.chain.trace ++ l)
    (hb : .outputBarrier b ∈ l) : Carries t b := by
  obtain ⟨l', htrace', hl⟩ := hsound.recorded hstep
  rw [htrace, append_cancel_left_eq] at htrace'
  obtain ⟨hexit, ⟨ok, hx⟩ | hx | ⟨obs, txn, heff, hx⟩⟩ := hl _ (htrace' ▸ hb)
  · cases hx
  · cases hx
  · generalize hhead : t.chain.todo.head? = head at heff
    cases heff with
    | forwarded c =>
      cases mem_singleton.mp hx
      exact .code _ hhead rfl hexit
    | processed =>
      rcases mem_cons.mp hx with hx | hx
      · cases hx
      · cases eq_of_mem_replicate hx
    | _ => simp at hx

end Carries

/-! ## What is prepared, and what comes too early -/

/-- Readers and messages leave the code of the chain alone. -/
theorem chain_of_step (h : t.step cfg a = some t') : (∃ b, t.chain.step cfg b = some t'.chain) ∨
    t'.chain.exit = t.chain.exit ∧ t'.chain.transaction = t.chain.transaction := by
  rcases step_cases h with ⟨b, -, -, hchain⟩ | ⟨i, -, hreads⟩ | ⟨events, messages, hsends⟩
  · exact .inl ⟨b, hchain⟩
  · refine .inr ?_
    cases hreads <;> exact ⟨rfl, rfl⟩
  · rw [hsends.chain]
    exact .inr ⟨rfl, rfl⟩

theorem prepared_of_step (hsound : Sound cfg maxBufferSize t) (h : t.step cfg a = some t')
    (hexit : t'.chain.exit = none) (hb : t'.chain.transaction.prepared = some b) :
    t.chain.exit = none ∧ (t.chain.transaction.prepared = some b ∨
      ∃ c, t.chain.todo.head? = some (.barrier c .prepare) ∧ c.identity = b) := by
  rcases chain_of_step h with ⟨a, hchain⟩ | ⟨hexit', htransaction⟩
  · have hrun := Chain.exit_eq_none_of_step hchain
    exact ⟨hrun, (hsound.inv hrun).prepared_of_step hchain hexit hb⟩
  · rw [hexit'] at hexit
    rw [htransaction] at hb
    exact ⟨hexit, .inl hb⟩

theorem overrun_of_step {m n : ℕ} (h : t.step cfg a = some t') (hover : t'.chain.Overrun m n) :
    t.chain.Overrun m n ∨ t.chain.exit = none ∧
      ∃ c, t.chain.todo.head? = some (.handle c) ∧ c.type = .barrierReceived ∧
        c.identity.id = m ∧ t.chain.transaction.prepared = some ⟨n, c.identity.epoch⟩ := by
  rcases chain_of_step h with ⟨a, hchain⟩ | ⟨hexit, -⟩
  · exact .inr ⟨Chain.exit_eq_none_of_step hchain, Chain.overrun_of_step hchain hover⟩
  · exact .inl (hexit.symm.trans hover)

/-! ## No checkpoint is prepared twice -/

/-- The code of the barrier `b` is past its preparation. -/
def Behind (t : Task) (b : CheckpointIdentity) : Prop :=
  ∃ c stage, t.chain.todo.head? = some (.barrier c stage) ∧ c.identity = b ∧
    stage ≠ .drain ∧ stage ≠ .prepare

/-- As long as the chain runs, what it has prepared is either still being handled or over. -/
def PreparedOnce (t : Task) : Prop :=
  t.chain.exit = none → ∀ b, .preCommit b true ∈ t.chain.trace →
    b.id ≠ 0 ∧ (t.chain.aligner.Past b ∨ Behind t b)

section Once

variable {c : ControlMsg} {o : Outcome} {stage : BarrierStage} {w : ℕ}

/-- From its preparation to its end, the stretches of a barrier follow one another. -/
theorem behind_barrierStep {s s' : Chain} (hdrain : stage ≠ .drain) (hfinish : stage ≠ .finish)
    (hstep : Chain.barrierStep cfg s c o w stage = s') (hexit : s'.exit = none) :
    ∃ next, s'.todo.head? = some (.barrier c next) ∧ next ≠ .drain ∧ next ≠ .prepare := by
  cases stage with
  | drain => exact absurd rfl hdrain
  | finish => exact absurd rfl hfinish
  | _ =>
    simp only [Chain.barrierStep] at hstep
    repeat' split at hstep
    all_goals subst hstep
    all_goals first
      | refine ⟨.capture, rfl, ?_, ?_⟩ <;> simp
      | refine ⟨.report, rfl, ?_, ?_⟩ <;> simp
      | refine ⟨.submit, rfl, ?_, ?_⟩ <;> simp
      | refine ⟨.finish, rfl, ?_, ?_⟩ <;> simp
      | simp [Chain.fail, Chain.leave] at hexit

/-- What is over stays over: no step of the chain brings an identity back. -/
theorem past_of_moves {op : Option ChainOp} {k k' : Stock} (h : Chain.Moves op k k')
    (hb : b.id ≠ 0) (hpast : k.aligner.Past b) : k'.aligner.Past b := by
  cases h with
  | still | take | next | undefer => exact hpast
  | finish c | postpone c => exact hpast.call hb (.finishAlignment c.identity.id)
  | abort c => exact hpast.call hb (.abortAlignment c.identity)
  | drain => exact hpast.call hb .beginDrain

/-- The code of a barrier goes on, or ends with the identity retired. -/
theorem Behind.opStep
    {rest : List ChainOp} (haligned : Aligned cfg t c stage) (hdrain : stage ≠ .drain)
    (hstep : Chain.opStep cfg { t.chain with todo := rest } o w (.barrier c stage) =
      some t'.chain) (hexit : t'.chain.exit = none) :
    t'.chain.aligner.Past c.identity ∨ Behind t' c.identity := by
  have hs' := some.inj hstep
  by_cases hfinish : stage = .finish
  · subst hfinish
    have haligner : t'.chain.aligner = (t.chain.aligner.finishAlignment c.identity.id).1 := by
      rw [← hs', Chain.barrierStep]
      dsimp only
      split <;> rfl
    rw [haligner]
    exact .inl (BarrierAligner.past_finishAlignment haligned.active haligned.started)
  · obtain ⟨next, hhead, hnext⟩ := behind_barrierStep hdrain hfinish hs' hexit
    exact .inr ⟨c, next, hhead, rfl, hnext⟩

/-- Nothing but the trace changes where the chain begins its first transaction. -/
theorem PreparedOnce.start (h : PreparedOnce t) (hexit : t.chain.exit = none)
    (hstep : t'.chain = Chain.startStep cfg t.chain o) : PreparedOnce t' := by
  have hframe : t'.chain.todo = t.chain.todo ∧ t'.chain.aligner = t.chain.aligner ∧
      ∀ b, .preCommit b true ∈ t'.chain.trace → .preCommit b true ∈ t.chain.trace := by
    rw [hstep, Chain.startStep]
    split
    · exact ⟨rfl, rfl, fun _ hb => hb⟩
    · split
      all_goals
        refine ⟨rfl, rfl, fun b hb => (mem_append.mp hb).resolve_right fun hx => ?_⟩
        cases mem_singleton.mp hx
  obtain ⟨htodo, haligner, htrace⟩ := hframe
  intro _ b hb
  rw [haligner, Behind, htodo]
  exact h hexit b (htrace b hb)

theorem PreparedOnce.chain {a : Chain.Act} (h : PreparedOnce t) (hinv : t.chain.Inv cfg)
    (haligned : BarrierAligned cfg t) (hstep : t.chain.step cfg a = some t'.chain) :
    PreparedOnce t' := by
  have hmoves := hinv.moves hstep
  obtain ⟨l, htrace, hl⟩ := hinv.recorded_of_step hstep
  obtain ⟨hexit, ⟨o, -, -, hstart⟩ | hcode⟩ := Chain.step_cases hstep
  · exact h.start hexit hstart
  intro hexit' b hb
  -- the code of a barrier that is at its preparation, or past it, goes on
  have hgoes : ∀ c stage, t.chain.todo.head? = some (.barrier c stage) → stage ≠ .drain →
      c.identity.id ≠ 0 ∧ (t'.chain.aligner.Past c.identity ∨ Behind t' c.identity) := by
    intro c stage hhead hdrain
    have hal := haligned hexit c stage hhead
    refine ⟨hal.started, ?_⟩
    rcases hcode with ⟨o, w, op, rest, -, -, htodo, hop⟩ | ⟨-, htodo, -⟩
    · rw [htodo] at hhead
      cases some.inj hhead
      exact Behind.opStep hal hdrain hop hexit'
    · rw [htodo] at hhead
      cases hhead
  rw [htrace] at hb
  rcases mem_append.mp hb with hb | hb
  · obtain ⟨hid, hpast | ⟨c, stage, hhead, rfl, hdrain, -⟩⟩ := h hexit b hb
    · exact ⟨hid, .inl (past_of_moves hmoves hid hpast)⟩
    · exact hgoes c stage hhead hdrain
  · rcases hl _ hb with ⟨ok, hx⟩ | hx | ⟨obs, txn, heff, hx⟩
    · cases hx
    · cases hx
    · generalize hhead : t.chain.todo.head? = head at heff
      cases heff with
      | preCommitted c =>
        cases mem_singleton.mp hx
        exact hgoes c .prepare hhead nofun
      | processed =>
        rcases mem_cons.mp hx with hx | hx
        · cases hx
        · cases eq_of_mem_replicate hx
      | _ => simp at hx

/-- The aligner ignores the reports of a barrier that is over. -/
theorem PreparedOnce.reads (h : PreparedOnce t) (hreads : Reads t i t') : PreparedOnce t' := by
  have hframe : t'.chain.exit = t.chain.exit ∧ t'.chain.trace = t.chain.trace ∧
      t'.chain.todo = t.chain.todo := by
    cases hreads <;> exact ⟨rfl, rfl, rfl⟩
  obtain ⟨hexit, htrace, htodo⟩ := hframe
  intro hexit' b hb
  rw [htrace] at hb
  obtain ⟨hid, hpast⟩ := h (hexit ▸ hexit') b hb
  refine ⟨hid, hpast.imp (fun hpast => ?_) fun hbehind => ?_⟩
  · cases hreads with
    | mark c => exact hpast.call hid (.onBarrier i c)
    | buffer m rest e ba hpc hinbox he hba =>
      obtain ⟨-, -, -, rfl⟩ := BarrierAligner.bufferAlignedEvent_buffered hba
      exact { hpast with }
    | hold | send | barrier | notify | finish => exact hpast
  · rw [Behind, htodo]
    exact hbehind

theorem preparedOnce {ok : Task → Act → Prop} {inboxes : ℕ → List InputMsg}
    (h : Reaches (step cfg) ok (initial cfg maxBufferSize inboxes) t) : PreparedOnce t := by
  refine h.invariant (P := PreparedOnce) nofun ?_
  intro t a t' hreach honce _ hstep
  rcases step_cases hstep with ⟨b, -, -, hchain⟩ | ⟨i, -, hreads⟩ | ⟨events, messages, hsends⟩
  · have hinv := chain_inv hreach (Chain.exit_eq_none_of_step hchain)
    exact honce.chain hinv (barrierAligned hreach) hchain
  · exact honce.reads hreads
  · intro hexit b hb
    rw [hsends.chain] at hexit hb ⊢
    rw [Behind, hsends.chain]
    exact honce hexit b hb

/-- **No checkpoint is prepared twice.** -/
theorem preCommit_notMem_of_prepare (hsound : Sound cfg maxBufferSize t)
    (hexit : t.chain.exit = none) (hhead : t.chain.todo.head? = some (.barrier c .prepare)) :
    .preCommit c.identity true ∉ t.chain.trace := by
  obtain ⟨inboxes, hreach⟩ := hsound
  intro hb
  obtain ⟨-, hpast | ⟨d, stage, hhead', -, -, hstage⟩⟩ := preparedOnce hreach hexit _ hb
  · exact hpast.inactive (barrierAligned hreach hexit c .prepare hhead).active
  · rw [hhead] at hhead'
    cases hhead'
    exact hstage rfl

end Once

end Task

end Wire.Engine
