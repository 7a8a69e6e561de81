import Wire.Engine.OperatorChain

/-!
# What holds at each point of the operator chain

The chain's goroutine is annotated in Floyd's manner: `Chain.At` attaches to each stretch
of code what holds whenever that stretch comes next, and `Chain.Inv` adds what holds at all
of them.  Nothing here depends on the surroundings of the chain: readers and decisions may
change the channels and the aligner at will between any two steps, and the invariant only
speaks about what the goroutine owns.

## What is proved

`Inv.step` shows that every step which leaves the chain running keeps the invariant, and
`inv_of_reachable` that it therefore holds in every reachable state that is still running.

The proof never unfolds two steps at once.  While a stretch runs, its own entry is off the
stack, and `Base` is what holds then; each branch ends in one of three ways --- it returns
to the stretch below (`Base.return`), goes on with another one (`Base.push`), or ends the
goroutine (`Settled.leave`) --- and each way has its rule.
-/

namespace Wire.Engine

open Option List

/-- The stretches that can run inside another one: those of an end of partition or an
abort.  All others belong to a message that was taken from the control channel. -/
def ChainOp.nestable : ChainOp → Bool
  | .handle c =>
    c.type = .endOfPartition ∨ c.type = .abortTransaction ∨ c.type = .abortCheckpoint
  | .abortSink _ | .abortCheckpoint _ | .abortDrain _ _ | .abortAlignment _ => true
  | .endOfPartition | .chainEnd | .process | .epilogue => true
  | .barrier _ _ | .commit _ _ | .beginTransaction | .drainInputs | .beginDrain | .shutdown =>
    false

/-- The stretches that wait below another one: the remaining deferred ends of partition,
or the branch of an abort whose nested abort comes first. -/
def ChainOp.postponed : ChainOp → Bool
  | .handle c => c.type = .endOfPartition
  | .abortCheckpoint _ => true
  | _ => false

variable {op : ChainOp} {rest : List ChainOp}

theorem ChainOp.nestable_of_postponed (h : op.postponed = true) : op.nestable = true := by
  cases op with
  | handle c =>
    simp only [ChainOp.postponed, decide_eq_true_eq] at h
    simp [ChainOp.nestable, h]
  | abortCheckpoint c => rfl
  | _ => simp [ChainOp.postponed] at h

namespace Chain

/-- What holds when the stretch `op` comes next. -/
def At (cfg : ChainConfig) (s : Chain) : ChainOp → Prop
  | .barrier _ .drain | .barrier _ .prepare =>
    s.transactionPrepared = false ∧ s.deferredEvents = []
  | .barrier c _ =>
    (cfg.txnSink = true → s.transactionPrepared = true ∧ s.prepared = c.identity) ∧
      s.deferredEvents = []
  | .commit c _ =>
    cfg.txnSink = true ∧ s.transactionPrepared = true ∧ s.prepared = c.identity ∧
      s.lastCommitted < c.identity.id ∧ s.transactionDecisionPending = true
  | .beginTransaction =>
    cfg.txnSink = true ∧ s.transactionPrepared = false ∧ s.transactionDecisionPending = false
  | .endOfPartition | .chainEnd | .drainInputs | .beginDrain => s.transactionPrepared = false
  | .abortSink _ => cfg.txnSink = true
  | .handle _ | .abortCheckpoint _ | .abortDrain _ _ | .abortAlignment _ => True
  | .shutdown | .process | .epilogue => True

/-- Events are deferred only while a transaction is prepared, or on the way from its
commit to the epilogue that releases them. -/
def Defers (s : Chain) (next : Option ChainOp) : Prop :=
  s.deferredEvents = [] ∨ s.transactionPrepared = true ∨
    next = some .beginTransaction ∨ next = some .epilogue

/-- What holds while a stretch runs, its own entry being off the stack. -/
structure Base (cfg : ChainConfig) (s : Chain) : Prop where
  alive : s.transactionAborted = false
  postponed : ∀ op ∈ s.todo, op.postponed = true
  pending : s.pending = []
  deferredEOF : ∀ c ∈ s.deferredEOF, c.type = .endOfPartition
  /-- A chain without a transactional sink defers nothing. -/
  plain : cfg.txnSink = false → s.transactionPrepared = false ∧
    s.transactionDecisionPending = false ∧ s.deferredEvents = [] ∧ s.deferredEOF = []

/-- **The invariant of a running chain.** -/
structure Inv (cfg : ChainConfig) (s : Chain) : Prop where
  alive : s.transactionAborted = false
  nested : ∀ op rest, s.todo = op :: rest → rest = [] ∨ op.nestable = true
  postponed : ∀ op ∈ s.todo.tail, op.postponed = true
  point : ∀ op, s.todo.head? = some op → s.At cfg op
  pending : s.pending = [] ∨ s.todo.head? = some .process
  deferred : s.Defers s.todo.head?
  deferredEOF : ∀ c ∈ s.deferredEOF, c.type = .endOfPartition
  plain : cfg.txnSink = false → s.transactionPrepared = false ∧
    s.transactionDecisionPending = false ∧ s.deferredEvents = [] ∧ s.deferredEOF = []

/-- If the chain is still running, its invariant holds. -/
def Settled (cfg : ChainConfig) (s : Chain) : Prop :=
  s.exit = none → Inv cfg s

variable {cfg : ChainConfig} {s s' : Chain} {a : Act} {c : ControlMsg} {o : Outcome} {w : ℕ}

/-! ## The three ways a stretch ends -/

theorem Settled.leave (reason : ExitReason) : Settled cfg (s.leave cfg reason) := by
  intro h
  simp [Chain.leave] at h

theorem Settled.fail (e : ChainError) : Settled cfg (s.fail cfg e) :=
  .leave _

theorem Inv.settled (h : Inv cfg s) : Settled cfg s :=
  fun _ => h

/-- A stretch returns to the one below it. -/
theorem Base.return (h : Base cfg s)
    (hd : s.deferredEvents = [] ∨ s.transactionPrepared = true) : Inv cfg s := by
  refine ⟨h.alive, ?_, fun op hop => h.postponed op (mem_of_mem_tail hop), ?_,
    Or.inl h.pending, ?_, h.deferredEOF, h.plain⟩
  · intro op rest htodo
    exact Or.inr (ChainOp.nestable_of_postponed (h.postponed op (by simp [htodo])))
  · intro op hop
    have hpost := h.postponed op (mem_of_head? hop)
    cases op <;> simp_all [ChainOp.postponed, At]
  · rcases hd with hd | hd
    · exact Or.inl hd
    · exact Or.inr (Or.inl hd)

/-- A stretch goes on with another one. -/
theorem Base.push (h : Base cfg s) (op : ChainOp) (hn : s.todo = [] ∨ op.nestable = true)
    (hat : s.At cfg op) (hd : s.Defers (some op)) : Inv cfg (s.push op) := by
  refine ⟨h.alive, ?_, h.postponed, ?_, .inl h.pending, hd, h.deferredEOF, h.plain⟩
  · rintro op' rest htodo
    obtain ⟨rfl, rfl⟩ := cons.inj htodo
    exact hn
  · intro op' hop'
    have : op = op' := some.inj hop'
    subst this
    cases op <;> exact hat

/-- A stretch hands events to the loop that processes them. -/
theorem Base.process (h : Base cfg s) (released : List Event) (hd : s.deferredEvents = [] ∨
    s.transactionPrepared = true) : Inv cfg ({ s with pending := released }.push .process) := by
  refine ⟨h.alive, fun op rest htodo => .inr ?_, h.postponed, ?_, .inr rfl, ?_,
    h.deferredEOF, h.plain⟩
  · rw [← (cons.inj htodo).1]
    rfl
  · intro op hop
    cases hop
    trivial
  · rcases hd with hd | hd
    · exact .inl hd
    · exact .inr (.inl hd)

/-- Processing an event only marks the transaction dirty, records, and may end the
chain. -/
theorem processEvent_eq (cfg : ChainConfig) (s : Chain) (e : Event) (o : Outcome) (w : ℕ) :
    ∃ dirty trace exit, processEvent cfg s e o w =
      { s with transactionDirty := dirty, trace := trace, exit := exit } := by
  unfold processEvent
  split
  · exact ⟨_, _, s.exit, rfl⟩
  · dsimp only
    split
    · exact ⟨_, _, s.exit, rfl⟩
    · exact ⟨_, _, _, rfl⟩

@[simp] theorem processEvent_todo (cfg : ChainConfig) (s : Chain) (e : Event) (o : Outcome)
    (w : ℕ) :
    (processEvent cfg s e o w).todo = s.todo := by
  obtain ⟨_, _, _, heq⟩ := processEvent_eq cfg s e o w
  rw [heq]

theorem Inv.processEvent (h : Inv cfg s) (e : Event) : Settled cfg (processEvent cfg s e o w) := by
  obtain ⟨dirty, trace, exit, heq⟩ := processEvent_eq cfg s e o w
  rw [heq]
  intro _
  refine { h with point := ?_ }
  intro op hop
  have hat := h.point op hop
  cases op <;> exact hat

/-- A drain of the event channel, wherever it stands. -/
theorem Base.drainInputCh (h : Base cfg s) {again done : ChainOp}
    (hn : s.todo = [] ∨ again.nestable = true ∧ done.nestable = true)
    (hagain : s.At cfg again) (hdone : s.At cfg done) (hd : s.deferredEvents = []) :
    Settled cfg (drainInputCh cfg s again done o w) := by
  unfold Chain.drainInputCh
  split
  · exact (h.push done (hn.imp_right And.right) hdone (Or.inl hd)).settled
  · next e rest _ =>
    have hbase : Base cfg { s with inputCh := rest } :=
      { h with }
    refine (hbase.push again (hn.imp_right And.left) ?_ (Or.inl hd)).processEvent e
    cases again <;> exact hagain

/-! ## Handling a control message -/

/-- The end of the chain has been deferred. -/
def endPending (s : Chain) : Bool :=
  s.checkpoint.any ChainCheckpointState.endPending

theorem endPending_of_endReady {s : Chain} (h : s.endReady = true) : s.endPending = true := by
  cases hcp : s.checkpoint with
  | none => simp [endReady, hcp] at h
  | some cp =>
    simp only [endReady, hcp, any_some, Bool.and_eq_true] at h
    simp [endPending, hcp, h.1]

@[simp] theorem dropPendingIf_endPending (s : Chain) (b : CheckpointIdentity) (resolved : Bool) :
    (s.dropPendingIf b resolved).endPending = s.endPending := by
  cases resolved
  · rfl
  · cases hcp : s.checkpoint <;> simp [dropPendingIf, dropPending, endPending, hcp]

/-- **What handling a message comes to.**  The stretch returns or leaves the chain, defers the
message, or goes on with other code. -/
inductive Handled (cfg : ChainConfig) (c : ControlMsg) (s : Chain) : Chain → Prop
  | returned (hc : c.type ≠ .endOfPartition) : Handled cfg c s s
  | left (draining : Bool) (reason : ExitReason)
      (hreason : ∀ m n, reason ≠ .failed (.arrivedWhilePrepared m n)) :
      Handled cfg c s (leave cfg { s with draining } reason)
  | overrun (hc : c.type = .barrierReceived) (hp : s.transactionPrepared = true)
      (hepoch : c.identity.epoch = s.preparedEpoch) :
      Handled cfg c s (s.fail cfg (.arrivedWhilePrepared c.identity.id s.preparedCheckpoint))
  | deferred (hc : c.type = .endOfPartition) (hp : s.transactionPrepared = true) :
      Handled cfg c s { s with deferredEOF := s.deferredEOF ++ [c] }
  | aborting (hc : c.type = .abortCheckpoint) (hid : s.prepared = c.identity) :
      Handled cfg c s ((s.push (.abortCheckpoint c)).push
        (.handle { type := .abortTransaction, identity := c.identity }))
  | barrier (hc : c.type = .barrierReceived) (hp : s.transactionPrepared = false)
      (hall : s.aligner.allAligned c.identity.id = true)
      (hepoch : s.aligner.activeEpoch = c.identity.epoch) :
      Handled cfg c s (s.push (.barrier c .drain))
  | committing (hc : c.type = .commitCheckpoint) (htxn : cfg.txnSink = true)
      (hp : s.transactionPrepared = true) (hid : s.prepared = c.identity)
      (hnew : s.lastCommitted < c.identity.id) :
      Handled cfg c s ({ s with transactionDecisionPending := true }.push (.commit c 0))
  | counted (op : ChainOp) (hc : c.type = .endOfPartition) (hp : s.transactionPrepared = false)
      (hop : op = .epilogue ∨ op = .endOfPartition ∧ cfg.numInputs ≤ s.eofCount + 1) :
      Handled cfg c s ({ s with eofCount := s.eofCount + 1 }.push op)
  | draining (hc : c.type = .drainInputs) (hp : s.transactionPrepared = false) :
      Handled cfg c s ({ s with draining := true }.push .drainInputs)
  | nested (hc : c.type = .abortTransaction) (hp : s.transactionPrepared = false) :
      Handled cfg c s (s.push (.handle { type := .abortCheckpoint, identity := c.identity }))
  | abortSink (hc : c.type = .abortTransaction) (htxn : cfg.txnSink = true) :
      Handled cfg c s (s.push (.abortSink c))
  | abortCheckpoint (hc : c.type = .abortCheckpoint) (hp : s.transactionPrepared = false) :
      Handled cfg c s (s.push (.abortCheckpoint c))
  | shutdown (hc : c.type = .shutdown) : Handled cfg c s (s.push .shutdown)
  | epilogue (hc : c.type ≠ .endOfPartition) : Handled cfg c s (s.push .epilogue)

section

variable (hprepared : s.transactionPrepared = true → isFenced c.type = true →
  c.identity.epoch = s.preparedEpoch)
include hprepared

theorem handled_dispatchControl (hopen : c.type = .barrierReceived ∨ c.type = .endOfPartition ∨
      c.type = .abortCheckpoint → s.transactionPrepared = false) :
    Handled cfg c s (dispatchControl cfg s c) := by
  unfold Chain.dispatchControl
  split
  case h_1 hc =>
    split
    · exact .returned (by simp [hc])
    · next hal =>
      simp only [not_or, Bool.not_eq_false, not_not] at hal
      exact .barrier hc (hopen (.inl hc)) hal.1 hal.2
  case h_2 hc =>
    split
    · exact .epilogue (by simp [hc])
    · next htxn =>
      split
      · exact .epilogue (by simp [hc])
      · next hle =>
        split
        · exact .left s.draining _ nofun
        · next hmatch =>
          -- the decision for the prepared transaction: identity and epoch agree
          simp only [not_or, Bool.not_eq_false, ne_eq, not_not] at hmatch htxn
          have hepoch := hprepared hmatch.1 (by simp [isFenced, hc])
          refine .committing hc htxn hmatch.1 ?_ (not_le.mp hle)
          simp [Chain.prepared, ← hmatch.2, ← hepoch]
  case h_3 hc =>
    split
    · next hopen' => exact .nested hc hopen'.2
    · split
      · exact .epilogue (by simp [hc])
      · split
        · exact .epilogue (by simp [hc])
        · next htxn =>
          split
          · exact .epilogue (by simp [hc])
          · split
            · exact .left s.draining _ nofun
            · exact .abortSink hc (by simpa using htxn)
  case h_4 hc => exact .abortCheckpoint hc (hopen (.inr (.inr hc)))
  case h_5 hc =>
    have hp := hopen (.inr (.inl hc))
    dsimp only
    split
    · next hlast => exact .counted _ hc hp (.inr ⟨rfl, hlast⟩)
    · exact .counted _ hc hp (.inl rfl)
  case h_6 hc =>
    dsimp only
    split
    · exact .left true _ nofun
    · next hp => exact .draining hc (by simpa using hp)
  case h_7 hc => exact .shutdown hc

theorem handled_handlePrepared (hp : s.transactionPrepared = true) :
    Handled cfg c s (handlePrepared cfg s c) := by
  unfold Chain.handlePrepared
  split
  case h_1 hc =>
    split
    · exact .left s.draining _ nofun
    · exact .deferred hc hp
  case h_2 hc =>
    split
    · exact .returned (by simp [hc])
    · exact .overrun hc hp (hprepared hp (by simp [isFenced, hc]))
  case h_3 hc =>
    split
    · exact .returned (by simp [hc])
    · next hid =>
      have hepoch := hprepared hp (by simp [isFenced, hc])
      refine .aborting hc ?_
      simp [Chain.prepared, ← not_ne_iff.mp hid, ← hepoch]
  case h_4 heof hbarrier habort =>
    refine handled_dispatchControl hprepared ?_
    rintro (hc | hc | hc)
    · exact absurd hc hbarrier
    · exact absurd hc heof
    · exact absurd hc habort

end

theorem handled (cfg : ChainConfig) (s : Chain) (c : ControlMsg) :
    ∃ cp, ({ s with checkpoint := cp } : Chain).endPending = s.endPending ∧
      Handled cfg c { s with checkpoint := cp } (handleControl cfg s c) := by
  unfold Chain.handleControl
  split
  · exact ⟨s.checkpoint, rfl, .left s.draining _ nofun⟩
  split
  · next hfenced =>
    exact ⟨s.checkpoint, rfl, .returned fun hc => by simp [hc, isFenced] at hfenced⟩
  next hfence =>
  have hend := s.dropPendingIf_endPending c.identity (c.type = .abortCheckpoint)
  obtain ⟨cp, hcp⟩ := s.dropPendingIf_eq c.identity (c.type = .abortCheckpoint)
  have hprepared : s.transactionPrepared = true → isFenced c.type = true →
      c.identity.epoch = s.preparedEpoch := fun hp hf => by
    by_contra hne
    exact hfence ⟨hp, hne, hf⟩
  simp only [hcp] at hend ⊢
  refine ⟨cp, hend, ?_⟩
  split
  · next hbarrier => exact .returned (by simp [hbarrier.2])
  split
  · next hp => exact handled_handlePrepared hprepared hp
  · next hp => exact handled_dispatchControl hprepared fun _ => by simpa using hp

/-- The situation in which a message is dispatched: what is below it on the stack fits,
and while a transaction is prepared only messages of its epoch come this far. -/
structure Dispatched (cfg : ChainConfig) (s : Chain) (c : ControlMsg) : Prop extends
    Base cfg s where
  nested : s.todo = [] ∨ (ChainOp.handle c).nestable = true
  deferred : s.deferredEvents = [] ∨ s.transactionPrepared = true
  epoch : s.transactionPrepared = true → isFenced c.type = true →
    c.identity.epoch = s.preparedEpoch

section

variable (h : Dispatched cfg s c)
include h

theorem Dispatched.defers (next : Option ChainOp) : s.Defers next :=
  h.deferred.imp_right .inl

/-- Off the stack, a message that cannot be nested was taken from the control channel. -/
theorem Dispatched.todo_eq_nil (hc : (ChainOp.handle c).nestable = false) : s.todo = [] := by
  rcases h.nested with hnil | hnest
  · exact hnil
  · simp [hc] at hnest

theorem Dispatched.settled (hs : Handled cfg c s s') : Settled cfg s' := by
  have hempty : s.transactionPrepared = false → s.deferredEvents = [] := fun hp =>
    h.deferred.resolve_right (by simp [hp])
  cases hs with
  | returned => exact (h.return h.deferred).settled
  | left | overrun => exact .leave _
  | deferred hc hp =>
    refine Inv.settled (Base.return ⟨h.alive, h.postponed, h.pending, ?_, fun hf => ?_⟩ h.deferred)
    · intro d hd
      rcases mem_append.mp hd with hd | hd
      · exact h.deferredEOF d hd
      · rw [mem_singleton.mp hd]
        exact hc
    · exact nomatch hp.symm.trans (h.plain hf).1
  | aborting =>
    have hbase : Base cfg (s.push (.abortCheckpoint c)) := by
      refine { h with postponed := ?_ }
      intro op hop
      rcases mem_cons.mp hop with rfl | hop
      · rfl
      · exact h.postponed op hop
    exact (hbase.push (.handle { type := .abortTransaction, identity := c.identity })
      (.inr rfl) trivial (h.defers _)).settled
  | barrier hc hp =>
    have htodo := h.todo_eq_nil (by simp [ChainOp.nestable, hc])
    exact (h.push (.barrier c .drain) (.inl htodo) ⟨hp, hempty hp⟩ (h.defers _)).settled
  | committing hc htxn hp hid hnew =>
    have htodo := h.todo_eq_nil (by simp [ChainOp.nestable, hc])
    have hbase : Base cfg { s with transactionDecisionPending := true } :=
      { h with plain := fun hf => by simp [htxn] at hf }
    exact (hbase.push (.commit c 0) (.inl htodo) ⟨htxn, hp, hid, hnew, rfl⟩ (h.defers _)).settled
  | counted op hc hp hop =>
    have hbase : Base cfg { s with eofCount := s.eofCount + 1 } :=
      { h with }
    rcases hop with rfl | ⟨rfl, -⟩
    · exact (hbase.push .epilogue (.inr rfl) trivial (h.defers _)).settled
    · exact (hbase.push .endOfPartition (.inr rfl) hp (h.defers _)).settled
  | draining hc hp =>
    have hbase : Base cfg { s with draining := true } :=
      { h with }
    have htodo := h.todo_eq_nil (by simp [ChainOp.nestable, hc])
    exact (hbase.push .drainInputs (.inl htodo) hp (h.defers _)).settled
  | abortSink hc htxn => exact (h.push (.abortSink c) (.inr rfl) htxn (h.defers _)).settled
  | shutdown hc =>
    have htodo := h.todo_eq_nil (by simp [ChainOp.nestable, hc])
    exact (h.push .shutdown (.inl htodo) trivial (h.defers _)).settled
  | nested | abortCheckpoint | epilogue =>
    exact Inv.settled (h.push _ (.inr rfl) trivial (h.defers _))

end

theorem Base.handleControl (h : Base cfg s) (hn : s.todo = [] ∨ (ChainOp.handle c).nestable = true)
    (hd : s.deferredEvents = [] ∨ s.transactionPrepared = true) :
    Settled cfg (handleControl cfg s c) := by
  by_cases hfence : s.transactionPrepared ∧ c.identity.epoch ≠ s.preparedEpoch ∧ isFenced c.type
  · unfold Chain.handleControl
    rw [if_pos hfence]
    split
    · exact .fail _
    · exact (h.return hd).settled
  · obtain ⟨cp, -, hhandled⟩ := handled cfg s c
    have hdispatched : Dispatched cfg { s with checkpoint := cp } c := by
      refine ⟨{ h with }, hn, hd, fun hp hf => ?_⟩
      by_contra hne
      exact hfence ⟨hp, hne, hf⟩
    exact hdispatched.settled hhandled

/-! ## The stretches behind the switch -/

theorem Base.barrierStep {stage : BarrierStage} (h : Base cfg s) (htodo : s.todo = [])
    (hat : s.At cfg (.barrier c stage)) : Settled cfg (barrierStep cfg s c o w stage) := by
  cases stage with unfold Chain.barrierStep
  | drain => exact h.drainInputCh (Or.inl htodo) hat hat hat.2
  | prepare =>
    dsimp only
    split
    · next htxn =>
      exact (h.push (.barrier c .capture) (Or.inl htodo) ⟨fun hf => by simp [htxn] at hf, hat.2⟩
        (Or.inl hat.2)).settled
    · next htxn =>
      split
      · exact Settled.fail _
      · split
        · refine Inv.settled (Base.push ?_ (.barrier c .capture) (Or.inl htodo)
            ⟨fun _ => ⟨rfl, rfl⟩, hat.2⟩
            (Or.inl hat.2))
          exact { h with plain := fun hf => absurd hf htxn }
        · exact Settled.fail _
  | capture =>
    dsimp only
    split
    · refine Inv.settled (Base.push ?_ (.barrier c .report) (Or.inl htodo) hat (Or.inl hat.2))
      exact { h with }
    · exact Settled.fail _
  | report =>
    dsimp only
    split
    · next htxn =>
      split
      · split
        · exact Settled.fail _
        · refine Inv.settled (Base.push ?_ (.barrier c .submit) (Or.inl htodo) hat (Or.inl hat.2))
          exact { h with plain := fun hf => by simp [htxn] at hf }
      · exact (h.push (.barrier c .submit) (Or.inl htodo) hat (Or.inl hat.2)).settled
    · split
      · refine Inv.settled (Base.push ?_ (.barrier c .submit) (Or.inl htodo) hat (Or.inl hat.2))
        exact { h with }
      · exact Settled.fail _
  | submit =>
    dsimp only
    have hplain : cfg.txnSink = false → s.transactionPrepared = false ∧
        s.transactionPrepared = false ∧ s.deferredEvents = [] ∧ s.deferredEOF = [] := fun hf =>
      ⟨(h.plain hf).1, (h.plain hf).1, (h.plain hf).2.2⟩
    split
    · exact (h.push (.barrier c .finish) (Or.inl htodo) hat (Or.inl hat.2)).settled
    · split
      · refine Inv.settled (Base.push ?_ (.barrier c .finish) (Or.inl htodo) hat (Or.inl hat.2))
        exact { h with plain := hplain }
      · split
        · refine Inv.settled (Base.push ?_ (.barrier c .finish) (Or.inl htodo) hat (Or.inl hat.2))
          exact { h with plain := hplain }
        · exact Settled.fail _
  | finish =>
    dsimp only
    split
    · next htxn =>
      refine Inv.settled (Base.push ?_ .epilogue (Or.inr rfl) trivial
        (Or.inr (Or.inr (Or.inr rfl))))
      exact { h with plain := fun hf => by simp [htxn] at hf }
    · have hbase : Base cfg { s with aligner := (s.aligner.finishAlignment c.identity.id).1 } :=
        { h with }
      exact (hbase.process _ (Or.inl hat.2)).settled

theorem Base.commitStep {attempt : ℕ} (h : Base cfg s) (htodo : s.todo = [])
    (hat : s.At cfg (.commit c attempt)) : Settled cfg (commitStep cfg s c attempt o) := by
  unfold Chain.commitStep
  split
  · exact .fail _
  · refine Inv.settled (Base.push ?_ .beginTransaction (Or.inl htodo) ⟨hat.1, rfl, rfl⟩
      (.inr (.inr (.inl rfl))))
    exact { h with plain := fun hf => by simp [hat.1] at hf }
  all_goals
    split
    · exact .fail _
    · refine Inv.settled (Base.push ?_ (.commit c (attempt + 1)) (Or.inl htodo) hat
        (.inr (.inl hat.2.1)))
      exact { h with }

theorem Base.abortDrainStep {remaining : ℕ} (h : Base cfg s)
    (hd : s.deferredEvents = [] ∨ s.transactionPrepared = true)
    (hstep : abortDrainStep cfg s c o w remaining = some s') : Settled cfg s' := by
  have hdefers : ∀ next, s.Defers next := fun _ => hd.imp_right .inl
  cases remaining with
  | zero =>
    cases hstep
    exact (h.push (.abortAlignment c) (.inr rfl) trivial (hdefers _)).settled
  | succ remaining =>
    simp only [Chain.abortDrainStep] at hstep
    split at hstep
    · cases hstep
      exact .fail _
    · split at hstep
      · simp at hstep
      · next e rest _ =>
        cases hstep
        have hbase : Base cfg { s with inputCh := rest } :=
          { h with }
        exact (hbase.push (.abortDrain c remaining) (.inr rfl) trivial (hdefers _)).processEvent e

theorem Base.epilogueStep (h : Base cfg s) : Settled cfg (epilogueStep s) := by
  unfold Chain.epilogueStep
  split
  · next hp => exact (h.return (.inr hp)).settled
  · split
    · have hbase : Base cfg { s with deferredEvents := [] } :=
        { h with plain := fun hf => ⟨(h.plain hf).1, (h.plain hf).2.1, rfl, (h.plain hf).2.2.2⟩ }
      exact (hbase.process s.deferredEvents (.inl rfl)).settled
    · next hempty =>
      refine Inv.settled (Base.return ⟨h.alive, ?_, h.pending, by simp, fun hf =>
        ⟨(h.plain hf).1, (h.plain hf).2.1, (h.plain hf).2.2.1, rfl⟩⟩
        (.inl (not_not.mp hempty)))
      intro op hop
      rcases mem_append.mp hop with hop | hop
      · obtain ⟨d, hd, rfl⟩ := mem_map.mp hop
        simpa [ChainOp.postponed] using h.deferredEOF d hd
      · exact h.postponed op hop

theorem Settled.emitChainEnd : Settled cfg (emitChainEnd cfg s o) := by
  unfold Chain.emitChainEnd
  split
  · exact .fail _
  · split
    · exact .leave _
    · exact .fail _

section

variable (h : Inv cfg s) (htodo : s.todo = op :: rest)
include h htodo

/-- What the invariant gives once the topmost stretch is taken off. -/
theorem Inv.base (hop : op ≠ .process) : Base cfg { s with todo := rest } := by
  refine ⟨h.alive, ?_, ?_, h.deferredEOF, h.plain⟩
  · intro op' hop'
    exact h.postponed op' (by simpa [htodo] using hop')
  · rcases h.pending with hpending | hhead
    · exact hpending
    · rw [htodo] at hhead
      exact absurd (some.inj hhead) hop

theorem Inv.deferred_of
    (hbegin : op ≠ .beginTransaction) (hepilogue : op ≠ .epilogue) :
    s.deferredEvents = [] ∨ s.transactionPrepared = true := by
  have hd := h.deferred
  rw [htodo] at hd
  rcases hd with hd | hd | hd | hd
  · exact .inl hd
  · exact .inr hd
  · exact absurd (some.inj hd) hbegin
  · exact absurd (some.inj hd) hepilogue

/-- Outside a prepared transaction nothing is deferred at most points. -/
theorem Inv.deferredEvents_eq_nil
    (hbegin : op ≠ .beginTransaction) (hepilogue : op ≠ .epilogue)
    (hp : s.transactionPrepared = false) : s.deferredEvents = [] :=
  (h.deferred_of htodo hbegin hepilogue).resolve_right (by simp [hp])

/-- **Every stretch keeps the invariant.** -/
theorem Inv.opStep
    (hstep : opStep cfg { s with todo := rest } o w op = some s') : Settled cfg s' := by
  have hn : rest = [] ∨ op.nestable = true := h.nested op rest htodo
  have hat : s.At cfg op := h.point op (by simp [htodo])
  have hbase := h.base htodo
  have hd := h.deferred_of htodo
  cases op with try cases hstep
  | handle c =>
    exact (hbase nofun).handleControl hn (hd nofun nofun)
  | barrier c stage =>
    exact (hbase nofun).barrierStep (hn.resolve_right nofun) (by cases stage <;> exact hat)
  | commit c attempt =>
    exact (hbase nofun).commitStep (hn.resolve_right nofun) hat
  | beginTransaction =>
    simp only [Chain.opStep] at hstep
    split at hstep <;> cases hstep
    · refine Inv.settled (Base.push ?_ .epilogue (.inr rfl) trivial (.inr (.inr (.inr rfl))))
      exact { hbase nofun with }
    · exact .fail _
  | abortSink c =>
    unfold Chain.abortSinkStep
    split <;> exact .fail _
  | abortCheckpoint c =>
    have hdrop : Base cfg ({ s with todo := rest }.dropPending c.identity) :=
      { hbase nofun with }
    exact (hdrop.push (.abortDrain c _) (.inr rfl) trivial
      ((hd nofun nofun).imp_right .inl)).settled
  | abortDrain c remaining => exact (hbase nofun).abortDrainStep (hd nofun nofun) hstep
  | abortAlignment c =>
    have haligner : Base cfg { s with
        todo := rest, aligner := (s.aligner.abortAlignment c.identity).1 } :=
      { hbase nofun with }
    exact (haligner.process _ (hd nofun nofun)).settled
  | endOfPartition =>
    exact (hbase nofun).drainInputCh (.inr ⟨rfl, rfl⟩) hat hat
      (h.deferredEvents_eq_nil htodo nofun nofun hat)
  | chainEnd =>
    unfold Chain.chainEndStep
    split
    · exact .emitChainEnd
    · split
      · exact .emitChainEnd
      · exact Inv.settled (Base.return { hbase nofun with } (hd nofun nofun))
  | drainInputs =>
    exact (hbase nofun).drainInputCh (.inl (hn.resolve_right nofun)) hat hat
      (h.deferredEvents_eq_nil htodo nofun nofun hat)
  | beginDrain =>
    have haligner : Base cfg { s with todo := rest, aligner := s.aligner.beginDrain.1 } :=
      { hbase nofun with }
    exact (haligner.process _ (hd nofun nofun)).settled
  | shutdown =>
    simp only [Chain.opStep] at hstep
    split at hstep
    · split at hstep <;> cases hstep
      · exact .leave _
      · next e ch _ =>
        have hch : Base cfg { s with todo := rest, inputCh := ch } := { hbase nofun with }
        exact (hch.push .shutdown (.inl (hn.resolve_right nofun)) trivial
          ((hd nofun nofun).imp_right .inl)).processEvent e
    · cases hstep
      exact .leave _
  | process =>
    have hpost : ∀ op ∈ rest, op.postponed = true := by simpa [htodo] using h.postponed
    simp only [Chain.opStep] at hstep
    split at hstep <;> cases hstep
    · next hempty =>
      have hdone : Base cfg { s with todo := rest } :=
        ⟨h.alive, hpost, hempty, h.deferredEOF, h.plain⟩
      exact (hdone.push .epilogue (.inr rfl) trivial ((hd nofun nofun).imp_right .inl)).settled
    · next e es _ =>
      have hes : Base cfg { s with todo := rest, pending := [] } :=
        ⟨h.alive, hpost, rfl, h.deferredEOF, h.plain⟩
      exact (hes.process es (hd nofun nofun)).processEvent e
  | epilogue =>
    exact (hbase nofun).epilogueStep

end

/-! ## The main loop -/

section

variable (h : Inv cfg s) (htodo : s.todo = [])
include h htodo

/-- With nothing on the stack, the invariant is unaffected by everything the main loop
changes besides taking a message. -/
theorem Inv.loop (checkpoint : Option ChainCheckpointState) (ch : List Event) (phase : Phase) :
    Inv cfg { s with checkpoint := checkpoint, inputCh := ch, phase := phase } := by
  refine { h with point := ?_ }
  intro op hop
  simp [htodo] at hop

theorem Inv.deferred_of_idle : s.deferredEvents = [] ∨ s.transactionPrepared = true := by
  have hd := h.deferred
  simp only [htodo, head?_nil] at hd
  rcases hd with hd | hd | hd | hd
  · exact .inl hd
  · exact .inr hd
  · simp at hd
  · simp at hd

theorem Inv.receive (c : ControlMsg) (rest : List ControlMsg) : Inv cfg (s.receive c rest) := by
  have hpending : s.pending = [] := by
    rcases h.pending with hp | hp
    · exact hp
    · simp [htodo] at hp
  refine ⟨h.alive, ?_, by simp [Chain.receive], ?_, .inl hpending, ?_, h.deferredEOF, h.plain⟩
  · intro op rest' heq
    exact Or.inl (cons.inj heq).2.symm
  · intro op hop
    cases hop
    trivial
  · exact (h.deferred_of_idle htodo).imp_right .inl

end

@[simp] theorem emitChainEnd_todo (cfg : ChainConfig) (s : Chain) (o : Outcome) :
    (emitChainEnd cfg s o).todo = s.todo := by
  unfold Chain.emitChainEnd
  split
  · rfl
  · split <;> rfl

/-- **What an action of the main loop does.**  It takes a message or an event, ends the chain or
fails, or only goes on; the result of an upload is noted in the checkpoint. -/
inductive Turn (cfg : ChainConfig) (s : Chain) : Chain → Prop
  | received (c : ControlMsg) (rest : List ControlMsg) (hch : s.controlCh = c :: rest) :
      Turn cfg s (s.receive c rest)
  | processed (e : Event) (rest : List Event) (o : Outcome) (w : ℕ)
      (hp : s.transactionPrepared = false) (hch : s.inputCh = e :: rest) :
      Turn cfg s (processEvent cfg { s with inputCh := rest, phase := .polling } e o w)
  | turned (cp : Option ChainCheckpointState) (phase : Phase) (hphase : phase ≠ .starting)
      (hend : ({ s with checkpoint := cp } : Chain).endPending = s.endPending) :
      Turn cfg s { s with checkpoint := cp, phase }
  | ended (cp : Option ChainCheckpointState) (o : Outcome)
      (hready : ({ s with checkpoint := cp } : Chain).endReady = true)
      (hend : ({ s with checkpoint := cp } : Chain).endPending = s.endPending) :
      Turn cfg s (emitChainEnd cfg { s with checkpoint := cp } o)
  | failed (cp : Option ChainCheckpointState) (err : ChainError)
      (herr : err = .canceled ∨ ∃ o : Outcome, err = o.failure .upload) :
      Turn cfg s (fail cfg { s with checkpoint := cp } err)

theorem turn_of_loopStep (hstep : loopStep cfg s a = some s') : Turn cfg s s' := by
  unfold Chain.loopStep at hstep
  repeat' split at hstep
  all_goals cases hstep
  · next c rest hch => exact .received c rest hch
  · next hready => exact .ended s.checkpoint _ hready rfl
  · exact .turned s.checkpoint .selecting nofun rfl
  · next c rest _ hch => exact .received c rest hch
  · next hp hch => exact .processed _ _ _ _ hp hch
  · next b uploaded _ _ _ _ _ _ _ =>
    have hend := s.dropPendingIf_endPending b uploaded
    obtain ⟨cp, hcp⟩ := s.dropPendingIf_eq b uploaded
    unfold Chain.completeUpload
    simp only [hcp] at hend ⊢
    repeat' split
    · next hready => exact .ended s.checkpoint _ hready rfl
    · exact .turned s.checkpoint .polling nofun rfl
    · exact .failed cp _ (.inr ⟨_, rfl⟩)
    · next hready => exact .ended cp _ hready hend
    · exact .turned cp .polling nofun hend
  · exact .failed s.checkpoint _ (.inl rfl)

/-- The main loop puts something on the stack only by taking a control message. -/
theorem loopStep_todo (htodo : s.todo = []) (hstep : loopStep cfg s a = some s') :
    (∃ c rest, s.controlCh = c :: rest ∧ s' = s.receive c rest) ∨ s'.todo = [] := by
  cases turn_of_loopStep hstep with
  | received c rest hch => exact .inl ⟨c, rest, hch, rfl⟩
  | processed =>
    rw [processEvent_todo]
    exact .inr htodo
  | ended =>
    rw [emitChainEnd_todo]
    exact .inr htodo
  | turned | failed => exact .inr htodo

theorem Inv.loopStep (h : Inv cfg s) (htodo : s.todo = []) (hstep : loopStep cfg s a = some s') :
    Settled cfg s' := by
  cases turn_of_loopStep hstep with
  | received c rest => exact (h.receive htodo c rest).settled
  | processed e rest => exact (h.loop htodo s.checkpoint rest .polling).processEvent _
  | turned cp phase => exact (h.loop htodo cp s.inputCh phase).settled
  | ended => exact .emitChainEnd
  | failed => exact .fail _

/-! ## What handling a message leaves alone -/

/-- The part of the state that handling a message leaves alone: the phase of the main loop
and the control channel. -/
def loopState (s : Chain) : Phase × List ControlMsg :=
  (s.phase, s.controlCh)

section Frame

variable (cfg : ChainConfig) (s : Chain) (c : ControlMsg) (o : Outcome) (w : ℕ)

theorem processEvent_loopState (e : Event) :
    (processEvent cfg s e o w).loopState = s.loopState := by
  obtain ⟨_, _, _, heq⟩ := processEvent_eq cfg s e o w
  rw [heq]
  rfl

theorem handleControl_loopState : (handleControl cfg s c).loopState = s.loopState := by
  obtain ⟨cp, -, hhandled⟩ := handled cfg s c
  generalize handleControl cfg s c = t at hhandled
  cases hhandled <;> rfl

theorem drainInputCh_loopState (again done : ChainOp) :
    (drainInputCh cfg s again done o w).loopState = s.loopState := by
  unfold drainInputCh
  split
  · rfl
  · exact processEvent_loopState ..

theorem barrierStep_loopState (stage : BarrierStage) :
    (barrierStep cfg s c o w stage).loopState = s.loopState := by
  unfold barrierStep
  repeat' split
  all_goals first | rfl | exact drainInputCh_loopState ..

theorem emitChainEnd_loopState : (emitChainEnd cfg s o).loopState = s.loopState := by
  unfold emitChainEnd
  repeat' split
  all_goals rfl

end Frame

theorem opStep_loopState {cfg : ChainConfig} {s s' : Chain} {o : Outcome} {w : ℕ}
    (h : opStep cfg s o w op = some s') : s'.loopState = s.loopState := by
  unfold opStep abortDrainStep epilogueStep chainEndStep commitStep abortSinkStep at h
  repeat' split at h
  all_goals cases h
  all_goals first
    | rfl
    | exact processEvent_loopState ..
    | exact handleControl_loopState ..
    | exact drainInputCh_loopState ..
    | exact barrierStep_loopState ..
    | exact emitChainEnd_loopState ..

theorem emitChainEnd_phase : (emitChainEnd cfg s o).phase = s.phase :=
  congrArg Prod.fst (emitChainEnd_loopState cfg s o)

/-- The main loop never returns to its start. -/
theorem loopStep_phase (hphase : s.phase ≠ .starting) (hstep : loopStep cfg s a = some s') :
    s'.phase ≠ .starting := by
  cases turn_of_loopStep hstep with
  | received => exact Phase.noConfusion
  | processed =>
    rw [show Chain.phase _ = .polling from congrArg Prod.fst (processEvent_loopState ..)]
    exact Phase.noConfusion
  | turned _ _ hphase' => exact hphase'
  | ended =>
    rw [emitChainEnd_phase]
    exact hphase
  | failed => exact hphase

/-! ## Steps and runs -/

/-- What a step can be: the start, a stretch of a message being handled, or an action of
the main loop. -/
theorem step_cases (h : s.step cfg a = some s') : s.exit = none ∧
    ((∃ o, a = .start o ∧ s.phase = .starting ∧ s' = startStep cfg s o) ∨
     (∃ o w op rest, a = .resume o w ∧ s.phase ≠ .starting ∧ s.todo = op :: rest ∧
        opStep cfg { s with todo := rest } o w op = some s') ∨
       (s.phase ≠ .starting ∧ s.todo = [] ∧ loopStep cfg s a = some s')) := by
  unfold step at h
  split at h
  · simp at h
  · next hexit =>
    refine ⟨by simpa using hexit, ?_⟩
    split at h
    case h_1 o hphase => exact .inl ⟨o, rfl, hphase, (some.inj h).symm⟩
    case h_2 => simp at h
    case h_3 htodo hphase => exact .inr (.inl ⟨_, _, _, _, rfl, hphase, htodo, h⟩)
    case h_4 htodo hphase _ => exact .inr (.inr ⟨hphase, htodo, h⟩)
    case h_5 => simp at h

theorem Inv.initial (cfg : ChainConfig) (maxBufferSize : ℕ) : Inv cfg (initial cfg maxBufferSize) :=
  ⟨rfl, nofun, nofun, nofun, .inl rfl, .inl rfl, nofun, fun _ => ⟨rfl, rfl, rfl, rfl⟩⟩

/-- What the surroundings change is not what the invariant speaks about. -/
theorem Inv.withMailbox (h : Inv cfg s) (m : Mailbox) : Inv cfg (s.withMailbox m) := by
  refine { h with point := ?_ }
  intro op hop
  have hat := h.point op hop
  cases op <;> exact hat

/-- The start does not put anything on the stack. -/
@[simp] theorem startStep_todo (cfg : ChainConfig) (s : Chain) (o : Outcome) :
    (startStep cfg s o).todo = s.todo := by
  unfold Chain.startStep
  repeat' split
  all_goals rfl

theorem Inv.startStep (h : Inv cfg s) : Settled cfg (startStep cfg s o) := by
  have key : ∀ phase trace exit, Inv cfg
      { s with phase := phase, trace := trace, exit := exit } := by
    intro phase trace exit
    refine { h with point := ?_ }
    intro op hop
    have hat := h.point op hop
    cases op <;> exact hat
  unfold Chain.startStep
  split
  · exact (key .polling s.trace s.exit).settled
  · split
    · exact (key .polling _ s.exit).settled
    · exact (key s.phase _ _).settled

/-- **Every step keeps the invariant** of a chain that goes on running. -/
theorem Inv.step (h : Inv cfg s) (hstep : s.step cfg a = some s') : Settled cfg s' := by
  obtain ⟨-, ⟨o, -, -, rfl⟩ | ⟨o, w, op, rest, -, -, htodo, hop⟩ | ⟨-, htodo, hloop⟩⟩ :=
    step_cases hstep
  · exact h.startStep
  · exact h.opStep htodo hop
  · exact h.loopStep htodo hloop

theorem exit_eq_none_of_step (h : s.step cfg a = some s') : s.exit = none :=
  (step_cases h).1

/-- **The invariant holds in every running state**, whatever the surroundings do. -/
theorem inv_of_reachable {maxBufferSize : ℕ}
    (h : Runs.Reachable (openStep cfg) (initial cfg maxBufferSize) s) : Settled cfg s := by
  refine h.invariant (P := Settled cfg) (Inv.initial cfg maxBufferSize).settled ?_
  intro s a s' _ hs _ hstep
  cases a with
  | chain a => exact (hs (exit_eq_none_of_step hstep)).step hstep
  | surroundings m =>
    cases hstep
    exact fun hexit => (hs hexit).withMailbox m

end Chain
end Wire.Engine
