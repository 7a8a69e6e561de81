import Wire.Engine.Barrier
import Wire.Library.Runs

/-!
# The operator chain of a task

One goroutine runs the fused operators of a task.  It takes events from the event channel
and control messages from the control channel, and between any two of its actions the
input readers, the uploader and the coordinator's decisions may change what it shares with
them.  The model therefore cuts the goroutine at exactly the points where it touches
something shared or calls something that can fail: a `ChainOp` is the stretch of code up
to and including the next such point, `todo` is the stack of stretches that `handleControl`
and its nested calls still have to run, and `Chain.step` runs the topmost one.

Everything the environment decides is part of the action: the outcome of an external call
(success, error, panic, or a context found done) and how many times the operators call the
sink's `Write` while they process one event.

## Reading the model against the source

`handleControl` is the guard section at the head of the source function and
`dispatchControl` its switch; what follows a branch --- the release of deferred events and
deferred ends of partition --- is the op `epilogue`.  Branches that `return nil` push
nothing, branches that `break` push `epilogue`, and branches that return an error leave
the chain through `Chain.leave`, which also runs the deferred cleanup of
`runOpenedOperatorChain`.

`pending` holds the events handed out by a release that the loop after it still has to
process.  `trace` records what the chain has done, oldest first; it is the only part of
the state that the source does not have.
-/

namespace Wire.Engine

/-! ## Data -/

/-- The fixed surroundings of a chain. -/
structure ChainConfig where
  numInputs : ℕ
  /-- The last operator is a transactional sink. -/
  txnSink : Bool
  /-- An acknowledgement callback is configured. -/
  ackFn : Bool
  /-- Snapshots are uploaded and reported through a checkpoint uploader. -/
  uploads : Bool
  /-- The checkpoint the task was restored from. -/
  restoredCommitted : ℕ
deriving DecidableEq, Repr

/-- The uploads of a chain that are not resolved yet. -/
structure ChainCheckpointState where
  pending : Finset CheckpointIdentity := ∅
  /-- All inputs ended, and the end of the chain waits for the pending uploads. -/
  endPending : Bool := false
deriving DecidableEq

/-- The errors a chain returns. -/
inductive ChainError where
  | beginTransactionFailed
  | preCommitFailed
  | commitFailed
  | abortFailed
  | transactionAborted
  | uncommittedTransactionAtEOF
  | alreadyPrepared (preparedCheckpoint : ℕ)
  | arrivedWhilePrepared (checkpoint preparedCheckpoint : ℕ)
  | commitMismatch (checkpoint : ℕ)
  | abortMismatch
  | tooManyEOF
  | operator
  | capture
  | upload
  | canceled
  | panicked
deriving DecidableEq, Repr

/-- How the chain's goroutine ended. -/
inductive ExitReason where
  | returned
  | failed (e : ChainError)
deriving DecidableEq, Repr

/-- The outcome of an external call or of looking at the context. -/
inductive Outcome where
  | ok
  | error
  | panic
  | canceled
deriving DecidableEq, Repr

/-- The error a failed call turns into: its own, unless it panicked. -/
def Outcome.failure (own : ChainError) : Outcome → ChainError
  | .panic => .panicked
  | _ => own

/-- What a chain does that its surroundings can see. -/
inductive Obs where
  /-- A control message was taken from the control channel. -/
  | received (c : ControlMsg)
  | processed (e : Event)
  /-- A call of the sink's `Write`. -/
  | write
  | beginTransaction (ok : Bool)
  | preCommit (b : CheckpointIdentity) (ok : Bool)
  /-- The operators' snapshots were captured for this checkpoint. -/
  | captured (b : CheckpointIdentity) (ok : Bool)
  | acknowledged (b : CheckpointIdentity)
  | uploadStarted (b : CheckpointIdentity)
  /-- A call of the sink's `Commit` for the decision message of this identity. -/
  | commit (b : CheckpointIdentity) (ok : Bool)
  /-- A call of the sink's `Abort` for a decision. -/
  | abort (ok : Bool)
  /-- The call of the sink's `Abort` by the deferred cleanup. -/
  | cleanupAbort
  | outputBarrier (b : CheckpointIdentity)
  | outputEnd
deriving DecidableEq, Repr

/-- The steps of an aligned barrier, in order. -/
inductive BarrierStage where
  | drain
  | prepare
  | capture
  | report
  | submit
  | finish
deriving DecidableEq, Repr

/-- A stretch of `handleControl` up to its next shared access or external call. -/
inductive ChainOp where
  | handle (c : ControlMsg)
  | barrier (c : ControlMsg) (stage : BarrierStage)
  | commit (c : ControlMsg) (attempt : ℕ)
  | beginTransaction
  | abortSink (c : ControlMsg)
  | abortCheckpoint (c : ControlMsg)
  | abortDrain (c : ControlMsg) (remaining : ℕ)
  | abortAlignment (c : ControlMsg)
  | endOfPartition
  | chainEnd
  | drainInputs
  | beginDrain
  | shutdown
  /-- The loop over the events in `pending`. -/
  | process
  /-- What follows the switch: deferred events, then deferred ends of partition. -/
  | epilogue
deriving DecidableEq, Repr

/-- Where the main loop stands while no control message is being handled. -/
inductive Phase where
  /-- Before the first transaction has been begun. -/
  | starting
  /-- The non-blocking drain of the control channel. -/
  | polling
  /-- The blocking select. -/
  | selecting
deriving DecidableEq, Repr

/-- The state of a chain: its context, what it shares, and where its goroutine stands. -/
structure Chain where
  checkpoint : Option ChainCheckpointState
  draining : Bool := false
  preparedCheckpoint : ℕ := 0
  preparedEpoch : ℕ := 0
  transactionPrepared : Bool := false
  transactionDirty : Bool := false
  transactionAborted : Bool := false
  transactionDecisionPending : Bool := false
  lastCommitted : ℕ
  lastAborted : CheckpointIdentity := ⟨0, 0⟩
  deferredEOF : List ControlMsg := []
  deferredEvents : List Event := []
  eofCount : ℕ := 0
  inputCh : List Event := []
  controlCh : List ControlMsg := []
  aligner : BarrierAligner
  phase : Phase := .starting
  todo : List ChainOp := []
  pending : List Event := []
  exit : Option ExitReason := none
  trace : List Obs := []

namespace Chain

/-- A chain before its first step. -/
def initial (cfg : ChainConfig) (maxBufferSize : ℕ) : Chain where
  checkpoint := if cfg.uploads then some {} else none
  lastCommitted := cfg.restoredCommitted
  aligner := .new cfg.numInputs maxBufferSize

/-- The identity of the prepared transaction. -/
def prepared (s : Chain) : CheckpointIdentity :=
  ⟨s.preparedCheckpoint, s.preparedEpoch⟩

/-! ## Small updates -/

/-- Record an observation. -/
def emit (s : Chain) (o : Obs) : Chain :=
  { s with trace := s.trace ++ [o] }

/-- Put a stretch of code on top of what is left to do. -/
def push (s : Chain) (op : ChainOp) : Chain :=
  { s with todo := op :: s.todo }

/-- Would the deferred cleanup call `Abort`?  Not once a decision may be pending or the
transaction has been aborted. -/
def cleansUp (cfg : ChainConfig) (s : Chain) : Bool :=
  cfg.txnSink && !(s.transactionDecisionPending || s.transactionAborted)

/-- The goroutine returns, and its deferred cleanup runs. -/
def leave (cfg : ChainConfig) (s : Chain) (reason : ExitReason) : Chain :=
  { s with
    exit := some reason
    trace := if s.cleansUp cfg then s.trace ++ [.cleanupAbort] else s.trace }

/-- The goroutine returns with an error. -/
def fail (cfg : ChainConfig) (s : Chain) (e : ChainError) : Chain :=
  s.leave cfg (.failed e)

/-- Forget the pending upload of `b`. -/
def dropPending (s : Chain) (b : CheckpointIdentity) : Chain :=
  { s with checkpoint := s.checkpoint.map fun cp => { cp with pending := cp.pending.erase b } }

/-- Forget the pending upload of `b` if it is resolved. -/
def dropPendingIf (s : Chain) (b : CheckpointIdentity) (resolved : Bool) : Chain :=
  if resolved then s.dropPending b else s

theorem dropPendingIf_eq (s : Chain) (b : CheckpointIdentity) (resolved : Bool) :
    ∃ cp, s.dropPendingIf b resolved = { s with checkpoint := cp } := by
  cases resolved
  · exact ⟨s.checkpoint, rfl⟩
  · exact ⟨_, rfl⟩

/-! ## Processing events -/

/-- Run one event through the operators, which call the sink's `Write` some number of
times.  A watermark boundary of an input only advances the tracker. -/
def processEvent (cfg : ChainConfig) (s : Chain) (e : Event) (o : Outcome) (writes : ℕ) : Chain :=
  if e.inputWatermark.isSome then s.emit (.processed e)
  else
    let s := { s with
      transactionDirty := s.transactionDirty || (cfg.txnSink && 0 < writes)
      trace := s.trace ++ .processed e :: List.replicate writes .write }
    if o = .ok then s else s.fail cfg (o.failure .operator)

/-- One turn of the non-blocking drain of the event channel: take and process an event
and come back to `again`, or find the channel empty and go on with `done`. -/
def drainInputCh (cfg : ChainConfig) (s : Chain) (again done : ChainOp) (o : Outcome)
    (writes : ℕ) : Chain :=
  match s.inputCh with
  | [] => s.push done
  | e :: rest => processEvent cfg ({ s with inputCh := rest }.push again) e o writes

/-- Announce the end of the chain downstream and return. -/
def emitChainEnd (cfg : ChainConfig) (s : Chain) (o : Outcome) : Chain :=
  if cfg.txnSink && s.transactionDirty then s.fail cfg .uncommittedTransactionAtEOF
  else if o = .ok then (s.emit .outputEnd).leave cfg .returned
  else s.fail cfg .canceled

/-- The end of the chain waits for nothing but has been deferred. -/
def endReady (s : Chain) : Bool :=
  s.checkpoint.any fun cp => cp.endPending && cp.pending = ∅

/-! ## Handling a control message -/

/-- The kinds of messages that a prepared transaction of another epoch ignores. -/
def isFenced : ControlType → Bool
  | .barrierReceived | .commitCheckpoint | .abortCheckpoint | .abortTransaction => true
  | .shutdown | .endOfPartition | .drainInputs => false

/-- An abort at or below the last aborted identity has been handled before. -/
def alreadyAborted (s : Chain) (b : CheckpointIdentity) : Bool :=
  b.epoch < s.lastAborted.epoch || (b.epoch == s.lastAborted.epoch && b.id ≤ s.lastAborted.id)

/-- The switch of `handleControl`, up to the first shared access or external call of each
branch. -/
def dispatchControl (cfg : ChainConfig) (s : Chain) (c : ControlMsg) : Chain :=
  match c.type with
  | .barrierReceived =>
    if s.aligner.allAligned c.identity.id = false ∨ s.aligner.activeEpoch ≠ c.identity.epoch
    then s
    else s.push (.barrier c .drain)
  | .commitCheckpoint =>
    if cfg.txnSink = false then s.push .epilogue
    else if c.identity.id ≤ s.lastCommitted then s.push .epilogue
    else if s.transactionPrepared = false ∨ c.identity.id ≠ s.preparedCheckpoint
    then s.fail cfg (.commitMismatch c.identity.id)
    else { s with transactionDecisionPending := true }.push (.commit c 0)
  | .abortTransaction =>
    if c.identity.id ≠ 0 ∧ s.transactionPrepared = false
    then s.push (.handle { type := .abortCheckpoint, identity := c.identity })
    else if c.identity.id ≠ 0 ∧ s.alreadyAborted c.identity then s.push .epilogue
    else if cfg.txnSink = false then s.push .epilogue
    else if c.identity.id ≠ 0 ∧ c.identity.id ≤ s.lastCommitted then s.push .epilogue
    else if s.transactionPrepared ∧ c.identity.id ≠ 0 ∧ c.identity.id ≠ s.preparedCheckpoint
    then s.fail cfg .abortMismatch
    else s.push (.abortSink c)
  | .abortCheckpoint => s.push (.abortCheckpoint c)
  | .endOfPartition =>
    let s := { s with eofCount := s.eofCount + 1 }
    if cfg.numInputs ≤ s.eofCount then s.push .endOfPartition else s.push .epilogue
  | .drainInputs =>
    let s := { s with draining := true }
    if s.transactionPrepared then s.leave cfg .returned else s.push .drainInputs
  | .shutdown => s.push .shutdown

/-- The guards of `handleControl` while a transaction is prepared. -/
def handlePrepared (cfg : ChainConfig) (s : Chain) (c : ControlMsg) : Chain :=
  match c.type with
  | .endOfPartition =>
    if cfg.numInputs ≤ s.deferredEOF.length then s.fail cfg .tooManyEOF
    else { s with deferredEOF := s.deferredEOF ++ [c] }
  | .barrierReceived =>
    if c.identity.id = s.preparedCheckpoint then s
    else s.fail cfg (.arrivedWhilePrepared c.identity.id s.preparedCheckpoint)
  | .abortCheckpoint =>
    if c.identity.id ≠ s.preparedCheckpoint then s
    -- the nested abort comes first; the branch of this message follows if it returns nil
    else (s.push (.abortCheckpoint c)).push
      (.handle { type := .abortTransaction, identity := c.identity })
  | _ => dispatchControl cfg s c

/-- The entry of `handleControl`. -/
def handleControl (cfg : ChainConfig) (s : Chain) (c : ControlMsg) : Chain :=
  if s.transactionAborted then s.fail cfg .transactionAborted
  else if s.transactionPrepared ∧ c.identity.epoch ≠ s.preparedEpoch ∧ isFenced c.type then s
  else
    let s := s.dropPendingIf c.identity (c.type = .abortCheckpoint)
    if s.draining ∧ c.type = .barrierReceived then s
    else if s.transactionPrepared then handlePrepared cfg s c
    else dispatchControl cfg s c

/-! ## The stretches behind the switch -/

/-- The steps of an aligned barrier: drain the event channel, prepare the transaction,
capture the operators, acknowledge or forward, submit the upload, release the inputs. -/
def barrierStep (cfg : ChainConfig) (s : Chain) (c : ControlMsg) (o : Outcome) (writes : ℕ) :
    BarrierStage → Chain
  | .drain => drainInputCh cfg s (.barrier c .drain) (.barrier c .prepare) o writes
  | .prepare =>
    if cfg.txnSink = false then s.push (.barrier c .capture)
    else if s.transactionPrepared then s.fail cfg (.alreadyPrepared s.preparedCheckpoint)
    else if o = .ok then
      { s.emit (.preCommit c.identity true) with
        preparedCheckpoint := c.identity.id
        preparedEpoch := c.identity.epoch
        transactionPrepared := true }.push (.barrier c .capture)
    else (s.emit (.preCommit c.identity false)).fail cfg (o.failure .preCommitFailed)
  | .capture =>
    if o = .ok then (s.emit (.captured c.identity true)).push (.barrier c .report)
    else (s.emit (.captured c.identity false)).fail cfg (o.failure .capture)
  | .report =>
    if cfg.txnSink then
      if cfg.ackFn && s.checkpoint.isNone then
        let s := { s.emit (.acknowledged c.identity) with transactionDecisionPending := true }
        if o = .panic then s.fail cfg .panicked else s.push (.barrier c .submit)
      else s.push (.barrier c .submit)
    else if o = .ok then (s.emit (.outputBarrier c.identity)).push (.barrier c .submit)
    else s.fail cfg .canceled
  | .submit =>
    match s.checkpoint with
    | none => s.push (.barrier c .finish)
    | some cp =>
      let s := { s with transactionDecisionPending := s.transactionPrepared }
      if c.identity ∈ cp.pending then s.push (.barrier c .finish)
      else
        let s := { s.emit (.uploadStarted c.identity) with
          checkpoint := some { cp with pending := insert c.identity cp.pending } }
        -- a refused submission is reported, and only a failed report is an error
        if o = .ok then s.push (.barrier c .finish) else s.fail cfg (o.failure .upload)
  | .finish =>
    let (aligner, released) := s.aligner.finishAlignment c.identity.id
    if cfg.txnSink then { s with aligner, deferredEvents := released }.push .epilogue
    else { s with aligner, pending := released }.push .process

/-- The number of times a commit is attempted. -/
def transactionCommitAttempts : ℕ := 5

/-- One attempt of `commitTransaction`.  Errors and panics of the sink's `Commit` are
retried; a context found done ends the retries. -/
def commitStep (cfg : ChainConfig) (s : Chain) (c : ControlMsg) (attempt : ℕ) (o : Outcome) :
    Chain :=
  match o with
  | .canceled => s.fail cfg .commitFailed
  | .ok =>
    { s.emit (.commit c.identity true) with
      lastCommitted := c.identity.id
      transactionDirty := false
      transactionPrepared := false
      transactionDecisionPending := false }.push .beginTransaction
  | .error | .panic =>
    let s := s.emit (.commit c.identity false)
    if attempt + 1 = transactionCommitAttempts then s.fail cfg .commitFailed
    else s.push (.commit c (attempt + 1))

/-- The call of the sink's `Abort` for a decision.  The task fails either way: what has
been rolled back must be read again. -/
def abortSinkStep (cfg : ChainConfig) (s : Chain) (c : ControlMsg) (o : Outcome) : Chain :=
  if o = .ok then
    { s.emit (.abort true) with
      transactionPrepared := false
      transactionDecisionPending := false
      lastAborted := c.identity
      transactionAborted := true }.fail cfg .transactionAborted
  else (s.emit (.abort false)).fail cfg (o.failure .abortFailed)

/-- One turn of the bounded drain before an abort.  The bound was read once, so the
channel cannot run empty before it is used up. -/
def abortDrainStep (cfg : ChainConfig) (s : Chain) (c : ControlMsg) (o : Outcome) (writes : ℕ) :
    ℕ → Option Chain
  | 0 => some (s.push (.abortAlignment c))
  | remaining + 1 =>
    if o = .canceled then some (s.fail cfg .canceled)
    else match s.inputCh with
      | [] => none
      | e :: rest => some
          (processEvent cfg ({ s with inputCh := rest }.push (.abortDrain c remaining)) e o writes)

/-- Deferred events are processed, then deferred ends of partition are handled. -/
def epilogueStep (s : Chain) : Chain :=
  if s.transactionPrepared then s
  else if s.deferredEvents ≠ [] then
    { s with pending := s.deferredEvents, deferredEvents := [] }.push .process
  else { s with deferredEOF := [], todo := s.deferredEOF.map .handle ++ s.todo }

/-- The end of the last input, once the event channel is drained. -/
def chainEndStep (cfg : ChainConfig) (s : Chain) (o : Outcome) : Chain :=
  match s.checkpoint with
  | none => emitChainEnd cfg s o
  | some cp =>
    if cp.pending = ∅ then emitChainEnd cfg s o
    else { s with checkpoint := some { cp with endPending := true } }

/-- Run one stretch of code, already taken off `todo`. -/
def opStep (cfg : ChainConfig) (s : Chain) (o : Outcome) (writes : ℕ) : ChainOp → Option Chain
  | .handle c => some (handleControl cfg s c)
  | .barrier c stage => some (barrierStep cfg s c o writes stage)
  | .commit c attempt => some (commitStep cfg s c attempt o)
  | .beginTransaction =>
    if o = .ok then some ((s.emit (.beginTransaction true)).push .epilogue)
    else some ((s.emit (.beginTransaction false)).fail cfg (o.failure .beginTransactionFailed))
  | .abortSink c => some (abortSinkStep cfg s c o)
  | .abortCheckpoint c =>
    some ((s.dropPending c.identity).push (.abortDrain c s.inputCh.length))
  | .abortDrain c remaining => abortDrainStep cfg s c o writes remaining
  | .abortAlignment c =>
    let (aligner, released) := s.aligner.abortAlignment c.identity
    some ({ s with aligner, pending := released }.push .process)
  | .endOfPartition => some (drainInputCh cfg s .endOfPartition .chainEnd o writes)
  | .chainEnd => some (chainEndStep cfg s o)
  | .drainInputs => some (drainInputCh cfg s .drainInputs .beginDrain o writes)
  | .beginDrain =>
    let (aligner, released) := s.aligner.beginDrain
    some ({ s with aligner, pending := released }.push .process)
  | .shutdown =>
    if s.draining ∧ s.transactionPrepared = false then
      match s.inputCh with
      | [] => some (s.leave cfg .returned)
      | e :: rest => some (processEvent cfg ({ s with inputCh := rest }.push .shutdown) e o writes)
    else some (s.leave cfg .returned)
  | .process =>
    match s.pending with
    | [] => some (s.push .epilogue)
    | e :: rest => some (processEvent cfg ({ s with pending := rest }.push .process) e o writes)
  | .epilogue => some (epilogueStep s)

/-! ## The main loop -/

/-- The actions of the chain's goroutine. -/
inductive Act where
  /-- Begin the initial transaction and enter the loop. -/
  | start (o : Outcome)
  /-- Go on with the control message being handled. -/
  | resume (o : Outcome) (writes : ℕ)
  /-- One turn of the non-blocking drain of the control channel. -/
  | poll (o : Outcome)
  | recvControl
  | recvEvent (o : Outcome) (writes : ℕ)
  /-- An upload result arrives: which, whether it succeeded, how its report and a deferred
  end of the chain turn out. -/
  | recvUpload (b : CheckpointIdentity) (uploaded : Bool) (notified sent : Outcome)
  /-- The select finds the context done. -/
  | cancel
deriving DecidableEq, Repr

/-- Begin the initial transaction.  The cleanup is registered only after it succeeded. -/
def startStep (cfg : ChainConfig) (s : Chain) (o : Outcome) : Chain :=
  if cfg.txnSink = false then { s with phase := .polling }
  else if o = .ok then { s.emit (.beginTransaction true) with phase := .polling }
  else
    { s.emit (.beginTransaction false) with
      exit := some (.failed (o.failure .beginTransactionFailed)) }

/-- Take a control message and start handling it. -/
def receive (s : Chain) (c : ControlMsg) (rest : List ControlMsg) : Chain :=
  { s.emit (.received c) with controlCh := rest, phase := .polling, todo := [.handle c] }

/-- The result of an upload: drop the pending mark on success and report, then end the
chain if that was what its end waited for. -/
def completeUpload (cfg : ChainConfig) (s : Chain) (cp : ChainCheckpointState)
    (b : CheckpointIdentity) (uploaded : Bool) (notified sent : Outcome) : Chain :=
  if b ∉ cp.pending then
    if s.endReady then emitChainEnd cfg s sent else { s with phase := .polling }
  else
    let s := s.dropPendingIf b uploaded
    if notified ≠ .ok then s.fail cfg (notified.failure .upload)
    else if s.endReady then emitChainEnd cfg s sent
    else { s with phase := .polling }

/-- One action of the main loop of `runOpenedOperatorChain`. -/
def loopStep (cfg : ChainConfig) (s : Chain) : Act → Option Chain
  | .poll o =>
    if s.phase = .polling then
      match s.controlCh with
      | c :: rest => some (s.receive c rest)
      | [] =>
        if s.endReady then some (emitChainEnd cfg s o) else some { s with phase := .selecting }
    else none
  | .recvControl =>
    match s.phase, s.controlCh with
    | .selecting, c :: rest => some (s.receive c rest)
    | _, _ => none
  | .recvEvent o writes =>
    match s.phase, s.transactionPrepared, s.inputCh with
    | .selecting, false, e :: rest =>
      some (processEvent cfg { s with inputCh := rest, phase := .polling } e o writes)
    | _, _, _ => none
  | .recvUpload b uploaded notified sent =>
    match s.phase, s.checkpoint with
    | .selecting, some cp => some (completeUpload cfg s cp b uploaded notified sent)
    | _, _ => none
  | .cancel => if s.phase = .selecting then some (s.fail cfg .canceled) else none
  | .start _ | .resume _ _ => none

/-- One action of the chain. -/
def step (cfg : ChainConfig) (s : Chain) (a : Act) : Option Chain :=
  if s.exit.isSome then none
  else match a, s.phase, s.todo with
    | .start o, .starting, _ => some (startStep cfg s o)
    | _, .starting, _ => none
    | .resume o writes, _, op :: rest => opStep cfg { s with todo := rest } o writes op
    | a, _, [] => loopStep cfg s a
    | _, _, _ => none

/-! ## The chain among arbitrary surroundings -/

/-- What a chain shares with the rest of its task. -/
structure Mailbox where
  inputCh : List Event
  controlCh : List ControlMsg
  aligner : BarrierAligner

/-- Replace what the chain shares. -/
def withMailbox (s : Chain) (m : Mailbox) : Chain :=
  { s with inputCh := m.inputCh, controlCh := m.controlCh, aligner := m.aligner }

/-- An action of the chain, or any change of the shared state by its surroundings. -/
inductive OpenAct where
  | chain (a : Act)
  | surroundings (m : Mailbox)

/-- The chain in an environment about which nothing is assumed. -/
def openStep (cfg : ChainConfig) (s : Chain) : OpenAct → Option Chain
  | .chain a => s.step cfg a
  | .surroundings m => some (s.withMailbox m)

end Chain
end Wire.Engine
