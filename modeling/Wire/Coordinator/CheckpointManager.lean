import Wire.Coordinator.State
import Wire.Library.Guard

/-!
# Triggering, acknowledging and aborting checkpoints

`checkpoint_manager.go`, `final_checkpoint.go` and `savepoint_decision.go`.  Each operation is
cut where the source cuts it: a function that checks the request against the persisted state
and computes what is to be written, and a step that writes the batch and, if the write
succeeded, brings the memory up to date.

The scan for the highest checkpoint id stops at the first record that forbids a new
checkpoint, so which of the two errors is reported depends on the order of the keys; here the
final checkpoint is looked for first.
-/

namespace Wire.Coordinator

open Guard

/-! ## Helpers -/

/-- `resetStableRecoveryBudget`. -/
def resetStableRecoveryBudget (cfg : Config) (now : Time) (m : JobMeta) : JobMeta :=
  if m.status = .running ∧ m.runningSince ≠ 0 ∧ cfg.restartResetAfter ≤ now - m.runningSince then
    { m with recoveryAttempts := 0 }
  else m

/-- Leave RUNNING or DEPLOYING for FAILING. -/
def JobMeta.fail (cfg : Config) (now : Time) (m : JobMeta) : JobMeta :=
  { resetStableRecoveryBudget cfg now m with status := .failing, updatedAt := now }

/-- `sourcesExhaustedLocked`. -/
def sourcesExhausted (s : State) (a : TaskAssignmentMap) : Bool :=
  a.taskDescriptors.any (·.source) &&
    a.taskDescriptors.all fun t => !t.source || s.mem.taskStatuses t.taskID = some .finishing

/-- `savepointDecisionLocked`: the savepoint record that goes with a checkpoint decision. -/
def savepointDecision (s : State) (cp : CheckpointMeta) : Except Error (Option SavepointMeta) :=
  match cp.savepointID with
  | none => pure none
  | some id => do
    let sp ← demand (s.store.savepoints.lookup (cp.jobID, id)) .savepointNotFound
    require (sp.checkpointID = cp.id ∧ sp.epochID = cp.epochID) .savepointMismatch
    pure (some { sp with status := if cp.status = .completed then .completed else .failed })

/-! ## Triggering -/

/-- The highest id among the job's checkpoint records. -/
def highestCheckpoint (scan : List CheckpointMeta) : ℕ :=
  scan.foldr (fun cp highest => max cp.id highest) 0

/-- The id of the next checkpoint of a job. -/
def nextCheckpointID (s : State) (j : JobID) (attempt : AttemptID) : Except Error ℕ := do
  let scan := s.store.checkpointsOf j
  require (scan.all fun cp =>
    ¬ (cp.final ∧ cp.attemptID = attempt ∧ cp.status = .completed)) .finalCheckpointNotReady
  require (scan.all fun cp => ¬ cp.status.inFlight) .checkpointInProgress
  require (highestCheckpoint scan ≠ maxUint64) .checkpointIDsExhausted
  pure (highestCheckpoint scan + 1)

/-- What a trigger writes. -/
structure Trigger where
  ref : Ref
  job : JobMeta
  checkpoint : CheckpointMeta
  savepoint : Option SavepointMeta

/-- `triggerCheckpointBoundary`, up to its write. -/
def triggerCheckpointBoundary (cfg : Config) (o : Oracle) (s : State) (j : JobID)
    (savepoint : Option SavepointID) (final : Bool) : Except Error Trigger := do
  require s.mem.ready .notLeader
  let r ← demand (s.mem.job j) .jobNotFound
  let job := s.deref r
  require (job.status = .running) .jobNotRunning
  require (¬ (final = false ∧ savepoint = none ∧ 0 < cfg.checkpointMinPause ∧
    job.lastCheckpointCompletion ≠ 0 ∧
    o.now - job.lastCheckpointCompletion < cfg.checkpointMinPause)) .checkpointMinPause
  let a ← demand (s.store.assignments j) .decode
  require (a.assignments.len ≠ 0) .noTaskAssignments
  require (final = false ∨ sourcesExhausted s a) .finalCheckpointNotReady
  require (a.assignments.entries.all fun e => (a.replicas.lookup e.1).isSome)
    .checkpointUnavailable
  let id ← nextCheckpointID s j a.attemptID
  let count ← demand (cfg.keyGroups job.config (max 1 job.parallelism)) .invalidConfig
  pure {
    ref := r
    job := if savepoint = none then
        { job with checkpointAttempts := job.checkpointAttempts + 1 }
      else job
    checkpoint :=
      { jobID := j, id, epochID := s.mem.epoch, attemptID := a.attemptID, status := .inProgress
        final, savepointID := savepoint, tasks := a.assignments, replicas := a.replicas
        taskDescriptors := a.taskDescriptors, numKeyGroups := count
        manifestVersion := currentSchemaVersion, timestamp := o.now }
    savepoint := savepoint.map fun sp =>
      { jobID := j, id := sp, checkpointID := id, epochID := s.mem.epoch, numKeyGroups := count
        status := .inProgress } }

/-- `triggerCheckpointBoundary`: persist the boundary, then start the checkpoint on its tasks.
The final checkpoint that the scheduler asks for fails the job if there is no replica. -/
def State.trigger (cfg : Config) (o : Oracle) (s : State) (j : JobID)
    (savepoint : Option SavepointID) (final : Bool) (pausing : Option Ref) : State :=
  match triggerCheckpointBoundary cfg o s j savepoint final with
  | .ok t =>
    if o.written then
      ((((((s.setJob j t.job).setCheckpoint t.checkpoint).setSavepoint t.savepoint).assign
        t.ref t.job).setActive j (some t.checkpoint)).record
          [.triggered j t.checkpoint.id t.checkpoint.attemptID]).spawn
            (.startTasks t.checkpoint (t.checkpoint.tasks.entries.map fun e => (e.1, e.2)) []
              pausing)
    else s
  | .error e =>
    match s.mem.job j with
    | some r =>
      if final ∧ e = .checkpointUnavailable then s.spawn (.transitions .request r [.failing])
      else s
    | none => s

/-! ## Aborting -/

/-- The failure policy applied to a job whose checkpoint failed. -/
def JobMeta.chargeCheckpointFailure (cfg : Config) (now : Time) (final : Bool) (m : JobMeta) :
    JobMeta :=
  let next :=
    { m with
      checkpointOutcomes := recordOutcome m.checkpointOutcomes true
      checkpointFailures := m.checkpointFailures + 1
      consecutiveCheckpointFailures := m.consecutiveCheckpointFailures + 1 }
  if ((0 < cfg.checkpointMaxConsecutiveFailures ∧
        cfg.checkpointMaxConsecutiveFailures ≤ next.consecutiveCheckpointFailures) ∨
      cfg.rateExceeded next.checkpointOutcomes ∨ final) ∧ next.status = .running then
    next.fail cfg now
  else next

/-- What an abort writes. -/
structure Abort where
  checkpoint : CheckpointMeta
  alreadyAborted : Bool
  savepoint : Option SavepointMeta
  failedJob : Option (Ref × JobMeta)

/-- The savepoint that fails with its checkpoint; a repeated abort leaves it alone. -/
def abortedSavepoint (s : State) (cp : CheckpointMeta) : Except Error (Option SavepointMeta) :=
  if cp.status = .aborted then pure none else savepointDecision s { cp with status := .aborted }

/-- `abortCheckpoint`, up to its write. -/
def abortCheckpoint (cfg : Config) (o : Oracle) (s : State) (j : JobID) (id epoch : ℕ)
    (failure : Option Text) : Except Error Abort := do
  require s.mem.ready .notLeader
  require (epoch = s.mem.epoch) .staleEpoch
  let cp ← demand (s.store.checkpoints.lookup (j, id)) .decode
  require (cp.jobID = j ∧ cp.id = id ∧ cp.epochID = epoch) .staleEpoch
  require (cp.status.inFlight ∨ cp.status = .aborted) .differentDecision
  let savepoint ← abortedSavepoint s cp
  pure {
    checkpoint := { cp with status := .aborted }
    alreadyAborted := cp.status = .aborted
    savepoint
    failedJob :=
      if cp.status ≠ .aborted ∧ cp.savepointID = none ∧ (failure.isSome ∨ cp.final) then
        (s.mem.job j).map fun r =>
          (r, (s.deref r).chargeCheckpointFailure cfg o.now cp.final)
      else none }

/-- The commands that carry an abort decision. -/
def CheckpointMeta.abortCommands (cp : CheckpointMeta) : List Event :=
  cp.tasks.entries.map fun e => .enqueued e.2 (.abortCheckpoint e.1 cp.request)

/-- `delete(c.activeCheckpoints, jobID)` if it is the given checkpoint. -/
def State.clearActive (s : State) (j : JobID) (id epoch : ℕ) : State :=
  s.setActive j ((s.mem.activeCheckpoints j).filter fun active =>
    ¬ (active.id = id ∧ active.epochID = epoch))

/-- The failure policy's part of the batch, and of the memory. -/
def State.setFailedJob (s : State) (j : JobID) (failed : Option (Ref × JobMeta)) : State :=
  match failed with
  | some (r, m) => (s.setJob j m).assign r m
  | none => s

/-- Persist the abort decision and queue its commands. -/
def State.decideAbort (s : State) (j : JobID) (id epoch : ℕ) (a : Abort) : State :=
  (((((s.setCheckpoint a.checkpoint).setSavepoint a.savepoint).setFailedJob j
    a.failedJob).clearActive j id epoch).record
      ((if a.alreadyAborted then [] else [.aborted j id]) ++ a.checkpoint.abortCommands))

/-- `abortCheckpoint`; the second component says whether it returned without an error. -/
def State.abort (cfg : Config) (o : Oracle) (s : State) (j : JobID) (id epoch : ℕ)
    (failure : Option Text) : State × Bool :=
  match abortCheckpoint cfg o s j id epoch failure with
  | .ok a => if o.written then (s.decideAbort j id epoch a, true) else (s, false)
  | .error _ => (s, false)

/-! ## Acknowledging -/

/-- What an acknowledgement amounts to. -/
inductive Acknowledgement where
  /-- The checkpoint was completed before: repeat the decision. -/
  | repeated (cp : CheckpointMeta)
  /-- The task's state is recorded, others are missing. -/
  | recorded (cp : CheckpointMeta)
  /-- The last missing task: the checkpoint is completed. -/
  | completed (cp : CheckpointMeta) (ref : Ref) (job : JobMeta) (savepoint : Option SavepointMeta)

/-- The task manifests after an acknowledgement; records of schema version 0 have none. -/
def recordManifest (cp : CheckpointMeta) (task : TaskID) (manifest : Option Manifest) :
    Except Error (GoMap TaskID Manifest) :=
  if cp.manifestVersion = 0 then pure cp.taskManifests
  else do
    let raw ← demand manifest .manifestRequired
    let decoded ← demand raw.decode .manifestMalformed
    require (decoded.taskID = task) .manifestIdentity
    require (cp.taskManifests.lookup task = none ∨ cp.taskManifests.lookup task = some raw)
      .conflictingManifest
    pure (cp.taskManifests.insert task raw)

/-- The job record after the completion of a checkpoint. -/
def JobMeta.checkpointCompleted (now : Time) (cp : CheckpointMeta) (m : JobMeta) : JobMeta :=
  let next := { m with latestCheckpoint := cp.id, lastCheckpointCompletion := now }
  if cp.savepointID = none then
    { next with
      checkpointOutcomes := recordOutcome m.checkpointOutcomes false
      consecutiveCheckpointFailures := 0 }
  else next

/-- `AcknowledgeCheckpoint`, up to its write. -/
def acknowledgeCheckpoint (o : Oracle) (s : State) (req : AcknowledgeRequest) :
    Except Error Acknowledgement := do
  require s.mem.ready .notLeader
  require (req.epochID = s.mem.epoch) .staleEpoch
  let cp ← demand (s.store.checkpoints.lookup (req.jobID, req.checkpointID)) .decode
  require (cp.id = req.checkpointID ∧ cp.jobID = req.jobID ∧ cp.epochID = req.epochID) .staleEpoch
  require (cp.tasks.lookup req.taskID = some req.workerID ∧ req.attemptID = cp.attemptID)
    .assignmentMismatch
  let state ← demand req.state .stateRequired
  let path ← demand state.path .stateRequired
  require (state.taskID = req.taskID) .stateRequired
  require (cp.replicas.lookup req.taskID = some path) .replicaMismatch
  require (cp.status = .inProgress ∨ cp.status = .completed) .notAccepting
  let manifests ← recordManifest cp req.taskID state.manifest
  require (cp.statePaths.lookup req.taskID = none ∨ cp.statePaths.lookup req.taskID = some path)
    .conflictingAcknowledgement
  if cp.status = .completed then
    pure (.repeated cp)
  else
    let recorded :=
      { cp with taskManifests := manifests, statePaths := cp.statePaths.insert req.taskID path }
    if recorded.statePaths.len = recorded.tasks.len then do
      let completed := { recorded with status := .completed }
      require (completed.manifestVersion = 0 ∨ o.inventoryAccepted) .manifestRejected
      let r ← demand (s.mem.job req.jobID) .jobNotFound
      let savepoint ← savepointDecision s completed
      pure (.completed completed r ((s.deref r).checkpointCompleted o.now completed) savepoint)
    else
      pure (.recorded recorded)

/-- The goroutine that sends the commit decision once the lock is released. -/
def CheckpointMeta.notifier (cp : CheckpointMeta) : Thread :=
  .notify cp.request (cp.tasks.entries.map fun e => (e.1, e.2))

/-- `AcknowledgeCheckpoint`. -/
def State.acknowledge (o : Oracle) (s : State) (req : AcknowledgeRequest) : State :=
  match acknowledgeCheckpoint o s req with
  | .ok (.repeated cp) => s.spawn cp.notifier
  | .ok (.recorded cp) =>
    if o.written then (s.setCheckpoint cp).record [.acknowledged req] else s
  | .ok (.completed cp r job savepoint) =>
    if o.written then
      ((((((s.setCheckpoint cp).setJob req.jobID job).setSavepoint
        savepoint).assign r job).setActive req.jobID none).record
          [.acknowledged req, .completed cp.jobID cp.id]).spawn cp.notifier
    else s
  | .error _ => s

/-! ## Failure reports and timeouts -/

/-- `ReportCheckpointFailure`, before it calls `abortCheckpoint`. -/
def reportCheckpointFailure (s : State) (req : AcknowledgeRequest) : Except Error Unit := do
  require s.mem.ready .notLeader
  require (req.epochID = s.mem.epoch) .staleEpoch
  let cp ← demand (s.store.checkpoints.lookup (req.jobID, req.checkpointID)) .decode
  require (cp.tasks.lookup req.taskID = some req.workerID ∧ req.attemptID = cp.attemptID)
    .assignmentMismatch

/-- `HandleAcknowledgeCheckpoint`: a request with a failure is a failure report. -/
def State.handleAcknowledgeCheckpoint (o : Oracle) (s : State) (req : AcknowledgeRequest) : State :=
  match req.failure with
  | none => s.acknowledge o req
  | some reason =>
    match reportCheckpointFailure s req with
    | .ok () => s.spawn (.abort req.jobID req.checkpointID req.epochID (some reason))
    | .error _ => s

/-- The text "checkpoint timed out". -/
def timedOut : Text := 0

/-- `expireCheckpoints`, for one job. -/
def State.expireCheckpoint (cfg : Config) (o : Oracle) (s : State) (j : JobID) : State :=
  match s.mem.activeCheckpoints j with
  | none => s
  | some cp =>
    if cp.epochID ≠ s.mem.epoch then s.setActive j none
    else if cfg.checkpointTimeout ≤ o.now - cp.timestamp then
      s.spawn (.abort cp.jobID cp.id cp.epochID (some timedOut))
    else s

end Wire.Coordinator
