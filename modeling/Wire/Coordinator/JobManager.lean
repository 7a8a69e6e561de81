import Wire.Coordinator.CheckpointManager

/-!
# Job states, task reports and rescaling

`job_state_machine.go`, `job_manager.go`, `rpc_handlers.go`, `reconcile.go`,
`task_worker_loss.go`, `rescale_manager.go` and `checkpoint_selection.go`.

`transitionJob` changes the record it is given before it writes it, and leaves the change in
memory when the write fails; the functions that copy the record first do not.
-/

namespace Wire.Coordinator

open Guard Function

/-! ## Transitions -/

/-- The record after a transition. -/
def JobMeta.transition (cfg : Config) (now : Time) (target : JobStatus) (m : JobMeta) : JobMeta :=
  let m₁ := if target = .failing then resetStableRecoveryBudget cfg now m else m
  let m₂ := if target = .running then
      { m₁ with
        rescaleRollback := none, runningSince := now
        consecutiveCheckpointFailures := 0, checkpointOutcomes := [] }
    else m₁
  let m₃ := if m.status = .failing ∧ target = .deploying then
      if m.rescaleRequested then { m₂ with rescaleRequested := false }
      else { m₂ with
        restartCount := m₂.restartCount + 1, recoveryAttempts := m₂.recoveryAttempts + 1 }
    else m₂
  { m₃ with status := target, updatedAt := now }

/-- `persistJobLocked(r)`. -/
def State.persistJob (s : State) (r : Ref) : State :=
  (s.setJob r.job (s.deref r)).cache r

/-- A terminal job gives up its name. -/
def State.releaseName (s : State) (name : Name) (target : JobStatus) : State :=
  { s with mem := { s.mem with activeJobNames :=
    if target.isTerminal then update s.mem.activeJobNames name none
    else s.mem.activeJobNames } }

/-- `transitionJob`; the second component says whether it returned without an error. -/
def State.transition (cfg : Config) (o : Oracle) (s : State) (r : Ref) (target : JobStatus) :
    State × Bool :=
  if target ∈ validTransitions (s.deref r).status then
    let s' := (s.releaseName (s.deref r).name target).assign r
      ((s.deref r).transition cfg o.now target)
    if o.written then (s'.persistJob r, true) else (s', false)
  else (s, false)

/-- Persist a new version of a record and then make it the record's content. -/
def State.replaceJob (o : Oracle) (s : State) (r : Ref) (next : JobMeta) : State × Bool :=
  if o.written then (((s.setJob r.job next).assign r next).cache r, true) else (s, false)

/-! ## Submission and client requests -/

/-- The record of a submitted job. -/
def JobMeta.submitted (name : Name) (config : Graph) (parallelism : ℕ) (createdAt : Time) :
    JobMeta :=
  { name, config, parallelism, updatedAt := createdAt }

/-- `SubmitJob`, up to its write: the name is taken and the record cached before the record is
persisted. -/
def State.submitJob (s : State) (j : JobID) (name : Name) (config : Graph) (parallelism : ℕ)
    (now : Time) : State :=
  let s' := s.adopt j (.submitted name config parallelism now)
  ({ s' with
    mem := { s'.mem with
      activeJobNames := update s'.mem.activeJobNames name (some j) }
    issued := j :: s.issued }).spawn
      (.submit ⟨j, s.mem.nextSerial⟩ name config parallelism now)

/-- `SubmitJob`: the write of the record as it was created, made without the lock. -/
def State.persistSubmission (o : Oracle) (s : State) (r : Ref) (record : JobMeta) : State :=
  if o.written then s.setJob r.job record
  else { s with
    mem := { s.mem with
      jobs := update s.mem.jobs r.job none
      activeJobNames := update s.mem.activeJobNames record.name none } }

/-- `CancelJob`, after the transition. -/
def State.cancelTasks (s : State) (j : JobID) : State :=
  match s.store.assignments j with
  | some a => s.record (a.assignments.entries.map fun e =>
      .enqueued e.2 (.cancelTask j e.1 a.epochID a.attemptID))
  | none => s

/-- `DeleteSavepoint`. -/
def deleteSavepoint (s : State) (j : JobID) (sp : SavepointID) : Except Error Unit := do
  require s.mem.ready .notLeader
  let record ← demand (s.store.savepoints.lookup (j, sp)) .savepointNotFound
  require ((s.mem.job j).all fun r =>
    let job := s.deref r
    job.status.isTerminal ∨ job.rescaleCheckpoint = 0 ∨
      job.rescaleCheckpoint ≠ record.checkpointID ∨ job.latestCheckpoint ≠ record.checkpointID)
    .savepointInUse
  require (record.status ≠ .inProgress) .checkpointInProgress

def State.deleteSavepoint (o : Oracle) (s : State) (j : JobID) (sp : SavepointID) : State :=
  match Coordinator.deleteSavepoint s j sp with
  | .ok () =>
    if o.written then
      { s with store := { s.store with savepoints := s.store.savepoints.delete (j, sp) } }
    else s
  | .error _ => s

/-! ## Task reports -/

/-- `allTasksInStatus`: an exhausted source still counts as running. -/
def State.allTasksInStatus (s : State) (j : JobID) (status : TaskStatus) : Bool :=
  match s.store.assignments j with
  | none => false
  | some a => a.assignments.len ≠ 0 ∧
      a.assignments.entries.all fun e =>
        s.mem.taskStatuses e.1 = some status ∨
          (status = .running ∧ s.mem.taskStatuses e.1 = some .finishing)

/-- A later status of the attempt is already known. -/
def TaskStatus.retained (previous : Option TaskStatus) (status : TaskStatus) : Bool :=
  match previous with
  | none => false
  | some p => (p.isTerminal ∧ p ≠ status) ∨ (p = .running ∧ status = .deploying) ∨
      (p = .finishing ∧ (status = .running ∨ status = .deploying))

/-- `HandleUpdateTaskStatus`: the assignment that the report is checked against. -/
def acceptTaskStatus (s : State) (req : TaskStatusRequest) :
    Except Error (Ref × TaskAssignmentMap) := do
  require (s.mem.ready ∧ req.epochID = s.mem.epoch) .assignmentMismatch
  let r ← demand (s.mem.job req.jobID) .assignmentMismatch
  require (¬ (s.deref r).status.isTerminal) .assignmentMismatch
  let a ← demand (s.store.assignments req.jobID) .assignmentMismatch
  require (a.assignments.lookup req.taskID = some req.workerID ∧ a.attemptID = req.attemptID)
    .assignmentMismatch
  pure (r, a)

/-- What an unavailable checkpoint changes: its record, and the refund of the attempt. -/
structure Invalidation where
  checkpoint : CheckpointMeta
  job : JobMeta
  assignment : TaskAssignmentMap

/-- Return the charge of a deployment to the restart budget. -/
def JobMeta.refund (charged : Bool) (m : JobMeta) : JobMeta :=
  if charged ∧ 0 < m.recoveryAttempts then
    { m with recoveryAttempts := m.recoveryAttempts - 1 }
  else m

/-- A report that the checkpoint restored from is unavailable invalidates its record, and
returns the charge of the deployment to the restart budget, once. -/
def invalidation (s : State) (req : TaskStatusRequest) (r : Ref) (a : TaskAssignmentMap) :
    Except Error (Option Invalidation) :=
  match req.failure with
  | none => pure none
  | some f =>
    if req.status = .failed ∧ f.checkpointUnavailable then
      match a.restoreCheckpoints.lookup req.taskID with
      | none => pure none
      | some restore => do
        let cp ← demand (s.store.checkpoints.lookup (req.jobID, restore.checkpointID)) .decode
        if cp.jobID = req.jobID ∧ cp.epochID = restore.epochID then
          pure (some {
            checkpoint := { cp with invalidReason := f.errorMessage }
            job := (s.deref r).refund a.recoveryAttemptCharged
            assignment := { a with recoveryAttemptCharged := false } })
        else pure none
    else pure none

/-- Note the status and go on to the job-level transition. -/
def State.noteTaskStatus (s : State) (r : Ref) (req : TaskStatusRequest) : State :=
  ((s.setTaskStatus req.taskID req.status).record [.reported req]).spawn
    (.reported r req.status req.attemptID)

/-- `HandleUpdateTaskStatus`, its first critical section. -/
def State.updateTaskStatus (o : Oracle) (s : State) (req : TaskStatusRequest) : State :=
  match acceptTaskStatus s req with
  | .error _ => s
  | .ok (r, a) =>
    if TaskStatus.retained (s.mem.taskStatuses req.taskID) req.status then s
    else
      match invalidation s req r a with
      | .error _ => s
      | .ok none => s.noteTaskStatus r req
      | .ok (some i) =>
        if o.written then
          ((((s.setCheckpoint i.checkpoint).setJob req.jobID i.job).setAssignments req.jobID
            i.assignment).assign r i.job).noteTaskStatus r req
        else s

/-- `HandleUpdateTaskStatus`, the job-level transitions that follow a report. -/
def State.reportTargets (s : State) (r : Ref) : TaskStatus → List JobStatus
  | .running | .finishing =>
    if s.allTasksInStatus r.job .running ∧ (s.deref r).status = .deploying then [.running] else []
  | .failed | .canceled =>
    if (s.deref r).status = .deploying ∨ (s.deref r).status = .running then [.failing] else []
  | .finished =>
    if s.allTasksInStatus r.job .finished ∧ (s.deref r).status = .running then
      [.finishing, .finished]
    else []
  | _ => []

/-! ## Lost and re-registering workers -/

/-- The tasks of an assignment that lost their worker. -/
def State.lostTasks (s : State) (a : TaskAssignmentMap) : List TaskID :=
  (a.assignments.entries.filter fun e =>
    s.mem.taskStatuses e.1 ≠ some .finished ∧ (s.mem.workers.lookup e.2).all (·.lost)).map (·.1)

/-- `detectLostTaskWorkers`, for one job. -/
def State.detectLostTaskWorkers (cfg : Config) (o : Oracle) (s : State) (j : JobID) : State :=
  match s.mem.job j, s.store.assignments j with
  | some r, some a =>
    let job := s.deref r
    if s.mem.ready ∧ (job.status = .running ∨ job.status = .deploying ∨ job.status = .failing) then
      let lost := s.lostTasks a
      let s' := lost.foldl (fun s t => s.setTaskStatus t .failed) s
      if lost ≠ [] ∧ job.status ≠ .failing then (s'.replaceJob o r (job.fail cfg o.now)).1 else s'
    else s
  | _, _ => s

/-- `registerWorker`, for one task that was assigned to the worker and that it does not run. -/
def State.missingTask (cfg : Config) (o : Oracle) (s : State) (w : WorkerID) (j : JobID)
    (t : TaskID) : State :=
  match s.mem.job j, s.store.assignments j with
  | some r, some a =>
    let job := s.deref r
    if s.mem.ready ∧ ¬ job.status.isTerminal ∧ a.assignments.lookup t = some w then
      let s' := s.setTaskStatus t .failed
      if (job.status = .running ∨ job.status = .deploying) ∧ o.written then
        (s'.setJob j (job.fail cfg o.now)).assign r (job.fail cfg o.now)
      else s'
    else s
  | _, _ => s

/-! ## Selecting the recovery checkpoint -/

/-- `checkpointInventory`, as far as its errors go. -/
def checkpointInventory (o : Oracle) (cp : CheckpointMeta) : Except Error Unit :=
  if cp.invalidReason ≠ none then .error .checkpointInvalid
  else if cp.manifestVersion = 0 then .ok ()
  else if cp.manifestVersion ≠ currentSchemaVersion then .error .unsupportedSchemaVersion
  else
    match o.manifest cp with
    | .valid => .ok ()
    | .invalid => .error .checkpointInvalid
    | .unsupported => .error .unsupportedSchemaVersion
    | .unreadable => .error .checkpointStoreRead

/-- The checkpoint a job is pinned to by a rescale. -/
def JobMeta.pinned (m : JobMeta) : Option ℕ :=
  if m.rescaleCheckpoint ≠ 0 ∧ m.rescaleCheckpoint = m.latestCheckpoint then
    some m.rescaleCheckpoint
  else none

/-- The completed checkpoints up to a boundary, newest first. -/
def recoveryCandidates (st : Store) (j : JobID) (latest : ℕ) : List CheckpointMeta :=
  ((st.checkpointsOf j).filter fun cp => cp.id ≤ latest ∧ cp.status = .completed).insertionSort
    fun a b => b.id ≤ a.id

/-- The loop of `selectRecoveryCheckpointLocked` over its candidates. -/
def chooseCheckpoint (o : Oracle) (pinned : Option ℕ) :
    List CheckpointMeta → Except Error CheckpointMeta
  | [] => .error .noValidCheckpoint
  | cp :: rest =>
    if pinned.any fun id => cp.id ≠ id then chooseCheckpoint o pinned rest
    else
      match checkpointInventory o cp with
      | .ok () => .ok cp
      | .error e =>
        if e = .unsupportedSchemaVersion ∨ e = .checkpointStoreRead then .error e
        -- Completion authorises the commit, so a prepared sink may have committed.
        else if cp.sinkPrepared then .error .noValidCheckpoint
        else if pinned.isSome then .error e
        else chooseCheckpoint o pinned rest

/-- `selectRecoveryCheckpointLocked`, up to the write of a lowered boundary. -/
def selectRecoveryCheckpoint (o : Oracle) (st : Store) (j : JobID) (m : JobMeta) :
    Except Error CheckpointMeta :=
  chooseCheckpoint o m.pinned (recoveryCandidates st j m.latestCheckpoint)

/-- The key groups of a record that may be absent. -/
def orDefaultKeyGroups (n : ℕ) : ℕ := if n = 0 then defaultNumKeyGroups else n

/-- `attachCheckpointRestoreLocked`, what each task restores from the selected checkpoint. -/
def restoreDescriptors (cfg : Config) (st : Store) (j : JobID) (m : JobMeta)
    (cp : CheckpointMeta) (tasks : List TaskDescriptor) :
    Except Error (GoMap TaskID RestoreDescriptor) :=
  if m.rescaleCheckpoint ≠ 0 ∧ m.rescaleCheckpoint = cp.id then do
    let id ← demand cp.savepointID .rescaleSavepoint
    let sp ← demand (st.savepoints.lookup (j, id)) .savepointNotFound
    require (sp.jobID = j ∧ sp.id = id ∧ sp.status = .completed ∧ sp.checkpointID = cp.id ∧
      sp.epochID = cp.epochID ∧ sp.numKeyGroups = cp.numKeyGroups) .rescaleSavepoint
    require (cfg.rescalePlan cp tasks) .rescalePlan
    pure ∅
  else do
    require (tasks.all fun t =>
      orDefaultKeyGroups t.numKeyGroups = orDefaultKeyGroups cp.numKeyGroups ∧
        (cp.tasks.lookup t.taskID).isSome ∧ (cp.statePaths.lookup t.taskID).isSome ∧
        cp.statePaths.lookup t.taskID = cp.replicas.lookup t.taskID) .topologyChanged
    require (tasks.length = cp.tasks.len) .topologyChanged
    pure (tasks.foldl (fun found t =>
      match cp.statePaths.lookup t.taskID with
      | some path => found.insert t.taskID ⟨cp.id, cp.epochID, path⟩
      | none => found) ∅)

/-! ## Rescaling -/

/-- The record a rescale request asks for: the new graph, pinned to the savepoint. -/
def JobMeta.rescale (cfg : Config) (now : Time) (checkpoint : ℕ) (config : Graph)
    (parallelism : ℕ) (m : JobMeta) : JobMeta :=
  { resetStableRecoveryBudget cfg now m with
    rescaleRollback := some
      { config := m.config, parallelism := m.parallelism, checkpoint := m.latestCheckpoint }
    config, parallelism, rescaleCheckpoint := checkpoint, rescaleRequested := true
    status := .failing, updatedAt := now }

/-- `rescaleJob`, up to the validation of the candidate. -/
def rescaleCandidate (cfg : Config) (o : Oracle) (s : State) (j : JobID)
    (savepoint : SavepointID) (request : ℕ) :
    Except Error (Ref × JobMeta × List TaskDescriptor) := do
  require s.mem.ready .notLeader
  let r ← demand (s.mem.job j) .jobNotFound
  let job := s.deref r
  require (job.status = .running) .invalidTransition
  require (s.mem.activeCheckpoints j).isNone .checkpointInProgress
  let sp ← demand (s.store.savepoints.lookup (j, savepoint)) .savepointNotFound
  require (sp.status = .completed ∧ sp.checkpointID ≠ 0 ∧ sp.checkpointID = job.latestCheckpoint)
    .invalidTransition
  let (config, parallelism) ← demand (cfg.rescaled job.config job.parallelism request)
    .invalidConfig
  let tasks ← demand (cfg.taskDescriptors j config parallelism) .invalidConfig
  pure (r, job.rescale cfg o.now sp.checkpointID config parallelism, tasks)

/-- What the validation of a candidate asks of the store. -/
def validateCandidate (cfg : Config) (o : Oracle) (s : State) (j : JobID) (candidate : JobMeta)
    (tasks : List TaskDescriptor) : Except Error Unit := do
  let cp ← selectRecoveryCheckpoint o s.store j candidate
  let _ ← restoreDescriptors cfg s.store j candidate cp tasks
  pure ()

/-- `rescaleJob`, up to its write.  The candidate is pinned to its latest checkpoint, so the
selection that validates it never lowers a boundary. -/
def rescaleJob (cfg : Config) (o : Oracle) (s : State) (j : JobID) (savepoint : SavepointID)
    (request : ℕ) : Except Error (Ref × JobMeta) := do
  let (r, candidate, tasks) ← rescaleCandidate cfg o s j savepoint request
  validateCandidate cfg o s j candidate tasks
  pure (r, candidate)

def State.rescaleJob (cfg : Config) (o : Oracle) (s : State) (j : JobID)
    (savepoint : SavepointID) (request : ℕ) : State :=
  match Coordinator.rescaleJob cfg o s j savepoint request with
  | .ok (r, candidate) => (s.replaceJob o r candidate).1
  | .error _ => s

end Wire.Coordinator
