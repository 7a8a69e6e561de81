import Wire.Coordinator.JobManager

/-!
# Restarting and deploying jobs

`scheduler.go`, `task_restart.go` and `checkpoint_deployment.go`: what a scheduling goroutine
does with the record it was started on, one function per stretch between two points where it
does not hold the lock.  A function that lets the goroutine go on returns its next position.

Everything here works on the record behind the goroutine's own pointer.  The one place where
that record stops being the cached one is `State.lowerBoundary`: a selection that falls back
to an older checkpoint persists a copy of the record, which makes the copy the cached record,
and then goes on with the old one.
-/

namespace Wire.Coordinator

/-! ## `prepareTaskRestart` -/

/-- The record with the topology from before the rescale. -/
def JobMeta.rollBack (old : RescaleRollback) (m : JobMeta) : JobMeta :=
  { m with
    config := old.config, parallelism := old.parallelism, latestCheckpoint := old.checkpoint
    rescaleCheckpoint := 0, rescaleRequested := false, rescaleRollback := none }

/-- `rollbackFailedRescale`; the second component says whether it returned without an error. -/
def State.rollbackFailedRescale (o : Oracle) (s : State) (r : Ref) : State × Bool :=
  match (s.deref r).rescaleRollback with
  | none => (s, true)
  | some old =>
    if s.mem.ready ∧ (s.deref r).status = .failing ∧ old.attempted then
      s.replaceJob o r ((s.deref r).rollBack old)
    else (s, true)

/-- The worker was heard of within the timeout. -/
def WorkerMeta.live (cfg : Config) (now : Time) (w : WorkerMeta) : Bool :=
  w.lastHeartbeat ≠ 0 ∧ now - w.lastHeartbeat < cfg.workerTimeout

/-- The tasks of the old attempt that still have to be cancelled; `none` if a worker of an
earlier term may still be running one of them. -/
def restartCancels (cfg : Config) (now : Time) (s : State) (a : TaskAssignmentMap) :
    List (TaskID × WorkerID) → Option (List (WorkerID × TaskID))
  | [] => some []
  | (task, owner) :: rest =>
    let worker := s.mem.workers.lookup owner
    if a.epochID < s.mem.epoch ∧ now < s.mem.recoveryFenceUntil ∧
        worker.all (·.lastHeartbeat = 0) then none
    else if worker.all fun w => ¬ w.live cfg now then restartCancels cfg now s a rest
    else if (s.mem.taskStatuses task).any (·.isTerminal) then restartCancels cfg now s a rest
    else (restartCancels cfg now s a rest).map ((owner, task) :: ·)

/-- `prepareTaskRestart`: the first look at the old attempt. -/
def State.inspectAttempt (cfg : Config) (o : Oracle) (s : State) (r : Ref) : Option Restart :=
  if (s.deref r).status = .failing ∧ s.mem.ready then
    (s.store.assignments r.job).bind fun a =>
      (restartCancels cfg o.now s a (a.assignments.entries.map fun e => (e.1, e.2))).map
        fun cancels =>
          { checkpoint := (s.mem.activeCheckpoints r.job).map fun cp => (cp.id, cp.epochID)
            cancelTasks := cancels
            epochID := a.epochID
            attemptID := a.attemptID
            restarts := (s.deref r).recoveryAttempts
            updated := (s.deref r).updatedAt
            rescale := (s.deref r).rescaleRequested }
  else none

/-- `prepareTaskRestart`: cancel what still runs, and check the restart budget. -/
def State.judgeRestart (cfg : Config) (o : Oracle) (s : State) (r : Ref) (l : Restart) :
    State × Option Thread :=
  let s' := s.record (l.cancelTasks.map fun c =>
    .enqueued c.1 (.cancelTask r.job c.2 l.epochID l.attemptID))
  if l.cancelTasks ≠ [] then (s', none)
  else if l.rescale = false ∧ cfg.restartMaxAttempts ≤ l.restarts then
    (s', some (.transitions .scheduler r [.failed]))
  else if l.rescale = false ∧ 0 < l.restarts ∧
      o.now - l.updated < cfg.restartBackoff * 2 ^ min (l.restarts - 1) 6 then (s', none)
  else (s', some (.place r))

/-! ## Placement -/

/-- `recordRescalePlacementFailure`. -/
def State.recordRescalePlacementFailure (cfg : Config) (o : Oracle) (s : State) (r : Ref) : State :=
  match (s.deref r).rescaleRollback with
  | none => s
  | some old =>
    if s.mem.ready ∧ (s.deref r).status = .failing ∧ old.attempted = false then
      let since := if old.placementFailedSince = 0 then o.now else old.placementFailedSince
      (s.replaceJob o r { s.deref r with
        rescaleRollback := some { old with
          placementFailedSince := since
          attempted := 2 * cfg.heartbeatInterval ≤ o.now - since } }).1
    else s

/-- `assignmentsLiveLocked`, and the check that the reserved connections are still current. -/
def State.placementLive (cfg : Config) (o : Oracle) (s : State) (p : Placement) : Bool :=
  (p.assignments.all fun a =>
    (s.mem.workers.lookup a.2).any fun w =>
      w.live cfg o.now ∧
        ((p.assignments.countP fun b => b.2 = a.2) ≤ w.taskSlotsAvailable ∨
          (p.peers.lookup a.2).isSome)) &&
  p.peers.all fun peer =>
    (s.mem.workers.lookup peer.1).any fun w =>
      w.rpcClient = some peer.2 ∧ w.rpcPeerEpoch = s.mem.epoch

/-- `checkpointPeerLocked`: the first live worker with another replica address. -/
def State.checkpointPeer (cfg : Config) (o : Oracle) (s : State) (source : WorkerID) :
    Option Address :=
  (s.mem.workers.lookup source).bind fun w =>
    if w.checkpointAddress = none then none
    else
      let candidates := s.mem.workers.entries.filter fun e =>
        e.1 ≠ source ∧ e.2.checkpointAddress ≠ none ∧
          e.2.checkpointAddress ≠ w.checkpointAddress ∧ e.2.live cfg o.now
      (candidates.map (·.1)).min?.bind fun id =>
        (s.mem.workers.lookup id).bind (·.checkpointAddress)

/-! ## Publishing a deployment -/

/-- `persistJobLocked(&next)` for a copy of the record with a lower recovery boundary, and the
same change to the record itself.  The copy becomes the cached record. -/
def State.lowerBoundary (s : State) (r : Ref) (id : ℕ) : State :=
  let next := { s.deref r with latestCheckpoint := id }
  ((s.setJob r.job next).adopt r.job next).assign r next

/-- What a deployment restores from. -/
structure Restore where
  boundary : ℕ
  descriptors : GoMap TaskID RestoreDescriptor

/-- `attachCheckpointRestoreLocked`. -/
def State.attachCheckpointRestore (cfg : Config) (o : Oracle) (s : State) (r : Ref)
    (tasks : List TaskDescriptor) : State × Except Error Restore :=
  let job := s.deref r
  if job.latestCheckpoint < job.rescaleCheckpoint then (s, .error .rescaleNotSelected)
  else if job.latestCheckpoint = 0 then (s, .ok ⟨0, ∅⟩)
  else
    match selectRecoveryCheckpoint o s.store r.job job with
    | .error e => (s, .error e)
    | .ok cp =>
      let restore := (restoreDescriptors cfg s.store r.job job cp tasks).map (Restore.mk cp.id)
      if cp.id = job.latestCheckpoint then (s, restore)
      else if o.boundaryWritten then (s.lowerBoundary r cp.id, restore)
      else (s, .error .storeWrite)

/-- The charge of a deployment to the restart budget. -/
def JobMeta.charged (m : JobMeta) : Bool := m.status = .failing ∧ m.rescaleRequested = false

/-- The record of a deployed job. -/
def JobMeta.deploy (now : Time) (m : JobMeta) : JobMeta :=
  { m with
    deploymentGeneration := m.deploymentGeneration + 1
    rescaleRollback := m.rescaleRollback.map fun old => { old with attempted := true }
    restartCount := if m.charged then m.restartCount + 1 else m.restartCount
    recoveryAttempts := if m.charged then m.recoveryAttempts + 1 else m.recoveryAttempts
    rescaleRequested := if m.status = .failing then false else m.rescaleRequested
    status := .deploying, updatedAt := now }

/-- The assignments of a deployment. -/
def State.assignment (cfg : Config) (o : Oracle) (s : State) (m : JobMeta) (p : Placement)
    (restore : Restore) : TaskAssignmentMap where
  attemptID := p.attemptID
  epochID := s.mem.epoch
  assignments := p.assignments.foldl (fun found a => found.insert a.1.taskID a.2) ∅
  replicas := p.assignments.foldl (fun found a =>
    match s.checkpointPeer cfg o a.2 with
    | some address => found.insert a.1.taskID address
    | none => found) ∅
  taskDescriptors := p.assignments.map fun a =>
    { a.1 with deploymentGeneration := m.deploymentGeneration + 1 }
  restoreCheckpoints := restore.descriptors
  recoveryAttemptCharged := m.charged

/-- Persist the record and the assignments in one batch, and forget the statuses that the
tasks had in an earlier attempt. -/
def State.deploy (cfg : Config) (o : Oracle) (s : State) (r : Ref) (p : Placement)
    (restore : Restore) : State :=
  let next := (s.deref r).deploy o.now
  let s' := (((s.setJob r.job next).setAssignments r.job
    (s.assignment cfg o (s.deref r) p restore)).assign r next).record
      [.deployed r.job p.attemptID next.deploymentGeneration restore.boundary]
  { s' with
    mem := { s'.mem with
      taskStatuses := fun t =>
        if t ∈ p.assignments.map (·.1.taskID) then none else s'.mem.taskStatuses t } }

/-- `scheduleJobContext`, the critical section that publishes the deployment. -/
def State.publish (cfg : Config) (o : Oracle) (s : State) (r : Ref) (p : Placement) :
    State × Option Thread :=
  let job := s.deref r
  if s.mem.ready ∧ (job.status = .created ∨ job.status = .failing) ∧ s.placementLive cfg o p ∧
      o.addressesResolved then
    match s.attachCheckpointRestore cfg o r (p.assignments.map (·.1)) with
    | (s', .error e) =>
      (s', if e = .noValidCheckpoint ∨ e = .unsupportedSchemaVersion then
          some (.unrecoverable r)
        else none)
    | (s', .ok restore) =>
      if (s'.deref r).deploymentGeneration = maxUint64 then (s', none)
      else if o.written then
        (s'.deploy cfg o r p restore,
          some (.deliver r (s'.assignment cfg o (s'.deref r) p restore) p.peers
            (p.assignments.map (·.2)).dedup))
      else (s', none)
  else (s, none)

/-! ## Delivering a deployment -/

/-- The tasks of a worker. -/
def TaskAssignmentMap.tasksOf (a : TaskAssignmentMap) (w : WorkerID) : List TaskID :=
  (a.assignments.entries.filter fun e => e.2 = w).map (·.1)

/-- The generation that the descriptor of a task carries. -/
def TaskAssignmentMap.generationOf (a : TaskAssignmentMap) (t : TaskID) : ℕ :=
  ((a.taskDescriptors.find? fun d => d.taskID = t).map (·.deploymentGeneration)).getD 0

/-- The command to deploy a task of an assignment. -/
def TaskAssignmentMap.deployment (a : TaskAssignmentMap) (j : JobID) (t : TaskID) : Command :=
  .deployTask j t a.epochID a.attemptID (a.generationOf t)

/-- `scheduleJobContext`: hand one worker its tasks, by a call if a slot was reserved there and
by commands otherwise.  A refused call fails the job. -/
def State.deliver (cfg : Config) (o : Oracle) (s : State) (r : Ref) (a : TaskAssignmentMap)
    (peers : List (WorkerID × ℕ)) (w : WorkerID) : State :=
  if (peers.lookup w).isSome then
    let calls := (a.tasksOf w).map fun t => .called w (a.deployment r.job t)
    if o.accepted then s.record calls
    else (s.transition cfg o r .failing).1.record
      (calls ++
        (a.tasksOf w).map fun t => .enqueued w (.cancelTask r.job t a.epochID a.attemptID))
  else s.record ((a.tasksOf w).map fun t => .enqueued w (a.deployment r.job t))

end Wire.Coordinator
