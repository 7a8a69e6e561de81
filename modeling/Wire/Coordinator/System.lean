import Wire.Coordinator.Workers
import Wire.Library.Runs

/-!
# The coordinator as a transition system

An action is a request, a tick of the scheduler, the next stretch of one goroutine, a change
of the environment, or a restart; with it come the choices the environment makes during the
step (`Oracle`).  Requests may arrive with any content at any time, so duplicates, stale and
forged reports are all covered.

Loss of leadership only takes the coordinator's readiness away: its goroutines go on.  A crash
also takes its memory; the goroutines that only send decisions may then still be running in a
process that lost its leadership, and are kept.  Recovery makes its writes one at a time, and
a failed write ends it.  Nothing else writes to the store before recovery is over, so the job
records may as well be read at its end.
-/

namespace Wire.Coordinator

inductive Action where
  /-- A periodic checkpoint, a savepoint, or the final checkpoint. -/
  | triggerCheckpoint (j : JobID) (savepoint : Option SavepointID) (final : Bool)
  | acknowledgeCheckpoint (req : AcknowledgeRequest)
  | expireCheckpoint (j : JobID)
  | updateTaskStatus (req : TaskStatusRequest)
  | missingTask (w : WorkerID) (j : JobID) (t : TaskID)
  | detectLostTaskWorkers (j : JobID)
  | submitJob (j : JobID) (name : Name) (config : Graph) (parallelism : ℕ)
  | cancelJob (j : JobID)
  | pauseJob (j : JobID) (savepoint : SavepointID)
  | resumeJob (j : JobID)
  | rescaleJob (j : JobID) (savepoint : SavepointID) (request : ℕ)
  | deleteSavepoint (j : JobID) (savepoint : SavepointID)
  /-- `schedulePending` takes its snapshot, finding the jobs in the given order. -/
  | tick (js : List JobID)
  /-- `schedulePending` dispatches the next job of its snapshot. -/
  | dispatch
  /-- A goroutine runs to the next point where it does not hold the lock. -/
  | proceed (i : ℕ)
  /-- A goroutine gives up: a read failed or its context ended. -/
  | abandon (i : ℕ)
  | registerWorker (w : WorkerID) (worker : WorkerMeta) (highestSeenEpoch : ℕ)
  | heartbeat (w : WorkerID) (epoch : ℕ) (peer : Option ℕ) (slots : ℕ)
  | expireWorkers
  | disconnectWorker (w : WorkerID)
  | countSlots (w : WorkerID) (slots : ℕ)
  | removeWorker (w : WorkerID)
  | stepDown
  | crash
  /-- A new term begins with the epoch its election granted. -/
  | startRecovery (electionEpoch : ℕ)
  | recoverCheckpoint
  | recoverSavepoint
  | finishRecovery

namespace State

/-- The text of a failed call that should have started a checkpoint. -/
def triggerFailed : Text := 1

/-- Start a checkpoint on the next task: by a command, or by one call per worker that
supports reservations.  A failed call aborts the checkpoint. -/
def startTask (o : Oracle) (s : State) (cp : CheckpointMeta) (task : TaskID) (worker : WorkerID)
    (rest : List (TaskID × WorkerID)) (sent : List WorkerID) (pausing : Option Ref) : State :=
  let w := s.mem.workers.lookup worker
  if w.any (·.supportsReservations) then
    if worker ∈ sent then s.spawn (.startTasks cp rest sent pausing)
    else if w.any (·.rpcClient.isSome) ∧ o.accepted then
      s.spawn (.startTasks cp rest (worker :: sent) pausing)
    else s.spawn (.abort cp.jobID cp.id cp.epochID (some triggerFailed))
  else
    (s.record [.enqueued worker (.takeSnapshot task cp.request)]).spawn
      (.startTasks cp rest sent pausing)

/-- Go on with a goroutine, if it has not come to its end. -/
def goOn (r : State × Option Thread) : State :=
  match r.2 with
  | some t => r.1.spawn t
  | none => r.1

/-- Go on with a goroutine if the call before it succeeded. -/
def andThen (r : State × Bool) (t : Thread) : State := if r.2 then r.1.spawn t else r.1

/-- One stretch of a goroutine, which has been taken off the list. -/
def go (cfg : Config) (o : Oracle) (s : State) : Thread → Option State
  | .schedule r =>
    some (s.spawn (if (s.deref r).status = .failing then .rollback r else .place r))
  | .rollback r => some (andThen (s.rollbackFailedRescale o r) (.inspect r))
  | .inspect r => some (goOn (s, (s.inspectAttempt cfg o r).map (.abortActive r)))
  | .abortActive r l =>
    match l.checkpoint with
    | none => some (s.spawn (.judge r l))
    | some (id, epoch) => some (andThen (s.abort cfg o r.job id epoch none) (.judge r l))
  | .judge r l => some (goOn (s.judgeRestart cfg o r l))
  | .place r =>
    match cfg.taskDescriptors r.job (s.deref r).config (s.deref r).parallelism with
    | none => some (s.spawn (.transitions .scheduler r [.failing, .failed]))
    | some tasks => some (s.spawn (.assign r tasks))
  | .assign r tasks =>
    match o.placement with
    | none =>
      some (if o.insufficientSlots then s.recordRescalePlacementFailure cfg o r else s)
    | some p =>
      if p.assignments.map (·.1) = tasks then some (s.spawn (.publish r p)) else none
  | .publish r p => some (goOn (s.publish cfg o r p))
  | .unrecoverable r =>
    some (s.spawn (.transitions .scheduler r
      (if (s.deref r).status = .failing then [.failed] else [.failing, .failed])))
  | .deliver _ _ _ [] => some s
  | .deliver r a peers (w :: rest) =>
    some ((s.deliver cfg o r a peers w).spawn (.deliver r a peers rest))
  | .transitions _ _ [] => some s
  | .transitions origin r (target :: rest) =>
    some (andThen (s.transition cfg o r target) (.transitions origin r rest))
  | .reported r status attempt =>
    some (s.spawn (.transitions (.report attempt) r (s.reportTargets r status)))
  | .pause r savepoint => some (s.trigger cfg o r.job (some savepoint) false (some r))
  | .startTasks _ [] _ none => some s
  | .startTasks _ [] _ (some r) => some (s.spawn (.transitions .request r [.paused]))
  | .startTasks cp ((task, worker) :: rest) sent pausing =>
    some (s.startTask o cp task worker rest sent pausing)
  | .notify _ [] => some s
  | .notify request ((task, worker) :: rest) =>
    some ((s.record [.enqueued worker (.commitCheckpoint task request)]).spawn
      (.notify request rest))
  | .abort j id epoch failure => some (s.abort cfg o j id epoch failure).1
  | .cancelJob r => some (andThen (s.transition cfg o r .canceling) (.cancelTasks r.job))
  | .cancelTasks j => some (s.cancelTasks j)
  | .submit r name config parallelism createdAt =>
    some (s.persistSubmission o r (.submitted name config parallelism createdAt))
  | .removeWorker w worker => some (s.deleteWorker o w worker)

/-- The job is waiting for the scheduler. -/
def schedulable (s : State) (j : JobID) : Option Ref :=
  (s.mem.job j).filter fun r =>
    (s.deref r).status = .created ∨ (s.deref r).status = .failing

/-- `dispatch`: at most one deployment per record, and at most 32. -/
def dispatch (s : State) (r : Ref) : State :=
  if (s.threads.any fun t => t.scheduling = some r) ∨
      32 ≤ s.threads.countP (fun t => t.scheduling.isSome) then s
  else s.spawn (.schedule r)

/-- A request about a job that is served by a goroutine with the cached record. -/
def serve (s : State) (j : JobID) (t : Ref → Thread) : State :=
  match s.mem.job j with
  | some r => if s.mem.ready then s.spawn (t r) else s
  | none => s

/-- The memory is lost; goroutines that only send decisions may go on elsewhere. -/
def crash (s : State) : State :=
  { s with mem := {}, recovery := none, threads := s.threads.filter (·.notifies) }

/-- `recoverFromStore`: persist the next epoch and collect what was in flight. -/
def startRecovery (o : Oracle) (s : State) (electionEpoch : ℕ) : Option State :=
  if s.mem.recovered = false ∧ s.recovery.isNone ∧ s.store.epoch ≠ maxUint64 ∧ o.written then
    let epoch := max (s.store.epoch + 1) electionEpoch
    some { s with
      store := { s.store with epoch }
      recovery := some {
        epoch
        checkpointsToAbort := s.store.checkpoints.records.filter fun cp =>
          cp.status.inFlight ∧ (s.store.jobs cp.jobID).isSome
        savepointsToFail := s.store.savepoints.records.filter fun sp =>
          sp.status = .inProgress ∧ (s.store.jobs sp.jobID).isSome } }
  else none

/-- `recover`: abort the next checkpoint that was in flight. -/
def recoverCheckpoint (o : Oracle) (s : State) : Option State :=
  match s.recovery with
  | some ⟨epoch, cp :: rest, savepoints⟩ =>
    if o.written then
      some { s.setCheckpoint { cp with status := .aborted } with
        recovery := some ⟨epoch, rest, savepoints⟩ }
    else some { s with recovery := none }
  | _ => none

/-- `recover`: fail the next savepoint that was in progress. -/
def recoverSavepoint (o : Oracle) (s : State) : Option State :=
  match s.recovery with
  | some ⟨epoch, [], sp :: rest⟩ =>
    if o.written then
      some { s.setSavepoint (some { sp with status := .failed }) with
        recovery := some ⟨epoch, [], rest⟩ }
    else some { s with recovery := none }
  | _ => none

/-- `recover`: the names of the jobs that are not terminal. -/
def recoveredNames (s : State) (name : Name) : Option JobID :=
  s.issued.find? fun j => (s.store.jobs j).any fun m => ¬ m.status.isTerminal ∧ m.name = name

/-- `recover`: publish the recovered jobs. -/
def finishRecovery (cfg : Config) (o : Oracle) (s : State) : Option State :=
  match s.recovery with
  | some ⟨epoch, [], []⟩ =>
    some { s with
      recovery := none
      mem :=
        { recovered := true, revoked := s.mem.revoked, epoch
          heap := fun r => (s.store.jobs r.job).getD default
          nextSerial := 1
          jobs := fun j => (s.store.jobs j).map fun _ => 0
          activeJobNames := s.recoveredNames
          workers := s.recoveredWorkers
          recoveryFenceUntil := o.now + cfg.workerTimeout } }
  | _ => none

end State

/-- One step of the coordinator. -/
def step (cfg : Config) (s : State) (a : Action × Oracle) : Option State :=
  let o := a.2
  match a.1 with
  | .triggerCheckpoint j savepoint final => some (s.trigger cfg o j savepoint final none)
  | .acknowledgeCheckpoint req => some (s.handleAcknowledgeCheckpoint o req)
  | .expireCheckpoint j => some (s.expireCheckpoint cfg o j)
  | .updateTaskStatus req => some (s.updateTaskStatus o req)
  | .missingTask w j t => some (s.missingTask cfg o w j t)
  | .detectLostTaskWorkers j => some (s.detectLostTaskWorkers cfg o j)
  | .submitJob j name config parallelism =>
    if s.mem.ready ∧ j ∉ s.issued ∧ 1 ≤ parallelism ∧ s.mem.activeJobNames name = none then
      some (s.submitJob j name config parallelism o.now)
    else none
  | .cancelJob j => some (s.serve j .cancelJob)
  | .pauseJob j savepoint => some (s.serve j fun r => .pause r savepoint)
  | .resumeJob j => some (s.serve j fun r => .transitions .request r [.deploying])
  | .rescaleJob j savepoint request => some (s.rescaleJob cfg o j savepoint request)
  | .deleteSavepoint j savepoint => some (s.deleteSavepoint o j savepoint)
  | .tick js =>
    if s.mem.pending = [] then
      some { s with mem := { s.mem with pending := js.filterMap s.schedulable } }
    else none
  | .dispatch =>
    match s.mem.pending with
    | [] => none
    | r :: rest => some (State.dispatch { s with mem := { s.mem with pending := rest } } r)
  | .proceed i =>
    (s.threads[i]?).bind fun t => State.go cfg o { s with threads := s.threads.eraseIdx i } t
  | .abandon i =>
    -- `SubmitJob` and `RemoveWorker` always come to their writes.
    if (s.threads[i]?).all (·.abandonable) then
      some { s with threads := s.threads.eraseIdx i }
    else none
  | .registerWorker w worker highestSeenEpoch =>
    some (s.registerWorker o w worker highestSeenEpoch)
  | .heartbeat w epoch peer slots => some (s.heartbeat cfg o w epoch peer slots)
  | .expireWorkers => some (s.expireWorkers cfg o)
  | .disconnectWorker w => some (s.disconnectWorker w)
  | .countSlots w slots => some (s.countSlots w slots)
  | .removeWorker w => some (s.removeWorker w)
  | .stepDown => some { s with mem := { s.mem with revoked := true } }
  | .crash => some s.crash
  | .startRecovery electionEpoch => s.startRecovery o electionEpoch
  | .recoverCheckpoint => s.recoverCheckpoint o
  | .recoverSavepoint => s.recoverSavepoint o
  | .finishRecovery => s.finishRecovery cfg o

/-- The states of a coordinator that started over an empty store. -/
abbrev Reachable (cfg : Config) : State → Prop := Runs.Reachable (step cfg) State.initial

/-! ## A small cluster

Two workers and one job with one task: the runs that later modules exhibit are built from
these pieces. -/

namespace Sample

def config : Config where
  taskDescriptors := fun j _ _ => some [{ taskID := 10 + j }]
  taskJob := fun t => t - 10
  taskJob_eq := by simp

def oracle : Oracle := { now := 2 }

def worker (address : Address) : WorkerMeta :=
  { taskSlotsAvailable := 4, checkpointAddress := some address }

/-- The task on worker 1, whose replica is worker 2. -/
def placement (attempt : AttemptID) : Placement :=
  { attemptID := attempt, assignments := [({ taskID := 10 }, 1)], peers := [] }

/-- A report of the task. -/
def statusReport (attempt : AttemptID) (status : TaskStatus) : TaskStatusRequest :=
  { jobID := 0, taskID := 10, workerID := 1, attemptID := attempt, epochID := 1, status }

/-- The task reports a status. -/
def report (attempt : AttemptID) (status : TaskStatus) : Action :=
  .updateTaskStatus (statusReport attempt status)

/-- The task's acknowledgement of a checkpoint. -/
def acknowledgement (id : ℕ) (attempt : AttemptID) (prepared : Bool) : AcknowledgeRequest :=
  { jobID := 0, checkpointID := id, epochID := 1, taskID := 10, workerID := 1
    attemptID := attempt
    state := some
      { taskID := 10, path := some 2
        manifest := some (.task { taskID := 10, sinkPrepared := prepared }) } }

/-- The task acknowledges a checkpoint. -/
def acknowledge (id : ℕ) (attempt : AttemptID) (prepared : Bool) : Action :=
  .acknowledgeCheckpoint (acknowledgement id attempt prepared)

/-- The same choices for each of some actions. -/
def each (as : List Action) : List (Action × Oracle) := as.map fun a => (a, oracle)

/-- The first term begins, two workers register, and the job is submitted. -/
def start : List (Action × Oracle) :=
  each [.startRecovery 0, .finishRecovery, .registerWorker 1 (worker 1) 0,
    .registerWorker 2 (worker 2) 0, .submitJob 0 0 0 1, .proceed 0]

/-- The goroutine at the given position goes through a placement, up to the point where it
publishes the deployment. -/
def place (i : ℕ) (attempt : AttemptID) : List (Action × Oracle) :=
  each [.proceed i, .proceed i] ++
    [(.proceed i, { oracle with placement := some (placement attempt) })]

/-- The job is deployed for the first time. -/
def deploy (attempt : AttemptID) : List (Action × Oracle) :=
  each [.tick [0], .dispatch] ++ place 0 attempt ++ each [.proceed 0, .proceed 0, .proceed 0]

/-- The goroutine that finds the job failing goes through `prepareTaskRestart` and a placement,
up to the point where it publishes the deployment. -/
def restart (o : Oracle) (i : ℕ) (p : Placement) : List (Action × Oracle) :=
  ([Action.tick [0], Action.dispatch] ++ List.replicate 6 (Action.proceed i)).map (·, o) ++
    [(.proceed i, { o with placement := some p })]

/-- A checkpoint is triggered and completed, and its goroutines come to their end. -/
def checkpoint (id : ℕ) (attempt : AttemptID) (prepared : Bool) : List (Action × Oracle) :=
  each [.triggerCheckpoint 0 none false, acknowledge id attempt prepared, .proceed 0, .proceed 0,
    .proceed 0, .proceed 0]

/-- The task reports a status, and the goroutine at the given position draws the
consequences for the job. -/
def reported (i : ℕ) (attempt : AttemptID) (status : TaskStatus) : List (Action × Oracle) :=
  each [report attempt status, .proceed i, .proceed i, .proceed i]

end Sample

end Wire.Coordinator
