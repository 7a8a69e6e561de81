import Wire.Coordinator.CommandQueue
import Wire.Coordinator.System
import Wire.Engine.BarrierPath
import Wire.Worker.System

/-!
# The coordinator, the workers and the tasks of a job

The components of the other modules, put together along the way of a checkpoint.  The coordinator
persists a checkpoint and tells the tasks to start it, by commands or by calls.  A command goes
through the coordinator's queues, over the stream of its worker or with the response to a
heartbeat, and the worker handles what comes on either in order, and the two in any order.  It puts
a trigger or a decision into the mailbox of a task.  A source takes the trigger and lets the barrier
into its chain; chains pass it on to the tasks downstream.  When the snapshots of a chain are
uploaded, the task may acknowledge the checkpoint; when all have, the coordinator completes it, and
a goroutine sends the decisions.

Every delay is possible: between any two of these points the other components may take any number
of steps.

The tasks are those of one job, the other jobs are part of what the coordinator and the workers do.
What the steps leave out is failure: processes do not end, and a task is started once.  Failed
writes, calls that time out after they were delivered, and tasks that fail by themselves are there.

## Reading the model against the source

A source has one virtual input.  `acceptBoundary` takes a trigger and puts its barrier into that
input, whose reader reports it to the aligner and announces it to the chain, in the order of the
source function.  A source waits until its chain has handled the barrier; here it does not have to.

A stream between two tasks is the inbox of the reader at its end, or `early` as long as that task
has not started.
-/

namespace Wire.Cluster

open Function

open Wire.Coordinator (JobID TaskID WorkerID Oracle)
open Wire.Engine (CheckpointIdentity ChainConfig InputMsg Obs Task)
open Wire.Worker (OperatorType Process)

/-! ## Configuration and state -/

structure Config where
  coordinator : Coordinator.Config
  worker : WorkerID → Worker.Config
  job : JobID
  operators : TaskID → List OperatorType
  /-- The descriptor of the task names a replica, so that it takes part in checkpoints. -/
  replicated : TaskID → Bool
  chain : TaskID → ChainConfig
  maxBufferSize : ℕ
  /-- The tasks that a task sends to, each with the input that the stream is there. -/
  downstream : TaskID → List (TaskID × ℕ)

structure State where
  coordinator : Coordinator.State := .initial
  commands : Coordinator.CommandQueue.State := {}
  /-- How many of the commands that were written to its stream a worker has handled. -/
  streamed : WorkerID → ℕ := fun _ => 0
  /-- How many of the commands that were returned with its heartbeats a worker has handled. -/
  answered : WorkerID → ℕ := fun _ => 0
  workers : WorkerID → Worker.State := fun _ => .initial none
  /-- The highest trigger that a source has accepted. -/
  last : TaskID → CheckpointIdentity := fun _ => ⟨0, 0⟩
  tasks : TaskID → Option Task := fun _ => none
  /-- What was sent to a task that has not started. -/
  early : TaskID → ℕ → List InputMsg := fun _ _ => []

namespace State

variable (s : State)

def setTask (t : TaskID) (k : Task) : State :=
  { s with tasks := update s.tasks t (some k) }

def setProcess (w : WorkerID) (p : Process) : State :=
  { s with workers := update s.workers w { s.workers w with process := some p } }

/-- A message goes to an input of a task. -/
def deliver (d : TaskID × ℕ) (m : InputMsg) : State :=
  match s.tasks d.1 with
  | some k => s.setTask d.1 (k.deliver d.2 m)
  | none =>
    let inbox := s.early d.1 d.2 ++ [m]
    { s with early := update s.early d.1 (update (s.early d.1) d.2 inbox) }

end State

/-! ## From the coordinator to the workers -/

/-- The request of a checkpoint, as a worker reads it. -/
def request (q : Coordinator.CheckpointRequest) : Worker.CheckpointRequest where
  jobID := some q.jobID
  checkpointID := q.checkpointID
  epochID := q.epochID
  attemptID := some q.attemptID

/-- A command, as a worker reads it. -/
def Config.command (cfg : Config) : Coordinator.Command → Worker.WorkerCommand
  | .takeSnapshot t q => .checkpoint .takeSnapshot (some q.jobID) (some t) (some (request q))
  | .commitCheckpoint t q =>
    .checkpoint .commitCheckpoint (some q.jobID) (some t) (some (request q))
  | .abortCheckpoint t q => .checkpoint .abortCheckpoint (some q.jobID) (some t) (some (request q))
  | .cancelTask j t epoch attempt => .cancelTask (some j) (some t) epoch (some attempt)
  | .deployTask j t epoch attempt _ => .deployTask (some j) (some t) (some
      { taskID := some t, attemptID := some attempt, epochID := epoch
        operatorChain := cfg.operators t, checkpoint := cfg.replicated t })

/-- A command that the coordinator enqueues goes into the queue of its worker. -/
def enqueue (q : Coordinator.CommandQueue.State) :
    Coordinator.Event → Coordinator.CommandQueue.State
  | .enqueued w cmd => q.enqueueCommand w cmd
  | _ => q

/-- The call that a step of the coordinator makes to start a checkpoint on a worker. -/
def calling (c : Coordinator.State) (a : Coordinator.Action) :
    Option (WorkerID × Coordinator.CheckpointRequest) :=
  match a with
  | .proceed i =>
    match c.threads[i]? with
    | some (.startTasks cp ((_, w) :: _) sent _) =>
      if (c.mem.workers.lookup w).any (fun m => m.supportsReservations && m.rpcClient.isSome) ∧
          w ∉ sent then some (w, cp.request) else none
    | _ => none
  | _ => none

/-- The chain has started the upload of a checkpoint and does not wait for it any more. -/
def uploaded (k : Task) (b : CheckpointIdentity) : Bool :=
  decide (Obs.uploadStarted b ∈ k.chain.trace) &&
    k.chain.checkpoint.any fun cp => decide (b ∉ cp.pending)

/-- A task acknowledges what it has uploaded. -/
def State.justifies (cfg : Config) (s : State) : Coordinator.Event → Bool
  | .acknowledged req => decide (req.jobID ≠ cfg.job) ||
      (s.tasks req.taskID).any (uploaded · ⟨req.checkpointID, req.epochID⟩)
  | _ => true

/-- The coordinator has stepped: what it enqueued goes into the queues. -/
def State.enter (s : State) (c : Coordinator.State) : State :=
  { s with
    coordinator := c
    commands := (c.log.drop s.coordinator.log.length).foldl enqueue s.commands }

/-- The call reaches the worker or not; only a call that was accepted there succeeds. -/
def State.call (s : State) (w : WorkerID) (q : Coordinator.CheckpointRequest)
    (accepted delivered : Bool) : Option State :=
  match (s.workers w).process with
  | some p =>
    if delivered ∧ p.session.serves then
      let r := p.handleTriggerCheckpoint (request q)
      if accepted → r.2 then some (s.setProcess w r.1) else none
    else if accepted then none else some s
  | none => if accepted then none else some s

/-- A step of the coordinator. -/
def coordinatorStep (cfg : Config) (s : State) (a : Coordinator.Action) (o : Oracle)
    (delivered : Bool) : Option State :=
  match Coordinator.step cfg.coordinator s.coordinator (a, o) with
  | none => none
  | some c =>
    if (c.log.drop s.coordinator.log.length).all (s.justifies cfg) then
      match calling s.coordinator a with
      | none => some (s.enter c)
      | some (w, q) => (s.enter c).call w q o.accepted delivered
    else none

/-! ## The workers -/

/-- A task of the job starts, for the first time. -/
def startTask (cfg : Config) (s : State) : Worker.Event → Option State
  | .started jobID (some t) _ _ =>
    if jobID = some cfg.job then
      match s.tasks t with
      | none => some (s.setTask t (.initial (cfg.chain t) cfg.maxBufferSize (s.early t)))
      | some _ => none
    else some s
  | _ => some s

/-- A step of a worker, with the tasks that it starts. -/
def workerStep (cfg : Config) (s : State) (w : WorkerID) (a : Worker.Action) : Option State :=
  match Worker.step (cfg.worker w) (s.workers w) a with
  | none => none
  | some v => Runs.run (startTask cfg) { s with workers := update s.workers w v }
      (v.trace.drop (s.workers w).trace.length)

/-- A worker handles a command. -/
def handleCommand (cfg : Config) (s : State) (w : WorkerID) (cmd : Coordinator.Command) :
    Option State :=
  workerStep cfg s w (.process (.command (cfg.command cmd)))

/-! ## The tasks -/

/-- `acceptBoundary`: a source takes a trigger, unless it has had that one or a later one, or the
checkpoint is over. -/
def acceptBoundary (s : State) (t : TaskID) (k : Task) (b : CheckpointIdentity) : State :=
  if b.epoch < (s.last t).epoch ∨ b.epoch = (s.last t).epoch ∧ b.id ≤ (s.last t).id then s
  else
    let s := { s with last := update s.last t b }
    if k.chain.aligner.isRetired b then s else s.deliver (t, 0) (.checkpointBarrier b)

/-- The source of a task looks into its mailbox. -/
def takeTrigger (cfg : Config) (s : State) (w : WorkerID) (t : TaskID) : Option State :=
  match s.tasks t, (s.workers w).process.bind (·.takeTrigger (some t)) with
  | some k, some (p, jobID, trigger) =>
    if jobID = some cfg.job then
      some (acceptBoundary (s.setProcess w p) t k ⟨trigger.checkpointID, trigger.epochID⟩)
    else none
  | _, _ => none

/-- The barriers that a step of a task passes on. -/
def passedOn (k k' : Task) : List CheckpointIdentity :=
  (k'.chain.trace.drop k.chain.trace.length).filterMap fun
    | .outputBarrier b => some b
    | _ => none

/-- A barrier goes to an input of a task. -/
def forward (s : State) (x : CheckpointIdentity × TaskID × ℕ) : State :=
  s.deliver x.2 (.checkpointBarrier x.1)

/-- A step of a task.  What it passes on goes to the tasks downstream. -/
def taskStep (cfg : Config) (s : State) (t : TaskID) (a : Task.Act) : Option State :=
  match s.tasks t with
  | none => none
  | some k =>
    match k.step (cfg.chain t) a with
    | none => none
    | some k' =>
      some (((passedOn k k').flatMap fun b => (cfg.downstream t).map (b, ·)).foldl forward
        (s.setTask t k'))

/-- A task takes a decision from its mailbox. -/
def takeDecision (cfg : Config) (s : State) (w : WorkerID) (t : TaskID) : Option State :=
  match (s.workers w).process.bind (·.takeDecision (some t)) with
  | some (p, jobID, decision) =>
    if jobID = some cfg.job then taskStep cfg (s.setProcess w p) t (.decide decision) else none
  | none => none

/-! ## The system -/

inductive Action where
  /-- The coordinator steps; a call that it makes may be delivered and still fail. -/
  | coordinator (a : Coordinator.Action) (o : Oracle) (delivered : Bool)
  | queue (a : Coordinator.CommandQueue.Action)
  /-- A worker handles the next command of its stream. -/
  | handleStreamed (w : WorkerID)
  /-- A worker handles the next command that came with a heartbeat. -/
  | handleAnswered (w : WorkerID)
  | worker (w : WorkerID) (a : Worker.Action)
  | takeTrigger (w : WorkerID) (t : TaskID)
  | takeDecision (w : WorkerID) (t : TaskID)
  /-- A record, a watermark or the end of the input reaches a task. -/
  | data (t : TaskID) (i : ℕ) (m : InputMsg)
  | task (t : TaskID) (a : Task.Act)

/-- One step.  Commands and decisions come from the coordinator only, and barriers from its
triggers. -/
def step (cfg : Config) (s : State) : Action → Option State
  | .coordinator .crash _ _ => none
  | .coordinator a o delivered => coordinatorStep cfg s a o delivered
  | .queue (.enqueueCommand _ _) => none
  | .queue a => (Coordinator.CommandQueue.step s.commands a).map fun commands => { s with commands }
  | .handleStreamed w =>
    match (s.commands.written w)[s.streamed w]? with
    | none => none
    | some cmd => handleCommand cfg
        { s with streamed := update s.streamed w (s.streamed w + 1) } w cmd
  | .handleAnswered w =>
    match (s.commands.returned w)[s.answered w]? with
    | none => none
    | some cmd => handleCommand cfg
        { s with answered := update s.answered w (s.answered w + 1) } w cmd
  | .worker _ .crash | .worker _ (.process (.command _)) => none
  | .worker w a => workerStep cfg s w a
  | .takeTrigger w t => takeTrigger cfg s w t
  | .takeDecision w t => takeDecision cfg s w t
  | .data _ _ (.checkpointBarrier _) => none
  | .data t i m => some (s.deliver (t, i) m)
  | .task _ (.decide _) => none
  | .task t a => taskStep cfg s t a

end Wire.Cluster
