import Wire.Coordinator.Types
import Wire.Engine.Event
import Wire.Worker.EpochStore

/-!
# The worker's state and its admissions

What a worker process holds in memory, and the functions that admit work: `handleDeployTask` for
the commands, `handleRequestTaskSlots` and `handleSubmitJob` for the reverse calls of a coordinator
that reserves slots first.  An identifier is a number, and the empty string is `none`.

Both admissions can find an older attempt of a task that has not yet been torn down.
`handleDeployTask` then leaves a goroutine behind that waits for its end and deploys again;
`handleSubmitJob` waits itself, without the lock, and then checks everything again.  The goroutine
belongs to no session and is not joined when one ends.

`done` channels are numbers.  A task's channel is closed by the last deferred function of
`runTask`, after another one has removed the task from `tasks`; a channel is closed when no run of
a task has it any more.
-/

namespace Wire.Worker

open Wire.Coordinator (GoMap Time)

/-- An identifier; `none` is the empty string. -/
abbrev Ident := Option ℕ

/-! ## Messages -/

/-- `rpc.OperatorType`. -/
inductive OperatorType where
  | unknown | source | map | flatMap | filter | keyBy | window | reduce | join | process | sink
deriving DecidableEq

structure TaskDescriptor where
  taskID : Ident
  attemptID : Ident
  epochID : ℕ
  operatorChain : List OperatorType
  /-- A replica address or something to restore is given. -/
  checkpoint : Bool := false
deriving DecidableEq

/-- `rpc.TriggerCheckpointRequest`, also the payload of the commands about a checkpoint. -/
structure CheckpointRequest where
  jobID : Ident
  checkpointID : ℕ
  epochID : ℕ
  attemptID : Ident
  final : Bool := false
deriving DecidableEq

/-- The commands about a checkpoint. -/
inductive CheckpointCommand where
  | takeSnapshot | commitCheckpoint | abortCheckpoint
deriving DecidableEq

/-- `rpc.WorkerCommand`; a payload that cannot be decoded is `none`. -/
inductive WorkerCommand where
  | deployTask (jobID taskID : Ident) (data : Option TaskDescriptor)
  | cancelTask (jobID taskID : Ident) (epochID : ℕ) (attemptID : Ident)
  | checkpoint (type : CheckpointCommand) (jobID taskID : Ident) (data : Option CheckpointRequest)

/-- The job that a command names. -/
def WorkerCommand.jobID : WorkerCommand → Ident
  | .deployTask jobID _ _ | .cancelTask jobID _ _ _ | .checkpoint _ jobID _ _ => jobID

structure RequestTaskSlotsRequest where
  epochID : ℕ
  reservationID : Ident
  reservationTimeoutMs : ℤ := 0
  release : Bool := false
  jobID : Ident
  requiredSlots : ℤ
  memoryMB : ℤ := 0

structure RequestTaskSlotsResponse where
  reservationID : Ident := none
  expiresAtMs : ℤ := 0
  granted : ℤ := 0
  availableSlots : ℤ
  /-- `Resource.TotalSlots` and `Resource.UsedSlots`. -/
  resource : Option (ℤ × ℤ) := none

structure SubmitJobRequest where
  jobID : Ident
  attemptID : Ident
  reservationID : Ident
  epochID : ℕ
  tasks : List TaskDescriptor
  /-- SHA-256 of the payload that carried the request. -/
  digest : ℕ

/-- The codes of `rpc.RPCError` that the worker answers with. -/
inductive ErrorCode where
  | timeout | invalidRequest | invalidTransition | staleEpoch | duplicateTask
  | insufficientSlots | insufficientResources | workerShuttingDown
deriving DecidableEq

structure RPCError where
  code : ErrorCode
  message : String

/-! ## State -/

structure Config where
  /-- `EpochPath` is set. -/
  epochPath : Bool
  taskSlots : ℤ
  contactTimeout : Time

/-- `engine.CheckpointTrigger`. -/
structure CheckpointTrigger where
  final : Bool
  checkpointID : ℕ
  epochID : ℕ
deriving DecidableEq

/-- The mailboxes of a task that takes part in checkpoints. -/
structure TaskCheckpointRuntime where
  lastTrigger : ℕ := 0
  source : Bool
  /-- A channel for one trigger. -/
  triggers : Option CheckpointTrigger := none
  /-- A channel for `maxDecisions` messages. -/
  decisions : List Engine.ControlMsg := []

/-- The capacity of `decisions`. -/
def maxDecisions : ℕ := 16

structure TaskHandle where
  jobID : Ident
  attemptID : Ident
  epoch : ℕ
  done : ℕ
  /-- The task's context is canceled. -/
  canceled : Bool := false
  checkpoint : Option TaskCheckpointRuntime := none

/-- Put a command about a checkpoint into the mailboxes of a task.  A trigger replaces an older one
that the source has not taken; a task whose mailbox for decisions is full is canceled. -/
def TaskHandle.deliver (h : TaskHandle) (cp : TaskCheckpointRuntime) (type : CheckpointCommand)
    (request : CheckpointRequest) : TaskHandle :=
  let decide (kind : Engine.ControlType) : TaskHandle :=
    if cp.decisions.length < maxDecisions then
      { h with checkpoint := some { cp with decisions := cp.decisions ++
          [{ type := kind, identity := ⟨request.checkpointID, request.epochID⟩ }] } }
    else { h with canceled := true }
  match type with
  | .takeSnapshot =>
    if !cp.source ∨ request.checkpointID ≤ cp.lastTrigger then h
    else { h with checkpoint := some { cp with
        lastTrigger := request.checkpointID
        triggers := some ⟨request.final, request.checkpointID, request.epochID⟩ } }
  | .commitCheckpoint => decide .commitCheckpoint
  | .abortCheckpoint => decide .abortCheckpoint

structure SlotReservation where
  jobID : Ident
  epoch : ℕ
  slots : ℤ
  expires : Time

/-- The goroutine of `runTask`. -/
structure TaskRun where
  taskID : Ident
  done : ℕ
  /-- The task has been removed from `tasks`. -/
  removed : Bool := false

/-- A goroutine that deploys a task again when an older attempt has ended. -/
structure Redeployment where
  jobID : Ident
  taskID : Ident
  desc : TaskDescriptor
  previous : ℕ

/-- A call of `handleSubmitJob` that waits for an older attempt. -/
structure Submission where
  request : SubmitJobRequest
  previous : ℕ
  expires : Time

/-- Where `Run` is.  A session that ends with an error `Run` does not survive is `fatal`. -/
inductive Session where
  /-- Between two sessions. -/
  | idle
  /-- Connected, and waiting for the response to `RegisterWorker`. -/
  | registering (highestEpoch : ℕ)
  | saving (epoch : ℕ) (stage : SaveStage)
  | saved (epoch : ℕ)
  | serving
  /-- The deferred functions run: first the reverse server is stopped, … -/
  | closing (fatal : Bool)
  /-- … then the tasks are joined. -/
  | joining (tasks : List ℕ) (fatal : Bool)
  /-- `Run` returns. -/
  | returned
deriving DecidableEq

/-- Reverse calls are served from before the registration until the server is stopped. -/
def Session.serves : Session → Bool
  | .registering _ | .saving _ _ | .saved _ | .serving | .closing _ => true
  | .idle | .joining _ _ | .returned => false

/-- `Worker`, with the goroutines of its process. -/
structure Process where
  epochStore : Option EpochStore
  epoch : ℕ
  lastCoordinatorContact : Time
  registrationStarted : Time := 0
  stopping : Bool := false
  session : Session := .idle
  tasks : GoMap Ident TaskHandle := ∅
  reservations : GoMap Ident SlotReservation := ∅
  deploymentReceipts : GoMap Ident ℕ := ∅
  cancelledAttempts : List Ident := []
  runs : List TaskRun := []
  redeployments : List Redeployment := []
  submissions : List Submission := []
  nextDone : ℕ := 0

/-! ## Admission -/

/-- Keep the entries of a map that satisfy `p`. -/
def filterValues {κ ν : Type} (p : ν → Bool) (m : GoMap κ ν) : GoMap κ ν :=
  ⟨m.entries.filter fun e => p e.2, m.nodupKeys.sublist List.filter_sublist⟩

def millisecond : Time := 1000000

def second : Time := 1000 * millisecond

namespace Process

variable (cfg : Config) (w : Process)

/-- `<-done` does not block. -/
def isClosed (done : ℕ) : Bool :=
  w.runs.all fun r => r.done ≠ done

/-- Drop the expired reservations. -/
def dropExpired (now : Time) : Process :=
  { w with reservations := filterValues (fun r => decide (now < r.expires)) w.reservations }

/-- The slots that tasks and reservations take. -/
def usedSlots : ℤ :=
  w.tasks.len + (w.reservations.entries.map fun e => e.2.slots).sum

/-- `availableSlotsLocked`, after the expired reservations are dropped. -/
def availableSlots : ℤ :=
  max 0 (cfg.taskSlots - w.usedSlots)

/-- `installTaskLocked`, with the goroutine of `runTask`. -/
def installTaskLocked (jobID taskID : Ident) (desc : TaskDescriptor) : Process :=
  let checkpoint := if desc.checkpoint then
      some { source := desc.operatorChain.any fun op => op = .source : TaskCheckpointRuntime }
    else none
  { w with
    tasks := w.tasks.insert taskID
      { jobID, attemptID := desc.attemptID, epoch := desc.epochID, done := w.nextDone, checkpoint }
    runs := w.runs ++ [{ taskID, done := w.nextDone }]
    nextDone := w.nextDone + 1 }

/-- `handleDeployTask`, with the tasks that it starts. -/
def handleDeployTask (jobID taskID : Ident) (desc : TaskDescriptor) :
    Process × List TaskDescriptor :=
  if w.stopping then (w, [])
  else match w.tasks.lookup taskID with
    | some existing =>
      if existing.attemptID ≠ desc.attemptID then
        ({ w with redeployments :=
            w.redeployments ++ [{ jobID, taskID, desc, previous := existing.done }] }, [])
      else (w, [])
    | none =>
      if desc.attemptID ∈ w.cancelledAttempts then (w, [])
      else if desc.epochID ≠ 0 ∧ desc.epochID ≠ w.epoch then (w, [])
      else (w.installTaskLocked jobID taskID desc, [desc])

/-- Take or release a reservation, or ask for the free slots. -/
def reserve (req : RequestTaskSlotsRequest) (now : Time) (ctxErr : Option String) :
    Process × Except RPCError RequestTaskSlotsResponse :=
  match ctxErr with
  | some message => (w, .error ⟨.timeout, message⟩)
  | none =>
    if w.stopping then (w, .error ⟨.workerShuttingDown, "worker stopping"⟩)
    else if req.epochID ≠ w.epoch then (w, .error ⟨.staleEpoch, "reservation epoch mismatch"⟩)
    else
      let w := w.dropExpired now
      let available := w.availableSlots cfg
      let found := w.reservations.lookup req.reservationID
      if req.release then
        let w := if found.any fun r => decide (r.jobID = req.jobID ∧ r.epoch = req.epochID) then
            { w with reservations := w.reservations.erase req.reservationID }
          else w
        (w, .ok { availableSlots := w.availableSlots cfg })
      else if req.requiredSlots = 0 then (w, .ok { availableSlots := available })
      else if req.reservationID = none ∨ req.jobID = none then
        (w, .error ⟨.invalidRequest, "reservation identity required"⟩)
      else if req.reservationID ∈ w.cancelledAttempts then
        (w, .error ⟨.invalidTransition, "attempt cancelled"⟩)
      else if (w.deploymentReceipts.lookup req.reservationID).isSome then
        (w, .error ⟨.invalidTransition, "reservation already consumed"⟩)
      else if 0 < req.memoryMB then
        (w, .error ⟨.insufficientResources, "memory reservations are not supported"⟩)
      else match found with
        | some r =>
          if r.jobID ≠ req.jobID ∨ r.epoch ≠ req.epochID ∨ r.slots ≠ req.requiredSlots then
            (w, .error ⟨.invalidRequest, "reservation identity conflict"⟩)
          else (w, .ok {
            reservationID := req.reservationID, granted := r.slots, availableSlots := available
            expiresAtMs := r.expires / millisecond })
        | none =>
          if available < req.requiredSlots then
            (w, .error ⟨.insufficientSlots, "insufficient task slots"⟩)
          else
            let ttl := if 0 < req.reservationTimeoutMs then req.reservationTimeoutMs * millisecond
              else 30 * second
            let r : SlotReservation :=
              { jobID := req.jobID, epoch := req.epochID, slots := req.requiredSlots
                expires := now + ttl }
            ({ w with reservations := w.reservations.insert req.reservationID r }, .ok {
              reservationID := req.reservationID, granted := req.requiredSlots
              availableSlots := available - r.slots, expiresAtMs := r.expires / millisecond })

/-- `handleRequestTaskSlots`.  The clock is read again for the resources of the response. -/
def handleRequestTaskSlots (req : RequestTaskSlotsRequest) (now later : Time)
    (ctxErr : Option String) : Process × Except RPCError RequestTaskSlotsResponse :=
  if req.requiredSlots < 0 ∨ req.reservationTimeoutMs < 0 ∨ 300000 < req.reservationTimeoutMs ∨
      req.memoryMB < 0 then (w, .error ⟨.invalidRequest, "invalid reservation bounds"⟩)
  else match w.reserve cfg req now ctxErr with
    | (w, .ok response) =>
      let w := w.dropExpired later
      (w, .ok { response with
        resource := some (cfg.taskSlots, cfg.taskSlots - w.availableSlots cfg) })
    | (w, .error e) => (w, .error e)

/-- The checks of the tasks of a deployment; the result is the older attempt to wait for. -/
def checkTasks (req : SubmitJobRequest) :
    List Ident → Option ℕ → List TaskDescriptor → Except RPCError (Option ℕ)
  | _, previous, [] => .ok previous
  | seen, previous, desc :: rest =>
    if desc.taskID = none ∨ desc.taskID ∈ seen ∨ desc.epochID ≠ req.epochID ∨
        desc.attemptID ≠ req.attemptID ∨ desc.operatorChain = [] then
      .error ⟨.invalidRequest, "invalid task identity or chain"⟩
    else match w.tasks.lookup desc.taskID with
      | some h =>
        if h.jobID ≠ req.jobID ∨ h.attemptID = req.attemptID then
          .error ⟨.duplicateTask, "conflicting task identity"⟩
        else checkTasks req (desc.taskID :: seen) (some h.done) rest
      | none => checkTasks req (desc.taskID :: seen) previous rest

/-- What one pass through the loop of `handleSubmitJob` comes to. -/
inductive Admission where
  | refused (e : RPCError)
  /-- The attempt was deployed before. -/
  | repeated
  | started
  | waits (previous : ℕ) (expires : Time)

/-- Start the tasks of a deployment. -/
def startTasks (req : SubmitJobRequest) : Process :=
  req.tasks.foldl (fun w desc => w.installTaskLocked req.jobID desc.taskID desc)
    { w with
      deploymentReceipts := w.deploymentReceipts.insert req.attemptID req.digest
      reservations := w.reservations.erase req.reservationID }

/-- One pass through the loop of `handleSubmitJob`. -/
def tryStart (req : SubmitJobRequest) (now : Time) (ctxErr : Option String) : Process × Admission :=
  match ctxErr with
  | some message => (w, .refused ⟨.timeout, message⟩)
  | none =>
    if w.stopping then (w, .refused ⟨.workerShuttingDown, "worker stopping"⟩)
    else if req.epochID ≠ w.epoch then (w, .refused ⟨.staleEpoch, "deployment epoch mismatch"⟩)
    else if req.attemptID ∈ w.cancelledAttempts then
      (w, .refused ⟨.invalidTransition, "deployment attempt cancelled"⟩)
    else match w.deploymentReceipts.lookup req.attemptID with
      | some prior =>
        if prior ≠ req.digest then
          (w, .refused ⟨.duplicateTask, "attempt reused with different deployment"⟩)
        else (w, .repeated)
      | none =>
        let w := w.dropExpired now
        match w.reservations.lookup req.reservationID with
        | none => (w, .refused ⟨.insufficientSlots, "reservation absent, expired or mismatched"⟩)
        | some r =>
          if r.jobID ≠ req.jobID ∨ r.epoch ≠ req.epochID ∨ r.slots ≠ req.tasks.length then
            (w, .refused ⟨.insufficientSlots, "reservation absent, expired or mismatched"⟩)
          else match w.checkTasks req [] none req.tasks with
            | .error e => (w, .refused e)
            | .ok (some previous) => (w, .waits previous r.expires)
            | .ok none => (w.startTasks req, .started)

/-- `handleSubmitJob`, up to its answer or its first wait. -/
def handleSubmitJob (req : SubmitJobRequest) (now : Time) (ctxErr : Option String) :
    Process × Admission :=
  if req.jobID = none ∨ req.attemptID = none ∨ req.reservationID = none ∨ req.tasks = [] then
    (w, .refused ⟨.invalidRequest, "reserved deployment identity and tasks required"⟩)
  else w.tryStart req now ctxErr

/-- Go on after a pass through the loop of `handleSubmitJob`: answer, or wait.  The result has the
tasks that were started. -/
def resume (req : SubmitJobRequest) : Admission → Process × List TaskDescriptor
  | .refused _ | .repeated => (w, [])
  | .started => (w, req.tasks)
  | .waits previous expires =>
    ({ w with submissions := w.submissions ++ [{ request := req, previous, expires }] }, [])

/-! ## Commands -/

/-- `CancelTask`, as `handleCommands` handles it. -/
def handleCancelTask (jobID taskID : Ident) (epochID : ℕ) (attemptID : Ident) : Process :=
  let w := if epochID = w.epoch ∧ attemptID ≠ none then
      { w with
        cancelledAttempts := attemptID :: w.cancelledAttempts
        reservations := w.reservations.erase attemptID }
    else w
  match w.tasks.lookup taskID with
  | some h =>
    if h.jobID = jobID ∧ h.epoch = epochID ∧ h.attemptID = attemptID then
      { w with tasks := w.tasks.insert taskID { h with canceled := true } }
    else w
  | none => w

/-- `handleCheckpointCommand`. -/
def handleCheckpointCommand (type : CheckpointCommand) (jobID taskID : Ident)
    (request : CheckpointRequest) : Process :=
  match w.tasks.lookup taskID with
  | none => w
  | some handle =>
    match handle.checkpoint with
    | none => w
    | some checkpoint =>
      if request.attemptID ≠ handle.attemptID ∨ handle.jobID ≠ jobID ∨ request.jobID ≠ jobID ∨
          request.checkpointID = 0 ∨ request.epochID ≠ handle.epoch ∨ request.epochID ≠ w.epoch
      then w
      else { w with tasks := w.tasks.insert taskID (handle.deliver checkpoint type request) }

/-- What `handleCheckpointCommand` returns: the task takes part in checkpoints, and the command is
for the attempt that runs. -/
def acceptsCheckpointCommand (jobID taskID : Ident) (request : CheckpointRequest) : Bool :=
  (w.tasks.lookup taskID).any fun handle =>
    handle.checkpoint.isSome && decide (request.attemptID = handle.attemptID ∧
      handle.jobID = jobID ∧ request.jobID = jobID ∧ request.checkpointID ≠ 0 ∧
      request.epochID = handle.epoch ∧ request.epochID = w.epoch)

/-- Start a checkpoint on the tasks, up to the first that does not accept it. -/
def triggerTasks (request : CheckpointRequest) : Process → List Ident → Process × Bool
  | w, [] => (w, true)
  | w, taskID :: rest =>
    if w.acceptsCheckpointCommand request.jobID taskID request then
      triggerTasks request
        (w.handleCheckpointCommand .takeSnapshot request.jobID taskID request) rest
    else (w, false)

/-- `handleTriggerCheckpoint`, with whether the call is accepted. -/
def handleTriggerCheckpoint (request : CheckpointRequest) : Process × Bool :=
  let tasks := w.tasks.entries.filter fun e =>
    decide (e.2.jobID = request.jobID ∧ e.2.epoch = request.epochID) && e.2.checkpoint.isSome
  if request.jobID = none ∨ request.checkpointID = 0 ∨ request.epochID ≠ w.epoch ∨ tasks = [] then
    (w, false)
  else triggerTasks request w (tasks.map (·.1))

/-- `handleCommands`, for one command. -/
def handleCommand : WorkerCommand → Process × List TaskDescriptor
  | .deployTask jobID taskID (some desc) => w.handleDeployTask jobID taskID desc
  | .deployTask _ _ none => (w, [])
  | .cancelTask jobID taskID epochID attemptID =>
    (w.handleCancelTask jobID taskID epochID attemptID, [])
  | .checkpoint type jobID taskID (some request) =>
    (w.handleCheckpointCommand type jobID taskID request, [])
  | .checkpoint _ _ _ none => (w, [])

/-- The source of a task takes the trigger from its mailbox; the result has the job of the task. -/
def takeTrigger (taskID : Ident) : Option (Process × Ident × CheckpointTrigger) :=
  match w.tasks.lookup taskID with
  | none => none
  | some h =>
    match h.checkpoint with
    | none => none
    | some cp =>
      let taken := { h with checkpoint := some { cp with triggers := none } }
      cp.triggers.map fun trigger =>
        ({ w with tasks := w.tasks.insert taskID taken }, h.jobID, trigger)

/-- A task takes the next decision from its mailbox. -/
def takeDecision (taskID : Ident) : Option (Process × Ident × Engine.ControlMsg) :=
  match w.tasks.lookup taskID with
  | none => none
  | some h =>
    match h.checkpoint with
    | none => none
    | some cp =>
      match cp.decisions with
      | [] => none
      | decision :: rest =>
        let taken := { h with checkpoint := some { cp with decisions := rest } }
        some ({ w with tasks := w.tasks.insert taskID taken }, h.jobID, decision)

/-- Cancel the contexts of all tasks. -/
def cancelTasks : Process :=
  { w with tasks := w.tasks.mapValues fun h => { h with canceled := true } }

end Process

end Wire.Worker
