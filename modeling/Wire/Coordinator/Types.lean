import Wire.Library.Table

/-!
# The coordinator's records

The metadata records of `types.go` and the requests of `rpc/messages.go`, with the fields the
modelled functions read or write.  Identifiers are numbers; where the source tests a string
against `""` the field is an `Option` and the empty string is `none`.  A Go map is an
association list without duplicate keys.

A `JobMeta` is reached through a pointer in the source, and two pointers to records of one
job may coexist.  A pointer is a `Ref`: the job it belongs to and a serial number.  The job is
part of the pointer because `JobMeta.ID` is never written after the record is created and
every copy keeps it.
-/

namespace Wire.Coordinator

abbrev JobID := ℕ
abbrev WorkerID := ℕ
abbrev TaskID := ℕ
abbrev AttemptID := ℕ
abbrev SavepointID := ℕ
/-- The address of a checkpoint replica. -/
abbrev Address := ℕ
/-- A nonempty text. -/
abbrev Text := ℕ
/-- A job name; the empty one is refused before anything else happens. -/
abbrev Name := ℕ
/-- An encoded job graph (`JobMeta.Config`). -/
abbrev Graph := ℕ
/-- Wall-clock time; `0` is Go's zero time. -/
abbrev Time := ℤ

abbrev GoMap (κ ν : Type) := AList fun _ : κ => ν

/-- `len(m)`. -/
def GoMap.len {κ ν : Type} (m : GoMap κ ν) : ℕ := m.entries.length

/-- The value under each key changed by a function. -/
def GoMap.mapValues {κ ν ω : Type} (f : ν → ω) (m : GoMap κ ν) : GoMap κ ω :=
  ⟨m.entries.map (.map id fun _ => f), m.nodupKeys.map₂ (fun _ => f) m.entries⟩

theorem GoMap.lookup_mapValues {κ ν ω : Type} [DecidableEq κ] (f : ν → ω) (m : GoMap κ ν)
    (k : κ) : (m.mapValues f).lookup k = (m.lookup k).map f :=
  List.dlookup_map₂ k

/-- `math.MaxUint64`. -/
def maxUint64 : ℕ := 2 ^ 64 - 1

/-- `engine.CurrentSchemaVersion`. -/
def currentSchemaVersion : ℕ := 1

/-- `keygroup.DefaultNumKeyGroups`. -/
def defaultNumKeyGroups : ℕ := 128

/-! ## Statuses -/

inductive JobStatus where
  | created | deploying | running | finishing | finished
  | failing | failed | canceling | canceled | paused
deriving DecidableEq

/-- `JobStatus.IsTerminal`. -/
def JobStatus.isTerminal : JobStatus → Bool
  | .finished | .failed | .canceled => true
  | _ => false

/-- `validTransitions`. -/
def validTransitions : JobStatus → List JobStatus
  | .created => [.deploying, .failing, .canceling]
  | .deploying => [.running, .failing, .canceling]
  | .running => [.finishing, .paused, .failing, .canceling]
  | .paused => [.deploying]
  | .finishing => [.finished]
  | .failing => [.deploying, .failed, .canceled]
  | .canceling => [.canceled]
  | .finished | .failed | .canceled => []

inductive CheckpointStatus where
  | triggered | inProgress | completed | failed | aborted
deriving DecidableEq

/-- Neither completed, failed nor aborted: what a trigger and a recovery take for in flight. -/
def CheckpointStatus.inFlight : CheckpointStatus → Bool
  | .triggered | .inProgress => true
  | _ => false

inductive SavepointStatus where
  | inProgress | completed | failed
deriving DecidableEq

/-- The statuses a worker may report. -/
inductive TaskStatus where
  | created | scheduled | deploying | running | finishing | canceling
  | failed | canceled | recovering | finished
deriving DecidableEq

/-- Statuses after which a task of the attempt runs no more. -/
def TaskStatus.isTerminal : TaskStatus → Bool
  | .failed | .canceled | .finished => true
  | _ => false

/-! ## Errors -/

inductive Error where
  | notLeader
  | staleEpoch
  | jobNotFound
  | jobNotRunning
  | checkpointMinPause
  /-- "checkpoint has no task assignments" -/
  | noTaskAssignments
  /-- "sources are not ready for a final checkpoint" -/
  | finalCheckpointNotReady
  | checkpointUnavailable
  | checkpointInProgress
  /-- "checkpoint IDs exhausted" -/
  | checkpointIDsExhausted
  | invalidConfig
  | invalidTransition
  /-- Decoding the value of an absent key. -/
  | decode
  /-- "checkpoint already has a different terminal decision" -/
  | differentDecision
  /-- "checkpoint acknowledgement does not match task assignment" -/
  | assignmentMismatch
  /-- "checkpoint acknowledgement requires durable state location" -/
  | stateRequired
  /-- "checkpoint acknowledgement does not match replica assignment" -/
  | replicaMismatch
  /-- "checkpoint no longer accepts acknowledgements" -/
  | notAccepting
  /-- "checkpoint acknowledgement requires task manifest" -/
  | manifestRequired
  /-- The manifest is not the encoding of a task inventory. -/
  | manifestMalformed
  /-- "task manifest identity mismatch" -/
  | manifestIdentity
  /-- "conflicting task manifest" -/
  | conflictingManifest
  /-- "conflicting checkpoint acknowledgement" -/
  | conflictingAcknowledgement
  /-- `checkpointManifest` rejects the completed inventory. -/
  | manifestRejected
  | savepointNotFound
  | savepointInUse
  /-- "savepoint checkpoint identity mismatch" -/
  | savepointMismatch
  /-- "checkpoint invalid: …" and every other rejected recovery manifest. -/
  | checkpointInvalid
  | unsupportedSchemaVersion
  | checkpointStoreRead
  | noValidCheckpoint
  /-- "rescale checkpoint is not the selected recovery checkpoint" -/
  | rescaleNotSelected
  /-- "rescale requires a savepoint" and "rescale savepoint identity mismatch" -/
  | rescaleSavepoint
  /-- `planRescaleState` rejects the new topology. -/
  | rescalePlan
  /-- "key group count mismatch", "recovery checkpoint has no assigned replica for task" and
  "recovery checkpoint task topology changed" -/
  | topologyChanged
  /-- A write to the metadata store failed. -/
  | storeWrite
deriving DecidableEq

/-! ## Records -/

/-- A pointer to a `JobMeta`. -/
structure Ref where
  job : JobID
  serial : ℕ
deriving DecidableEq

structure RescaleRollback where
  placementFailedSince : Time := 0
  config : Graph
  parallelism : ℕ
  checkpoint : ℕ
  attempted : Bool := false
deriving DecidableEq

structure JobMeta where
  name : Name := 0
  status : JobStatus := .created
  config : Graph := 0
  parallelism : ℕ := 1
  deploymentGeneration : ℕ := 0
  latestCheckpoint : ℕ := 0
  rescaleCheckpoint : ℕ := 0
  rescaleRequested : Bool := false
  rescaleRollback : Option RescaleRollback := none
  restartCount : ℕ := 0
  recoveryAttempts : ℕ := 0
  runningSince : Time := 0
  updatedAt : Time := 0
  lastCheckpointCompletion : Time := 0
  checkpointAttempts : ℕ := 0
  checkpointFailures : ℕ := 0
  consecutiveCheckpointFailures : ℕ := 0
  checkpointOutcomes : List Bool := []
deriving DecidableEq, Inhabited

/-- The physical task of one attempt; `source` says whether its chain has a source. -/
structure TaskDescriptor where
  taskID : TaskID
  numKeyGroups : ℕ := 0
  source : Bool := false
  deploymentGeneration : ℕ := 0
deriving DecidableEq

/-- `rpc.CheckpointRestoreDescriptor`. -/
structure RestoreDescriptor where
  checkpointID : ℕ
  epochID : ℕ
  replicaAddress : Address
deriving DecidableEq

structure TaskAssignmentMap where
  attemptID : AttemptID
  epochID : ℕ
  assignments : GoMap TaskID WorkerID
  replicas : GoMap TaskID Address
  taskDescriptors : List TaskDescriptor
  restoreCheckpoints : GoMap TaskID RestoreDescriptor
  recoveryAttemptCharged : Bool := false

/-- `engine.TaskMeta`: the identity of a task inventory, whether its sink prepared a
transaction, and the rest of it. -/
structure TaskMeta where
  taskID : TaskID
  sinkPrepared : Bool
  content : ℕ := 0
deriving DecidableEq

/-- The bytes of a task manifest: an encoded `TaskMeta`, or something else. -/
inductive Manifest where
  | task (t : TaskMeta)
  | malformed (bytes : ℕ)
deriving DecidableEq

/-- `json.Unmarshal` of a manifest. -/
def Manifest.decode : Manifest → Option TaskMeta
  | .task t => some t
  | .malformed _ => none

structure CheckpointMeta where
  jobID : JobID
  id : ℕ
  epochID : ℕ
  attemptID : AttemptID
  status : CheckpointStatus
  final : Bool := false
  savepointID : Option SavepointID := none
  tasks : GoMap TaskID WorkerID
  replicas : GoMap TaskID Address
  statePaths : GoMap TaskID Address := ∅
  taskManifests : GoMap TaskID Manifest := ∅
  taskDescriptors : List TaskDescriptor := []
  numKeyGroups : ℕ := 0
  manifestVersion : ℕ := 1
  invalidReason : Option Text := none
  timestamp : Time := 0

/-- A manifest of the checkpoint says that a sink prepared a transaction, or cannot be read. -/
def CheckpointMeta.sinkPrepared (cp : CheckpointMeta) : Bool :=
  cp.taskManifests.entries.any fun e => (e.2.decode.map (·.sinkPrepared)).getD true

structure SavepointMeta where
  jobID : JobID
  id : SavepointID
  checkpointID : ℕ
  epochID : ℕ
  numKeyGroups : ℕ := 0
  status : SavepointStatus
deriving DecidableEq

structure WorkerMeta where
  lastHeartbeat : Time := 0
  lost : Bool := false
  taskSlotsAvailable : ℕ := 0
  supportsReservations : Bool := false
  rpcClient : Option ℕ := none
  rpcPeerEpoch : ℕ := 0
  checkpointAddress : Option Address := none
deriving DecidableEq

/-! ## Requests and commands -/

/-- `rpc.StateHandle`. -/
structure StateHandle where
  taskID : TaskID
  path : Option Address
  manifest : Option Manifest
deriving DecidableEq

/-- `rpc.AcknowledgeCheckpointRequest`. -/
structure AcknowledgeRequest where
  jobID : JobID
  checkpointID : ℕ
  epochID : ℕ
  taskID : TaskID
  workerID : WorkerID
  attemptID : AttemptID
  state : Option StateHandle := none
  failure : Option Text := none
deriving DecidableEq

/-- `rpc.TaskFailureInfo`, with whether the class is `checkpoint_unavailable`. -/
structure TaskFailureInfo where
  checkpointUnavailable : Bool
  errorMessage : Option Text
deriving DecidableEq

/-- `rpc.UpdateTaskStatusRequest`. -/
structure TaskStatusRequest where
  jobID : JobID
  taskID : TaskID
  workerID : WorkerID
  attemptID : AttemptID
  epochID : ℕ
  status : TaskStatus
  failure : Option TaskFailureInfo := none
deriving DecidableEq

/-- `rpc.TriggerCheckpointRequest`, the data of the checkpoint commands. -/
structure CheckpointRequest where
  jobID : JobID
  checkpointID : ℕ
  epochID : ℕ
  attemptID : AttemptID
deriving DecidableEq

inductive Command where
  | takeSnapshot (task : TaskID) (request : CheckpointRequest)
  | commitCheckpoint (task : TaskID) (request : CheckpointRequest)
  | abortCheckpoint (task : TaskID) (request : CheckpointRequest)
  | cancelTask (job : JobID) (task : TaskID) (epochID : ℕ) (attemptID : AttemptID)
  | deployTask (job : JobID) (task : TaskID) (epochID : ℕ) (attemptID : AttemptID)
      (generation : ℕ)
deriving DecidableEq

/-- The request that the commands about a checkpoint carry. -/
def CheckpointMeta.request (cp : CheckpointMeta) : CheckpointRequest where
  jobID := cp.jobID
  checkpointID := cp.id
  epochID := cp.epochID
  attemptID := cp.attemptID

/-! ## Configuration -/

/-- `CoordinatorConfig`, together with the functions of a job graph that the modelled code
calls and does not look into. -/
structure Config where
  checkpointMinPause : Time := 0
  checkpointTimeout : Time := 600
  checkpointMaxConsecutiveFailures : ℕ := 0
  /-- `checkpointpolicy.Exceeded` at the configured tolerable failure rate. -/
  rateExceeded : List Bool → Bool := fun _ => false
  restartMaxAttempts : ℕ := 3
  restartBackoff : Time := 1
  restartResetAfter : Time := 600
  workerTimeout : Time := 30
  heartbeatInterval : Time := 5
  /-- `generateTaskDescriptors`, on the graph and the parallelism of a job. -/
  taskDescriptors : JobID → Graph → ℕ → Option (List TaskDescriptor)
  /-- The job that a task id begins with: ids are made by
  `fmt.Sprintf("%s/%s/%d", jobID, primary, i)`. -/
  taskJob : TaskID → JobID
  taskJob_eq : ∀ j g p tasks, taskDescriptors j g p = some tasks →
    ∀ t ∈ tasks, taskJob t.taskID = j
  /-- `validateGraphKeyGroups`. -/
  keyGroups : Graph → ℕ → Option ℕ := fun _ _ => some defaultNumKeyGroups
  /-- The graph and parallelism that a rescale request makes of a job's. -/
  rescaled : Graph → ℕ → ℕ → Option (Graph × ℕ) := fun _ _ _ => none
  /-- Whether `planRescaleState` accepts a checkpoint for the new tasks. -/
  rescalePlan : CheckpointMeta → List TaskDescriptor → Bool := fun _ _ => false

/-- `checkpointpolicy.WindowSize`. -/
def windowSize : ℕ := 100

/-- `checkpointpolicy.Record`. -/
def recordOutcome (previous : List Bool) (failed : Bool) : List Bool :=
  previous.drop (previous.length + 1 - windowSize) ++ [failed]

end Wire.Coordinator
