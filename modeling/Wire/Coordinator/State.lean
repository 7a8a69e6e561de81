import Wire.Coordinator.Types

/-!
# The coordinator's state

The metadata store, the coordinator's memory, and the goroutines that are between two
critical sections.  Every critical section under `c.mu` is atomic, so a goroutine is only
visible where it does not hold the lock, and a `Thread` is such a point together with the
local variables that are still needed.  A goroutine that is never scheduled again is one that
died or whose context ended.

The memory holds the job records behind their pointers, because that is how the source holds
them: `c.jobs` maps a job to a pointer, a goroutine keeps the pointer it started with, and a
helper that persists a copy of a record makes the copy the cached one.

The `log` is what the statements are about; no function reads it.
-/

namespace Wire.Coordinator

open Function

/-! ## Store and memory -/

/-- The key of a checkpoint record, `jobs/{job}/checkpoints/{id}`. -/
def CheckpointMeta.key (cp : CheckpointMeta) : JobID × ℕ := (cp.jobID, cp.id)

def SavepointMeta.key (sp : SavepointMeta) : JobID × SavepointID := (sp.jobID, sp.id)

/-- The metadata store. -/
structure Store where
  epoch : ℕ := 0
  jobs : JobID → Option JobMeta := fun _ => none
  assignments : JobID → Option TaskAssignmentMap := fun _ => none
  checkpoints : Table CheckpointMeta.key := ∅
  savepoints : Table SavepointMeta.key := ∅
  workers : GoMap WorkerID WorkerMeta := ∅

/-- A record has the identity it is stored under. -/
theorem Store.identity {st : Store} {j : JobID} {id : ℕ} {cp : CheckpointMeta}
    (h : st.checkpoints.lookup (j, id) = some cp) : cp.jobID = j ∧ cp.id = id := by
  have hkey : cp.key = (j, id) := Table.key_of_lookup h
  exact Prod.mk.inj hkey

/-- The records under the prefix `jobs/{job}/checkpoints/`. -/
def Store.checkpointsOf (st : Store) (j : JobID) : List CheckpointMeta :=
  st.checkpoints.records.filter fun cp => cp.jobID = j

/-- What the coordinator process holds in memory. -/
structure Memory where
  /-- Recovery has completed. -/
  recovered : Bool := false
  /-- The leadership context has been cancelled. -/
  revoked : Bool := false
  epoch : ℕ := 0
  /-- The job records, by pointer. -/
  heap : Ref → JobMeta := fun _ => default
  /-- The serial number of the next record that is allocated. -/
  nextSerial : ℕ := 0
  /-- `c.jobs`: the serial number of the cached record of a job. -/
  jobs : JobID → Option ℕ := fun _ => none
  /-- The names that are taken, with the jobs that have them. -/
  activeJobNames : Name → Option JobID := fun _ => none
  activeCheckpoints : JobID → Option CheckpointMeta := fun _ => none
  taskStatuses : TaskID → Option TaskStatus := fun _ => none
  workers : GoMap WorkerID WorkerMeta := ∅
  recoveryFenceUntil : Time := 0
  /-- What is left of the snapshot that the scheduler loop is dispatching. -/
  pending : List Ref := []

/-- `readyLocked`. -/
def Memory.ready (m : Memory) : Bool := m.recovered && !m.revoked

/-- The cached record of a job. -/
def Memory.job (m : Memory) (j : JobID) : Option Ref := (m.jobs j).map (Ref.mk j)

@[simp] theorem Memory.job_eq_some {m : Memory} {j : JobID} {r : Ref} :
    m.job j = some r ↔ r.job = j ∧ m.jobs j = some r.serial := by
  obtain ⟨i, n⟩ := r
  simp only [Memory.job, Option.map_eq_some_iff, Ref.mk.injEq]
  constructor
  · rintro ⟨k, hk, rfl, rfl⟩
    exact ⟨rfl, hk⟩
  · rintro ⟨rfl, hk⟩
    exact ⟨n, hk, rfl, rfl⟩

/-- The rest of `recover` between its writes. -/
structure Recovery where
  epoch : ℕ
  checkpointsToAbort : List CheckpointMeta
  savepointsToFail : List SavepointMeta

/-! ## Goroutines -/

/-- A placement: the worker of each task, and the connection a slot was reserved over for
each worker that supports reservations. -/
structure Placement where
  attemptID : AttemptID
  assignments : List (TaskDescriptor × WorkerID)
  peers : List (WorkerID × ℕ)
deriving DecidableEq

/-- The local variables of `prepareTaskRestart` after its first look. -/
structure Restart where
  /-- The checkpoint in flight, as its id and epoch. -/
  checkpoint : Option (ℕ × ℕ)
  /-- The tasks to cancel, with their workers, and the attempt they belong to. -/
  cancelTasks : List (WorkerID × TaskID)
  epochID : ℕ
  attemptID : AttemptID
  restarts : ℕ
  updated : Time
  rescale : Bool
deriving DecidableEq

/-- Who asks for a transition: the scheduler, which counts the goroutine as deploying the job,
a request, or the report of a task, which was checked against an attempt. -/
inductive Origin where
  | scheduler
  | request
  | report (attempt : AttemptID)
deriving DecidableEq

/-- Where a goroutine stands when it does not hold the lock. -/
inductive Thread where
  /-- `schedulePendingJob` -/
  | schedule (r : Ref)
  /-- `prepareTaskRestart`, before `rollbackFailedRescale` -/
  | rollback (r : Ref)
  /-- `prepareTaskRestart`, before it looks at the old attempt -/
  | inspect (r : Ref)
  /-- `prepareTaskRestart`, before it aborts the checkpoint in flight -/
  | abortActive (r : Ref) (local_ : Restart)
  /-- `prepareTaskRestart`, before it cancels tasks and checks the restart budget -/
  | judge (r : Ref) (local_ : Restart)
  /-- `scheduleJobContext` -/
  | place (r : Ref)
  /-- `scheduleJobContext`, before `assignTasks` and the reservations -/
  | assign (r : Ref) (tasks : List TaskDescriptor)
  /-- `scheduleJobContext`, before it takes the lock to publish the deployment -/
  | publish (r : Ref) (placement : Placement)
  /-- `scheduleJobContext`, after a recovery that cannot succeed -/
  | unrecoverable (r : Ref)
  /-- `scheduleJobContext`, delivering the published deployment to the remaining workers -/
  | deliver (r : Ref) (assignment : TaskAssignmentMap) (peers : List (WorkerID × ℕ))
      (workers : List WorkerID)
  /-- `transitionJob` to each of the targets in turn -/
  | transitions (origin : Origin) (r : Ref) (targets : List JobStatus)
  /-- `HandleUpdateTaskStatus`, before the job-level transition -/
  | reported (r : Ref) (status : TaskStatus) (attempt : AttemptID)
  /-- `PauseJob`, before the savepoint is triggered -/
  | pause (r : Ref) (savepoint : SavepointID)
  /-- `triggerCheckpointBoundary`, starting the checkpoint on the remaining tasks; a pausing
  caller then goes on with its record -/
  | startTasks (cp : CheckpointMeta) (remaining : List (TaskID × WorkerID))
      (sent : List WorkerID) (pausing : Option Ref)
  /-- `AcknowledgeCheckpoint`, sending the commit decision to the remaining tasks -/
  | notify (request : CheckpointRequest) (remaining : List (TaskID × WorkerID))
  /-- `abortCheckpoint`, before it takes the lock -/
  | abort (job : JobID) (id epoch : ℕ) (failure : Option Text)
  /-- `CancelJob`, before the transition -/
  | cancelJob (r : Ref)
  /-- `CancelJob`, after the transition -/
  | cancelTasks (job : JobID)
  /-- `SubmitJob`, before it writes the record as it was created -/
  | submit (r : Ref) (name : Name) (config : Graph) (parallelism : ℕ) (createdAt : Time)
  /-- `RemoveWorker`, before it deletes the worker from the store -/
  | removeWorker (w : WorkerID) (worker : WorkerMeta)

/-- The record for which the scheduler counts the goroutine as a running deployment. -/
def Thread.scheduling : Thread → Option Ref
  | .schedule r | .rollback r | .inspect r | .abortActive r _ | .judge r _ | .place r
  | .assign r _ | .publish r _ | .unrecoverable r | .deliver r _ _ _
  | .transitions .scheduler r _ => some r
  | _ => none

/-- The goroutine may end before it comes to its next critical section. -/
def Thread.abandonable : Thread → Bool
  | .submit _ _ _ _ _ | .removeWorker _ _ => false
  | _ => true

/-- The goroutine only sends commit decisions; it touches neither the store nor a record. -/
def Thread.notifies : Thread → Bool
  | .notify _ _ => true
  | _ => false

/-! ## The log -/

inductive Event where
  /-- The checkpoint of a job was persisted for the first time, for an attempt. -/
  | triggered (job : JobID) (id : ℕ) (attempt : AttemptID)
  /-- An acknowledgement was accepted. -/
  | acknowledged (request : AcknowledgeRequest)
  | completed (job : JobID) (id : ℕ)
  | aborted (job : JobID) (id : ℕ)
  /-- An attempt was persisted, restoring from a boundary (`0` for none). -/
  | deployed (job : JobID) (attempt : AttemptID) (generation boundary : ℕ)
  /-- A command was queued for a worker. -/
  | enqueued (worker : WorkerID) (command : Command)
  /-- A worker was handed a command by a call. -/
  | called (worker : WorkerID) (command : Command)
  /-- The report of a task was accepted. -/
  | reported (request : TaskStatusRequest)
  /-- The coordinator accepted contact with a worker, in the term of an epoch. -/
  | contacted (worker : WorkerID) (epoch : ℕ) (time : Time)
deriving DecidableEq

/-! ## The whole state -/

structure State where
  store : Store := {}
  mem : Memory := {}
  recovery : Option Recovery := none
  threads : List Thread := []
  /-- The job ids generated so far; random 128-bit ids do not repeat. -/
  issued : List JobID := []
  log : List Event := []

/-- What comes of reading the recovery manifest of a checkpoint and validating it against the
checkpoint's record. -/
inductive ManifestRead where
  | valid | invalid | unsupported | unreadable
deriving DecidableEq

/-- What the environment decides during one step: the time, the outcomes of the two store
writes a step may make, the outcomes of calls to workers, the results of reading recovery
manifests, and the random and scheduling choices of a deployment. -/
structure Oracle where
  now : Time := 0
  written : Bool := true
  /-- The write of a lowered recovery boundary, which precedes that of the deployment. -/
  boundaryWritten : Bool := true
  /-- The call to a worker succeeded and was accepted. -/
  accepted : Bool := true
  manifest : CheckpointMeta → ManifestRead := fun _ => .valid
  /-- `checkpointManifest` accepts the completed inventory. -/
  inventoryAccepted : Bool := true
  /-- What `assignTasks` and `reserveDeployment` come up with. -/
  placement : Option Placement := none
  /-- The placement failed for want of slots, not for want of a reservation. -/
  insufficientSlots : Bool := false
  /-- `attachTaskAddressesLocked` resolves every stream. -/
  addressesResolved : Bool := true

namespace State

/-- A coordinator that has never run, over an empty store. -/
def initial : State := {}

/-- `*r`. -/
def deref (s : State) (r : Ref) : JobMeta := s.mem.heap r

/-- `*r = m`. -/
def assign (s : State) (r : Ref) (m : JobMeta) : State :=
  { s with mem := { s.mem with heap := update s.mem.heap r m } }

/-- `c.jobs[r.ID] = r`. -/
def cache (s : State) (r : Ref) : State :=
  { s with mem := { s.mem with jobs := update s.mem.jobs r.job (some r.serial) } }

/-- A new record of a job, made the cached one. -/
def adopt (s : State) (j : JobID) (m : JobMeta) : State :=
  { s with
    mem := { s.mem with
      heap := update s.mem.heap ⟨j, s.mem.nextSerial⟩ m
      nextSerial := s.mem.nextSerial + 1
      jobs := update s.mem.jobs j (some s.mem.nextSerial) } }

def setJob (s : State) (j : JobID) (m : JobMeta) : State :=
  { s with store := { s.store with jobs := update s.store.jobs j (some m) } }

def setAssignments (s : State) (j : JobID) (a : TaskAssignmentMap) : State :=
  { s with store :=
    { s.store with assignments := update s.store.assignments j (some a) } }

def setCheckpoint (s : State) (cp : CheckpointMeta) : State :=
  { s with store := { s.store with checkpoints := s.store.checkpoints.put cp } }

def setSavepoint (s : State) (sp : Option SavepointMeta) : State :=
  { s with store :=
    { s.store with savepoints := sp.elim s.store.savepoints s.store.savepoints.put } }

def setActive (s : State) (j : JobID) (cp : Option CheckpointMeta) : State :=
  { s with mem :=
    { s.mem with activeCheckpoints := update s.mem.activeCheckpoints j cp } }

def setTaskStatus (s : State) (t : TaskID) (status : TaskStatus) : State :=
  { s with mem :=
    { s.mem with taskStatuses := update s.mem.taskStatuses t (some status) } }

def record (s : State) (es : List Event) : State := { s with log := s.log ++ es }

def spawn (s : State) (t : Thread) : State := { s with threads := s.threads ++ [t] }

end State

end Wire.Coordinator
