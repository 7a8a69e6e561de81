import Wire.Coordinator.RecordMoves

/-!
# What a step does to the tasks and to the goroutines

The third of the coordinator's inversions, next to the ones of the checkpoints and of the job
records.  `TaskMove` lists everything a step can do to the persisted assignments, to the statuses
that tasks were reported in, and to what the coordinator knows of its workers.  `Spawned` lists
the goroutines that a step can leave behind, with where they come from: a goroutine goes on as
another one, or a request starts it.  `step_moved` in `Steps` proves both lists complete.

The goroutines that later arguments are about have entries of their own: those that place tasks,
publish a deployment or deliver it, those that carry the report of a task to its job, and those
that persist a submission.  The rest is only followed through the record that it holds.
-/

namespace Wire.Coordinator

open Guard List Option AList Function

/-! ## The task side of the state -/

/-- Where the tasks of the jobs are. -/
structure Tasks where
  assignments : JobID → Option TaskAssignmentMap
  statuses : TaskID → Option TaskStatus
  workers : GoMap WorkerID WorkerMeta
  recovered : Bool
  epoch : ℕ
  fence : Time
  /-- The epoch in the store, and that of a recovery under way. -/
  storedEpoch : ℕ
  recovering : Option ℕ

def State.tasks (s : State) : Tasks where
  assignments := s.store.assignments
  statuses := s.mem.taskStatuses
  workers := s.mem.workers
  recovered := s.mem.recovered
  epoch := s.mem.epoch
  fence := s.mem.recoveryFenceUntil
  storedEpoch := s.store.epoch
  recovering := s.recovery.map (·.epoch)

/-- The event is no deployment, no report and no contact; a task is handed to a worker only by the
goroutine that delivers its assignment, and a checkpoint is started only by its own goroutine. -/
def Event.Ordinary (run : Option Thread) : Event → Prop
  | .deployed _ _ _ _ | .reported _ | .contacted _ _ _ => False
  | .enqueued _ (.deployTask j t epoch attempt generation)
  | .called _ (.deployTask j t epoch attempt generation) =>
    ∃ r a peers workers, run = some (.deliver r a peers workers) ∧ t ∈ a.assignments ∧
      Command.deployTask j t epoch attempt generation = a.deployment r.job t
  | .enqueued w (.takeSnapshot t q) =>
    ∃ cp rest sent pausing, run = some (.startTasks cp ((t, w) :: rest) sent pausing) ∧
      q = cp.request
  | _ => True

/-- A worker that registers is expected to run the task: it was assigned to it, and the job has
not ended. -/
def State.Expects (s : State) (w : WorkerID) (j : JobID) (t : TaskID) : Prop :=
  ∃ r found, s.mem.job j = some r ∧ s.store.assignments j = some found ∧ s.mem.ready = true ∧
    ¬ (s.deref r).status.isTerminal = true ∧ found.assignments.lookup t = some w

/-- Everything a step can do to the tasks: where they are afterwards, and the events logged.
`run` is the goroutine that the step runs. -/
inductive TaskMove (cfg : Config) (a : Action) (o : Oracle) (run : Option Thread) (s : State) :
    Tasks → List Event → Prop where
  | same {es : List Event} (hes : ∀ e ∈ es, e.Ordinary run) : TaskMove cfg a o run s s.tasks es
  | reported (req : TaskStatusRequest) (r : Ref) (found : TaskAssignmentMap) (charged : Bool)
      (haccept : acceptTaskStatus s req = .ok (r, found))
      (hretained : TaskStatus.retained (s.mem.taskStatuses req.taskID) req.status = false) :
      TaskMove cfg a o run s
        { s.tasks with
          assignments := update s.store.assignments req.jobID
            (some { found with recoveryAttemptCharged := charged })
          statuses := update s.mem.taskStatuses req.taskID (some req.status) }
        [.reported req]
  | lost (hready : s.mem.ready = true) (j : JobID) (found : TaskAssignmentMap)
      (ha : s.store.assignments j = some found) :
      TaskMove cfg a o run s
        { s.tasks with
          statuses := fun t =>
            if t ∈ s.lostTasks found then some .failed else s.mem.taskStatuses t } []
  | missing (w : WorkerID) (j : JobID) (t : TaskID) (ha : a = .missingTask w j t)
      (hexpects : s.Expects w j t) :
      TaskMove cfg a o run s
        { s.tasks with statuses := update s.mem.taskStatuses t (some .failed) } []
  | deploy (hready : s.mem.ready = true) (r : Ref) (p : Placement)
      (hrun : run = some (.publish r p)) (hlive : s.placementLive cfg o p = true)
      (new : TaskAssignmentMap) (hattempt : new.attemptID = p.attemptID)
        (hepoch : new.epochID = s.mem.epoch)
      (hnew : new.assignments = p.assignments.foldl (fun found a => found.insert a.1.taskID a.2) ∅)
      (generation boundary : ℕ) :
      TaskMove cfg a o run s
        { s.tasks with
          assignments := update s.store.assignments r.job (some new)
          statuses := fun t =>
            if t ∈ p.assignments.map (·.1.taskID) then none else s.mem.taskStatuses t }
        [.deployed r.job p.attemptID generation boundary]
  /-- Workers stay as they were, or are found to be silent. -/
  | workers (ws : GoMap WorkerID WorkerMeta)
      (hws : ∀ w, Option.Rel (fun old new => new.lastHeartbeat = old.lastHeartbeat ∧
        (new.lost = true → old.lost = true ∨ old.live cfg o.now = false))
          (s.mem.workers.lookup w) (ws.lookup w)) :
      TaskMove cfg a o run s { s.tasks with workers := ws } []
  | register (hready : s.mem.ready = true) (w : WorkerID) (worker : WorkerMeta) (highest : ℕ)
      (ha : a = .registerWorker w worker highest) (new : WorkerMeta)
      (hlast : new.lastHeartbeat = o.now) (hlost : new.lost = false) :
      TaskMove cfg a o run s { s.tasks with workers := s.mem.workers.insert w new }
        [.contacted w s.mem.epoch o.now]
  | heartbeat (hready : s.mem.ready = true) (w : WorkerID) (old new : WorkerMeta)
      (hold : s.mem.workers.lookup w = some old)
      (hlive : old.live cfg o.now = true) (hlast : new.lastHeartbeat = o.now)
      (hlost : new.lost = false) :
      TaskMove cfg a o run s { s.tasks with workers := s.mem.workers.insert w new }
        [.contacted w s.mem.epoch o.now]
  | remove (w : WorkerID) (ha : a = .removeWorker w) :
      TaskMove cfg a o run s { s.tasks with workers := s.mem.workers.erase w } []
  /-- A worker that could not be removed from the store is put back. -/
  | putBack (w : WorkerID) (worker : WorkerMeta) (hrun : run = some (.removeWorker w worker))
      (hwritten : o.written = false) :
      TaskMove cfg a o run s { s.tasks with workers := s.mem.workers.insert w worker } []
  | crash (ha : a = .crash) :
      TaskMove cfg a o run s
        ⟨s.store.assignments, fun _ => none, ∅, false, 0, 0, s.store.epoch, none⟩ []
  | startRecovery (hdown : s.mem.recovered = false) (epoch : ℕ) (hepoch : s.store.epoch < epoch) :
      TaskMove cfg a o run s { s.tasks with storedEpoch := epoch, recovering := some epoch } []
  | failRecovery : TaskMove cfg a o run s { s.tasks with recovering := none } []
  | recover (ha : a = .finishRecovery) (epoch : ℕ) (hrec : s.recovery = some ⟨epoch, [], []⟩)
      (ws : GoMap WorkerID WorkerMeta)
      (hws : ∀ w worker, ws.lookup w = some worker → worker.lastHeartbeat = 0) :
      TaskMove cfg a o run s
        ⟨s.store.assignments, fun _ => none, ws, true, epoch, o.now + cfg.workerTimeout,
          s.store.epoch, none⟩ []

/-! ## Goroutines -/

/-- The record that a goroutine holds. -/
def Thread.ref : Thread → Option Ref
  | .schedule r | .rollback r | .inspect r | .abortActive r _ | .judge r _ | .place r
  | .assign r _ | .publish r _ | .unrecoverable r | .deliver r _ _ _ | .transitions _ r _
  | .reported r _ _ | .pause r _ | .cancelJob r | .submit r _ _ _ _ => some r
  | .startTasks _ _ _ pausing => pausing
  | .notify _ _ | .abort _ _ _ _ | .cancelTasks _ | .removeWorker _ _ => none

/-- Nothing but the record that the goroutine holds is followed. -/
def Thread.ordinary : Thread → Bool
  | .assign _ _ | .publish _ _ | .deliver _ _ _ _ | .reported _ _ _ | .submit _ _ _ _ _
  | .startTasks _ _ _ _ => false
  | .transitions (.report _) _ _ => false
  | .transitions _ _ targets => .canceled ∉ targets
  | _ => true

/-- A record that is at hand in a step: the cached one, one of the scheduler's snapshot, or that
of the goroutine that the step runs. -/
def State.AtHand (s : State) (run : Option Thread) (r : Ref) : Prop :=
  s.mem.job r.job = some r ∨ r ∈ s.mem.pending ∨ ∃ u, run = some u ∧ u.ref = some r

/-- Everything that a step can leave behind as a goroutine, with the job records and the log after
the step. -/
inductive Spawned (cfg : Config) (run : Option Thread) (s : State) (records : Records)
    (log : List Event) : Thread → Prop where
  | ordinary {t : Thread} (ht : t.ordinary = true) (href : ∀ r, t.ref = some r → s.AtHand run r) :
      Spawned cfg run s records log t
  | assign (r : Ref) (hrun : run = some (.place r)) (config : Graph) (parallelism : ℕ)
      (tasks : List TaskDescriptor)
      (htasks : cfg.taskDescriptors r.job config parallelism = some tasks) :
      Spawned cfg run s records log (.assign r tasks)
  | publish (r : Ref) (p : Placement)
      (hrun : run = some (.assign r (p.assignments.map (·.1)))) :
      Spawned cfg run s records log (.publish r p)
  | deliver (r : Ref) (p : Placement) (hrun : run = some (.publish r p)) (a : TaskAssignmentMap)
      (generation boundary : ℕ)
      (hgeneration : ∀ t ∈ a.assignments, a.generationOf t = generation)
      (hlog : .deployed r.job a.attemptID generation boundary ∈ log) (workers : List WorkerID) :
      Spawned cfg run s records log (.deliver r a p.peers workers)
  | delivering (r : Ref) (a : TaskAssignmentMap) (peers : List (WorkerID × ℕ)) (w : WorkerID)
      (workers : List WorkerID) (hrun : run = some (.deliver r a peers (w :: workers))) :
      Spawned cfg run s records log (.deliver r a peers workers)
  | reported (hrun : run = none) (req : TaskStatusRequest) (r : Ref) (found : TaskAssignmentMap)
      (haccept : acceptTaskStatus s req = .ok (r, found))
      (hlog : log = s.log ++ [.reported req]) :
      Spawned cfg run s records log (.reported r req.status req.attemptID)
  | consequence (r : Ref) (status : TaskStatus) (attempt : AttemptID)
      (hrun : run = some (.reported r status attempt)) (targets : List JobStatus)
      (htargets : targets = s.reportTargets r status) :
      Spawned cfg run s records log (.transitions (.report attempt) r targets)
  | transitions (origin : Origin) (r : Ref) (target : JobStatus) (targets : List JobStatus)
      (hrun : run = some (.transitions origin r (target :: targets))) :
      Spawned cfg run s records log (.transitions origin r targets)
  | starting (cp : CheckpointMeta) (hcp : Opens s cp)
      (hlog : .triggered cp.jobID cp.id cp.attemptID ∈ log) (remaining : List (TaskID × WorkerID))
      (pausing : Option Ref) (hpausing : ∀ r, pausing = some r → s.AtHand run r) :
      Spawned cfg run s records log (.startTasks cp remaining [] pausing)
  | startTasks (cp : CheckpointMeta) (task : TaskID × WorkerID)
      (remaining : List (TaskID × WorkerID)) (sent : List WorkerID) (pausing : Option Ref)
      (hrun : run = some (.startTasks cp (task :: remaining) sent pausing))
      (sent' : List WorkerID) :
      Spawned cfg run s records log (.startTasks cp remaining sent' pausing)
  | submit (j : JobID) (hready : s.mem.ready = true) (hj : j ∉ s.issued) (name : Name)
      (config : Graph) (parallelism : ℕ) (now : Time)
      (hadopt : records = s.records.adopt j (.submitted name config parallelism now)) :
      Spawned cfg run s records log (.submit ⟨j, s.mem.nextSerial⟩ name config parallelism now)

/-- What a step has done to the tasks and the goroutines. -/
structure Moved (cfg : Config) (a : Action) (o : Oracle) (run : Option Thread) (s s' : State) :
    Prop where
  threads : ∀ t ∈ s'.threads, t ∈ s.threads ∨ Spawned cfg run s s'.records s'.log t
  /-- A goroutine that always comes to its end is still there, unless it is the one that ran. -/
  kept : ∀ t ∈ s.threads, t.abandonable = false → run = some t ∨ a = .crash ∨ t ∈ s'.threads
  pending : ∀ r ∈ s'.mem.pending, r ∈ s.mem.pending ∨ s.schedulable r.job = some r
  tasks : ∃ es, TaskMove cfg a o run s s'.tasks es ∧ s'.log = s.log ++ es

/-! ## Functions that do nothing to them -/

/-- Nothing is done to the tasks and the goroutines, and the events `es` were logged. -/
def Still (es : List Event) (s s' : State) : Prop :=
  s'.tasks = s.tasks ∧ s'.threads = s.threads ∧ s'.mem.pending = s.mem.pending ∧
    s'.log = s.log ++ es

theorem Still.refl (s : State) : Still [] s s := ⟨rfl, rfl, rfl, (append_nil _).symm⟩

theorem Still.record {es : List Event} {s s' : State} (h : Still [] s s') :
    Still es s (s'.record es) := by
  obtain ⟨htasks, hthreads, hpending, hlog⟩ := h
  rw [append_nil] at hlog
  exact ⟨htasks, hthreads, hpending, congrArg (· ++ es) hlog⟩

variable {r : Ref} {w : WorkerID} {t : Thread} {ts : List Thread}

section Still

variable {cfg : Config} {o : Oracle} {s : State}

theorem still_transition (r : Ref) (target : JobStatus) :
    Still [] s (s.transition cfg o r target).1 := by
  rw [State.transition]
  split
  · dsimp only
    split
    · exact .refl s
    · exact .refl s
  · exact .refl s

theorem still_replaceJob (r : Ref) (m : JobMeta) : Still [] s (s.replaceJob o r m).1 := by
  rw [State.replaceJob]
  split <;> exact .refl s

theorem still_attachCheckpointRestore {s₁ : State} {tasks : List TaskDescriptor}
    {result : Except Error Restore} (h : s.attachCheckpointRestore cfg o r tasks = (s₁, result)) :
    Still [] s s₁ := by
  rcases (attachCheckpointRestore_eq h).1 with rfl | ⟨cp, -, -, -, rfl⟩
  · exact .refl _
  · exact .refl s

theorem mem_tasksOf {a : TaskAssignmentMap} {t : TaskID} (h : t ∈ a.tasksOf w) :
    t ∈ a.assignments := by
  obtain ⟨e, he, rfl⟩ := mem_map.mp h
  exact mem_keys.mpr (mem_map_of_mem (mem_filter.mp he).1)

end Still

/-! ## Requests -/

section Moved

variable {cfg : Config} {a : Action} {o : Oracle} {run : Option Thread} {s s' : State}

/-- The goroutines that are left when one of them is run or given up. -/
structure Left (run : Option Thread) (s : State) (ts : List Thread) : Prop where
  sub : ts ⊆ s.threads
  kept : ∀ t ∈ s.threads, t.abandonable = false → run = some t ∨ t ∈ ts

theorem Left.all (run : Option Thread) (s : State) : Left run s s.threads :=
  ⟨fun _ h => h, fun _ h _ => .inr h⟩

variable {es : List Event} {p : List (TaskDescriptor × WorkerID)}

/-- A step that starts from the goroutines left and is still. -/
theorem Moved.still (hts : Left run s ts)
    (h : Still es { s with threads := ts } s') (hes : ∀ e ∈ es, e.Ordinary run) :
    Moved cfg a o run s s' := by
  obtain ⟨htasks, hthreads, hpending, hlog⟩ := h
  refine ⟨fun t ht => .inl (hts.sub ?_), fun t ht hkept => ?_, fun r hr => .inl (hpending ▸ hr), es,
    ?_, hlog⟩
  · rw [hthreads] at ht
    exact ht
  · rw [hthreads]
    exact (hts.kept t ht hkept).imp_right .inr
  · rw [htasks]
    exact .same hes

theorem Moved.silent (hts : Left run s ts) (h : Still [] { s with threads := ts } s') :
    Moved cfg a o run s s' :=
  .still hts h (by simp)

theorem Moved.spawn (h : Moved cfg a o run s s') (ht : Spawned cfg run s s'.records s'.log t) :
    Moved cfg a o run s (s'.spawn t) where
  threads := by
    intro u hu
    rcases mem_append.mp hu with hold | hnew
    · exact h.threads u hold
    · rw [mem_singleton] at hnew
      exact .inr (hnew ▸ ht)
  kept := fun u hu hkept =>
    (h.kept u hu hkept).imp_right (.imp_right fun hold => mem_append_left _ hold)
  pending := h.pending
  tasks := h.tasks

/-- A goroutine that holds no record. -/
theorem Moved.spawnFree (h : Moved cfg a o run s s') (ht : t.ordinary = true)
    (href : t.ref = none) :
    Moved cfg a o run s (s'.spawn t) :=
  h.spawn (.ordinary ht fun _ hr => nomatch href.symm.trans hr)

/-- A step that leaves the goroutines and the scheduler's snapshot alone. -/
theorem Moved.inPlace (htasks : TaskMove cfg a o run s s'.tasks es)
    (hthreads : s'.threads = s.threads) (hpending : s'.mem.pending = s.mem.pending)
    (hlog : s'.log = s.log ++ es) : Moved cfg a o run s s' where
  threads := fun _ ht => .inl (hthreads ▸ ht)
  kept := fun _ ht _ => .inr (.inr (hthreads ▸ ht))
  pending := fun _ hr => .inl (hpending ▸ hr)
  tasks := ⟨es, htasks, hlog⟩

theorem Moved.refl (s : State) : Moved cfg a o run s s := .silent (.all run s) (.refl s)

theorem acceptTaskStatus_assignment {req : TaskStatusRequest} {found : TaskAssignmentMap}
    (h : acceptTaskStatus s req = .ok (r, found)) : s.store.assignments req.jobID = some found ∧
      found.assignments.lookup req.taskID = some req.workerID ∧
      found.attemptID = req.attemptID := by
  simp only [acceptTaskStatus, bind_eq_ok, require_eq_ok, demand_eq_ok, pure_eq_ok,
    exists_const, Prod.mk.injEq] at h
  obtain ⟨-, r', hr, -, found', hfound, hmatch, -, rfl⟩ := h
  exact ⟨hfound, hmatch⟩

theorem moved_submitJob {j : JobID} (hready : s.mem.ready = true) (hj : j ∉ s.issued)
    (name : Name) (config : Graph) (parallelism : ℕ) (now : Time) :
    Moved cfg a o run s (s.submitJob j name config parallelism now) := by
  rw [State.submitJob]
  refine .spawn ?_ (.submit j hready hj name config parallelism now rfl)
  exact .silent (.all run s) (.refl s)

/-! ## Workers -/

/-- A worker whose contact and authority are kept, or found to be silent. -/
theorem TaskMove.setWorker {old new : WorkerMeta} (hold : s.mem.workers.lookup w = some old)
    (hlast : new.lastHeartbeat = old.lastHeartbeat) (hlost : new.lost = old.lost) :
    TaskMove cfg a o run s { s.tasks with workers := s.mem.workers.insert w new } [] := by
  refine .workers _ fun v => ?_
  rcases eq_or_ne v w with rfl | hne
  · rw [hold, lookup_insert]
    exact .some ⟨hlast, fun h => .inl (hlost ▸ h)⟩
  · rw [lookup_insert_ne hne]
    cases s.mem.workers.lookup v with
    | none => exact .none
    | some worker => exact .some ⟨rfl, .inl⟩

/-! ## Deployments -/

theorem lookup_foldl_insert {found : GoMap TaskID WorkerID} {t : TaskID}
    (h : (p.foldl (fun found a => found.insert a.1.taskID a.2) found).lookup t = some w) :
    found.lookup t = some w ∨ ∃ a ∈ p, a.1.taskID = t ∧ a.2 = w := by
  induction p generalizing found with
  | nil => exact .inl h
  | cons x rest ih =>
    rcases ih h with hfound | ⟨a, ha, hat⟩
    · rcases eq_or_ne t x.1.taskID with rfl | hne
      · rw [lookup_insert, some.injEq] at hfound
        exact .inr ⟨x, mem_cons_self, rfl, hfound⟩
      · rw [lookup_insert_ne hne] at hfound
        exact .inl hfound
    · exact .inr ⟨a, mem_cons_of_mem x ha, hat⟩

/-- The tasks of an assignment are those of the placement. -/
theorem lookup_placed {t : TaskID} (h : (p.foldl (fun found a => found.insert a.1.taskID a.2)
      (∅ : GoMap TaskID WorkerID)).lookup t = some w) : ∃ a ∈ p, a.1.taskID = t ∧ a.2 = w := by
  rcases lookup_foldl_insert h with hempty | hplaced
  · rw [lookup_empty] at hempty
    cases hempty
  · exact hplaced

/-- Every task of an assignment carries the generation of the deployment. -/
theorem generationOf_assignment (m : JobMeta) (p : Placement) (restore : Restore) {t : TaskID}
    (ht : t ∈ (s.assignment cfg o m p restore).assignments) :
    (s.assignment cfg o m p restore).generationOf t = m.deploymentGeneration + 1 := by
  have hdescriptors : (s.assignment cfg o m p restore).taskDescriptors = p.assignments.map fun a =>
    { a.1 with deploymentGeneration := m.deploymentGeneration + 1 } := rfl
  rw [TaskAssignmentMap.generationOf, hdescriptors]
  cases hfind : (p.assignments.map fun a =>
      { a.1 with deploymentGeneration := m.deploymentGeneration + 1 }).find?
        fun d => d.taskID = t with
  | none =>
    obtain ⟨w, hw⟩ := isSome_iff_exists.mp (lookup_isSome.mpr ht)
    obtain ⟨a, ha, hat, -⟩ := lookup_placed hw
    have hnone := find?_eq_none.mp hfind _ (mem_map_of_mem ha)
    exact absurd hat (by simpa using hnone)
  | some d =>
    obtain ⟨a, -, rfl⟩ := mem_map.mp (mem_of_find?_eq_some hfind)
    rfl

/-- Publishing a deployment in a state that the selection of a boundary has left still. -/
theorem moved_deploy {s₁ : State} {p : Placement} (hts : Left (some (.publish r p)) s ts)
    (restore : Restore) (hready : s.mem.ready = true) (hlive : s.placementLive cfg o p = true)
    (h : Still [] { s with threads := ts } s₁) :
    Moved cfg a o (some (.publish r p)) s (s₁.deploy cfg o r p restore) := by
  obtain ⟨htasks, hthreads, hpending, hlog⟩ := h
  simp only [State.tasks, Tasks.mk.injEq] at htasks
  obtain ⟨hassignments, hstatuses, hworkers, hrecovered, hepoch, hfence, hstored, hrecovering⟩ :=
    htasks
  have hview : (s₁.deploy cfg o r p restore).tasks = { s.tasks with
      assignments := update s.store.assignments r.job
        (some (s₁.assignment cfg o (s₁.deref r) p restore))
      statuses := fun t =>
        if t ∈ p.assignments.map (·.1.taskID) then none else s.mem.taskStatuses t } := by
    simp only [State.tasks, ← hassignments, ← hstatuses, ← hworkers, ← hrecovered, ← hepoch,
      ← hfence, ← hstored, ← hrecovering]
    rfl
  have hts' : (s₁.deploy cfg o r p restore).threads = ts := hthreads
  refine ⟨fun t ht => .inl (hts.sub ?_), fun t ht hkept => ?_, fun u hu => .inl ?_,
    [.deployed r.job p.attemptID ((s₁.deref r).deploy o.now).deploymentGeneration
      restore.boundary], ?_, ?_⟩
  · rw [hts'] at ht
    exact ht
  · rw [hts']
    exact (hts.kept t ht hkept).imp_right .inr
  · rw [show (s₁.deploy cfg o r p restore).mem.pending = s.mem.pending from hpending] at hu
    exact hu
  · rw [hview]
    exact .deploy hready r p rfl hlive _ rfl hepoch rfl _ restore.boundary
  · rw [append_nil] at hlog
    exact congrArg (· ++ _) hlog

/-! ## Steps -/

/-- The transitions that follow a report. -/
theorem canceled_notMem_reportTargets (s : State) (r : Ref) (status : TaskStatus) :
    .canceled ∉ s.reportTargets r status := by
  cases status with
  | running | finishing | failed | canceled | finished =>
    rw [State.reportTargets]
    split <;> simp
  | _ => simp [State.reportTargets]

end Moved

end Wire.Coordinator
