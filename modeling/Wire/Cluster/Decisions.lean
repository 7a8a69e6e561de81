import Wire.Cluster.Barriers

/-!
# Decisions and the barriers that follow them

A transactional sink that has prepared a checkpoint must hear the decision about it before it
handles the next barrier, or else it fails.  The coordinator completes a checkpoint under its lock
and sends the decision afterwards, while the next checkpoint can be triggered as soon as the lock is
free.  From there on, the decision goes to the sink's worker, and the trigger to the worker of a
source and the barrier from task to task; nothing makes the first faster than the second.
`barrier_before_decision` is a run without any failure in which the barrier wins.

`decision_before_barrier`: the barrier cannot win if the coordinator persists a new checkpoint only
while no sink still owes it the decision about a completed one.
-/

namespace Wire.Cluster

open Wire.Coordinator (JobID TaskID WorkerID Oracle)
open Wire.Engine (CheckpointIdentity ChainConfig InputMsg Obs Task)

variable {cfg : Config} {s s' : State} {t : TaskID} {k : Task} {b : CheckpointIdentity}

/-! ## Sinks that have not heard of a decision -/

/-- The sink of the task runs and has the checkpoint prepared, which is completed. -/
def State.Awaits (cfg : Config) (s : State) (t : TaskID) (b : CheckpointIdentity) : Prop :=
  ∃ k, s.tasks t = some k ∧ (cfg.chain t).txnSink = true ∧ k.chain.exit = none ∧
    k.chain.transaction.prepared = some b ∧ s.coordinator.Completed cfg.job b.id t

/-- The coordinator persists a new checkpoint of the job only if no sink awaits the decision about
an earlier one. -/
def Waits (cfg : Config) (s : State) (act : Action) : Prop :=
  ∀ a o delivered c id attempt, act = .coordinator a o delivered →
    Coordinator.step cfg.coordinator s.coordinator (a, o) = some c →
    c.log = s.coordinator.log ++ [.triggered cfg.job id attempt] → ∀ t b, ¬ s.Awaits cfg t b

/-- A sink that awaits a decision has no later checkpoint to fear, and one that failed because of a
later checkpoint had no decision to await. -/
structure Safe (cfg : Config) (s : State) : Prop where
  awaits : ∀ t b m epoch, s.Awaits cfg t b → s.coordinator.Issued cfg.job m epoch → m ≤ b.id
  overrun : ∀ t k m n, s.tasks t = some k → (cfg.chain t).txnSink = true → k.chain.Overrun m n →
    n < m → (∃ epoch, s.coordinator.Issued cfg.job m epoch) ∧ ¬ s.coordinator.Completed cfg.job n t

/-- Every task of the checkpoint has started its upload, and every transactional sink among them has
prepared it. -/
def State.Captured (cfg : Config) (s : State) (cp : Coordinator.CheckpointMeta) : Prop :=
  ∀ t ∈ cp.tasks, ∃ k, s.tasks t = some k ∧ .uploadStarted ⟨cp.id, cp.epochID⟩ ∈ k.chain.trace ∧
    ((cfg.chain t).txnSink = true → .preCommit ⟨cp.id, cp.epochID⟩ true ∈ k.chain.trace)

variable {id : ℕ} {c : Engine.ControlMsg}

theorem Inv.captured (hs : Inv cfg s) {cp : Coordinator.CheckpointMeta}
    (hcp : s.coordinator.store.checkpoints.lookup (cfg.job, id) = some cp)
    (hstatus : cp.status = .completed) : s.Captured cfg cp := by
  intro t ht
  obtain ⟨req, path, hreq, rfl, hack⟩ :=
    Coordinator.acknowledged_of_completed hs.coordinator
      (Table.mem_records_of_lookup hcp) hstatus ht
  obtain ⟨k, hk, hupload⟩ :=
    hs.acknowledged req hreq (hack.job.trans (Coordinator.Store.identity hcp).1)
  rw [hack.id, hack.epoch] at hupload
  refine ⟨k, hk, hupload, fun hsink => ?_⟩
  exact Engine.Chain.preCommit_mem_of_uploadStarted (hs.sound _ k hk).chain hsink hupload

/-- A checkpoint that a sink is about to prepare is not completed: the task would have
acknowledged it. -/
theorem Inv.not_completed_of_prepare (hs : Inv cfg s) (hk : s.tasks t = some k)
    (hsink : (cfg.chain t).txnSink = true) (hexit : k.chain.exit = none)
    (hhead : k.chain.todo.head? = some (.barrier c .prepare)) :
    ¬ s.coordinator.Completed cfg.job c.identity.id t := by
  rintro ⟨cp, hcp, hstatus, ht⟩
  obtain ⟨k', hk', -, hprepared⟩ := hs.captured hcp hstatus t ht
  rw [hk] at hk'
  cases hk'
  -- the record has the epoch of the barrier
  obtain ⟨cp', hcp', hepoch⟩ := hs.carried t k c.identity hk (.code _ hhead rfl hexit)
  rw [hcp] at hcp'
  cases hcp'
  rw [hepoch, (Coordinator.Store.identity hcp).2] at hprepared
  exact Task.preCommit_notMem_of_prepare (hs.sound t k hk) hexit hhead (hprepared hsink)

/-- **A commit follows the completion.**  A decision to commit that a task of the job takes from its
mailbox is about a checkpoint that the store holds as completed and that every task has captured. -/
theorem commit_captured (h : Runs.Reachable (step cfg) {} s) {w : WorkerID} {p p' : Worker.Process}
    (hp : (s.workers w).process = some p)
    (htake : p.takeDecision (some t) = some (p', some cfg.job, c))
    (htype : c.type = .commitCheckpoint) :
    ∃ cp, s.coordinator.store.checkpoints.lookup (cfg.job, c.identity.id) = some cp ∧
      cp.status = .completed ∧ s.Captured cfg cp := by
  have hs := inv_of_reaches h
  obtain ⟨e, he, hverdict⟩ := (((hs.mail w p hp).takeDecision htake).2 cfg.job rfl).2 htype
  obtain ⟨cp, hcp, rfl⟩ := Option.map_eq_some_iff.mp he
  have hstatus : cp.status = .completed := by
    rw [Coordinator.CheckpointMeta.entry, Coordinator.CheckpointMeta.verdict] at hverdict
    cases hstatus : cp.status with
    | completed => rfl
    | _ =>
      rw [hstatus] at hverdict
      cases hverdict
  exact ⟨cp, hcp, hstatus, hs.captured hcp hstatus⟩

namespace Safe

theorem initial (cfg : Config) : Safe cfg {} where
  awaits := fun _ _ _ _ ⟨_, hk, _⟩ => nomatch hk
  overrun := fun _ _ _ _ hk => nomatch hk

section

variable (h : Safe cfg s)
include h

theorem enter (hs : Inv cfg s) {a : Coordinator.Action} {o : Oracle}
    {c : Coordinator.State} (hstep : Coordinator.step cfg.coordinator s.coordinator (a, o) = some c)
    (hwaits : ∀ id attempt, c.log = s.coordinator.log ++ [.triggered cfg.job id attempt] →
      ∀ t b, ¬ s.Awaits cfg t b) : Safe cfg (s.enter c) where
  awaits := by
    rintro t b m epoch ⟨k, hk, hsink, hexit, hprepared, hcompleted⟩ hissued
    by_contra hlt
    obtain ⟨hbefore, hissued | ⟨attempt, hlog⟩⟩ :=
      Coordinator.completed_of_step hs.coordinator hstep hcompleted hissued (not_le.mp hlt)
    · exact hlt (h.awaits t b m epoch ⟨k, hk, hsink, hexit, hprepared, hbefore⟩ hissued)
    · exact hwaits m attempt hlog t b ⟨k, hk, hsink, hexit, hprepared, hbefore⟩
  overrun := by
    intro t k m n hk hsink hover hlt
    obtain ⟨⟨epoch, hissued⟩, hnot⟩ := h.overrun t k m n hk hsink hover hlt
    have hissued' := hs.keep hstep hissued
    refine ⟨⟨epoch, hissued'⟩, fun hcompleted => hnot ?_⟩
    exact (Coordinator.completed_of_step hs.coordinator hstep hcompleted hissued' hlt).1

/-- One task changes. -/
theorem setTask
    (hawaits : ∀ b, (cfg.chain t).txnSink = true → k.chain.exit = none →
      k.chain.transaction.prepared = some b → s.coordinator.Completed cfg.job b.id t →
      s.Awaits cfg t b)
    (hoverrun : ∀ m n, (cfg.chain t).txnSink = true → k.chain.Overrun m n → n < m →
      (∃ epoch, s.coordinator.Issued cfg.job m epoch) ∧
        ¬ s.coordinator.Completed cfg.job n t) : Safe cfg (s.setTask t k) where
  awaits := by
    rintro t' b m epoch ⟨k', hk', hsink, hexit, hprepared, hcompleted⟩ hissued
    rcases setTask_eq_some hk' with ⟨rfl, rfl⟩ | ⟨-, hold⟩
    · exact h.awaits t' b m epoch (hawaits b hsink hexit hprepared hcompleted) hissued
    · exact h.awaits t' b m epoch ⟨k', hold, hsink, hexit, hprepared, hcompleted⟩ hissued
  overrun := by
    intro t' k' m n hk' hsink hover hlt
    rcases setTask_eq_some hk' with ⟨rfl, rfl⟩ | ⟨-, hold⟩
    · exact hoverrun m n hsink hover hlt
    · exact h.overrun t' k' m n hold hsink hover hlt

theorem task (hs : Inv cfg s) {k' : Task} {a : Task.Act}
    (hk : s.tasks t = some k) (hstep : k.step (cfg.chain t) a = some k') :
    Safe cfg (s.setTask t k') := by
  have hsound := hs.sound t k hk
  refine h.setTask (fun b hsink hexit hprepared hcompleted => ?_) fun m n hsink hover hlt => ?_
  · obtain ⟨hrun, hold | ⟨c, hhead, rfl⟩⟩ := Task.prepared_of_step hsound hstep hexit hprepared
    · exact ⟨k, hk, hsink, hrun, hold, hcompleted⟩
    · exact absurd hcompleted (hs.not_completed_of_prepare hk hsink hrun hhead)
  · rcases Task.overrun_of_step hstep hover with hold | ⟨hrun, c, hhead, htype, rfl, hprepared⟩
    · exact h.overrun t k m n hk hsink hold hlt
    · have hknown := hs.carried t k c.identity hk
        (.code _ hhead (by rw [Engine.ChainOp.carries, if_pos htype]) hrun)
      refine ⟨⟨c.identity.epoch, hknown⟩, fun hcompleted => ?_⟩
      have hle := h.awaits t _ _ _ ⟨k, hk, hsink, hrun, hprepared, hcompleted⟩ hknown
      exact absurd hlt (not_lt.mpr hle)

theorem move (hs : Inv cfg s) (hmove : Local cfg s s') : Safe cfg s' := by
  cases hmove with
  | count | queue | worker => exact { h with }
  | start t hnone =>
    refine h.setTask (fun b _ _ hprepared => ?_) fun m n _ hover => ?_
    · cases hprepared
    · cases hover
  | task t k k' a hk hstep => exact h.task hs hk hstep
  | deliver d m hm =>
    unfold State.deliver
    split
    · next k hk =>
      exact h.setTask (fun b hsink hexit hprepared hcompleted =>
        ⟨k, hk, hsink, hexit, hprepared, hcompleted⟩) fun m n => h.overrun d.1 k m n hk
    · exact { h with }

theorem moves (hs : Inv cfg s) (hmoves : Moves cfg s s') : Safe cfg s' := by
  induction hmoves with
  | refl => exact h
  | tail hbefore hmove ih => exact ih.move (hs.moves hbefore) hmove

end

end Safe

theorem safe_of_reaches (h : Runs.Reaches (step cfg) (Waits cfg) {} s) : Safe cfg s := by
  refine h.invariant (.initial cfg) ?_
  intro s act s' hreach hsafe hwaits hstep
  have hs := inv_of_reaches hreach
  rcases step_cases hs hstep with hmoves | ⟨a, o, delivered, c, hact, hc, hjustified, hmoves⟩
  · exact hsafe.moves hs hmoves
  · refine (hsafe.enter hs hc fun id attempt hlog => ?_).moves (hs.enter hc hjustified) hmoves
    exact hwaits a o delivered c id attempt hact hc hlog

/-- **A decision reaches a sink before the next barrier**, if the coordinator waits for the sinks
before it persists a checkpoint: no sink handles the barrier of a later checkpoint while it has one
prepared that is completed, and no sink has failed because it did. -/
theorem decision_before_barrier (h : Runs.Reaches (step cfg) (Waits cfg) {} s)
    (hk : s.tasks t = some k) (hsink : (cfg.chain t).txnSink = true) :
    (∀ c b, k.chain.exit = none → k.chain.todo.head? = some (.handle c) →
      c.type = .barrierReceived → k.chain.transaction.prepared = some b → b.id < c.identity.id →
      ¬ s.coordinator.Completed cfg.job b.id t) ∧
    ∀ m n, k.chain.exit = some (.failed (.arrivedWhilePrepared m n)) → n < m →
      ¬ s.coordinator.Completed cfg.job n t := by
  have hsafe := safe_of_reaches h
  constructor
  · intro c b hrun hhead htype hprepared hlt hcompleted
    have hknown := (inv_of_reaches h).carried t k c.identity hk
      (.code _ hhead (by rw [Engine.ChainOp.carries, if_pos htype]) hrun)
    have hle := hsafe.awaits t b _ _ ⟨k, hk, hsink, hrun, hprepared, hcompleted⟩ hknown
    exact absurd hlt (not_lt.mpr hle)
  · intro m n hover hlt
    exact (hsafe.overrun t k m n hk hsink hover hlt).2

/-! ## Runs without failures -/

/-- Every call that the chain makes succeeds. -/
def healthyChain : Engine.Chain.Act → Bool
  | .start o | .resume o _ | .poll o | .recvEvent o _ => decide (o = .ok)
  | .recvUpload _ uploaded notified sent => uploaded && decide (notified = .ok ∧ sent = .ok)
  | .recvControl => true
  | .cancel => false

/-- Nothing is lost, refused, aborted, canceled or shut down. -/
def Action.healthy : Action → Bool
  | .coordinator a o delivered => delivered && o.written && o.boundaryWritten && o.accepted &&
      o.inventoryAccepted && o.addressesResolved && !o.insufficientSlots && match a with
    | .startRecovery _ | .finishRecovery | .registerWorker .. | .heartbeat .. | .submitJob .. =>
      true
    | .tick _ | .dispatch | .proceed _ | .triggerCheckpoint .. => true
    | .acknowledgeCheckpoint req => req.failure.isNone
    | .updateTaskStatus req => decide (req.status = .running)
    | _ => false
  | .queue a => match a with
    | .write _ outcome => decide (outcome = .written)
    | .cancel _ | .cleanup _ => false
    | _ => true
  | .worker _ (.process a) => match a with
    | .connect _ | .registered _ | .save true | .adopt _ => true
    | _ => false
  | .task _ a => match a with
    | .chain a => healthyChain a
    | .drainInputs | .shutdown => false
    | _ => true
  | _ => true

/-! ### A source and a sink

The source is task 0 on worker 1, and the sink is task 1 on worker 2.  Both workers take their
commands with the responses to heartbeats. -/

namespace Sample

/-- Every job has a source and a sink. -/
def pipeline : Coordinator.Config where
  taskDescriptors := fun j _ _ => some
    [{ taskID := 2 * j, source := true }, { taskID := 2 * j + 1 }]
  taskJob := fun t => t / 2
  taskJob_eq := by
    intro j g p tasks h t ht
    cases h
    rcases List.mem_pair.mp ht with rfl | rfl
    · simp
    · simp [Nat.mul_add_div]

def config : Config where
  coordinator := pipeline
  worker := fun _ => { epochPath := false, taskSlots := 4, contactTimeout := 100 }
  job := 0
  operators := fun t => if t = 0 then [.source] else [.sink]
  replicated := fun _ => true
  chain := fun t =>
    { numInputs := 1, txnSink := t = 1, ackFn := false, uploads := true, restoredCommitted := 0 }
  maxBufferSize := 10
  downstream := fun t => if t = 0 then [(1, 0)] else []

def coordinator (as : List Coordinator.Action) : List Action :=
  as.map fun a => .coordinator a Coordinator.Sample.oracle true

def placement : Coordinator.Placement where
  attemptID := 1
  assignments := [({ taskID := 0, source := true }, 1), ({ taskID := 1 }, 2)]
  peers := []

/-- The workers register and the job is deployed. -/
def deploy : List Action :=
  coordinator [.startRecovery 0, .finishRecovery,
    .registerWorker 1 (Coordinator.Sample.worker 1) 0,
    .registerWorker 2 (Coordinator.Sample.worker 2) 0, .submitJob 0 0 0 1, .proceed 0,
    .tick [0], .dispatch, .proceed 0, .proceed 0] ++
  [.coordinator (.proceed 0) { Coordinator.Sample.oracle with placement := some placement } true] ++
  coordinator (List.replicate 4 (.proceed 0))

/-- A worker opens a session. -/
def session (w : WorkerID) : List Action :=
  [.start 1, .process (.connect 1), .process (.registered 1), .process (.adopt 1)].map (.worker w)

/-- The response to a heartbeat of a worker has some commands, which are handled. -/
def heartbeat (w : WorkerID) (n : ℕ) : List Action :=
  .queue (.heartbeat w) :: List.replicate n (.handleAnswered w)

def reportRunning (t : TaskID) : Coordinator.Action :=
  .updateTaskStatus
    { jobID := 0, taskID := t, workerID := t + 1, attemptID := 1, epochID := 1, status := .running }

def ofTask (t : TaskID) (as : List Task.Act) : List Action := as.map (.task t)

/-- The tasks are started, and the job is running. -/
def started : List Action :=
  deploy ++ session 1 ++ session 2 ++ heartbeat 1 1 ++ heartbeat 2 1 ++
    ofTask 0 [.chain (.start .ok)] ++ ofTask 1 [.chain (.start .ok)] ++
    coordinator [reportRunning 0, .proceed 0, .proceed 0, reportRunning 1, .proceed 0, .proceed 0,
      .proceed 0]

/-- The chain goes on with the message that it handles. -/
def resume (n : ℕ) : List Task.Act := List.replicate n (.chain (.resume .ok 0))

/-- A barrier is read and handled, and the snapshots are uploaded. -/
def checkpoint (t : TaskID) (id : ℕ) : List Action :=
  ofTask t ([.reader 0, .reader 0, .reader 0, .chain (.poll .ok)] ++
    resume (if t = 0 then 9 else 8) ++
    [.chain (.poll .ok), .chain (.recvUpload ⟨id, 1⟩ true .ok .ok)])

/-- A checkpoint is triggered, and the source takes its trigger out of so many commands. -/
def trigger (n : ℕ) : List Action :=
  coordinator [.triggerCheckpoint 0 none false, .proceed 0, .proceed 0, .proceed 0] ++
    heartbeat 1 n ++ [.takeTrigger 1 0]

def acknowledgement (id : ℕ) (t : TaskID) : Coordinator.Action :=
  .acknowledgeCheckpoint
    { jobID := 0, checkpointID := id, epochID := 1, taskID := t, workerID := t + 1, attemptID := 1
      state := some
        { taskID := t, path := some (2 - t)
          manifest := some (.task { taskID := t, sinkPrepared := t = 1 }) } }

/-- Checkpoint 1 is completed, and the decisions about it are enqueued. -/
def completed : List Action :=
  started ++ trigger 1 ++ checkpoint 0 1 ++ checkpoint 1 1 ++
    coordinator [acknowledgement 1 0, acknowledgement 1 1, .proceed 0, .proceed 0, .proceed 0]

/-- The next barrier is on its way to the sink. -/
def followed : List Action := trigger 2 ++ checkpoint 0 2

/-- The sink hears of the decision. -/
def decided : List Action :=
  heartbeat 2 2 ++ [.takeDecision 2 1] ++ ofTask 1 (.chain (.poll .ok) :: resume 4)

end Sample

/-- `Waits`, evaluated: no task of a completed checkpoint has it prepared. -/
def waits (cfg : Config) (s : State) : Action → Bool
  | .coordinator a o _ =>
    (Coordinator.step cfg.coordinator s.coordinator (a, o)).all fun c =>
      (c.log.drop s.coordinator.log.length).all (fun e => !e.opening) ||
      s.coordinator.store.checkpoints.records.all fun cp =>
        decide (cp.status ≠ .completed) || cp.tasks.keys.all fun t =>
          (s.tasks t).all fun k => decide (k.chain.transaction.prepared.map (·.id) ≠ some cp.id)
  | _ => true

theorem waits_sound (cfg : Config) (s : State) (act : Action) (h : waits cfg s act = true) :
    Waits cfg s act := by
  rintro a o delivered c id attempt rfl hstep hlog t b
    ⟨k, hk, -, -, hprepared, cp, hcp, hstatus, ht⟩
  rw [waits, hstep, Option.all_some, hlog, List.drop_left] at h
  have hcheck := (Bool.or_eq_true_iff.mp h).resolve_left nofun
  have hrecord := List.all_eq_true.mp hcheck cp (Table.mem_records_of_lookup hcp)
  have htasks := (Bool.or_eq_true_iff.mp hrecord).resolve_left fun hne =>
    of_decide_eq_true hne hstatus
  have hclear := List.all_eq_true.mp htasks t (AList.mem_keys.mp ht)
  rw [hk, Option.all_some, hprepared, Option.map_some] at hclear
  exact of_decide_eq_true hclear (congrArg some (Coordinator.Store.identity hcp).2.symm)

/-- `Completed`, evaluated. -/
def completed (c : Coordinator.State) (j : JobID) (id : ℕ) (t : TaskID) : Bool :=
  (c.store.checkpoints.lookup (j, id)).any fun cp =>
    decide (cp.status = .completed) && decide (t ∈ cp.tasks)

theorem completed_sound {c : Coordinator.State} {j : JobID}
    (h : completed c j id t = true) : c.Completed j id t := by
  obtain ⟨cp, hcp, h⟩ := (Option.any_eq_true _ _).mp h
  obtain ⟨hstatus, ht⟩ := Bool.and_eq_true_iff.mp h
  exact ⟨cp, hcp, of_decide_eq_true hstatus, of_decide_eq_true ht⟩

open Sample Runs

theorem barrier_persisted_source : ∃ s k, Reachable (step config) {} s ∧ s.tasks 0 = some k ∧
    k.Carries ⟨1, 1⟩ ∧ ∃ cp, s.coordinator.store.checkpoints.lookup (0, 1) = some cp ∧
      cp.epochID = 1 := by
  obtain ⟨s, hs, k, hk, hb⟩ := reachable_of_run (step config) {} (started ++ trigger 1)
    (p := fun s => ∃ k ∈ s.tasks 0, .checkpointBarrier ⟨1, 1⟩ ∈ (k.readers 0).inbox) (by decide)
  have hcarries : k.Carries ⟨1, 1⟩ := .reader 0 (.inl hb)
  exact ⟨s, k, hs, hk, hcarries, (barrier_persisted hs hk hcarries).1⟩

theorem commit_captured_sink : ∃ s p p' c, Reachable (step config) {} s ∧
    (s.workers 2).process = some p ∧ p.takeDecision (some 1) = some (p', some config.job, c) ∧
    ∃ cp, s.coordinator.store.checkpoints.lookup (config.job, c.identity.id) = some cp ∧
      cp.status = .completed ∧ s.Captured config cp := by
  obtain ⟨s, hs, p, hp, ⟨p', j, c⟩, htake, rfl, htype⟩ := reachable_of_run (step config) {}
    (Sample.completed ++ heartbeat 2 2) (p := fun s => ∃ p ∈ (s.workers 2).process,
      ∃ d ∈ p.takeDecision (some 1), d.2.1 = some 0 ∧ d.2.2.type = .commitCheckpoint) (by decide)
  exact ⟨s, p, p', c, hs, hp, htake, commit_captured hs hp htake htype⟩

/-- Checkpoint 1 is completed, the decisions about it are enqueued, and checkpoint 2 is triggered.
The heartbeat of the source's worker comes before that of the sink's, and the sink fails on the
barrier of checkpoint 2. -/
theorem barrier_before_decision : ∃ s k, Reaches (step config) (fun _ a => a.healthy = true) {} s ∧
    s.tasks 1 = some k ∧ (config.chain 1).txnSink = true ∧
    s.coordinator.Completed config.job 1 1 ∧
    k.chain.transaction.prepared = some ⟨1, 1⟩ ∧
    k.chain.exit = some (.failed (.arrivedWhilePrepared 2 1)) := by
  obtain ⟨s, hs, hcompleted, k, hk, h⟩ := reaches_of_run (step config)
    (fun _ a => a.healthy = true) (fun _ a => a.healthy) (fun _ _ h => h) {}
    (Sample.completed ++ Sample.followed ++
      ofTask 1 ([.reader 0, .reader 0, .reader 0, .chain (.poll .ok)] ++ resume 1))
    (p := fun s => completed s.coordinator 0 1 1 ∧ ∃ k ∈ s.tasks 1,
      k.chain.transaction.prepared = some ⟨1, 1⟩ ∧
        k.chain.exit = some (.failed (.arrivedWhilePrepared 2 1))) (by decide)
  exact ⟨s, k, hs, hk, rfl, completed_sound hcompleted, h⟩

/-- The heartbeat of the sink's worker comes before checkpoint 2 is triggered.  The sink has
committed checkpoint 1 and prepares checkpoint 2. -/
theorem decision_before_barrier_committed :
    ∃ s k, Reaches (step config) (Waits config) {} s ∧ s.tasks 1 = some k ∧
      s.coordinator.Completed config.job 1 1 ∧ .commit ⟨1, 1⟩ true ∈ k.chain.trace ∧
      k.chain.transaction.prepared = some ⟨2, 1⟩ ∧
      ∀ m n, k.chain.exit = some (.failed (.arrivedWhilePrepared m n)) → n < m →
        ¬ s.coordinator.Completed config.job n 1 := by
  obtain ⟨s, hs, hcompleted, k, hk, hcommit, hprepared⟩ := reaches_of_run (step config)
    (Waits config) (waits config) (waits_sound config) {}
    (Sample.completed ++ Sample.decided ++ Sample.followed ++ Sample.checkpoint 1 2)
    (p := fun s => completed s.coordinator 0 1 1 ∧ ∃ k ∈ s.tasks 1,
      .commit ⟨1, 1⟩ true ∈ k.chain.trace ∧ k.chain.transaction.prepared = some ⟨2, 1⟩)
    (by decide)
  exact ⟨s, k, hs, hk, completed_sound hcompleted, hcommit, hprepared,
    (decision_before_barrier hs hk rfl).2⟩

end Wire.Cluster
