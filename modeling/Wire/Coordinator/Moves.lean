import Wire.Coordinator.Frames

/-!
# What a step does to the checkpoint side

`Move D s s'` lists everything a step of the coordinator can do to the checkpoint records, the
checkpoints in flight and the decisions being sent, with what has been checked when it does
so; `TermMove` lists the steps that end a term or begin one.  `step_move` in `Steps` proves the
lists complete.  The invariants about checkpoint decisions are read off the lists and never off the
code.

The changes are stated as `Frame es (s.setCheckpoint …) s'`: after the named update nothing
else happens to the checkpoint side.  `KeptMove` adds what a step does to the savepoints.
-/

namespace Wire.Coordinator

open Guard List Table

/-- The request is a valid acknowledgement of a task of the checkpoint: from the worker the
task is assigned to, for the checkpoint's attempt, and with the state at its replica. -/
structure AcknowledgeRequest.Acknowledges (req : AcknowledgeRequest) (cp : CheckpointMeta)
    (path : Address) : Prop where
  job : req.jobID = cp.jobID
  id : req.checkpointID = cp.id
  epoch : req.epochID = cp.epochID
  worker : cp.tasks.lookup req.taskID = some req.workerID
  attempt : req.attemptID = cp.attemptID
  located : req.state.bind (·.path) = some path
  replica : cp.replicas.lookup req.taskID = some path

/-- A record with one more task state. -/
def CheckpointMeta.addState (cp : CheckpointMeta) (task : TaskID) (path : Address)
    (manifests : GoMap TaskID Manifest) : CheckpointMeta :=
  { cp with taskManifests := manifests, statePaths := cp.statePaths.insert task path }

/-- A record with a decision. -/
def CheckpointMeta.decide (cp : CheckpointMeta) (status : CheckpointStatus) : CheckpointMeta :=
  { cp with status }

/-- What a new checkpoint record looks like, and what has been checked of the others. -/
structure Opens (s : State) (cp : CheckpointMeta) : Prop where
  ready : s.mem.ready = true
  fresh : ∀ x ∈ s.store.checkpointsOf cp.jobID, x.status.inFlight = false ∧ x.id < cp.id
  status : cp.status = .inProgress
  epoch : cp.epochID = s.mem.epoch
  statePaths : cp.statePaths = ∅
  /-- The record is of the attempt that the store names. -/
  attempt : ∃ a, s.store.assignments cp.jobID = some a ∧ cp.attemptID = a.attemptID

/-- Everything a step within a term can do to the checkpoint side, where a deployment is one
of a job in `D`. -/
inductive Move (D : JobID → Prop) (s s' : State) : Prop where
  | frame {es : List Event} (h : Frame es s s') (hes : ∀ e ∈ es, e.neutral)
  | deploy (j : JobID) (attempt : AttemptID) (generation boundary : ℕ)
      (hready : s.mem.ready = true) (hj : D j)
      (h : Frame [.deployed j attempt generation boundary] s s')
  | commit (w : WorkerID) (t : TaskID) (q : CheckpointRequest) (hq : s.Notifies q)
      (h : Frame [.enqueued w (.commitCheckpoint t q)] s s')
  | again (cp : CheckpointMeta) (hcp : s.store.checkpoints.lookup cp.key = some cp)
      (hstatus : cp.status = .completed) (h : Frame [] (s.spawn cp.notifier) s')
  | trigger (cp : CheckpointMeta) (hcp : Opens s cp) (hjob : (s'.store.jobs cp.jobID).isSome)
      (h : Frame [.triggered cp.jobID cp.id cp.attemptID]
        ((s.setCheckpoint cp).setActive cp.jobID (some cp)) s')
  | abort (cp : CheckpointMeta) (hready : s.mem.ready = true)
      (hcp : s.store.checkpoints.lookup cp.key = some cp) (hepoch : cp.epochID = s.mem.epoch)
      (hstatus : cp.status.inFlight = true ∨ cp.status = .aborted)
      (h : Frame ((if cp.status = .aborted then [] else [.aborted cp.jobID cp.id]) ++
          (cp.decide .aborted).abortCommands)
        ((s.setCheckpoint (cp.decide .aborted)).clearActive cp.jobID cp.id cp.epochID) s')
  | acknowledge (cp : CheckpointMeta) (req : AcknowledgeRequest) (path : Address)
      (manifests : GoMap TaskID Manifest) (hready : s.mem.ready = true)
      (hcp : s.store.checkpoints.lookup cp.key = some cp) (hstatus : cp.status = .inProgress)
      (hreq : req.Acknowledges cp path)
      (h : Frame [.acknowledged req]
        (s.setCheckpoint (cp.addState req.taskID path manifests)) s')
  | complete (cp : CheckpointMeta) (req : AcknowledgeRequest) (path : Address)
      (manifests : GoMap TaskID Manifest) (hready : s.mem.ready = true)
      (hcp : s.store.checkpoints.lookup cp.key = some cp) (hstatus : cp.status = .inProgress)
      (hreq : req.Acknowledges cp path)
      (hall : (cp.statePaths.insert req.taskID path).entries.length = cp.tasks.entries.length)
      (h : Frame [.acknowledged req, .completed cp.jobID cp.id]
        (((s.setCheckpoint ((cp.addState req.taskID path manifests).decide .completed)).setActive
          cp.jobID none).spawn
            ((cp.addState req.taskID path manifests).decide .completed).notifier) s')
  | invalidate (cp : CheckpointMeta) (reason : Option Text) (hready : s.mem.ready = true)
      (hcp : s.store.checkpoints.lookup cp.key = some cp) (req : TaskStatusRequest)
      (h : Frame [.reported req] (s.setCheckpoint { cp with invalidReason := reason }) s')
  | forget (j : JobID) (cp : CheckpointMeta) (hcp : s.mem.activeCheckpoints j = some cp)
      (hepoch : cp.epochID ≠ s.mem.epoch) (h : Frame [] (s.setActive j none) s')

/-- Everything a step can do to the coordinator's term. -/
inductive TermMove (s s' : State) : Prop where
  | stepDown (h : s' = { s with mem := { s.mem with revoked := true } })
  | crash (h : s' = s.crash)
  | startRecovery (o : Oracle) (e : ℕ) (h : s.startRecovery o e = some s')
  | failRecovery (h : s' = { s with recovery := none })
  | recoverCheckpoint (epoch : ℕ) (cp : CheckpointMeta) (rest : List CheckpointMeta)
      (savepoints : List SavepointMeta) (hrec : s.recovery = some ⟨epoch, cp :: rest, savepoints⟩)
      (h : s' = { s.setCheckpoint (cp.decide .aborted) with
        recovery := some ⟨epoch, rest, savepoints⟩ })
  | recoverSavepoint (epoch : ℕ) (sp : SavepointMeta) (rest : List SavepointMeta)
      (hrec : s.recovery = some ⟨epoch, [], sp :: rest⟩)
      (h : s' = { s.setSavepoint (some { sp with status := .failed }) with
        recovery := some ⟨epoch, [], rest⟩ })
  | finishRecovery (cfg : Config) (o : Oracle) (h : s.finishRecovery cfg o = some s')

variable {D : JobID → Prop}

variable {s s' : State} {cfg : Config} {o : Oracle}

variable {es : List Event} {ts : List Thread} {cp : CheckpointMeta} {id epoch : ℕ} {a : Abort}
  {r : Ref} {req : TaskStatusRequest}

/-- Clearing the checkpoint in flight and the other updates of an abort do not interfere. -/
theorem frame_clearActive (h : Frame es s s') (j : JobID) (id epoch : ℕ) :
    Frame es (s.clearActive j id epoch) (s'.clearActive j id epoch) :=
  { h with active := by rw [State.clearActive, State.clearActive, State.setActive,
      State.setActive, h.active] }

/-- Writing a record and losing goroutines do not interfere. -/
theorem frame_setCheckpoint_threads (hts : ts ⊆ s.threads) (cp : CheckpointMeta) :
    Frame [] (s.setCheckpoint cp) (State.setCheckpoint { s with threads := ts } cp) :=
  (frame_threads (s.setCheckpoint cp) hts).toFrame

/-- A goroutine that is taken off the list makes no difference to a move. -/
theorem Move.ofThreads (hts : ts ⊆ s.threads)
    (h : Move D { s with threads := ts } s') : Move D s s' := by
  have hless := (frame_threads s hts).toFrame
  cases h with
  | frame h hes => exact .frame (hless.after h) hes
  | deploy j attempt generation boundary hready hj h =>
    exact .deploy j attempt generation boundary hready hj (hless.after h)
  | commit w t q hq h => exact .commit w t q (hless.notifies q hq) (hless.after h)
  | again cp hcp hstatus h =>
    refine .again cp hcp hstatus ((frame_threads (s.spawn cp.notifier) ?_).toFrame.after h)
    exact append_subset.mpr ⟨fun t ht => mem_append_left _ (hts ht), subset_append_right _ _⟩
  | trigger cp hcp hjob h =>
    exact .trigger cp { hcp with }
      hjob ((frame_threads ((s.setCheckpoint cp).setActive cp.jobID (some cp)) hts).toFrame.after h)
  | abort cp hready hcp hepoch hstatus h =>
    refine .abort cp hready hcp hepoch hstatus (.after ?_ h)
    exact frame_clearActive (frame_setCheckpoint_threads hts (cp.decide .aborted)) _ _ _
  | acknowledge cp req path manifests hready hcp hstatus hreq h =>
    exact .acknowledge cp req path manifests hready hcp hstatus hreq
      ((frame_setCheckpoint_threads hts _).after h)
  | complete cp req path manifests hready hcp hstatus hreq hall h =>
    refine .complete cp req path manifests hready hcp hstatus hreq hall (.after ?_ h)
    refine (frame_threads (((s.setCheckpoint
      ((cp.addState req.taskID path manifests).decide .completed)).setActive cp.jobID none).spawn
        ((cp.addState req.taskID path manifests).decide .completed).notifier) ?_).toFrame
    exact append_subset.mpr ⟨fun t ht => mem_append_left _ (hts ht), subset_append_right _ _⟩
  | invalidate cp reason hready hcp req h =>
    exact .invalidate cp reason hready hcp req ((frame_setCheckpoint_threads hts _).after h)
  | forget j cp hcp hepoch h =>
    exact .forget j cp hcp hepoch ((frame_threads (s.setActive j none) hts).toFrame.after h)

/-! ## Savepoints -/

/-- A move that writes no savepoint of a job that is not persisted. -/
structure KeptMove (D : JobID → Prop) (s s' : State) : Prop where
  move : Move D s s'
  savepoints : SavepointsFrom s s'

/-- A move that consists of an update and a frame, where the update writes no savepoint. -/
theorem KeptMove.of {s₀ : State} (hmove : Frame es s₀ s' → Move D s s')
    (h : Kept es s₀ s') (hsame : s₀.store.savepoints = s.store.savepoints) : KeptMove D s s' :=
  ⟨hmove h.toFrame, fun sp hsp => hsame ▸ h.savepoints sp hsp⟩

theorem KeptMove.frame (h : Kept es s s') (hes : ∀ e ∈ es, e.neutral) : KeptMove D s s' :=
  ⟨.frame h.toFrame hes, h.savepoints⟩

theorem KeptMove.silent (h : Kept [] s s') : KeptMove D s s' :=
  .frame h (by simp)

/-- A silent step after a move. -/
theorem KeptMove.andThen {s'' : State} (h : KeptMove D s s') (h' : Kept [] s' s'') :
    KeptMove D s s'' := by
  refine ⟨?_, h'.savepointsFrom h.savepoints⟩
  cases h.move with
  | frame h hes => exact .frame (h.andThen h'.toFrame) hes
  | deploy j attempt generation boundary hready hj h =>
    exact .deploy j attempt generation boundary hready hj (h.andThen h'.toFrame)
  | commit w t q hq h => exact .commit w t q hq (h.andThen h'.toFrame)
  | again cp hcp hstatus h => exact .again cp hcp hstatus (h.andThen h'.toFrame)
  | trigger cp hcp hjob h => exact .trigger cp hcp (h'.jobs _ hjob) (h.andThen h'.toFrame)
  | abort cp hready hcp hepoch hstatus h =>
    exact .abort cp hready hcp hepoch hstatus (h.andThen h'.toFrame)
  | acknowledge cp req path manifests hready hcp hstatus hreq h =>
    exact .acknowledge cp req path manifests hready hcp hstatus hreq (h.andThen h'.toFrame)
  | complete cp req path manifests hready hcp hstatus hreq hall h =>
    exact .complete cp req path manifests hready hcp hstatus hreq hall (h.andThen h'.toFrame)
  | invalidate cp reason hready hcp req h =>
    exact .invalidate cp reason hready hcp req (h.andThen h'.toFrame)
  | forget j cp hcp hepoch h => exact .forget j cp hcp hepoch (h.andThen h'.toFrame)

/-- The savepoint that a checkpoint decides is one that the store holds. -/
theorem savepointDecision_job {sp : SavepointMeta} (h : savepointDecision s cp = .ok (some sp)) :
    ∃ old ∈ s.store.savepoints.records, old.jobID = sp.jobID := by
  rw [savepointDecision] at h
  split at h
  · cases h
  · simp only [bind_eq_ok, demand_eq_ok, require_eq_ok, pure_eq_ok] at h
    obtain ⟨old, hold, -, -, heq⟩ := h
    cases heq
    exact ⟨old, mem_records_of_lookup hold, rfl⟩

theorem savepoints_put (sp : Option SavepointMeta)
    (hstore : s'.store.savepoints = sp.elim s.store.savepoints s.store.savepoints.put)
    (hsp : ∀ x, sp = some x → (∃ old ∈ s.store.savepoints.records, old.jobID = x.jobID) ∨
      (s'.store.jobs x.jobID).isSome) : SavepointsFrom s s' := by
  intro x hx
  rw [hstore] at hx
  cases sp with
  | none => exact .inl ⟨x, hx, rfl⟩
  | some sp =>
    rcases mem_records_put.mp hx with rfl | ⟨hmem, -⟩
    · exact hsp x rfl
    · exact .inl ⟨x, hmem, rfl⟩

/-! ## Triggering -/

theorem le_highestCheckpoint {scan : List CheckpointMeta}
    (h : cp ∈ scan) : cp.id ≤ highestCheckpoint scan := by
  induction scan with
  | nil => cases h
  | cons x rest ih =>
    rcases mem_cons.mp h with rfl | hrest
    · exact le_max_left _ _
    · exact (ih hrest).trans (le_max_right _ _)

variable {j : JobID} {failure : Option Text}

/-- The next id is new, and there is no checkpoint in flight. -/
theorem nextCheckpointID_ok {attempt : AttemptID} (h : nextCheckpointID s j attempt = .ok id) :
    ∀ x ∈ s.store.checkpointsOf j, x.status.inFlight = false ∧ x.id < id := by
  simp only [nextCheckpointID, bind_eq_ok, require_eq_ok, pure_eq_ok, exists_const,
    all_eq_true, decide_eq_true_eq] at h
  obtain ⟨-, hflight, -, rfl⟩ := h
  exact fun x hx => ⟨by simpa using hflight x hx, Nat.lt_succ_of_le (le_highestCheckpoint hx)⟩

/-- What a trigger has checked when it comes to its write. -/
theorem triggerCheckpointBoundary_ok {savepoint : Option SavepointID} {final : Bool} {t : Trigger}
    (h : triggerCheckpointBoundary cfg o s j savepoint final = .ok t) :
    t.checkpoint.jobID = j ∧ Opens s t.checkpoint ∧ ∀ sp, t.savepoint = some sp → sp.jobID = j := by
  simp only [triggerCheckpointBoundary, bind_eq_ok, require_eq_ok, demand_eq_ok, pure_eq_ok,
    exists_const] at h
  obtain ⟨hready, r, -, -, -, a, ha, -, -, -, id, hid, count, -, rfl⟩ := h
  refine ⟨rfl, ⟨hready, nextCheckpointID_ok hid, rfl, rfl, rfl, a, ha, rfl⟩, fun sp hsp => ?_⟩
  obtain ⟨_, -, rfl⟩ := Option.map_eq_some_iff.mp hsp
  rfl

/-! ## Aborting -/

/-- What an abort has checked when it comes to its write. -/
theorem abortCheckpoint_ok (h : abortCheckpoint cfg o s j id epoch failure = .ok a) :
    ∃ cp, s.mem.ready = true ∧ s.store.checkpoints.lookup cp.key = some cp ∧
      cp.jobID = j ∧ cp.id = id ∧ cp.epochID = epoch ∧ epoch = s.mem.epoch ∧
      (cp.status.inFlight = true ∨ cp.status = .aborted) ∧
      a.checkpoint = cp.decide .aborted ∧ a.alreadyAborted = decide (cp.status = .aborted) ∧
      ∀ sp, a.savepoint = some sp → ∃ old ∈ s.store.savepoints.records, old.jobID = sp.jobID := by
  simp only [abortCheckpoint, bind_eq_ok, require_eq_ok, demand_eq_ok, pure_eq_ok,
    exists_const] at h
  obtain ⟨hready, hepoch, cp, hcp, ⟨hj, hid, he⟩, hstatus, savepoint, hsavepoint, rfl⟩ := h
  refine ⟨cp, hready, ?_, hj, hid, he, hepoch, hstatus, rfl, rfl, ?_⟩
  · rw [CheckpointMeta.key, hj, hid]
    exact hcp
  · rintro sp rfl
    rw [abortedSavepoint] at hsavepoint
    split at hsavepoint
    · cases hsavepoint
    · exact savepointDecision_job hsavepoint

theorem frame_setFailedJob (s : State) (j : JobID) (failed : Option (Ref × JobMeta)) :
    Kept [] s (s.setFailedJob j failed) := by
  cases failed with
  | none => exact .refl s
  | some f => exact (frame_setJob s j f.2).andThen (frame_assign _ f.1 f.2)

theorem move_decideAbort (h : abortCheckpoint cfg o s j id epoch failure = .ok a) :
    KeptMove D s (s.decideAbort j id epoch a) := by
  obtain ⟨cp, hready, hcp, rfl, rfl, rfl, hepoch, hstatus, hnew, halready, hsp⟩ :=
    abortCheckpoint_ok h
  refine ⟨.abort cp hready hcp hepoch hstatus ?_, ?_⟩
  · have hbatch := (frame_setSavepoint (s.setCheckpoint a.checkpoint) a.savepoint).andThen
      (frame_setFailedJob _ cp.jobID a.failedJob).toFrame
    have hlog := (frame_clearActive hbatch cp.jobID cp.id cp.epochID).trans (frame_record _
      ((if a.alreadyAborted then [] else [.aborted cp.jobID cp.id]) ++
        a.checkpoint.abortCommands)).toFrame
    have hall : Frame _ _ (s.decideAbort cp.jobID cp.id cp.epochID a) := hlog
    rw [nil_append, halready, hnew] at hall
    simpa using hall
  · refine savepoints_put a.savepoint ?_ fun x hx => .inl (hsp x hx)
    cases hfailed : a.failedJob <;> rw [State.decideAbort, hfailed] <;> rfl

/-! ## Acknowledging -/

/-- What an acknowledgement has checked, and what it amounts to. -/
theorem acknowledgeCheckpoint_ok {req : AcknowledgeRequest} {a : Acknowledgement}
    (h : acknowledgeCheckpoint o s req = .ok a) :
    ∃ cp path manifests, s.mem.ready = true ∧ s.store.checkpoints.lookup cp.key = some cp ∧
      req.Acknowledges cp path ∧
      ((cp.status = .completed ∧ a = .repeated cp) ∨
        (cp.status = .inProgress ∧ a = .recorded (cp.addState req.taskID path manifests)) ∨
        (cp.status = .inProgress ∧
          (cp.statePaths.insert req.taskID path).entries.length = cp.tasks.entries.length ∧
          ∃ r savepoint, s.mem.job req.jobID = some r ∧
            (∀ sp, savepoint = some sp →
              ∃ old ∈ s.store.savepoints.records, old.jobID = sp.jobID) ∧
            a = .completed ((cp.addState req.taskID path manifests).decide .completed) r
              ((s.deref r).checkpointCompleted o.now
                ((cp.addState req.taskID path manifests).decide .completed)) savepoint)) := by
  simp only [acknowledgeCheckpoint, bind_eq_ok, require_eq_ok, demand_eq_ok, exists_const] at h
  obtain ⟨hready, hepoch, cp, hcp, ⟨hid, hjob, he⟩, ⟨hworker, hattempt⟩, state, hstate, path,
    hpath, -, hreplica, hstatus, manifests, -, -, hrest⟩ := h
  have hkey : s.store.checkpoints.lookup cp.key = some cp := by
    rw [CheckpointMeta.key, hjob, hid]
    exact hcp
  have hack : req.Acknowledges cp path :=
    ⟨hjob.symm, hid.symm, he.symm, hworker, hattempt, by rw [hstate]; exact hpath, hreplica⟩
  refine ⟨cp, path, manifests, hready, hkey, hack, ?_⟩
  split at hrest
  · next hdone =>
    rw [pure_eq_ok] at hrest
    exact .inl ⟨hdone, hrest.symm⟩
  · next hdone =>
    have hopen : cp.status = .inProgress := hstatus.resolve_right hdone
    split at hrest
    · next hall =>
      simp only [bind_eq_ok, require_eq_ok, demand_eq_ok, pure_eq_ok, exists_const] at hrest
      obtain ⟨-, r, hr, savepoint, hsavepoint, rfl⟩ := hrest
      refine .inr (.inr ⟨hopen, hall, r, savepoint, hr, ?_, rfl⟩)
      rintro sp rfl
      exact savepointDecision_job hsavepoint
    · rw [pure_eq_ok] at hrest
      exact .inr (.inl ⟨hopen, hrest.symm⟩)

/-! ## Timeouts and task reports -/

/-- An invalidated checkpoint is one that the store holds. -/
theorem invalidation_some {a : TaskAssignmentMap}
    {i : Invalidation} (h : invalidation s req r a = .ok (some i)) :
    ∃ cp reason, s.store.checkpoints.lookup cp.key = some cp ∧ cp.jobID = req.jobID ∧
      i = ⟨{ cp with invalidReason := reason }, (s.deref r).refund a.recoveryAttemptCharged,
        { a with recoveryAttemptCharged := false }⟩ := by
  unfold invalidation at h
  split at h
  · rw [pure_eq_ok] at h
    cases h
  · next f _ =>
    split at h
    · split at h
      · rw [pure_eq_ok] at h
        cases h
      · simp only [bind_eq_ok, demand_eq_ok] at h
        obtain ⟨cp, hcp, hrest⟩ := h
        have hkey := key_of_lookup hcp
        split at hrest
        · rw [pure_eq_ok, Option.some.injEq] at hrest
          exact ⟨cp, f.errorMessage, by rwa [hkey], congrArg Prod.fst hkey, hrest.symm⟩
        · rw [pure_eq_ok] at hrest
          cases hrest
    · rw [pure_eq_ok] at h
      cases h

theorem acceptTaskStatus_ready {a : TaskAssignmentMap}
    (h : acceptTaskStatus s req = .ok (r, a)) : s.mem.ready = true := by
  simp only [acceptTaskStatus, bind_eq_ok, require_eq_ok, exists_const] at h
  exact h.1.1

/-! ## Goroutines -/

/-- The job whose deployment a goroutine is about to publish. -/
def Thread.Deploys (t : Thread) (j : JobID) : Prop := ∃ r p, t = .publish r p ∧ j = r.job

/-- The job whose deployment an action publishes. -/
def Deploys (s : State) (a : Action) (j : JobID) : Prop :=
  ∃ i t, a = .proceed i ∧ s.threads[i]? = some t ∧ t.Deploys j

/-- One stretch of a goroutine that sends decisions. -/
theorem move_notify {q : CheckpointRequest}
    {remaining : List (TaskID × WorkerID)} (hts : ts ⊆ s.threads)
    (hq : Thread.notify q remaining ∈ s.threads)
    (h : State.go cfg o { s with threads := ts } (.notify q remaining) = some s') :
    KeptMove D s s' := by
  cases remaining with
  | nil =>
    cases h
    exact .silent (frame_threads s hts)
  | cons task rest =>
    cases h
    refine ⟨.commit task.2 task.1 q ⟨_, hq⟩ ?_, (Kept.refl s).savepoints⟩
    refine ⟨rfl, fun _ h => h, rfl, rfl, rfl, rfl, rfl, rfl, ?_⟩
    rintro q' ⟨remaining', hmem⟩
    rcases mem_append.mp hmem with hold | hnew
    · exact ⟨remaining', hts hold⟩
    · cases mem_singleton.mp hnew
      exact ⟨_, hq⟩

theorem termMove_recoverCheckpoint (h : s.recoverCheckpoint o = some s') : TermMove s s' := by
  rw [State.recoverCheckpoint] at h
  split at h
  · next epoch cp rest savepoints hrec =>
    split at h
    · cases h
      exact .recoverCheckpoint epoch cp rest savepoints hrec rfl
    · cases h
      exact .failRecovery rfl
  · cases h

theorem termMove_recoverSavepoint (h : s.recoverSavepoint o = some s') : TermMove s s' := by
  rw [State.recoverSavepoint] at h
  split at h
  · next epoch sp rest hrec =>
    split at h
    · cases h
      exact .recoverSavepoint epoch sp rest hrec rfl
    · cases h
      exact .failRecovery rfl
  · cases h

end Wire.Coordinator
