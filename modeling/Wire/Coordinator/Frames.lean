import Wire.Coordinator.System

/-!
# What a step leaves alone

The checkpoint records, the checkpoints in flight, the term and the goroutines that send
decisions make up the checkpoint side of the coordinator.  Most of the code only touches job
records, assignments and task statuses: `Frame es s s'` says that the checkpoint side of `s'`
is that of `s`, and that exactly the events `es` were logged in between.

`Kept` adds that a savepoint which is there afterwards is of a persisted job if those before were.

Both compose, so a function built from the elementary updates of `State` has a frame
because its parts do.  That is done here once for each function of the job manager and the
scheduler; the functions that decide about checkpoints are the subject of `Moves`.
-/

namespace Wire.Coordinator

open Function List

/-- Some goroutine is sending the given decision. -/
def State.Notifies (s : State) (q : CheckpointRequest) : Prop :=
  ∃ remaining, Thread.notify q remaining ∈ s.threads

/-- The event is about no checkpoint decision and no deployment. -/
def Event.neutral : Event → Bool
  | .enqueued _ (.commitCheckpoint _ _) | .enqueued _ (.abortCheckpoint _ _) => false
  | .enqueued _ _ | .called _ _ | .reported _ | .contacted _ _ _ => true
  | _ => false

/-- The checkpoint side is unchanged, and the events `es` were logged. -/
structure Frame (es : List Event) (s s' : State) : Prop where
  checkpoints : s'.store.checkpoints = s.store.checkpoints
  /-- No job record disappears from the store. -/
  jobs : ∀ j, (s.store.jobs j).isSome → (s'.store.jobs j).isSome
  active : s'.mem.activeCheckpoints = s.mem.activeCheckpoints
  recovered : s'.mem.recovered = s.mem.recovered
  revoked : s'.mem.revoked = s.mem.revoked
  epoch : s'.mem.epoch = s.mem.epoch
  recovery : s'.recovery = s.recovery
  log : s'.log = s.log ++ es
  notifies : ∀ q, s'.Notifies q → s.Notifies q

namespace Frame

variable {es fs : List Event} {s s' s'' : State}

theorem refl (s : State) : Frame [] s s where
  checkpoints := rfl
  jobs := fun _ h => h
  active := rfl
  recovered := rfl
  revoked := rfl
  epoch := rfl
  recovery := rfl
  log := (append_nil _).symm
  notifies := fun _ h => h

theorem trans (h : Frame es s s') (h' : Frame fs s' s'') : Frame (es ++ fs) s s'' where
  checkpoints := h'.checkpoints.trans h.checkpoints
  jobs := fun j hj => h'.jobs j (h.jobs j hj)
  active := h'.active.trans h.active
  recovered := h'.recovered.trans h.recovered
  revoked := h'.revoked.trans h.revoked
  epoch := h'.epoch.trans h.epoch
  recovery := h'.recovery.trans h.recovery
  log := by rw [h'.log, h.log, append_assoc]
  notifies := fun q hq => h.notifies q (h'.notifies q hq)

/-- A silent step after a frame. -/
theorem andThen (h : Frame es s s') (h' : Frame [] s' s'') : Frame es s s'' := by
  simpa using h.trans h'

/-- A frame after a silent step. -/
theorem after (h : Frame [] s s') (h' : Frame es s' s'') : Frame es s s'' :=
  h.trans h'

end Frame

/-- A savepoint that a step writes or keeps: of the job of one that was there, or of a job whose
record is written with it. -/
def SavepointsFrom (s s' : State) : Prop :=
  ∀ sp ∈ s'.store.savepoints.records,
    (∃ old ∈ s.store.savepoints.records, old.jobID = sp.jobID) ∨ (s'.store.jobs sp.jobID).isSome

/-- A frame that writes no savepoint of a job that is not persisted. -/
structure Kept (es : List Event) (s s' : State) : Prop extends Frame es s s' where
  savepoints : SavepointsFrom s s'

namespace Kept

variable {es fs : List Event} {s s' s'' : State}

theorem refl (s : State) : Kept [] s s where
  __ := Frame.refl s
  savepoints := fun sp hsp => .inl ⟨sp, hsp, rfl⟩

theorem savepointsFrom (h' : Kept fs s' s'') (h : SavepointsFrom s s') : SavepointsFrom s s'' := by
  intro sp hsp
  rcases h'.savepoints sp hsp with ⟨sp', hsp', hjob⟩ | hjob
  · rw [← hjob]
    exact (h sp' hsp').imp_right (h'.jobs _)
  · exact .inr hjob

theorem trans (h : Kept es s s') (h' : Kept fs s' s'') : Kept (es ++ fs) s s'' where
  __ := h.toFrame.trans h'.toFrame
  savepoints := h'.savepointsFrom h.savepoints

theorem andThen (h : Kept es s s') (h' : Kept [] s' s'') : Kept es s s'' := by
  simpa using h.trans h'

theorem after (h : Kept [] s s') (h' : Kept es s' s'') : Kept es s s'' :=
  h.trans h'

end Kept

/-! ## The elementary updates -/

section Updates

variable (s : State)

/-- A change of the memory that leaves the checkpoints in flight and the term alone. -/
theorem frame_mem {mem : Memory} (hactive : mem.activeCheckpoints = s.mem.activeCheckpoints)
    (hrecovered : mem.recovered = s.mem.recovered) (hrevoked : mem.revoked = s.mem.revoked)
    (hepoch : mem.epoch = s.mem.epoch) : Kept [] s { s with mem } where
  __ := Kept.refl s
  active := hactive
  recovered := hrecovered
  revoked := hrevoked
  epoch := hepoch

/-- A change of the store that leaves the checkpoints and the jobs alone, and adds no savepoint. -/
theorem frame_store {store : Store} (hcheckpoints : store.checkpoints = s.store.checkpoints)
    (hjobs : store.jobs = s.store.jobs)
    (hsavepoints : store.savepoints.records ⊆ s.store.savepoints.records) :
    Kept [] s { s with store } where
  __ := Kept.refl s
  checkpoints := hcheckpoints
  jobs := fun _ h => hjobs ▸ h
  savepoints := fun sp hsp => .inl ⟨sp, hsavepoints hsp, rfl⟩

theorem frame_assign (r : Ref) (m : JobMeta) : Kept [] s (s.assign r m) :=
  frame_mem s rfl rfl rfl rfl

theorem frame_cache (r : Ref) : Kept [] s (s.cache r) := frame_mem s rfl rfl rfl rfl

theorem frame_adopt (j : JobID) (m : JobMeta) : Kept [] s (s.adopt j m) :=
  frame_mem s rfl rfl rfl rfl

theorem frame_setAssignments (j : JobID) (a : TaskAssignmentMap) :
    Kept [] s (s.setAssignments j a) :=
  frame_store s rfl rfl (.refl _)

/-- Of a savepoint that is written only the checkpoint side is left alone. -/
theorem frame_setSavepoint (sp : Option SavepointMeta) : Frame [] s (s.setSavepoint sp) :=
  { Frame.refl s with }

theorem frame_setTaskStatus (t : TaskID) (status : TaskStatus) :
    Kept [] s (s.setTaskStatus t status) :=
  frame_mem s rfl rfl rfl rfl

theorem frame_releaseName (name : Name) (target : JobStatus) :
    Kept [] s (s.releaseName name target) :=
  frame_mem s rfl rfl rfl rfl

theorem frame_storeWorkers (workers : GoMap WorkerID WorkerMeta) :
    Kept [] s (s.storeWorkers workers) :=
  frame_store s rfl rfl (.refl _)

theorem frame_dropWorker (w : WorkerID) : Kept [] s (s.dropWorker w) :=
  frame_mem s rfl rfl rfl rfl

theorem frame_setWorker (w : WorkerID) (worker : WorkerMeta) : Kept [] s (s.setWorker w worker) :=
  frame_mem s rfl rfl rfl rfl

theorem frame_record (es : List Event) : Kept es s (s.record es) where
  __ := Kept.refl s
  log := rfl

theorem frame_setJob (j : JobID) (m : JobMeta) : Kept [] s (s.setJob j m) where
  __ := Kept.refl s
  jobs := by
    intro i hi
    show (update s.store.jobs j (some m) i).isSome
    rcases eq_or_ne i j with rfl | hne
    · rw [update_self, Option.isSome_some]
    · rwa [update_of_ne hne]
  savepoints := fun sp hsp => .inl ⟨sp, hsp, rfl⟩

theorem frame_spawn {t : Thread} (ht : t.notifies = false) : Kept [] s (s.spawn t) where
  __ := Kept.refl s
  notifies := by
    rintro q ⟨remaining, hmem⟩
    rcases mem_append.mp hmem with hold | hnew
    · exact ⟨remaining, hold⟩
    · rw [mem_singleton] at hnew
      rw [← hnew] at ht
      exact absurd ht (by simp [Thread.notifies])

/-- Losing goroutines is silent. -/
theorem frame_threads {ts : List Thread} (h : ts ⊆ s.threads) :
    Kept [] s { s with threads := ts } where
  __ := Kept.refl s
  notifies := fun _ ⟨remaining, hmem⟩ => ⟨remaining, h hmem⟩

end Updates

/-! ## Job records -/

section Jobs

variable (cfg : Config) (o : Oracle) (s : State)

theorem frame_persistJob (r : Ref) : Kept [] s (s.persistJob r) :=
  (frame_setJob s _ _).andThen (frame_cache _ r)

theorem frame_transition (r : Ref) (target : JobStatus) :
    Kept [] s (s.transition cfg o r target).1 := by
  rw [State.transition]
  split
  · dsimp only
    split
    · exact ((frame_releaseName s _ _).andThen (frame_assign _ r _)).andThen
        (frame_persistJob _ r)
    · exact (frame_releaseName s _ _).andThen (frame_assign _ r _)
  · exact .refl s

theorem frame_replaceJob (r : Ref) (next : JobMeta) : Kept [] s (s.replaceJob o r next).1 := by
  rw [State.replaceJob]
  split
  · exact ((frame_setJob s _ _).andThen (frame_assign _ r next)).andThen (frame_cache _ r)
  · exact .refl s

theorem frame_submitJob (j : JobID) (name : Name) (config : Graph) (parallelism : ℕ)
    (now : Time) : Kept [] s (s.submitJob j name config parallelism now) := by
  have hadopt : Kept [] s { s.submitJob j name config parallelism now with threads := s.threads } :=
    { Kept.refl s with }
  exact hadopt.andThen (frame_spawn _ rfl)

theorem frame_noteTaskStatus (r : Ref) (req : TaskStatusRequest) :
    Kept [.reported req] s (s.noteTaskStatus r req) :=
  ((frame_setTaskStatus s _ _).after (frame_record _ _)).andThen (frame_spawn _ rfl)

end Jobs

/-! ## Scheduling -/

section Scheduling

variable (cfg : Config) (o : Oracle) (s : State)

theorem frame_lowerBoundary (r : Ref) (id : ℕ) : Kept [] s (s.lowerBoundary r id) :=
  ((frame_setJob s _ _).andThen (frame_adopt _ _ _)).andThen (frame_assign _ _ _)

theorem frame_attachCheckpointRestore (r : Ref) (tasks : List TaskDescriptor) :
    Kept [] s (s.attachCheckpointRestore cfg o r tasks).1 := by
  rw [State.attachCheckpointRestore]
  split
  · exact .refl s
  · split
    · exact .refl s
    · split
      · exact .refl s
      · split
        · exact .refl s
        · split
          · exact frame_lowerBoundary s r _
          · exact .refl s

theorem frame_deploy (r : Ref) (p : Placement) (restore : Restore) :
    Kept [.deployed r.job p.attemptID ((s.deref r).deploymentGeneration + 1) restore.boundary] s
      (s.deploy cfg o r p restore) := by
  have hbatch := ((frame_setJob s r.job ((s.deref r).deploy o.now)).andThen
    (frame_setAssignments _ r.job (s.assignment cfg o (s.deref r) p restore))).andThen
      (frame_assign _ r ((s.deref r).deploy o.now))
  exact (hbatch.trans (frame_record _ _)).andThen (frame_mem _ rfl rfl rfl rfl)

end Scheduling

end Wire.Coordinator
