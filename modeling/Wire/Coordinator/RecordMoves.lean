import Wire.Coordinator.Records

/-!
# The record moves of each function

What the functions of the coordinator that touch a job record have checked when they come to one
of the moves listed in `Records`.  A goroutine is given the record it works on; that it may write
it is a hypothesis, and `Thread.writes` says in which stretches the hypothesis is used.
-/

namespace Wire.Coordinator

open Guard List Option

/-! ## Transitions and replacements -/

variable {r : Ref} {j : JobID} {tasks : List TaskDescriptor}

section Functions

variable {cfg : Config} {o : Oracle} {L : Rights} {s : State}

variable {target : JobStatus} {m : JobMeta} {result : Except Error Restore} {s₁ : State}

/-- A transition, and the commands queued after it. -/
theorem records_transition_record (hr : L.writes r) (hask : L.asks target)
    {es : List Event} (hes : ∀ e ∈ es, e.calm) :
    Recorded cfg o L s ((s.transition cfg o r target).1.record es) := by
  rw [State.transition]
  split
  · next htarget =>
    dsimp only
    split
    · have hself : ((s.releaseName (s.deref r).name target).assign r
          ((s.deref r).transition cfg o.now target)).deref r =
            (s.deref r).transition cfg o.now target := Function.update_self _ _ _
      rw [State.persistJob, hself]
      exact ⟨es, .revise hes r hr _ (.transition target htarget hask), rfl⟩
    · next hwritten =>
      exact ⟨es, .unsaved hes r hr target htarget hask (by simpa using hwritten), rfl⟩
  · exact .silent rfl rfl hes rfl

theorem records_transition (hr : L.writes r) (hask : L.asks target) :
    Recorded cfg o L s (s.transition cfg o r target).1 := by
  have h : Recorded cfg o L s ((s.transition cfg o r target).1.record []) :=
    records_transition_record hr hask (by simp)
  simpa [State.record] using h

theorem records_replaceJob (hr : L.writes r) (hm : Revision cfg o.now L s.mem r.job (s.deref r) m) :
    Recorded cfg o L s (s.replaceJob o r m).1 := by
  rw [State.replaceJob]
  split
  · exact ⟨[], .revise (by simp) r hr m hm, (append_nil _).symm⟩
  · exact .refl s

/-- Replacing the cached record. -/
theorem records_replace {s' : State} (hr : s.mem.job j = some r) (hW : L.writes r)
    (hm : Revision cfg o.now L s.mem j (s.deref r) m)
    (hrecords : s'.records = (s.records.persist j m).assign r m) (hissued : s'.issued = s.issued)
    (es : List Event) (hes : ∀ e ∈ es, e.calm) (hlog : s'.log = s.log ++ es) :
    Recorded cfg o L s s' := by
  obtain ⟨rfl, hcached⟩ := Memory.job_eq_some.mp hr
  refine ⟨es, ?_, hlog⟩
  rw [hrecords, hissued]
  have hrevise : s.records.revise r m = (s.records.persist r.job m).assign r m :=
    Records.revise_of_cached hcached
  rw [← hrevise]
  exact .revise hes r hW m hm

/-! ## Checkpoints -/

/-- The record that goes with a trigger. -/
theorem triggerCheckpointBoundary_job {savepoint : Option SavepointID} {final : Bool} {t : Trigger}
    (h : triggerCheckpointBoundary cfg o s j savepoint final = .ok t) :
    s.mem.job j = some t.ref ∧ (s.deref t.ref).status = .running ∧
      ∃ attempts, t.job = { s.deref t.ref with checkpointAttempts := attempts } := by
  simp only [triggerCheckpointBoundary, bind_eq_ok, require_eq_ok, demand_eq_ok, pure_eq_ok,
    exists_const] at h
  obtain ⟨-, r, hr, hrunning, -, a, -, -, -, -, id, -, count, -, rfl⟩ := h
  refine ⟨hr, hrunning, ?_⟩
  split
  · exact ⟨_, rfl⟩
  · exact ⟨(s.deref r).checkpointAttempts, rfl⟩

/-- The record that goes with an abort. -/
theorem abortCheckpoint_job {id epoch : ℕ} {failure : Option Text} {a : Abort}
    (h : abortCheckpoint cfg o s j id epoch failure = .ok a) :
    a.failedJob = none ∨ ∃ r final, s.mem.job j = some r ∧
      a.failedJob = some (r, (s.deref r).chargeCheckpointFailure cfg o.now final) := by
  simp only [abortCheckpoint, bind_eq_ok, require_eq_ok, demand_eq_ok, pure_eq_ok,
    exists_const] at h
  obtain ⟨-, -, cp, -, -, -, savepoint, -, rfl⟩ := h
  split
  · cases hr : s.mem.job j with
    | none => exact .inl rfl
    | some r => exact .inr ⟨r, cp.final, rfl, rfl⟩
  · exact .inl rfl

/-! ## Task reports and workers -/

theorem acceptTaskStatus_job {req : TaskStatusRequest} {a : TaskAssignmentMap}
    (h : acceptTaskStatus s req = .ok (r, a)) : s.mem.job req.jobID = some r := by
  simp only [acceptTaskStatus, bind_eq_ok, require_eq_ok, demand_eq_ok, pure_eq_ok,
    exists_const, Prod.mk.injEq] at h
  obtain ⟨-, r', hr, -, a', -, -, rfl, -⟩ := h
  exact hr

/-- Noting one status for some tasks. -/
theorem setTaskStatuses (lost : List TaskID) (status : TaskStatus) (s : State) :
    lost.foldl (fun s t => s.setTaskStatus t status) s =
      { s with mem := { s.mem with
        taskStatuses := fun t => if t ∈ lost then some status else s.mem.taskStatuses t } } := by
  induction lost generalizing s with
  | nil => simp
  | cons t rest ih =>
    rw [foldl_cons, ih]
    simp only [State.setTaskStatus]
    congr 2
    funext u
    rcases eq_or_ne u t with rfl | hne
    · simp
    · simp [hne]

/-! ## Rescaling -/

theorem rescaleJob_ok {savepoint : SavepointID} {request : ℕ} {candidate : JobMeta}
    (h : rescaleJob cfg o s j savepoint request = .ok (r, candidate)) :
    s.mem.job j = some r ∧ Revision cfg o.now L s.mem j (s.deref r) candidate := by
  simp only [rescaleJob, bind_eq_ok, pure_eq_ok, Prod.mk.injEq] at h
  obtain ⟨⟨_, _, tasks⟩, h, -, -, rfl, rfl⟩ := h
  simp only [rescaleCandidate, bind_eq_ok, require_eq_ok, demand_eq_ok, pure_eq_ok, exists_const,
    Prod.mk.injEq] at h
  obtain ⟨hready, r', hr, -, hidle, sp, -, -, c, -, tasks', -, rfl, rfl, -⟩ := h
  exact ⟨hr, .rescale _ _ _ hready (isNone_iff_eq_none.mp hidle)⟩

/-! ## Deployments -/

/-- A pinned deployment has checked its savepoint. -/
theorem restoreDescriptors_pinned {st : Store} {cp : CheckpointMeta}
    {found : GoMap TaskID RestoreDescriptor}
    (h : restoreDescriptors cfg st j m cp tasks = .ok found) (hpin : m.rescaleCheckpoint ≠ 0)
    (hcp : m.rescaleCheckpoint = cp.id) :
    ∃ sp ∈ st.savepoints.records, sp.jobID = j ∧ sp.status = .completed ∧
      sp.checkpointID = cp.id := by
  rw [restoreDescriptors, if_pos ⟨hpin, hcp⟩] at h
  simp only [bind_eq_ok, demand_eq_ok, require_eq_ok, exists_const] at h
  obtain ⟨id, -, sp, hsp, hcheck, -⟩ := h
  exact ⟨sp, Table.mem_records_of_lookup hsp, hcheck.1, hcheck.2.2.1, hcheck.2.2.2.1⟩

/-- What attaching the restore descriptors comes to: nothing, a failure after the boundary was
lowered, or a selected boundary. -/
theorem attachCheckpointRestore_eq (h : s.attachCheckpointRestore cfg o r tasks = (s₁, result)) :
    (s₁ = s ∨ ∃ cp, selectRecoveryCheckpoint o s.store r.job (s.deref r) = .ok cp ∧
      (s.deref r).latestCheckpoint ≠ 0 ∧ cp.id ≠ (s.deref r).latestCheckpoint ∧
        s₁ = s.lowerBoundary r cp.id) ∧
    ∀ restore, result = .ok restore →
      Selects o s.store r.job (s.deref r) restore.boundary ∧
        s₁ = if restore.boundary = (s.deref r).latestCheckpoint then s
          else s.lowerBoundary r restore.boundary := by
  rw [State.attachCheckpointRestore] at h
  split at h
  · cases h
    exact ⟨.inl rfl, by simp⟩
  · next hpinned =>
    have hpin := not_lt.mp hpinned
    split at h
    · next hzero =>
      cases h
      refine ⟨.inl rfl, ?_⟩
      rintro _ ⟨⟩
      exact ⟨⟨hpin, fun _ => rfl, fun hne => absurd hzero hne, fun hne => absurd hzero hne⟩,
        by rw [if_pos hzero.symm]⟩
    · next hne =>
      split at h
      · cases h
        exact ⟨.inl rfl, by simp⟩
      · next cp hcp =>
        have hselects : ∀ restore,
            (restoreDescriptors cfg s.store r.job (s.deref r) cp tasks).map (Restore.mk cp.id) =
              .ok restore →
            restore.boundary = cp.id ∧ Selects o s.store r.job (s.deref r) cp.id := by
          intro restore hrestore
          cases hfound : restoreDescriptors cfg s.store r.job (s.deref r) cp tasks with
          | error e =>
            rw [hfound] at hrestore
            cases hrestore
          | ok found =>
            rw [hfound] at hrestore
            cases hrestore
            exact ⟨rfl, hpin, fun hzero => absurd hzero hne, fun _ => ⟨cp, hcp, rfl⟩,
              fun _ hpin hcp => restoreDescriptors_pinned hfound hpin hcp⟩
        split at h
        · next hsame =>
          cases h
          refine ⟨.inl rfl, fun restore hrestore => ?_⟩
          obtain ⟨hboundary, hsel⟩ := hselects restore hrestore
          rw [hboundary, if_pos hsame]
          exact ⟨hsel, rfl⟩
        · next hother =>
          split at h
          · cases h
            refine ⟨.inr ⟨cp, hcp, hne, hother, rfl⟩, fun restore hrestore => ?_⟩
            obtain ⟨hboundary, hsel⟩ := hselects restore hrestore
            rw [hboundary, if_neg hother]
            exact ⟨hsel, rfl⟩
          · cases h
            exact ⟨.inl rfl, by simp⟩

/-- A deployment that does not come about may have lowered the boundary. -/
theorem records_attach (hr : L.writes r) (hp : L.publishes r)
    (h : s.attachCheckpointRestore cfg o r tasks = (s₁, result)) :
    Recorded cfg o L s s₁ := by
  rcases (attachCheckpointRestore_eq h).1 with rfl | ⟨cp, hcp, hlatest, hlower, rfl⟩
  · exact .refl _
  · exact ⟨[], .lower r hr hp cp hcp hlatest hlower, (append_nil _).symm⟩

/-- A deployment at the selected boundary. -/
theorem records_deploy (hr : L.writes r) (hp : L.publishes r) {p : Placement}
    {restore : Restore} (h : s.attachCheckpointRestore cfg o r tasks = (s₁, .ok restore)) :
    Recorded cfg o L s (s₁.deploy cfg o r p restore) := by
  obtain ⟨hselects, rfl⟩ := (attachCheckpointRestore_eq h).2 restore rfl
  have hmove : RecordMove cfg o L s.mem s.store s.issued _ _ _ :=
    .deploy r hr hp p.attemptID restore.boundary hselects
  rw [Records.fallBack] at hmove
  split
  · next hsame =>
    have hrecord : { s.mem.heap r with latestCheckpoint := restore.boundary } = s.mem.heap r := by
      rw [hsame]
      rfl
    rw [if_pos (show _ = ((Records.of s.mem s.store).heap r).latestCheckpoint from hsame),
      hrecord] at hmove
    exact ⟨_, hmove, rfl⟩
  · next hother =>
    rw [if_neg (show ¬ _ = ((Records.of s.mem s.store).heap r).latestCheckpoint from hother)]
      at hmove
    have hself : (s.lowerBoundary r restore.boundary).deref r =
        { s.mem.heap r with latestCheckpoint := restore.boundary } := Function.update_self _ _ _
    have hlog : ((s.lowerBoundary r restore.boundary).deploy cfg o r p restore).log = s.log ++
        [.deployed r.job p.attemptID ((s.mem.heap r).deploymentGeneration + 1)
          restore.boundary] := by
      rw [State.deploy, hself]
      rfl
    rw [← hself] at hmove
    exact ⟨_, hmove, hlog⟩

/-! ## Goroutines -/

/-- The record that a goroutine is about to write in its next stretch. -/
def Thread.writes (o : Oracle) : Thread → Option Ref
  | .rollback r | .publish r _ | .transitions _ r (_ :: _) | .cancelJob r | .submit r _ _ _ _ =>
    some r
  | .assign r _ => if o.placement = none then some r else none
  | .deliver r _ peers (w :: _) =>
    if (peers.lookup w).isSome ∧ o.accepted = false then some r else none
  | _ => none

/-- The record whose submission a goroutine is about to persist. -/
def Thread.submits (o : Oracle) : Thread → Option Ref
  | .submit r _ _ _ _ => if o.written then some r else none
  | _ => none

/-- The statuses that a goroutine will ask transitions for. -/
def Thread.asks : Thread → List JobStatus
  | .transitions _ _ targets => targets
  | .deliver _ _ _ _ => [.failing]
  | .cancelJob _ => [.canceling]
  | _ => []

/-- What a step is entitled to that runs the given goroutine, or none. -/
def Memory.rights (mem : Memory) (a : Action × Oracle) (t : Option Thread) : Rights where
  action := a.1
  writes r := mem.job r.job = some r ∨ ∃ u, t = some u ∧ u.writes a.2 = some r
  publishes r := ∃ p, t = some (.publish r p)
  submits r := ∃ u, t = some u ∧ u.submits a.2 = some r
  asks target := ∃ u, t = some u ∧ target ∈ u.asks

end Functions

/-- The goroutine that a step runs. -/
def State.running (s : State) : Action → Option Thread
  | .proceed i => s.threads[i]?
  | _ => none

/-- What a step is entitled to. -/
def State.rights (s : State) (a : Action × Oracle) : Rights :=
  s.mem.rights a (s.running a.1)

/-- Every goroutine that writes a job record writes the cached one, and a submission is
persisted before anything else of the job. -/
structure WritesCached (s : State) (a : Action × Oracle) : Prop where
  cached : ∀ r, (s.rights a).writes r → s.mem.job r.job = some r
  first : ∀ r, (s.rights a).submits r → s.store.jobs r.job = none

/-- The condition, checked by evaluation. -/
def writesCached (s : State) (a : Action × Oracle) : Bool :=
  (s.running a.1).all fun t =>
    ((t.writes a.2).all fun r => s.mem.job r.job = some r) &&
      (t.submits a.2).all fun r => (s.store.jobs r.job).isNone

theorem writesCached_sound (s : State) (a : Action × Oracle) (h : writesCached s a = true) :
    WritesCached s a := by
  rw [writesCached, Option.all_eq_true] at h
  refine ⟨fun r hr => ?_, fun r hr => ?_⟩
  · rcases hr with hr | ⟨t, ht, hr⟩
    · exact hr
    · have hall := (Bool.and_eq_true_iff.mp (h t ht)).1
      exact of_decide_eq_true ((all_eq_true _ _).mp hall r hr)
  · obtain ⟨t, ht, hr⟩ := hr
    have hall := (Bool.and_eq_true_iff.mp (h t ht)).2
    exact isNone_iff_eq_none.mp ((all_eq_true _ _).mp hall r hr)

end Wire.Coordinator
