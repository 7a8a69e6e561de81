import Wire.Coordinator.Flights

/-!
# Recovery

A term begins with a recovery: the next epoch is persisted, then the checkpoints that were in flight
are aborted and the savepoints that were in progress are failed, with one write for each.  It may be
cut off between any two of these writes, and the next term begins again.

While the coordinator is not recovered nothing else writes: its memory is empty and the only
goroutines left over are those that send decisions (`Unrecovered`).  So the store that a recovery
leaves is a function of the store that it found: `Settles` says which one, and every store on the
way has the same result.  That the recovery misses no record needs one fact about the terms before
it, that the job of every savepoint is persisted (`Terms.known`). -/

namespace Wire.Coordinator

open Guard List Option Table Runs

variable {s' : State} {sp : SavepointMeta}

/-! ## The coordinator that is not recovered -/

/-- The memory is empty, and the goroutines left over only send decisions. -/
structure Unrecovered (s : State) : Prop where
  mem : s.mem = { revoked := s.mem.revoked }
  threads : ∀ t ∈ s.threads, t.notifies = true

/-- The step did nothing but send decisions. -/
structure Unchanged (s s' : State) : Prop where
  store : s'.store = s.store
  mem : s'.mem = s.mem
  recovery : s'.recovery = s.recovery
  threads : ∀ t ∈ s'.threads, t ∈ s.threads ∨ t.notifies = true

theorem Unchanged.of_eq {s s₁ s' : State} (hs : some s₁ = some s') (h : s₁ = s) :
    Unchanged s s' := by
  cases hs
  exact h ▸ ⟨rfl, rfl, rfl, fun _ h => .inl h⟩

section Unrecovered

variable {cfg : Config} {o : Oracle} {s s' : State}

section

variable (h : Unrecovered s)
include h

theorem Unrecovered.not_ready : ¬ s.mem.ready = true := by
  rw [h.mem]
  exact Bool.false_ne_true

theorem Unrecovered.job (j : JobID) : s.mem.job j = none := by
  rw [h.mem]
  rfl

theorem Unrecovered.trigger (j : JobID) (savepoint : Option SavepointID) (final : Bool)
    (pausing : Option Ref) : s.trigger cfg o j savepoint final pausing = s := by
  rw [State.trigger, triggerCheckpointBoundary, require_bind_of_not h.not_ready]
  simp only [h.job]

theorem Unrecovered.handleAcknowledgeCheckpoint (req : AcknowledgeRequest) :
    s.handleAcknowledgeCheckpoint o req = s := by
  rw [State.handleAcknowledgeCheckpoint]
  split
  · rw [State.acknowledge, acknowledgeCheckpoint, require_bind_of_not h.not_ready]
  · rw [reportCheckpointFailure, require_bind_of_not h.not_ready]

theorem Unrecovered.updateTaskStatus (req : TaskStatusRequest) : s.updateTaskStatus o req = s := by
  rw [State.updateTaskStatus, acceptTaskStatus,
    require_bind_of_not (not_and_of_not_left _ h.not_ready)]

theorem Unrecovered.rescaleJob (j : JobID) (savepoint : SavepointID) (request : ℕ) :
    s.rescaleJob cfg o j savepoint request = s := by
  rw [State.rescaleJob, Coordinator.rescaleJob, rescaleCandidate, require_bind_of_not h.not_ready]
  rfl

theorem Unrecovered.deleteSavepoint (j : JobID) (savepoint : SavepointID) :
    s.deleteSavepoint o j savepoint = s := by
  rw [State.deleteSavepoint, Coordinator.deleteSavepoint, require_bind_of_not h.not_ready]

theorem Unrecovered.lookup (w : WorkerID) : s.mem.workers.lookup w = none := by
  rw [h.mem]
  rfl

end

/-- The action ends a term or begins one. -/
def Action.isTerm : Action → Bool
  | .stepDown | .crash | .startRecovery _ | .recoverCheckpoint | .recoverSavepoint
  | .finishRecovery => true
  | _ => false

variable {a : Action × Oracle}

/-- **Nothing but a recovery writes** while the coordinator is not recovered. -/
theorem Unrecovered.ordinary (h : Unrecovered s) (hterm : a.1.isTerm = false)
    (hs : step cfg s a = some s') : Unchanged s s' := by
  obtain ⟨a, o⟩ := a
  cases a with
  | triggerCheckpoint j savepoint final => exact .of_eq hs (h.trigger j savepoint final none)
  | acknowledgeCheckpoint req => exact .of_eq hs (h.handleAcknowledgeCheckpoint req)
  | expireCheckpoint j => exact .of_eq hs (by rw [State.expireCheckpoint, h.mem])
  | updateTaskStatus req => exact .of_eq hs (h.updateTaskStatus req)
  | missingTask w j t => exact .of_eq hs (by simp only [State.missingTask, h.job])
  | detectLostTaskWorkers j => exact .of_eq hs (by simp only [State.detectLostTaskWorkers, h.job])
  | submitJob j name config parallelism =>
    simp [Coordinator.step, h.not_ready] at hs
  | cancelJob | pauseJob | resumeJob => exact .of_eq hs (by simp only [State.serve, h.job])
  | rescaleJob j savepoint request => exact .of_eq hs (h.rescaleJob j savepoint request)
  | deleteSavepoint j savepoint => exact .of_eq hs (h.deleteSavepoint j savepoint)
  | tick js =>
    obtain ⟨hpending, rfl⟩ := ite_some_none_eq_some.mp hs
    have hnone : js.filterMap s.schedulable = s.mem.pending := by
      rw [hpending]
      refine filterMap_eq_nil_iff.mpr fun j _ => ?_
      rw [State.schedulable, h.job]
      rfl
    exact ⟨rfl, by rw [hnone], rfl, fun _ ht => .inl ht⟩
  | dispatch =>
    have hpending : s.mem.pending = [] := by rw [h.mem]
    simp [Coordinator.step, hpending] at hs
  | proceed i =>
    obtain ⟨t, ht, hgo⟩ := bind_eq_some_iff.mp hs
    have hnotify := h.threads t (mem_of_getElem? ht)
    have herase : ∀ x ∈ s.threads.eraseIdx i, x ∈ s.threads :=
      fun x hx => mem_of_mem_eraseIdx hx
    cases t with
    | notify q tasks =>
      cases tasks with
      | nil =>
        cases hgo
        exact ⟨rfl, rfl, rfl, fun x hx => .inl (herase x hx)⟩
      | cons e rest =>
        cases hgo
        refine ⟨rfl, rfl, rfl, fun x hx => ?_⟩
        rcases mem_append.mp hx with hold | hnew
        · exact .inl (herase x hold)
        · exact .inr (mem_singleton.mp hnew ▸ rfl)
    | _ => cases hnotify
  | abandon i =>
    obtain ⟨_, rfl⟩ := ite_some_none_eq_some.mp hs
    exact ⟨rfl, rfl, rfl, fun x hx => .inl (mem_of_mem_eraseIdx hx)⟩
  | registerWorker w worker highestSeenEpoch =>
    exact .of_eq hs (by simp [State.registerWorker, h.not_ready])
  | heartbeat w epoch peer slots => exact .of_eq hs (by simp [State.heartbeat, h.lookup])
  | expireWorkers => exact .of_eq hs (by simp [State.expireWorkers, h.not_ready])
  | disconnectWorker w => exact .of_eq hs (by simp [State.disconnectWorker, h.lookup])
  | countSlots w slots => exact .of_eq hs (by simp [State.countSlots, h.lookup])
  | removeWorker w => exact .of_eq hs (by simp [State.removeWorker, h.lookup])
  | stepDown | crash | startRecovery | recoverCheckpoint | recoverSavepoint | finishRecovery =>
    cases hterm

theorem termMove_of_isTerm (hterm : a.1.isTerm = true)
    (hs : step cfg s a = some s') : TermMove s s' := by
  obtain ⟨a, o⟩ := a
  cases a with
  | stepDown =>
    cases hs
    exact .stepDown rfl
  | crash =>
    cases hs
    exact .crash rfl
  | startRecovery e => exact .startRecovery o e hs
  | recoverCheckpoint => exact termMove_recoverCheckpoint hs
  | recoverSavepoint => exact termMove_recoverSavepoint hs
  | finishRecovery => exact .finishRecovery cfg o hs
  | _ => cases hterm

theorem Unrecovered.step (h : Unrecovered s) (hs : step cfg s a = some s') :
    Unchanged s s' ∨ TermMove s s' := by
  cases hterm : a.1.isTerm with
  | false => exact .inl (h.ordinary hterm hs)
  | true => exact .inr (termMove_of_isTerm hterm hs)

end Unrecovered

/-! ## Every step -/

variable {cfg : Config} {s s' : State} {a : Action × Oracle}

section Steps

/-- A step within a term leaves the term alone, and no job record disappears from the store. -/
theorem Move.term {D : JobID → Prop} (h : Move D s s') : s'.mem.recovered = s.mem.recovered ∧
    s'.mem.epoch = s.mem.epoch ∧ s'.recovery = s.recovery ∧
      ∀ j, (s.store.jobs j).isSome → (s'.store.jobs j).isSome := by
  cases h with
  | frame h | deploy _ _ _ _ _ _ h | commit _ _ _ _ h | again _ _ _ h | trigger _ _ _ h
  | abort _ _ _ _ _ h | acknowledge _ _ _ _ _ _ _ _ h | complete _ _ _ _ _ _ _ _ _ h
  | invalidate _ _ _ _ _ h | forget _ _ _ _ h => exact ⟨h.recovered, h.epoch, h.recovery, h.jobs⟩

/-- No job record disappears from the store. -/
theorem jobs_step (h : step cfg s a = some s') (j : JobID) (hj : (s.store.jobs j).isSome) :
    (s'.store.jobs j).isSome := by
  rcases step_move h with hmove | hterm
  · exact hmove.term.2.2.2 j hj
  · cases hterm with
    | stepDown h | crash h | failRecovery h | recoverCheckpoint _ _ _ _ _ h
    | recoverSavepoint _ _ _ _ h => exact h ▸ hj
    | startRecovery o e h =>
      obtain ⟨_, rfl⟩ := ite_some_none_eq_some.mp h
      exact hj
    | finishRecovery cfg o h =>
      rw [State.finishRecovery] at h
      split at h
      · cases h
        exact hj
      · cases h

/-- The epoch in the store never goes back. -/
theorem epoch_step (h : step cfg s a = some s') : s.store.epoch ≤ s'.store.epoch := by
  obtain ⟨es, hmove, -⟩ := (step_moved h).tasks
  have hstored : s'.store.epoch = s'.tasks.storedEpoch := rfl
  rw [hstored]
  generalize s'.tasks = T at hmove
  cases hmove with
  | startRecovery hdown epoch hepoch => exact hepoch.le
  | _ => exact le_rfl

end Steps

/-! ## Terms -/

/-- What holds between the terms, the store and a recovery. -/
structure Terms (s : State) : Prop where
  quiet : s.mem.recovered = false → Unrecovered s
  known : ∀ sp ∈ s.store.savepoints.records, (s.store.jobs sp.jobID).isSome
  nodup : ∀ R, s.recovery = some R → (R.savepointsToFail.map SavepointMeta.key).Nodup
  /-- What a recovery is going to fail is in progress, and nothing else is. -/
  pending : ∀ R, s.recovery = some R → ∀ sp,
    sp ∈ R.savepointsToFail ↔ sp ∈ s.store.savepoints.records ∧ sp.status = .inProgress
  epoch : ∀ R, s.recovery = some R → R.epoch = s.store.epoch
  term : s.mem.recovered = true → s.mem.epoch ≤ s.store.epoch

section Terms

theorem Terms.initial : Terms State.initial where
  quiet := fun _ => ⟨rfl, fun _ h => absurd h not_mem_nil⟩
  known := fun _ h => absurd h not_mem_nil
  nodup := fun _ h => nomatch h
  pending := fun _ h => nomatch h
  epoch := fun _ h => nomatch h
  term := fun h => nomatch h

section

variable (hs : Terms s)
include hs

theorem Terms.unchanged (hquiet : Unrecovered s) (h : Unchanged s s') : Terms s' where
  quiet _ := by
    refine ⟨?_, fun t ht => ?_⟩
    · rw [h.mem]
      exact hquiet.mem
    · rcases h.threads t ht with hold | hnotify
      · exact hquiet.threads t hold
      · exact hnotify
  known := by
    rw [h.store]
    exact hs.known
  nodup := by
    rw [h.recovery]
    exact hs.nodup
  pending := by
    rw [h.recovery, h.store]
    exact hs.pending
  epoch := by
    rw [h.recovery, h.store]
    exact hs.epoch
  term := by
    rw [h.mem, h.store]
    exact hs.term

theorem Terms.crash : Terms s.crash where
  quiet _ := ⟨rfl, fun _ ht => (mem_filter.mp ht).2⟩
  known := hs.known
  nodup := fun _ h => nomatch h
  pending := fun _ h => nomatch h
  epoch := fun _ h => nomatch h
  term := fun h => nomatch h

variable {o : Oracle}

theorem Terms.startRecovery {e : ℕ} (h : s.startRecovery o e = some s') : Terms s' := by
  obtain ⟨hguard, rfl⟩ := ite_some_none_eq_some.mp h
  refine ⟨fun hdown => ⟨(hs.quiet hdown).mem, (hs.quiet hdown).threads⟩, hs.known, ?_, ?_, ?_, ?_⟩
  · rintro R ⟨⟩
    exact s.store.savepoints.nodup.sublist (filter_sublist.map _)
  · rintro R ⟨⟩ sp
    simp only [mem_filter, decide_eq_true_eq]
    exact ⟨fun h => ⟨h.1, h.2.1⟩, fun h => ⟨h.1, h.2, hs.known sp h.1⟩⟩
  · rintro R ⟨⟩
    rfl
  · exact fun hrec => nomatch hguard.1.symm.trans hrec

theorem Terms.recoverSavepoint (hdown : s.mem.recovered = false) {epoch : ℕ}
    {rest : List SavepointMeta} (hrec : s.recovery = some ⟨epoch, [], sp :: rest⟩) :
    Terms { s.setSavepoint (some { sp with status := .failed }) with
      recovery := some ⟨epoch, [], rest⟩ } := by
  have hquiet := hs.quiet hdown
  have hnodup := nodup_cons.mp (hs.nodup _ hrec)
  have hpending := hs.pending _ hrec
  have hkey : ({ sp with status := .failed } : SavepointMeta).key = sp.key := rfl
  refine ⟨fun _ => { hquiet with }, ?_, ?_, ?_, ?_, fun h => nomatch hdown.symm.trans h⟩
  · intro x hx
    rcases mem_records_put.mp hx with rfl | ⟨hmem, -⟩
    · exact hs.known sp ((hpending sp).mp mem_cons_self).1
    · exact hs.known x hmem
  · rintro R ⟨⟩
    exact hnodup.2
  · rintro R ⟨⟩ x
    constructor
    · intro hx
      have hold := (hpending x).mp (mem_cons_of_mem _ hx)
      refine ⟨mem_records_put.mpr (.inr ⟨hold.1, fun hx' => ?_⟩), hold.2⟩
      exact hnodup.1 ((hx'.trans hkey) ▸ mem_map_of_mem hx)
    · rintro ⟨hx, hf⟩
      rcases mem_records_put.mp hx with rfl | ⟨hmem, hne⟩
      · cases hf
      · rcases mem_cons.mp ((hpending x).mpr ⟨hmem, hf⟩) with rfl | hrest
        · exact absurd hkey.symm hne
        · exact hrest
  · rintro R ⟨⟩
    have hepoch := hs.epoch _ hrec
    exact hepoch

theorem Terms.finishRecovery (h : s.finishRecovery cfg o = some s') : Terms s' := by
  rw [State.finishRecovery] at h
  split at h
  · next epoch hrec =>
    cases h
    have hepoch : epoch = s.store.epoch := hs.epoch _ hrec
    constructor
    · exact fun hdown => by cases hdown
    · exact hs.known
    · exact fun _ h => by cases h
    · exact fun _ h => by cases h
    · exact fun _ h => by cases h
    · exact fun _ => hepoch.le
  · cases h

theorem Terms.termMove (hflights : Flights s) (h : TermMove s s') : Terms s' := by
  have hquiet : s.mem.recovered = false → Unrecovered s := hs.quiet
  cases h with
  | stepDown h =>
    subst h
    refine { hs with quiet := fun hdown => ⟨?_, (hquiet hdown).threads⟩ }
    have hmem := (hquiet hdown).mem
    rw [hmem]
  | crash h => exact h ▸ hs.crash
  | startRecovery o e h => exact hs.startRecovery h
  | failRecovery h =>
    subst h
    constructor
    · exact fun hdown => ⟨(hquiet hdown).mem, (hquiet hdown).threads⟩
    · exact hs.known
    · exact fun _ h => nomatch h
    · exact fun _ h => nomatch h
    · exact fun _ h => nomatch h
    · exact hs.term
  | recoverCheckpoint epoch cp rest savepoints hrec h =>
    subst h
    have hnodup := hs.nodup _ hrec
    have hpending := hs.pending _ hrec
    have hepoch := hs.epoch _ hrec
    constructor
    · exact fun hdown => ⟨(hquiet hdown).mem, (hquiet hdown).threads⟩
    · exact hs.known
    · rintro R ⟨⟩
      exact hnodup
    · rintro R ⟨⟩
      exact hpending
    · rintro R ⟨⟩
      exact hepoch
    · exact hs.term
  | recoverSavepoint epoch sp rest hrec h =>
    exact h ▸ hs.recoverSavepoint (hflights.down _ hrec) hrec
  | finishRecovery cfg o h => exact hs.finishRecovery h

theorem Terms.step (hflights : Flights s) (h : Coordinator.step cfg s a = some s') : Terms s' := by
  cases hrecovered : s.mem.recovered with
  | false =>
    rcases (hs.quiet hrecovered).step h with hsame | hterm
    · exact hs.unchanged (hs.quiet hrecovered) hsame
    · exact hs.termMove hflights hterm
  | true =>
    rcases step_kept h with ⟨hmove, hfrom⟩ | hterm
    · obtain ⟨hrec, hepoch, hrecovery, -⟩ := hmove.term
      have hnone := hrecovery.trans (hflights.recovery_none hrecovered)
      constructor
      · exact fun hdown => nomatch (hrec.trans hrecovered).symm.trans hdown
      · intro sp hsp
        rcases hfrom sp hsp with ⟨old, hold, hjob⟩ | hjob
        · exact hjob ▸ jobs_step h _ (hs.known old hold)
        · exact hjob
      · exact fun R hR => nomatch hnone.symm.trans hR
      · exact fun R hR => nomatch hnone.symm.trans hR
      · exact fun R hR => nomatch hnone.symm.trans hR
      · exact fun _ => hepoch ▸ (hs.term hrecovered).trans (epoch_step h)
    · exact hs.termMove hflights hterm

end

theorem terms (h : Reachable cfg s) : Terms s :=
  h.invariant (P := Terms) .initial fun _ _ _ hreach hs _ hstep => hs.step (flights hreach) hstep

end Terms

/-! ## What a recovery leaves -/

/-- A checkpoint record after a recovery. -/
def CheckpointMeta.settled (cp : CheckpointMeta) : CheckpointMeta :=
  if cp.status.inFlight then cp.decide .aborted else cp

/-- A savepoint record after a recovery. -/
def SavepointMeta.settled (sp : SavepointMeta) : SavepointMeta :=
  if sp.status = .inProgress then { sp with status := .failed } else sp

/-- The stores have the same records once everything is settled; the epochs apart. -/
structure SameSettled (st st' : Store) : Prop where
  jobs : st'.jobs = st.jobs
  assignments : st'.assignments = st.assignments
  workers : st'.workers = st.workers
  checkpoints : ∀ k, (st'.checkpoints.lookup k).map CheckpointMeta.settled =
    (st.checkpoints.lookup k).map CheckpointMeta.settled
  savepoints : ∀ k, (st'.savepoints.lookup k).map SavepointMeta.settled =
    (st.savepoints.lookup k).map SavepointMeta.settled

variable {s₀ : State}

section Settled

theorem SameSettled.refl (st : Store) : SameSettled st st :=
  ⟨rfl, rfl, rfl, fun _ => rfl, fun _ => rfl⟩

theorem SameSettled.trans {st st' st'' : Store} (h : SameSettled st st')
    (h' : SameSettled st' st'') : SameSettled st st'' where
  jobs := h'.jobs.trans h.jobs
  assignments := h'.assignments.trans h.assignments
  workers := h'.workers.trans h.workers
  checkpoints := fun k => (h'.checkpoints k).trans (h.checkpoints k)
  savepoints := fun k => (h'.savepoints k).trans (h.savepoints k)

theorem CheckpointMeta.settled_abort {cp : CheckpointMeta} (h : cp.status.inFlight = true) :
    (cp.decide .aborted).settled = cp.settled := by
  rw [settled, settled, if_pos h]
  rfl

theorem SavepointMeta.settled_fail (h : sp.status = .inProgress) :
    ({ sp with status := .failed } : SavepointMeta).settled = sp.settled := by
  rw [settled, settled, if_pos h]
  rfl

/-- **A step of a recovery changes no settled record**, and neither does a crash. -/
theorem sameSettled_step (hterms : Terms s) (hflights : Flights s)
    (hdown : s.mem.recovered = false) (h : step cfg s a = some s') :
    SameSettled s.store s'.store := by
  rcases (hterms.quiet hdown).step h with hsame | hterm
  · rw [hsame.store]
    exact .refl _
  · cases hterm with
    | stepDown h | crash h | failRecovery h => exact h ▸ .refl _
    | startRecovery o e h =>
      obtain ⟨_, rfl⟩ := ite_some_none_eq_some.mp h
      exact ⟨rfl, rfl, rfl, fun _ => rfl, fun _ => rfl⟩
    | recoverCheckpoint epoch cp rest savepoints hrec h =>
      subst h
      obtain ⟨hmem, hflight⟩ := (hflights.pending _ hrec cp).mp mem_cons_self
      refine ⟨rfl, rfl, rfl, fun k => ?_, fun _ => rfl⟩
      change ((s.store.checkpoints.put (cp.decide .aborted)).lookup k).map _ = _
      rw [lookup_put]
      split
      · next hk =>
        have hlookup : s.store.checkpoints.lookup k = some cp :=
          hk ▸ mem_records_iff.mp hmem
        rw [hlookup, map_some, map_some, CheckpointMeta.settled_abort hflight]
      · rfl
    | recoverSavepoint epoch sp rest hrec h =>
      subst h
      obtain ⟨hmem, hstatus⟩ := (hterms.pending _ hrec sp).mp mem_cons_self
      refine ⟨rfl, rfl, rfl, fun _ => rfl, fun k => ?_⟩
      change ((s.store.savepoints.put { sp with status := .failed }).lookup k).map _ = _
      rw [lookup_put]
      split
      · next hk =>
        have hlookup : s.store.savepoints.lookup k = some sp :=
          hk ▸ mem_records_iff.mp hmem
        rw [hlookup, map_some, map_some, SavepointMeta.settled_fail hstatus]
      · rfl
    | finishRecovery cfg o h =>
      rw [State.finishRecovery] at h
      split at h
      · cases h
        exact .refl _
      · cases h

/-- A run in which the coordinator is not recovered: recoveries that fail, are cut off by crashes
and begin again. -/
abbrev Recovering (cfg : Config) : State → State → Prop :=
  Reaches (step cfg) fun s _ => s.mem.recovered = false

theorem sameSettled_of_recovering (h₀ : Reachable cfg s₀) (h : Recovering cfg s₀ s) :
    SameSettled s₀.store s.store := by
  have hreach : ∀ {s}, Recovering cfg s₀ s → Reachable cfg s := fun h =>
    h₀.trans (h.mono fun _ _ _ => trivial)
  refine h.invariant (P := fun s => SameSettled s₀.store s.store) (.refl _) ?_
  intro s a s' hs hsame hdown hstep
  exact hsame.trans
    (sameSettled_step (terms (hreach hs)) (flights (hreach hs)) hdown hstep)

/-- At the end of a recovery every record is settled. -/
theorem settled_of_finish (hterms : Terms s) (hflights : Flights s) {o : Oracle}
    (h : s.finishRecovery cfg o = some s') : s'.store = s.store ∧ s'.mem.recovered = true ∧
      s'.mem.epoch = s.store.epoch ∧
      (∀ cp ∈ s.store.checkpoints.records, cp.status.inFlight = false) ∧
      ∀ sp ∈ s.store.savepoints.records, sp.status ≠ .inProgress := by
  rw [State.finishRecovery] at h
  split at h
  · next epoch hrec =>
    cases h
    have hepoch : epoch = s.store.epoch := hterms.epoch _ hrec
    refine ⟨rfl, rfl, hepoch, fun cp hcp => ?_, fun sp hsp hstatus => ?_⟩
    · by_contra hflight
      exact absurd ((hflights.pending _ hrec cp).mpr ⟨hcp, by simpa using hflight⟩)
        not_mem_nil
    · exact absurd ((hterms.pending _ hrec sp).mpr ⟨hsp, hstatus⟩) not_mem_nil
  · cases h

/-- What has been settled stays as it is, the epoch apart. -/
theorem store_of_recovering (h₀ : Reachable cfg s₀)
    (hcheckpoints : ∀ cp ∈ s₀.store.checkpoints.records, cp.status.inFlight = false)
    (hsavepoints : ∀ sp ∈ s₀.store.savepoints.records, sp.status ≠ .inProgress)
    (h : Recovering cfg s₀ s) : s.store = { s₀.store with epoch := s.store.epoch } := by
  have hreach : ∀ {s}, Recovering cfg s₀ s → Reachable cfg s := fun h =>
    h₀.trans (h.mono fun _ _ _ => trivial)
  refine h.invariant (P := fun s => s.store = { s₀.store with epoch := s.store.epoch }) rfl ?_
  intro s a s' hs hstore hdown hstep
  have hterms := terms (hreach hs)
  have hflights := flights (hreach hs)
  rcases (hterms.quiet hdown).step hstep with hsame | hterm
  · rw [hsame.store]
    exact hstore
  · cases hterm with
    | stepDown h | crash h | failRecovery h => exact h ▸ hstore
    | startRecovery o e h =>
      obtain ⟨_, rfl⟩ := ite_some_none_eq_some.mp h
      rw [hstore]
    | recoverCheckpoint epoch cp rest savepoints hrec h =>
      obtain ⟨hmem, hflight⟩ := (hflights.pending _ hrec cp).mp mem_cons_self
      rw [hstore] at hmem
      exact nomatch (hcheckpoints cp hmem).symm.trans hflight
    | recoverSavepoint epoch sp rest hrec h =>
      obtain ⟨hmem, hstatus⟩ := (hterms.pending _ hrec sp).mp mem_cons_self
      rw [hstore] at hmem
      exact absurd hstatus (hsavepoints sp hmem)
    | finishRecovery cfg o h =>
      rw [State.finishRecovery] at h
      split at h
      · cases h
        exact hstore
      · cases h

end Settled

/-! ## Epochs -/

section Epochs

/-- The election epoch is a `uint64`. -/
def Typed (_ : State) (a : Action × Oracle) : Prop :=
  ∀ e, a.1 = .startRecovery e → e ≤ maxUint64

/-- A recovery that begins persists a higher epoch. -/
theorem epoch_lt_of_start {o : Oracle} {e : ℕ} (h : s.startRecovery o e = some s') :
    s.store.epoch < s'.store.epoch ∧ s.store.epoch ≠ maxUint64 ∧
      s'.store.epoch = max (s.store.epoch + 1) e := by
  obtain ⟨hguard, rfl⟩ := ite_some_none_eq_some.mp h
  exact ⟨lt_max_of_lt_left (Nat.lt_succ_self _), hguard.2.2.1, rfl⟩

/-- Only the begin of a recovery changes the epoch of the store. -/
theorem epoch_of_other (hterms : Terms s) (hstart : ∀ e, a.1 ≠ .startRecovery e)
    (h : step cfg s a = some s') : s'.store.epoch = s.store.epoch := by
  cases hterm : a.1.isTerm with
  | false =>
    obtain ⟨es, hmove, -⟩ := (step_moved h).tasks
    have hstored : s'.store.epoch = s'.tasks.storedEpoch := rfl
    cases hrecovered : s.mem.recovered with
    | false => rw [((hterms.quiet hrecovered).ordinary hterm h).store]
    | true =>
      rw [hstored]
      generalize s'.tasks = T at hmove
      cases hmove with
      | startRecovery hdown epoch hepoch => exact nomatch hdown.symm.trans hrecovered
      | _ => rfl
  | true =>
    obtain ⟨a, o⟩ := a
    cases a with
    | stepDown | crash => cases h; rfl
    | startRecovery e => exact absurd rfl (hstart e)
    | recoverCheckpoint | recoverSavepoint | finishRecovery =>
      simp only [step, State.recoverCheckpoint, State.recoverSavepoint, State.finishRecovery] at h
      repeat' split at h
      all_goals cases h
      all_goals rfl
    | _ => cases hterm

theorem epoch_le_max (h₀ : Reachable cfg s₀) (hle : s₀.store.epoch ≤ maxUint64)
    (h : Reaches (step cfg) Typed s₀ s) : s.store.epoch ≤ maxUint64 := by
  have hreach : ∀ {s}, Reaches (step cfg) Typed s₀ s → Reachable cfg s := fun h =>
    h₀.trans (h.mono fun _ _ _ => trivial)
  refine h.invariant (P := fun s => s.store.epoch ≤ maxUint64) hle ?_
  intro s a s' hs hmax htyped hstep
  by_cases hstart : ∃ e, a.1 = .startRecovery e
  · obtain ⟨e, he⟩ := hstart
    obtain ⟨a, o⟩ := a
    cases he
    obtain ⟨-, hne, hepoch⟩ := epoch_lt_of_start hstep
    rw [hepoch]
    exact max_le (lt_of_le_of_ne hmax hne) (htyped e rfl)
  · rw [epoch_of_other (terms (hreach hs)) (fun e he => hstart ⟨e, he⟩) hstep]
    exact hmax

/-- A recovery that begins after a term has an epoch above that of the term. -/
theorem epoch_lt_of_recovering (h₀ : Reachable cfg s₀) (hrecovered : s₀.mem.recovered = true)
    (h : Runs.Reachable (step cfg) s₀ s) : s₀.mem.epoch ≤ s.store.epoch ∧
      (s.recovery.isSome = true → s₀.mem.epoch < s.store.epoch) := by
  refine h.invariant (P := fun s => s₀.mem.epoch ≤ s.store.epoch ∧
    (s.recovery.isSome = true → s₀.mem.epoch < s.store.epoch)) ?_ ?_
  · refine ⟨(terms h₀).term hrecovered, fun hsome => ?_⟩
    rw [(flights h₀).recovery_none hrecovered] at hsome
    cases hsome
  · intro s a s' hs ⟨hle, hlt⟩ _ hstep
    have hmono := epoch_step hstep
    refine ⟨hle.trans hmono, fun hsome => ?_⟩
    by_cases hold : s.recovery.isSome = true
    · exact (hlt hold).trans_le hmono
    · rcases step_move hstep with hmove | hterm
      · rw [hmove.term.2.2.1] at hsome
        exact absurd hsome hold
      · cases hterm with
        | stepDown h =>
          subst h
          exact absurd hsome hold
        | crash h | failRecovery h =>
          subst h
          cases hsome
        | startRecovery o e h => exact hle.trans_lt (epoch_lt_of_start h).1
        | recoverCheckpoint _ _ _ _ hrec | recoverSavepoint _ _ _ hrec =>
          rw [hrec] at hold
          exact absurd rfl hold
        | finishRecovery cfg o h =>
          rw [State.finishRecovery] at h
          split at h
          · next epoch hrec =>
            rw [hrec] at hold
            exact absurd rfl hold
          · cases h

end Epochs

/-! ## Crash recovery -/

/-- The epochs of two terms, one after the other. -/
def EpochsIncrease (cfg : Config) : Prop :=
  ∀ (s₁ s₁' s₂ s₂' : State) (o₁ o₂ : Oracle), Reaches (step cfg) Typed State.initial s₁ →
    step cfg s₁ (.finishRecovery, o₁) = some s₁' → Reaches (step cfg) Typed s₁' s₂ →
    step cfg s₂ (.finishRecovery, o₂) = some s₂' →
      s₁'.mem.epoch < s₂'.mem.epoch ∧ s₂'.mem.epoch ≤ maxUint64

/-- What the store holds after a recovery that may have been cut off and begun again. -/
def RecoverySettles (cfg : Config) : Prop :=
  ∀ (s₀ s₁ s₂ : State) (o : Oracle), Reachable cfg s₀ → Recovering cfg s₀ s₁ →
    step cfg s₁ (.finishRecovery, o) = some s₂ →
      s₂.store.jobs = s₀.store.jobs ∧
      (∀ k, s₂.store.checkpoints.lookup k =
        (s₀.store.checkpoints.lookup k).map CheckpointMeta.settled) ∧
      ∀ k, s₂.store.savepoints.lookup k =
        (s₀.store.savepoints.lookup k).map SavepointMeta.settled

/-- A recovery after a recovery changes the epoch and nothing else. -/
def RecoveryRepeats (cfg : Config) : Prop :=
  ∀ (s₁ s₂ s₃ s₄ : State) (o o' : Oracle), Reachable cfg s₁ →
    step cfg s₁ (.finishRecovery, o) = some s₂ → Recovering cfg s₂.crash s₃ →
    step cfg s₃ (.finishRecovery, o') = some s₄ →
      s₄.store = { s₂.store with epoch := s₄.store.epoch }

/-- **Crash recovery is fenced and repeatable.**  For any election epochs and any crashes, the terms
serve under increasing epochs that do not wrap; a recovery that returns has settled every record and
changed no other; and doing it again changes only the epoch. -/
theorem recovery_fenced_repeatable (cfg : Config) :
    EpochsIncrease cfg ∧ RecoverySettles cfg ∧ RecoveryRepeats cfg := by
  refine ⟨?_, ?_, ?_⟩
  · intro s₁ s₁' s₂ s₂' o₁ o₂ h₁ hfin₁ h₂ hfin₂
    have hreach₁ : Reachable cfg s₁ := h₁.mono fun _ _ _ => trivial
    have hreach₁' : Reachable cfg s₁' := hreach₁.tail trivial hfin₁
    have hrun : Runs.Reachable (step cfg) s₁' s₂ := h₂.mono fun _ _ _ => trivial
    have hreach₂ : Reachable cfg s₂ := hreach₁'.trans hrun
    obtain ⟨hstore, hrecovered, -, -, -⟩ :=
      settled_of_finish (terms hreach₁) (flights hreach₁) hfin₁
    obtain ⟨-, -, hepoch, -, -⟩ := settled_of_finish (terms hreach₂) (flights hreach₂) hfin₂
    have hsome : s₂.recovery.isSome = true := by
      change s₂.finishRecovery cfg o₂ = some s₂' at hfin₂
      rw [State.finishRecovery] at hfin₂
      split at hfin₂
      · next hrec => rw [hrec]; rfl
      · cases hfin₂
    have htyped₁' : Reaches (step cfg) Typed .initial s₁' :=
      h₁.tail (fun e he => by cases he) hfin₁
    have hmax := epoch_le_max .refl (Nat.zero_le _) (htyped₁'.trans h₂)
    rw [hepoch]
    exact ⟨(epoch_lt_of_recovering hreach₁' hrecovered hrun).2 hsome, hmax⟩
  · intro s₀ s₁ s₂ o h₀ hrun hfin
    have hreach₁ : Reachable cfg s₁ := h₀.trans (hrun.mono fun _ _ _ => trivial)
    have hsame := sameSettled_of_recovering h₀ hrun
    obtain ⟨hstore, -, -, hcheckpoints, hsavepoints⟩ :=
      settled_of_finish (terms hreach₁) (flights hreach₁) hfin
    rw [hstore]
    refine ⟨hsame.jobs, fun k => ?_, fun k => ?_⟩
    · rw [← hsame.checkpoints k]
      cases hk : s₁.store.checkpoints.lookup k with
      | none => rfl
      | some cp =>
        have hflight := hcheckpoints cp (mem_records_of_lookup hk)
        rw [map_some, CheckpointMeta.settled, if_neg (by simp [hflight])]
    · rw [← hsame.savepoints k]
      cases hk : s₁.store.savepoints.lookup k with
      | none => rfl
      | some sp =>
        have hstatus := hsavepoints sp (mem_records_of_lookup hk)
        rw [map_some, SavepointMeta.settled, if_neg hstatus]
  · intro s₁ s₂ s₃ s₄ o o' h₁ hfin hrun hfin'
    obtain ⟨hstore, -, -, hcheckpoints, hsavepoints⟩ :=
      settled_of_finish (terms h₁) (flights h₁) hfin
    have hreach₂ : Reachable cfg s₂ := h₁.tail trivial hfin
    have hcrash : Reachable cfg s₂.crash :=
      hreach₂.tail (a := (.crash, o)) trivial rfl
    have hreach₃ : Reachable cfg s₃ := hcrash.trans (hrun.mono fun _ _ _ => trivial)
    have hsame : s₃.store = { s₂.crash.store with epoch := s₃.store.epoch } :=
      store_of_recovering hcrash (hstore ▸ hcheckpoints) (hstore ▸ hsavepoints) hrun
    obtain ⟨hstore', -⟩ := settled_of_finish (terms hreach₃) (flights hreach₃) hfin'
    rw [hstore']
    exact hsame

open Sample

/-- A checkpoint is in flight when the coordinator crashes. -/
def inFlightRun : List (Action × Oracle) :=
  start ++ deploy 1 ++ reported 0 1 .running ++ each [.triggerCheckpoint 0 none false, .crash]

/-- The recovery crashes before it has aborted the checkpoint, and is begun again. -/
def crashedRecovery : List (Action × Oracle) :=
  each [.startRecovery 0, .crash, .startRecovery 0, .recoverCheckpoint]

/-- The second recovery settles what the first one has left. -/
theorem recovery_fenced_repeatable_crashed : ∃ s₀ s₁ s₂ cp, Reachable config s₀ ∧
    Recovering config s₀ s₁ ∧ s₁.store.epoch = s₀.store.epoch + 2 ∧
    step config s₁ (.finishRecovery, oracle) = some s₂ ∧
    s₀.store.checkpoints.lookup (0, 1) = some cp ∧ cp.status.inFlight = true ∧
    s₂.store.checkpoints.lookup (0, 1) = some cp.settled := by
  obtain ⟨s₀, hs₀, ⟨cp, hcp, hflight⟩, hrun⟩ := reachable_of_run (step config) .initial inFlightRun
    (p := fun s => (∃ cp ∈ s.store.checkpoints.lookup (0, 1), cp.status.inFlight = true) ∧
      ∃ s₁ ∈ run (fun s a => if !s.mem.recovered then step config s a else none) s crashedRecovery,
        s₁.store.epoch = s.store.epoch + 2 ∧
          ∃ s₂ ∈ step config s₁ (.finishRecovery, oracle), True) (by decide)
  obtain ⟨s₁, hs₁, hepoch, s₂, hfin, -⟩ := reaches_of_run (step config)
    (fun s _ => s.mem.recovered = false) (fun s _ => !s.mem.recovered) (by simp) s₀ crashedRecovery
    hrun
  obtain ⟨-, hcheckpoints, -⟩ :=
    (recovery_fenced_repeatable config).2.1 s₀ s₁ s₂ oracle hs₀ hs₁ hfin
  refine ⟨s₀, s₁, s₂, cp, hs₀, hs₁, hepoch, hfin, hcp, hflight, ?_⟩
  rw [hcheckpoints, hcp, map_some]

end Wire.Coordinator
