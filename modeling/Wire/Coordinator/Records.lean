import Wire.Coordinator.Moves

/-!
# What a step does to the job records

The coordinator keeps a job's record twice, in its memory and in the store, and reaches the one
in memory through a pointer.  `RecordMove` lists everything a step can do to the two, with the
new version of the record and with what was logged meanwhile; `step_records` proves the list
complete.  Together with `step_move`, which lists what a step does to the checkpoints, it is
what invariants about job records are read off: the events logged tell which entry of the one
list goes with which entry of the other.

A request works on the record that it finds in the cache.  A goroutine works on the record it
was started with, and nothing makes sure that this is still the cached one; what a goroutine is
about to write is part of the `Rights` of a step.
-/

namespace Wire.Coordinator

open Guard Function Option

/-! ## The records -/

/-- The job records of a coordinator, in its memory and in its store. -/
structure Records where
  heap : Ref → JobMeta
  nextSerial : ℕ
  jobs : JobID → Option ℕ
  stored : JobID → Option JobMeta

def Records.of (mem : Memory) (st : Store) : Records :=
  ⟨mem.heap, mem.nextSerial, mem.jobs, st.jobs⟩

def State.records (s : State) : Records := .of s.mem s.store

variable {m' : JobMeta} {i : JobID}

namespace Records

/-- The content of the cached record of a job. -/
def cached (R : Records) (j : JobID) : Option JobMeta := (R.jobs j).map fun n => R.heap ⟨j, n⟩

def assign (R : Records) (r : Ref) (m : JobMeta) : Records :=
  { R with heap := update R.heap r m }

def cache (R : Records) (r : Ref) : Records :=
  { R with jobs := update R.jobs r.job (some r.serial) }

def adopt (R : Records) (j : JobID) (m : JobMeta) : Records :=
  { R with
    heap := update R.heap ⟨j, R.nextSerial⟩ m
    nextSerial := R.nextSerial + 1
    jobs := update R.jobs j (some R.nextSerial) }

def persist (R : Records) (j : JobID) (m : JobMeta) : Records :=
  { R with stored := update R.stored j (some m) }

/-- Persist a version of a record and make it the record's content. -/
def replace (R : Records) (r : Ref) (m : JobMeta) : Records := (R.persist r.job m).assign r m

/-- The same, and the record becomes the cached one. -/
def revise (R : Records) (r : Ref) (m : JobMeta) : Records := (R.replace r m).cache r

/-- Lower the boundary of a record: a copy is persisted and cached. -/
def lower (R : Records) (r : Ref) (id : ℕ) : Records :=
  let next := { R.heap r with latestCheckpoint := id }
  ((R.persist r.job next).adopt r.job next).assign r next

/-- The records at the boundary that a deployment selected. -/
def fallBack (R : Records) (r : Ref) (id : ℕ) : Records :=
  if id = (R.heap r).latestCheckpoint then R else R.lower r id

/-- The records as a recovery reads them from the store. -/
def recovered (st : Store) : Records where
  heap := fun r => (st.jobs r.job).getD default
  nextSerial := 1
  jobs := fun j => (st.jobs j).map fun _ => 0
  stored := st.jobs

variable {R : Records} {r : Ref} {m : JobMeta} {j : JobID}

theorem cached_recovered (st : Store) (j : JobID) : (recovered st).cached j = st.jobs j := by
  rw [cached, show (recovered st).jobs j = (st.jobs j).map fun _ => 0 from rfl, map_map]
  cases hj : st.jobs j with
  | none => rfl
  | some m =>
    have hheap : (recovered st).heap ⟨j, 0⟩ = (st.jobs j).getD default := rfl
    rw [map_some, comp_apply, hheap, hj, getD_some]

/-- For the cached record the two ways of replacing it are the same. -/
theorem revise_of_cached (hr : R.jobs r.job = some r.serial) : R.revise r m = R.replace r m := by
  rw [revise, cache]
  congr 1
  rw [← hr]
  exact update_eq_self _ _

theorem cached_of_job {s : State} (hr : s.mem.job r.job = some r) :
    s.records.cached r.job = some (s.deref r) := by
  rw [Memory.job_eq_some] at hr
  rw [cached, show s.records.jobs r.job = some r.serial from hr.2]
  rfl

/-- A write to one record shows in the cache there, or not at all. -/
theorem cached_assign (h : (R.assign r m).cached j = some m') :
    (j = r.job ∧ m' = m) ∨ R.cached j = some m' := by
  obtain ⟨n, hn, hm'⟩ := map_eq_some_iff.mp h
  rcases eq_or_ne (⟨j, n⟩ : Ref) r with rfl | hne
  · exact .inl ⟨rfl, by rw [← hm']; exact update_self _ _ _⟩
  · rw [show (R.assign r m).heap ⟨j, n⟩ = R.heap ⟨j, n⟩ from update_of_ne hne _ _] at hm'
    exact .inr (map_eq_some_iff.mpr ⟨n, hn, hm'⟩)

theorem cached_cache (h : (R.cache r).cached j = some m') :
    (j = r.job ∧ m' = R.heap r) ∨ R.cached j = some m' := by
  rcases eq_or_ne j r.job with rfl | hne
  · simp only [cached, cache, update_self, map_some, some.injEq] at h
    exact .inl ⟨rfl, h.symm⟩
  · simp only [cached, cache, update_of_ne hne] at h
    exact .inr h

theorem cached_adopt_self : (R.adopt j m).cached j = some m := by
  simp [cached, adopt]

theorem cached_adopt_of_ne (hne : j ≠ i) : (R.adopt i m).cached j = R.cached j := by
  have hother : ∀ n, (⟨j, n⟩ : Ref) ≠ ⟨i, R.nextSerial⟩ := fun n h => hne (congrArg Ref.job h)
  simp [cached, adopt, update_of_ne hne, update_of_ne (hother _)]

theorem cached_adopt (h : (R.adopt i m).cached j = some m') :
    (j = i ∧ m' = m) ∨ R.cached j = some m' := by
  rcases eq_or_ne j i with rfl | hne
  · rw [cached_adopt_self, some.injEq] at h
    exact .inl ⟨rfl, h.symm⟩
  · rw [cached_adopt_of_ne hne] at h
    exact .inr h

theorem cached_revise (h : (R.revise r m).cached j = some m') :
    (j = r.job ∧ m' = m) ∨ R.cached j = some m' := by
  rcases cached_cache h with ⟨hj, hm'⟩ | h
  · exact .inl ⟨hj, hm'.trans (update_self _ _ _)⟩
  · exact cached_assign h

theorem cached_lower {id : ℕ} (h : (R.lower r id).cached j = some m') :
    (j = r.job ∧ m' = { R.heap r with latestCheckpoint := id }) ∨ R.cached j = some m' := by
  rcases cached_assign h with h | h
  · exact .inl h
  · exact cached_adopt h

theorem stored_persist (h : (R.persist i m).stored j = some m') :
    (j = i ∧ m' = m) ∨ R.stored j = some m' := by
  rcases eq_or_ne j i with rfl | hne
  · simp only [persist, update_self, some.injEq] at h
    exact .inl ⟨rfl, h.symm⟩
  · simp only [persist, update_of_ne hne] at h
    exact .inr h

theorem stored_fallBack {id : ℕ} (h : (R.fallBack r id).stored j = some m') :
    (j = r.job ∧ m' = { R.heap r with latestCheckpoint := id }) ∨ R.stored j = some m' := by
  rw [fallBack] at h
  split at h
  · exact .inr h
  · exact stored_persist h

theorem cached_fallBack {id : ℕ} (h : (R.fallBack r id).cached j = some m') :
    (j = r.job ∧ m' = { R.heap r with latestCheckpoint := id }) ∨ R.cached j = some m' := by
  rw [fallBack] at h
  split at h
  · exact .inr h
  · exact cached_lower h

/-- Dropping a job from the cache leaves the others there. -/
theorem cached_drop (h : cached { R with jobs := update R.jobs i none } j = some m') :
    R.cached j = some m' := by
  rcases eq_or_ne j i with rfl | hne
  · simp [cached] at h
  · simpa [cached, update_of_ne hne] using h

/-- The cached record, when it is replaced, is the new version. -/
theorem cached_replace_self (hr : R.jobs r.job = some r.serial) :
    (R.replace r m).cached r.job = some m := by
  rw [cached, show (R.replace r m).jobs = R.jobs from rfl, hr, map_some]
  exact congrArg some (update_self _ _ _)

theorem stored_replace_self : (R.replace r m).stored r.job = some m := update_self _ _ _

/-- A version of the record of a job, in memory or in the store. -/
def Version (R : Records) (j : JobID) (m : JobMeta) : Prop :=
  R.cached j = some m ∨ R.stored j = some m

theorem Version.of_assign (h : (R.assign r m).Version j m') :
    (j = r.job ∧ m' = m) ∨ R.Version j m' := by
  rcases h with h | h
  · exact (cached_assign h).imp_right .inl
  · exact .inr (.inr h)

theorem Version.of_persist (h : (R.persist i m).Version j m') :
    (j = i ∧ m' = m) ∨ R.Version j m' := by
  rcases h with h | h
  · exact .inr (.inl h)
  · exact (stored_persist h).imp_right .inr

theorem Version.of_adopt (h : (R.adopt i m).Version j m') : (j = i ∧ m' = m) ∨ R.Version j m' := by
  rcases h with h | h
  · exact (cached_adopt h).imp_right .inl
  · exact .inr (.inr h)

theorem Version.of_replace (h : (R.replace r m).Version j m') :
    (j = r.job ∧ m' = m) ∨ R.Version j m' := by
  rcases Version.of_assign h with h | h
  · exact .inl h
  · exact Version.of_persist h

/-- A cached record that is replaced has no other version left. -/
theorem Version.eq_of_replace (hr : R.jobs r.job = some r.serial)
    (h : (R.replace r m).Version r.job m') : m' = m := by
  rcases h with h | h
  · exact (some.inj ((cached_replace_self hr).symm.trans h)).symm
  · exact (some.inj (stored_replace_self.symm.trans h)).symm

theorem Version.of_revise (h : (R.revise r m).Version j m') :
    (j = r.job ∧ m' = m) ∨ R.Version j m' := by
  rcases h with h | h
  · exact (cached_revise h).imp_right .inl
  · exact (stored_persist h).imp_right .inr

theorem Version.of_lower {id : ℕ} (h : (R.lower r id).Version j m') :
    (j = r.job ∧ m' = { R.heap r with latestCheckpoint := id }) ∨ R.Version j m' := by
  rcases h with h | h
  · exact (cached_lower h).imp_right .inl
  · exact (stored_persist h).imp_right .inr

theorem Version.of_recovered {st : Store} (h : (recovered st).Version j m') :
    st.jobs j = some m' := by
  rcases h with h | h
  · exact cached_recovered st j ▸ h
  · exact h

end Records

/-! ## Versions of a record -/

/-- What a step is entitled to by its action: the records it may write, those it may publish and
those whose submission it may persist, and the statuses it may ask a transition for. -/
structure Rights where
  action : Action
  writes : Ref → Prop
  publishes : Ref → Prop
  submits : Ref → Prop
  asks : JobStatus → Prop

/-- What a request or a goroutine makes of a record, apart from what a checkpoint or a
deployment does to it. -/
inductive Revision (cfg : Config) (now : Time) (L : Rights) (mem : Memory) (j : JobID)
    (m : JobMeta) : JobMeta → Prop where
  | transition (target : JobStatus) (h : target ∈ validTransitions m.status)
      (hask : L.asks target) : Revision cfg now L mem j m (m.transition cfg now target)
  | fail (h : m.status = .running ∨ m.status = .deploying) :
      Revision cfg now L mem j m (m.fail cfg now)
  | charge (final : Bool) : Revision cfg now L mem j m (m.chargeCheckpointFailure cfg now final)
  | refund (charged : Bool) : Revision cfg now L mem j m (m.refund charged)
  | rollBack (old : RescaleRollback) (h : m.rescaleRollback = some old) :
      Revision cfg now L mem j m (m.rollBack old)
  | placementFailure (old : RescaleRollback) (h : m.rescaleRollback = some old) (since : Time)
      (attempted : Bool) (hstatus : m.status = .failing) :
      Revision cfg now L mem j m { m with
        rescaleRollback := some { old with placementFailedSince := since, attempted } }
  | rescale (checkpoint : ℕ) (config : Graph) (parallelism : ℕ) (hready : mem.ready = true)
      (hidle : mem.activeCheckpoints j = none) :
      Revision cfg now L mem j m (m.rescale cfg now checkpoint config parallelism)

/-- A deployment of a record with the content `m` selects a recovery boundary, `0` if there is
none. -/
structure Selects (o : Oracle) (st : Store) (j : JobID) (m : JobMeta) (boundary : ℕ) : Prop where
  pinned : m.rescaleCheckpoint ≤ m.latestCheckpoint
  none : m.latestCheckpoint = 0 → boundary = 0
  some : m.latestCheckpoint ≠ 0 →
    ∃ cp, selectRecoveryCheckpoint o st j m = .ok cp ∧ boundary = cp.id
  /-- A pinned deployment finds the completed savepoint that it is pinned to. -/
  savepoint : m.latestCheckpoint ≠ 0 → m.rescaleCheckpoint ≠ 0 →
    m.rescaleCheckpoint = boundary → ∃ sp ∈ st.savepoints.records,
      sp.jobID = j ∧ sp.status = .completed ∧ sp.checkpointID = boundary

/-- No checkpoint is triggered or completed and nothing is deployed. -/
def Event.calm : Event → Bool
  | .triggered _ _ _ | .completed _ _ | .deployed _ _ _ _ => false
  | _ => true

/-- Everything a step can do to the job records: the records afterwards, the events logged and
the job ids issued. -/
inductive RecordMove (cfg : Config) (o : Oracle) (L : Rights) (mem : Memory) (st : Store)
    (issued : List JobID) : Records → List Event → List JobID → Prop where
  | same {es : List Event} (hes : ∀ e ∈ es, e.calm) :
      RecordMove cfg o L mem st issued (.of mem st) es issued
  /-- A transition whose write failed. -/
  | unsaved {es : List Event} (hes : ∀ e ∈ es, e.calm) (r : Ref) (hr : L.writes r)
      (target : JobStatus) (htarget : target ∈ validTransitions (mem.heap r).status)
      (hask : L.asks target) (hwritten : o.written = false) :
      RecordMove cfg o L mem st issued
        ((Records.of mem st).assign r ((mem.heap r).transition cfg o.now target)) es issued
  | revise {es : List Event} (hes : ∀ e ∈ es, e.calm) (r : Ref) (hr : L.writes r) (m : JobMeta)
      (hm : Revision cfg o.now L mem r.job (mem.heap r) m) :
      RecordMove cfg o L mem st issued ((Records.of mem st).revise r m) es issued
  | trigger (r : Ref) (hr : mem.job r.job = some r) (hrunning : (mem.heap r).status = .running)
      (attempts : ℕ) (id : ℕ) (attempt : AttemptID) :
      RecordMove cfg o L mem st issued
        ((Records.of mem st).replace r { mem.heap r with checkpointAttempts := attempts })
        [.triggered r.job id attempt] issued
  | complete (r : Ref) (hr : mem.job r.job = some r) (cp : CheckpointMeta)
      (hcp : cp.jobID = r.job) (req : AcknowledgeRequest) :
      RecordMove cfg o L mem st issued
        ((Records.of mem st).replace r ((mem.heap r).checkpointCompleted o.now cp))
        [.acknowledged req, .completed cp.jobID cp.id] issued
  /-- A boundary was lowered for a deployment that did not come about. -/
  | lower (r : Ref) (hr : L.writes r) (hpublishes : L.publishes r) (cp : CheckpointMeta)
      (hcp : selectRecoveryCheckpoint o st r.job (mem.heap r) = .ok cp)
      (hlatest : (mem.heap r).latestCheckpoint ≠ 0)
      (hlower : cp.id ≠ (mem.heap r).latestCheckpoint) :
      RecordMove cfg o L mem st issued ((Records.of mem st).lower r cp.id) [] issued
  | deploy (r : Ref) (hr : L.writes r) (hpublishes : L.publishes r) (attempt : AttemptID)
      (boundary : ℕ) (hselects : Selects o st r.job (mem.heap r) boundary) :
      RecordMove cfg o L mem st issued
        (((Records.of mem st).fallBack r boundary).replace r
          (JobMeta.deploy o.now { mem.heap r with latestCheckpoint := boundary }))
        [.deployed r.job attempt ((mem.heap r).deploymentGeneration + 1) boundary] issued
  | submit (j : JobID) (hready : mem.ready = true) (hj : j ∉ issued) (name : Name) (config : Graph)
      (parallelism : ℕ) (haction : L.action = .submitJob j name config parallelism) :
      RecordMove cfg o L mem st issued
        ((Records.of mem st).adopt j (.submitted name config parallelism o.now)) [] (j :: issued)
  /-- The write of a submission. -/
  | submitted (r : Ref) (hr : L.writes r) (hfirst : L.submits r) (name : Name) (config : Graph)
      (parallelism : ℕ) (createdAt : Time) :
      RecordMove cfg o L mem st issued
        ((Records.of mem st).persist r.job (.submitted name config parallelism createdAt)) []
        issued
  /-- The write of a submission failed. -/
  | drop (r : Ref) (hr : L.writes r) (hwritten : o.written = false) :
      RecordMove cfg o L mem st issued
        { Records.of mem st with jobs := update mem.jobs r.job none } [] issued
  | crash (haction : L.action = .crash) : RecordMove cfg o L mem st issued (.of {} st) [] issued
  | recover (haction : L.action = .finishRecovery) :
      RecordMove cfg o L mem st issued (.recovered st) [] issued

/-- No job record leaves the store. -/
theorem RecordMove.stored {cfg : Config} {o : Oracle} {L : Rights} {mem : Memory} {st : Store}
    {issued issued' : List JobID} {R : Records} {es : List Event}
    (h : RecordMove cfg o L mem st issued R es issued') {j : JobID} (hj : st.jobs j ≠ none) :
    R.stored j ≠ none := by
  have hpersist : ∀ {R : Records} {i : JobID} {m : JobMeta}, R.stored j ≠ none →
      (R.persist i m).stored j ≠ none := by
    intro R i m hR
    rcases eq_or_ne j i with rfl | hne
    · simp [Records.persist]
    · simpa [Records.persist, update_of_ne hne] using hR
  cases h with
  | revise | trigger | complete | lower | submitted => exact hpersist hj
  | deploy r hr hpublishes attempt boundary hselects =>
    refine hpersist (R := (Records.of mem st).fallBack r boundary) ?_
    rw [Records.fallBack]
    split
    · exact hj
    · exact hpersist (R := .of mem st) hj
  | _ => exact hj

/-- What a step has done to the job records. -/
def Recorded (cfg : Config) (o : Oracle) (L : Rights) (s s' : State) : Prop :=
  ∃ es, RecordMove cfg o L s.mem s.store s.issued s'.records es s'.issued ∧ s'.log = s.log ++ es

namespace Recorded

variable {cfg : Config} {o : Oracle} {L : Rights} {s s' : State}

theorem silent (hrecords : s'.records = s.records) (hissued : s'.issued = s.issued)
    {es : List Event} (hes : ∀ e ∈ es, e.calm) (hlog : s'.log = s.log ++ es) :
    Recorded cfg o L s s' := by
  refine ⟨es, ?_, hlog⟩
  rw [hrecords, hissued]
  exact .same hes

theorem refl (s : State) : Recorded cfg o L s s :=
  silent rfl rfl (by simp) (List.append_nil _).symm

end Recorded

end Wire.Coordinator
