import Wire.Coordinator.Boundary

/-!
# The record of a published deployment

When `scheduleJobContext` has published a deployment, the rest of the coordinator goes by the
cached record of the job: the scheduler asks it whether the job waits for a deployment, the
status handler moves it, and a fetch of a checkpoint is authorised by it.  It should be the
record that was persisted.

It is, as long as the deployment restores from the boundary that the record names.  A selection
that falls back to an older checkpoint persists a copy of the record, `persistJobLocked` makes
the copy the cached record, and the deployment is then written to the record that the goroutine
holds.  The copy stays as it was, waiting for a deployment and one generation behind
(`published_stale`, `publication_agrees`).

That the copy is a new record is an invariant of its own: no pointer that is still held anywhere
is handed out again (`Allocated`).
-/

namespace Wire.Coordinator

open Option Function Nat

/-! ## Pointers -/

/-- A pointer that is cached, or held by the scheduler's snapshot or by a goroutine. -/
def State.Held (s : State) (r : Ref) : Prop :=
  s.mem.job r.job = some r ∨ r ∈ s.mem.pending ∨ ∃ t ∈ s.threads, t.ref = some r

variable {o : Oracle} {r : Ref} {s : State}

variable {t : Thread} {boundary i : ℕ} {p : Placement}

theorem Thread.ref_of_writes (h : t.writes o = some r) : t.ref = some r := by
  cases t with
  | rollback | publish | cancelJob | submit => exact h
  | assign r' tasks =>
    rw [Thread.writes] at h
    split at h
    · exact h
    · cases h
  | deliver r' found peers workers =>
    cases workers with
    | nil => cases h
    | cons w rest =>
      rw [Thread.writes] at h
      split at h
      · exact h
      · cases h
  | transitions origin r' targets =>
    cases targets with
    | nil => cases h
    | cons target rest => exact h
  | _ => cases h

/-- The goroutine that a step runs is one of the coordinator's. -/
theorem State.mem_of_running {a : Action} (h : s.running a = some t) : t ∈ s.threads := by
  cases a with
  | proceed i => exact List.mem_of_getElem? h
  | _ => cases h

theorem State.AtHand.held {a : Action} (h : s.AtHand (s.running a) r) : s.Held r := by
  rcases h with hcached | hpending | ⟨t, ht, hr⟩
  · exact .inl hcached
  · exact .inr (.inl hpending)
  · exact .inr (.inr ⟨t, State.mem_of_running ht, hr⟩)

theorem State.held_of_writes {a : Action × Oracle} (h : (s.rights a).writes r) : s.Held r := by
  rcases h with hcached | ⟨t, ht, hr⟩
  · exact .inl hcached
  · exact .inr (.inr ⟨t, State.mem_of_running ht, Thread.ref_of_writes hr⟩)

/-- A new goroutine holds a record at hand, unless it submits a new one. -/
theorem Spawned.atHand {cfg : Config} {run : Option Thread} {R : Records} {log : List Event}
    (h : Spawned cfg run s R log t) (hr : t.ref = some r) :
    s.AtHand run r ∨ s.mem.ready = true ∧ r.serial = s.mem.nextSerial ∧
      R.nextSerial = s.mem.nextSerial + 1 := by
  cases h with
  | ordinary ht href => exact .inl (href r hr)
  | starting cp hcp hlog remaining pausing hpausing => exact .inl (hpausing r hr)
  | startTasks cp task remaining sent pausing hrun => exact .inl (.inr (.inr ⟨_, hrun, hr⟩))
  | assign r' hrun | publish r' p hrun | deliver r' p hrun | delivering r' found peers w ws hrun
  | consequence r' status attempt hrun | transitions origin r' target targets hrun =>
    exact .inl (.inr (.inr ⟨_, hrun, hr⟩))
  | reported _ req r' found haccept =>
    obtain rfl : r' = r := some.inj hr
    have hjob := acceptTaskStatus_job haccept
    exact .inl (.inl (by rw [(Memory.job_eq_some.mp hjob).1]; exact hjob))
  | submit j hready hj name config parallelism now hadopt =>
    obtain rfl : _ = r := some.inj hr
    exact .inr ⟨hready, rfl, by rw [hadopt]; rfl⟩

/-- Every pointer that is held was allocated, and a coordinator that has not recovered holds
none. -/
structure Allocated (s : State) : Prop where
  held : ∀ r, s.Held r → r.serial < s.mem.nextSerial
  down : s.mem.recovered = false → ∀ r, ¬ s.Held r

namespace Allocated

variable {cfg : Config} {s s' : State} {a : Action × Oracle}

theorem initial : Allocated State.initial where
  held := by simp [State.Held, State.initial, Memory.job]
  down := by simp [State.Held, State.initial, Memory.job]

variable {es : List Event}

/-- The cached pointers after a step within a term: an old one, one that the step writes, or a new
one. -/
theorem jobs_recordMove {L : Rights} {mem : Memory} {st : Store} {issued issued' : List JobID}
    {R : Records} (hcrash : L.action ≠ .crash)
    (hrecover : L.action ≠ .finishRecovery) (h : RecordMove cfg o L mem st issued R es issued') :
    mem.nextSerial ≤ R.nextSerial ∧ ∀ r, R.jobs r.job = some r.serial →
      mem.jobs r.job = some r.serial ∨ L.writes r ∨
        (mem.ready = true ∨ ∃ r', L.writes r') ∧ r.serial = mem.nextSerial ∧
          R.nextSerial = mem.nextSerial + 1 := by
  have hadopt : ∀ {i : JobID}, (mem.ready = true ∨ ∃ r', L.writes r') → ∀ r : Ref,
      update mem.jobs i (some mem.nextSerial) r.job = some r.serial →
        mem.jobs r.job = some r.serial ∨ L.writes r ∨
          (mem.ready = true ∨ ∃ r', L.writes r') ∧ r.serial = mem.nextSerial ∧
            mem.nextSerial + 1 = mem.nextSerial + 1 := by
    intro i hby r hr
    rcases eq_or_ne r.job i with rfl | hne
    · rw [update_self, some.injEq] at hr
      exact .inr (.inr ⟨hby, hr.symm, rfl⟩)
    · rw [update_of_ne hne] at hr
      exact .inl hr
  cases h with
  | same | unsaved | trigger | complete | submitted => exact ⟨le_rfl, fun r hr => .inl hr⟩
  | revise hes u hu m hm =>
    refine ⟨le_rfl, fun r hr => ?_⟩
    rcases eq_or_ne r.job u.job with hjob | hne
    · have hserial : u.serial = r.serial := by
        simpa [Records.revise, Records.cache, hjob] using hr
      obtain rfl : u = r := by
        cases u
        cases r
        simp_all
      exact .inr (.inl hu)
    · simp only [Records.revise, Records.cache, update_of_ne hne] at hr
      exact .inl hr
  | lower u hu hpublishes cp hcp hlatest hlower => exact ⟨le_succ _, hadopt (.inr ⟨u, hu⟩)⟩
  | deploy u hu hpublishes attempt boundary hselects =>
    rw [Records.fallBack]
    split
    · exact ⟨le_rfl, fun r hr => .inl hr⟩
    · exact ⟨le_succ _, hadopt (.inr ⟨u, hu⟩)⟩
  | submit j hready hj name config parallelism haction => exact ⟨le_succ _, hadopt (.inl hready)⟩
  | drop u hu hwritten =>
    refine ⟨le_rfl, fun r hr => .inl ?_⟩
    rcases eq_or_ne r.job u.job with hjob | hne
    · simp [hjob] at hr
    · simpa [update_of_ne hne] using hr
  | crash haction => exact absurd haction hcrash
  | recover haction => exact absurd haction hrecover

theorem recovered_taskMove {a : Action} {run : Option Thread} {T : Tasks}
    (hcrash : a ≠ .crash) (hrecover : a ≠ .finishRecovery) (h : TaskMove cfg a o run s T es) :
    T.recovered = s.mem.recovered := by
  cases h with
  | crash ha => exact absurd ha hcrash
  | recover ha => exact absurd ha hrecover
  | _ => rfl

/-- The pointers held after a step within a term. -/
theorem held_step (hcrash : a.1 ≠ .crash) (hrecover : a.1 ≠ .finishRecovery)
    (h : step cfg s a = some s') :
    s.mem.nextSerial ≤ s'.mem.nextSerial ∧ s'.mem.recovered = s.mem.recovered ∧
      ∀ r, s'.Held r → s.Held r ∨ (s.mem.recovered = true ∨ ∃ r', s.Held r') ∧
        r.serial = s.mem.nextSerial ∧ s'.mem.nextSerial = s.mem.nextSerial + 1 := by
  obtain ⟨es, hrecords, -⟩ := step_records h
  obtain ⟨hthreads, -, hpending, fs, htasks, -⟩ := step_moved h
  obtain ⟨hserial, hjobs⟩ := jobs_recordMove hcrash hrecover hrecords
  refine ⟨hserial, recovered_taskMove hcrash hrecover htasks, fun r hr => ?_⟩
  rcases hr with hcached | hr | ⟨t, ht, hr⟩
  · rcases hjobs r (Memory.job_eq_some.mp hcached).2 with hold | hwrites | ⟨hby, hnew, hnext⟩
    · exact .inl (.inl (Memory.job_eq_some.mpr ⟨rfl, hold⟩))
    · exact .inl (State.held_of_writes hwrites)
    · refine .inr ⟨hby.imp Flights.recovered_of_ready ?_, hnew, hnext⟩
      exact fun ⟨r', hr'⟩ => ⟨r', State.held_of_writes hr'⟩
  · refine .inl ((hpending r hr).elim (fun hold => .inr (.inl hold)) fun hnew => .inl ?_)
    exact (filter_eq_some_iff.mp hnew).1
  · rcases hthreads t ht with hold | hnew
    · exact .inl (.inr (.inr ⟨t, hold, hr⟩))
    · rcases hnew.atHand hr with hhand | ⟨hready, hserial, hnext⟩
      · exact .inl hhand.held
      · exact .inr ⟨.inl (Flights.recovered_of_ready hready), hserial, hnext⟩

theorem step (hs : Allocated s) (hflights : Flights s) (h : step cfg s a = some s') :
    Allocated s' := by
  obtain ⟨act, o⟩ := a
  rcases eq_or_ne act .crash with rfl | hcrash
  · cases h
    have hnone : ∀ r, ¬ s.crash.Held r := by
      rintro r (hcached | hpending | ⟨t, ht, hr⟩)
      · cases (Memory.job_eq_some.mp hcached).2
      · cases hpending
      · obtain ⟨-, hnotifies⟩ := List.mem_filter.mp ht
        cases t with
        | notify => cases hr
        | _ => cases hnotifies
    exact ⟨fun r hr => absurd hr (hnone r), fun _ => hnone⟩
  rcases eq_or_ne act .finishRecovery with rfl | hrecover
  · change s.finishRecovery cfg o = some s' at h
    rw [State.finishRecovery] at h
    split at h
    · next epoch hrec =>
      cases h
      have hnone := hs.down (hflights.down _ hrec)
      refine ⟨?_, by simp⟩
      rintro r (hcached | hpending | ⟨t, ht, hr⟩)
      · obtain ⟨m, -, hserial⟩ := map_eq_some_iff.mp (Memory.job_eq_some.mp hcached).2
        rw [← hserial]
        exact one_pos
      · cases hpending
      · exact absurd (.inr (.inr ⟨t, ht, hr⟩)) (hnone r)
    · cases h
  obtain ⟨hserial, hrecovered, hheld⟩ := held_step hcrash hrecover h
  refine ⟨fun r hr => ?_, fun hdown r hr => ?_⟩
  · rcases hheld r hr with hold | ⟨-, hnew, hnext⟩
    · exact (hs.held r hold).trans_le hserial
    · omega
  · rw [hrecovered] at hdown
    rcases hheld r hr with hold | ⟨hup | ⟨r', hold⟩, -⟩
    · exact hs.down hdown r hold
    · cases hdown.symm.trans hup
    · exact hs.down hdown r' hold

end Allocated

theorem allocated {cfg : Config} (h : Reachable cfg s) : Allocated s :=
  h.invariant .initial fun _ _ _ hreach hs _ hstep => hs.step (flights hreach) hstep

/-! ## Publishing a deployment -/

/-- The cached record of a job and the persisted one are those of a published deployment: they
agree on the status, the deployment generation, the restart counters and the boundary, and the
scheduler does not find the job waiting for a deployment. -/
def Published (s : State) (j : JobID) : Prop :=
  s.schedulable j = none ∧ ∃ m m', s.records.cached j = some m ∧ s.store.jobs j = some m' ∧
    m.status = .deploying ∧ m'.status = .deploying ∧
    m.deploymentGeneration = m'.deploymentGeneration ∧ m.restartCount = m'.restartCount ∧
    m.recoveryAttempts = m'.recoveryAttempts ∧ m.latestCheckpoint = m'.latestCheckpoint

/-- The checkpoint that would be selected for a deployment of a record is the one it names. -/
def KeepsBoundary (o : Oracle) (s : State) (r : Ref) : Prop :=
  (s.deref r).latestCheckpoint ≠ 0 → ∀ cp,
    selectRecoveryCheckpoint o s.store r.job (s.deref r) = .ok cp →
      cp.id = (s.deref r).latestCheckpoint

theorem Selects.keepsBoundary_iff (h : Selects o s.store r.job (s.deref r) boundary) :
    KeepsBoundary o s r ↔ boundary = (s.deref r).latestCheckpoint := by
  by_cases hzero : (s.deref r).latestCheckpoint = 0
  · exact ⟨fun _ => (h.none hzero).trans hzero.symm, fun _ hne => absurd hzero hne⟩
  · obtain ⟨cp, hcp, rfl⟩ := h.some hzero
    refine ⟨fun hkeeps => hkeeps hzero cp hcp, fun hid _ cp' hcp' => ?_⟩
    obtain rfl : cp = cp' := Except.ok.inj (hcp.symm.trans hcp')
    exact hid

namespace Records

variable {R : Records} {r : Ref} {m : JobMeta}

/-- After the boundary was lowered, the cached record is a copy that a later write to the old one
does not reach. -/
theorem cached_replace_lower (hr : r.serial ≠ R.nextSerial) (id : ℕ) :
    ((R.lower r id).replace r m).cached r.job = some { R.heap r with latestCheckpoint := id } := by
  have hne : (⟨r.job, R.nextSerial⟩ : Ref) ≠ r := fun h => hr (congrArg Ref.serial h).symm
  simp [cached, replace, lower, persist, adopt, assign, update_of_ne hne]

end Records

/-- A job whose cached record is neither new nor failing does not wait for a deployment. -/
theorem schedulable_none {j : JobID} {m : JobMeta} (h : s.records.cached j = some m)
    (hcreated : m.status ≠ .created) (hfailing : m.status ≠ .failing) : s.schedulable j = none := by
  rw [State.schedulable, filter_eq_none_iff]
  intro r hr
  obtain ⟨rfl, -⟩ := Memory.job_eq_some.mp hr
  obtain rfl : m = s.deref r := some.inj (h.symm.trans (Records.cached_of_job hr))
  simp [hcreated, hfailing]

/-- **No further attempt is dispatched** as long as the job does not wait for a deployment: the
scheduler's snapshot does not come to hold it. -/
theorem unscheduled_of_reaches {cfg : Config} {s' : State} {j : JobID}
    (hs : ∀ r ∈ s.mem.pending, r.job ≠ j)
    (h : Runs.Reaches (step cfg) (fun s _ => s.schedulable j = none) s s') :
    ∀ r ∈ s'.mem.pending, r.job ≠ j := by
  refine h.invariant (P := fun s => ∀ r ∈ s.mem.pending, r.job ≠ j) hs
    fun s a s' _ hs hnone hstep r hr hj => ?_
  rcases (step_moved hstep).pending r hr with hold | hnew
  · exact hs r hold hj
  · rw [hj, hnone] at hnew
    cases hnew

/-- The publication of the record that a goroutine holds. -/
theorem publish_deployed {cfg : Config} {s' : State}
    (hi : s.threads[i]? = some (.publish r p)) (hr : s.mem.job r.job = some r)
    (hstep : step cfg s (.proceed i, o) = some s') {attempt : AttemptID} {generation : ℕ}
    (hlog : s'.log = s.log ++ [.deployed r.job attempt generation boundary]) :
    Selects o s.store r.job (s.deref r) boundary ∧
      s'.records = (s.records.fallBack r boundary).replace r
        (JobMeta.deploy o.now { s.deref r with latestCheckpoint := boundary }) := by
  obtain ⟨es, hrecords, hes⟩ := step_records hstep
  obtain rfl := List.append_cancel_left (hes.symm.trans hlog)
  obtain ⟨u, hu, hjob, hselects, -, hR⟩ := recordMove_deployed hrecords
  obtain rfl : u = r := by
    rcases hu with hcached | ⟨t, ht, hu⟩
    · rw [hjob, hr, some.injEq] at hcached
      exact hcached.symm
    · rw [State.running, hi, some.injEq] at ht
      rw [← ht] at hu
      exact (some.inj hu).symm
  exact ⟨hselects, hR⟩

/-- **A published deployment is the one the coordinator works on** exactly when it restores from
the boundary that its record names: then the cached record and the persisted one agree. -/
theorem publication_agrees {cfg : Config} {s s' : State} (hreach : Reachable cfg s) {i : ℕ}
    {o : Oracle} {r : Ref} {p : Placement} (hi : s.threads[i]? = some (.publish r p))
    (hr : s.mem.job r.job = some r) (hstep : step cfg s (.proceed i, o) = some s')
    {attempt : AttemptID} {generation boundary : ℕ}
    (hlog : s'.log = s.log ++ [.deployed r.job attempt generation boundary]) :
    Published s' r.job ↔ KeepsBoundary o s r := by
  obtain ⟨hselects, hR⟩ := publish_deployed hi hr hstep hlog
  rw [hselects.keepsBoundary_iff]
  constructor
  · rintro ⟨-, m, m', hm, hm', -, -, hgeneration, -⟩
    by_contra hne
    have hfresh : r.serial ≠ s.records.nextSerial :=
      ((allocated hreach).held r (.inl hr)).ne
    rw [hR, Records.fallBack,
      if_neg (show ¬ boundary = (s.records.heap r).latestCheckpoint from hne),
      Records.cached_replace_lower hfresh, some.injEq] at hm
    have hstored : s'.records.stored r.job = some m' := hm'
    rw [hR, Records.stored_replace_self, some.injEq] at hstored
    rw [← hm, ← hstored] at hgeneration
    exact absurd hgeneration (succ_ne_self _).symm
  · intro hsame
    rw [Records.fallBack, if_pos (show boundary = (s.records.heap r).latestCheckpoint from hsame)]
      at hR
    have hcached := Records.cached_replace_self (m := JobMeta.deploy o.now
      { s.deref r with latestCheckpoint := boundary })
      (show s.records.jobs r.job = some r.serial from (Memory.job_eq_some.mp hr).2)
    rw [← hR] at hcached
    have hstored := Records.stored_replace_self (R := s.records) (r := r) (m := JobMeta.deploy o.now
      { s.deref r with latestCheckpoint := boundary })
    rw [← hR] at hstored
    exact ⟨schedulable_none hcached (by rintro ⟨⟩) (by rintro ⟨⟩), _, _, hcached, hstored, rfl, rfl,
      rfl, rfl, rfl, rfl⟩

/-! ## A deployment that is not published -/

/-- The deployment that a goroutine is about to publish. -/
def State.publishing (s : State) (i : ℕ) : Option (Ref × Placement) :=
  match s.threads[i]? with
  | some (.publish r p) => some (r, p)
  | _ => none

theorem State.threads_of_publishing (h : s.publishing i = some (r, p)) :
    s.threads[i]? = some (.publish r p) := by
  rw [State.publishing] at h
  split at h
  · next r' p' hthread =>
    cases h
    exact hthread
  · cases h

open Sample

/-- After a recovery that skipped a checkpoint the job is deployed, and the scheduler still finds
it waiting. -/
theorem published_stale : ∃ s s', Reachable config s ∧ step config s fallback = some s' ∧
    s'.log = s.log ++ [.deployed 0 2 2 1] ∧ (s'.schedulable 0).isSome ∧ ¬ Published s' 0 := by
  obtain ⟨s, hs, s', hstep, hlog, hwaiting⟩ := Runs.reachable_of_run (step config) State.initial
    fallbackRun (p := fun s => ∃ s' ∈ step config s fallback,
      s'.log = s.log ++ [.deployed 0 2 2 1] ∧ (s'.schedulable 0).isSome) (by decide)
  refine ⟨s, s', hs, hstep, hlog, hwaiting, fun hpublished => ?_⟩
  rw [hpublished.1] at hwaiting
  cases hwaiting

/-- Whether the boundary is kept, by evaluation. -/
def keepsBoundary (o : Oracle) (s : State) (r : Ref) : Bool :=
  match selectRecoveryCheckpoint o s.store r.job (s.deref r) with
  | .ok cp => cp.id = (s.deref r).latestCheckpoint
  | .error _ => true

theorem keepsBoundary_sound (h : keepsBoundary o s r = true) : KeepsBoundary o s r := by
  intro _ cp hcp
  rw [keepsBoundary, hcp] at h
  exact of_decide_eq_true h

theorem publication_agrees_recovery : ∃ s s', Reachable config s ∧
    step config s (.proceed 0, oracle) = some s' ∧
    s'.log = s.log ++ [.deployed 0 2 2 1] ∧ Published s' 0 := by
  obtain ⟨s, hs, s', hstep, hlog, hpublishing, hjob, hkeeps⟩ :=
    Runs.reachable_of_run (step config) State.initial recoveryRun
    (p := fun s => ∃ s' ∈ step config s (.proceed 0, oracle),
      s'.log = s.log ++ [.deployed 0 2 2 1] ∧ s.publishing 0 = some (⟨0, 1⟩, placement 2) ∧
      s.mem.job 0 = some ⟨0, 1⟩ ∧ keepsBoundary oracle s ⟨0, 1⟩) (by decide)
  exact ⟨s, s', hs, hstep, hlog,
    (publication_agrees hs (State.threads_of_publishing hpublishing) hjob hstep hlog).mpr
      (keepsBoundary_sound hkeeps)⟩

end Wire.Coordinator
