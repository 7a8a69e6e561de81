import Wire.Coordinator.Publication

/-!
# One job, two versions

The record of a job is kept in memory and in the store, and its deployment generation is the
number by which external sinks tell an attempt from its predecessors.  Both rest on the same two
things.  The version that is written must be a version of the cached record, and the record must
not be copied on the way.

Neither is sure.  `SubmitJob` publishes the record first and writes it afterwards, without the
lock and as it was created: a deployment that is published in between is overwritten in the store
(`update_lost`).  A selection that falls back to an older checkpoint leaves a copy in the cache
that does not take part in the deployment, and the next deployment starts from the copy, with a
generation that was given out before (`generation_repeated`).

In runs where neither happens (`WritesCurrent`) the two versions are equal whenever no submission
is under way (`job_updates_kept`), and the generations of a job's attempts increase strictly
(`generations_fenced`).  That a generation is persisted before a task carries it to a worker holds
in every run.
-/

namespace Wire.Coordinator

open List Option Function Bool Runs

/-- Every goroutine that writes a job record writes the cached one, a submission is persisted
before anything else of the job, and a deployment restores from the boundary its record names. -/
structure WritesCurrent (s : State) (a : Action × Oracle) : Prop extends WritesCached s a where
  boundary : ∀ r, (s.rights a).publishes r → KeepsBoundary a.2 s r

/-- The condition, checked by evaluation. -/
def writesCurrent (s : State) (a : Action × Oracle) : Bool :=
  writesCached s a && (s.running a.1).all fun t =>
    match t with
    | .publish r _ => keepsBoundary a.2 s r
    | _ => true

theorem writesCurrent_sound (s : State) (a : Action × Oracle) (h : writesCurrent s a = true) :
    WritesCurrent s a := by
  obtain ⟨hcached, hboundary⟩ := and_eq_true_iff.mp h
  refine ⟨writesCached_sound s a hcached, fun r ⟨p, hr⟩ => ?_⟩
  rw [hr, all_some] at hboundary
  exact keepsBoundary_sound hboundary

/-! ## Equal versions -/

/-- The goroutine still has to write the submission of a job. -/
def Thread.submitting : Thread → Option (JobID × JobMeta)
  | .submit r name config parallelism createdAt =>
    some (r.job, .submitted name config parallelism createdAt)
  | _ => none

/-- The cached version of a record is the persisted one, unless the record was not persisted yet;
then it is the one that the submission is going to write. -/
structure Matched (s : State) : Prop where
  cached : ∀ j m, s.records.cached j = some m → s.records.stored j = some m ∨
    s.records.stored j = none ∧ ∃ t ∈ s.threads, t.submitting = some (j, m)
  submitted : ∀ t ∈ s.threads, ∀ j m, t.submitting = some (j, m) →
    s.records.stored j = none → s.records.cached j = some m

variable {R : Records} {es log : List Event} {j : JobID} {cfg : Config} {s s' : State}
  {a : Action × Oracle}

namespace Matched

theorem initial : Matched State.initial where
  cached := fun _ m h => absurd h.symm (some_ne_none m)
  submitted := nofun

/-- Replacing the cached record writes one version to both places. -/
theorem replace_versions {r : Ref} (hr : R.jobs r.job = some r.serial) (m : JobMeta) (j : JobID) :
    ((R.replace r m).cached j = R.cached j ∧ (R.replace r m).stored j = R.stored j) ∨
      ∃ m', (R.replace r m).cached j = some m' ∧ (R.replace r m).stored j = some m' := by
  rcases eq_or_ne j r.job with rfl | hne
  · exact .inr ⟨m, Records.cached_replace_self hr, Records.stored_replace_self⟩
  · refine .inl ⟨?_, update_of_ne hne _ _⟩
    have hother : ∀ n, (⟨j, n⟩ : Ref) ≠ r := fun n h => hne (congrArg Ref.job h)
    simp [Records.cached, Records.replace, Records.persist, Records.assign, update_of_ne (hother _)]

/-- A step that neither begins nor writes a submission keeps the versions of a job or writes the
same one to both places. -/
theorem recordMove_versions (hok : WritesCurrent s a) (hwritten : a.2.written = true)
    {issued : List JobID}
    (hsubmit : ∀ j name config parallelism, a.1 ≠ .submitJob j name config parallelism)
    (hcrash : a.1 ≠ .crash) (hrecover : a.1 ≠ .finishRecovery)
    (hrun : ∀ t, s.running a.1 = some t → t.submitting = none)
    (h : RecordMove cfg a.2 (s.rights a) s.mem s.store s.issued R es issued) (j : JobID) :
    (R.cached j = s.records.cached j ∧ R.stored j = s.records.stored j) ∨
      ∃ m, R.cached j = some m ∧ R.stored j = some m := by
  have hcached : ∀ r, (s.rights a).writes r → s.records.jobs r.job = some r.serial :=
    fun r hr => (Memory.job_eq_some.mp (hok.cached r hr)).2
  cases h with
  | same hes => exact .inl ⟨rfl, rfl⟩
  | unsaved _ _ _ _ _ _ hfailed | drop _ _ hfailed => exact nomatch hwritten.symm.trans hfailed
  | revise hes r hr m hm =>
    have hrevise := Records.revise_of_cached (m := m) (hcached r hr)
    rw [show (Records.of s.mem s.store).revise r m = s.records.replace r m from hrevise]
    exact replace_versions (hcached r hr) m j
  | trigger r hr | complete r hr => exact replace_versions (hcached r (.inl hr)) _ j
  | lower r hr hpublishes cp hcp hlatest hlower =>
    exact absurd (hok.boundary r hpublishes hlatest cp hcp) hlower
  | deploy r hr hpublishes attempt boundary hselects =>
    have hsame := (Selects.keepsBoundary_iff hselects).mp (hok.boundary r hpublishes)
    rw [Records.fallBack,
      if_pos (show boundary = ((Records.of s.mem s.store).heap r).latestCheckpoint from hsame)]
    exact replace_versions (hcached r hr) _ j
  | submit i hready hi name config parallelism haction => exact absurd haction (hsubmit _ _ _ _)
  | submitted r hr hfirst =>
    obtain ⟨t, ht, hsubmits⟩ := hfirst
    have hnone := hrun t ht
    cases t with
    | submit => cases hnone
    | _ => cases hsubmits
  | crash haction => exact absurd haction hcrash
  | recover haction => exact absurd haction hrecover

variable {m : JobMeta} {t : Thread} {o : Oracle}

/-- A new goroutine that submits a record has cached it. -/
theorem cached_of_spawned {run : Option Thread} (h : Spawned cfg run s R log t)
    (ht : t.submitting = some (j, m)) : R.cached j = some m := by
  cases h with
  | submit i hready hi name config parallelism now hadopt =>
    cases ht
    rw [hadopt]
    exact Records.cached_adopt_self
  | ordinary hord href =>
    cases t with
    | submit => cases hord
    | _ => cases ht
  | _ => cases ht

/-- A step that neither begins nor writes a submission. -/
theorem keep (hs : Matched s) (hok : WritesCurrent s a) (hwritten : a.2.written = true)
    (hsubmit : ∀ j name config parallelism, a.1 ≠ .submitJob j name config parallelism)
    (hcrash : a.1 ≠ .crash) (hrecover : a.1 ≠ .finishRecovery)
    (hrun : ∀ t, s.running a.1 = some t → t.submitting = none)
    (h : Wire.Coordinator.step cfg s a = some s') : Matched s' := by
  obtain ⟨es, hrecords, -⟩ := step_records h
  obtain ⟨hthreads, hkept, -⟩ := step_moved h
  have hversions := recordMove_versions hok hwritten hsubmit hcrash hrecover hrun hrecords
  refine ⟨fun j m hm => ?_, fun t ht j m hsub hnone => ?_⟩
  · rcases hversions j with ⟨hcached, hstored⟩ | ⟨m', hcached, hstored⟩
    · rw [hcached] at hm
      rw [hstored]
      refine (hs.cached j m hm).imp_right fun ⟨hnone, t, ht, hsub⟩ => ⟨hnone, t, ?_, hsub⟩
      have habandon : t.abandonable = false := by
        cases t with
        | submit => rfl
        | _ => cases hsub
      rcases hkept t ht habandon with hran | hcrashed | hleft
      · exact nomatch (hrun t hran).symm.trans hsub
      · exact absurd hcrashed hcrash
      · exact hleft
    · rw [hcached, some.injEq] at hm
      exact .inl (hm ▸ hstored)
  · rcases hthreads t ht with hold | hnew
    · rcases hversions j with ⟨hcached, hstored⟩ | ⟨m', hcached, hstored⟩
      · rw [hcached]
        exact hs.submitted t hold j m hsub (hstored ▸ hnone)
      · exact nomatch hnone.symm.trans hstored
    · exact cached_of_spawned hnew hsub

/-- The beginning of a submission. -/
theorem submitJob (hs : Matched s) (hanchored : Anchored s) (hj : j ∉ s.issued) (name : Name)
    (config : Graph) (parallelism : ℕ) (now : Time) :
    Matched (s.submitJob j name config parallelism now) := by
  have hnone : s.records.stored j = none := by
    cases hm : s.records.stored j with
    | none => rfl
    | some m => exact absurd (hanchored.stored j m hm).2 hj
  have hR : (s.submitJob j name config parallelism now).records =
    s.records.adopt j (.submitted name config parallelism now) := rfl
  have hts : (s.submitJob j name config parallelism now).threads = s.threads ++
    [.submit ⟨j, s.mem.nextSerial⟩ name config parallelism now] := rfl
  refine ⟨fun i m hm => ?_, fun t ht i m hsub hstored => ?_⟩
  · rw [hR] at hm
    rcases Records.cached_adopt hm with ⟨rfl, rfl⟩ | hold
    · exact .inr ⟨hnone, _, mem_append_right _ (mem_singleton_self _), rfl⟩
    · exact (hs.cached i m hold).imp_right fun ⟨hnone, t, ht, hsub⟩ =>
        ⟨hnone, t, mem_append_left _ ht, hsub⟩
  · rw [hts] at ht
    rw [hR]
    rcases mem_append.mp ht with hold | hnew
    · have hcached := hs.submitted t hold i m hsub hstored
      rcases eq_or_ne i j with rfl | hne
      · exact absurd (hanchored.cached i m hcached).2 hj
      · rw [Records.cached_adopt_of_ne hne]
        exact hcached
    · cases mem_singleton.mp hnew
      cases hsub
      exact Records.cached_adopt_self

/-- The write of a submission. -/
theorem persistSubmission (hs : Matched s) {i : ℕ}
    (ht : s.threads[i]? = some t) (hsub : t.submitting = some (j, m))
    (hnone : s.records.stored j = none) (hwritten : o.written = true)
    (h : Wire.Coordinator.step cfg s (.proceed i, o) = some s') : Matched s' := by
  obtain ⟨u, hu, hgo⟩ := bind_eq_some_iff.mp h
  obtain rfl : t = u := some.inj (ht.symm.trans hu)
  cases t with
  | submit r name config parallelism createdAt =>
    cases hsub
    have hs' : s' = .persistSubmission o { s with threads := s.threads.eraseIdx i } r
        (.submitted name config parallelism createdAt) := (some.inj hgo).symm
    rw [State.persistSubmission, if_pos hwritten] at hs'
    have hR : s'.records =
        s.records.persist r.job (.submitted name config parallelism createdAt) := by
      rw [hs']
      rfl
    have hts : s'.threads = s.threads.eraseIdx i := by rw [hs']; rfl
    have hself : s'.records.stored r.job = some (.submitted name config parallelism createdAt) := by
      rw [hR]
      exact update_self _ _ _
    have hother : ∀ j, j ≠ r.job → s'.records.stored j = s.records.stored j := by
      intro j hne
      rw [hR]
      exact update_of_ne hne _ _
    refine ⟨fun j m hm => ?_, fun t ht' j m hsub hstored => ?_⟩
    · have hm : s.records.cached j = some m := by rw [hR] at hm; exact hm
      rcases eq_or_ne j r.job with rfl | hne
      · have hmine := hs.submitted _ (mem_of_getElem? ht) _ _ rfl hnone
        rw [hmine, some.injEq] at hm
        exact .inl (hm ▸ hself)
      · rw [hother j hne, hts]
        refine (hs.cached j m hm).imp_right ?_
        rintro ⟨hnone, t, hmem, hsub⟩
        refine ⟨hnone, t, ?_, hsub⟩
        rcases mem_eraseIdx_or hmem with hit | hleft
        · cases ht.symm.trans hit
          cases hsub
          exact absurd rfl hne
        · exact hleft
    · rw [hts] at ht'
      rcases eq_or_ne j r.job with rfl | hne
      · cases hstored.symm.trans hself
      · rw [hother j hne] at hstored
        have hcached := hs.submitted t (eraseIdx_subset ht') j m hsub hstored
        rw [hR]
        exact hcached
  | _ => cases hsub

theorem crash : Matched s.crash where
  cached := fun _ m h => absurd h.symm (some_ne_none m)
  submitted := by
    intro t ht j m hsub
    obtain ⟨-, hnotifies⟩ := mem_filter.mp ht
    cases t with
    | submit => cases hnotifies
    | _ => cases hsub

/-- The end of a recovery; the goroutines of an earlier term hold no record. -/
theorem finishRecovery (halloc : Allocated s) (hflights : Flights s)
    (h : s.finishRecovery cfg o = some s') : Matched s' := by
  rw [State.finishRecovery] at h
  split at h
  · next epoch hrec =>
    cases h
    refine ⟨fun j m hm => .inl ?_, fun t ht j m hsub => ?_⟩
    · have hm : (Records.recovered s.store).cached j = some m := hm
      rw [Records.cached_recovered] at hm
      exact hm
    · cases t with
      | submit r =>
        exact absurd (.inr (.inr ⟨_, ht, rfl⟩)) (halloc.down (hflights.down _ hrec) r)
      | _ => cases hsub
  · cases h

theorem step (hs : Matched s) (hanchored : Anchored s) (halloc : Allocated s)
    (hflights : Flights s) (hok : WritesCurrent s a) (hwritten : a.2.written = true)
    (h : step cfg s a = some s') : Matched s' := by
  obtain ⟨act, o⟩ := a
  by_cases hrun : ∀ t, s.running act = some t → t.submitting = none
  · cases act with
    | submitJob j name config parallelism =>
      obtain ⟨hguard, rfl⟩ := ite_some_none_eq_some.mp h
      exact hs.submitJob hanchored hguard.2.1 name config parallelism o.now
    | crash =>
      cases h
      exact crash
    | finishRecovery => exact finishRecovery halloc hflights h
    | _ => exact hs.keep hok hwritten nofun nofun nofun hrun h
  · simp only [not_forall] at hrun
    obtain ⟨t, ht, hsub⟩ := hrun
    obtain ⟨⟨j, m⟩, hsub⟩ := ne_none_iff_exists'.mp hsub
    cases act with
    | proceed i =>
      have hnone : s.store.jobs j = none := by
        cases t with
        | submit r =>
          cases hsub
          exact hok.first r ⟨_, ht, if_pos hwritten⟩
        | _ => cases hsub
      exact hs.persistSubmission ht hsub hnone hwritten h
    | _ => cases ht

end Matched

/-- The store makes every write, and the writes are of current records. -/
def Orderly (s : State) (a : Action × Oracle) : Prop := a.2.written = true ∧ WritesCurrent s a

theorem matched {s : State} (h : Reaches (step cfg) Orderly State.initial s) : Matched s := by
  refine h.invariant .initial fun s a s' hreach hs hok hstep => ?_
  have hanchored := anchored (hreach.mono fun _ _ hok => hok.2.toWritesCached)
  exact hs.step hanchored (allocated hreach.reachable) (flights hreach.reachable) hok.2 hok.1 hstep

/-- **No job update is lost** in runs without store errors whose writes are of current records:
when the submission of a job has returned, the persisted record of the job is the one in
memory. -/
theorem job_updates_kept {cfg : Config} {s : State}
    (h : Reaches (step cfg) Orderly State.initial s) {j : JobID}
    (hreturned : ∀ t ∈ s.threads, ∀ m, t.submitting ≠ some (j, m)) {m : JobMeta}
    (hm : s.records.cached j = some m) : s.store.jobs j = some m := by
  rcases (matched h).cached j m hm with hstored | ⟨-, t, ht, hsub⟩
  · exact hstored
  · exact absurd hsub (hreturned t ht m)

open Sample

/-- A job that failed is deployed again, and the deployment delivered. -/
def redeployedRun : List (Action × Oracle) :=
  recoveryRun ++ each [.proceed 0, .proceed 0, .proceed 0]

theorem job_updates_kept_redeployed :
    ∃ s m, Reaches (step config) Orderly State.initial s ∧ s.threads = [] ∧
      s.records.cached 0 = some m ∧ m.deploymentGeneration = 2 ∧ s.store.jobs 0 = some m := by
  obtain ⟨s, hs, hthreads, m, hm, hgeneration⟩ := reaches_of_run (step config) Orderly
    (fun s a => a.2.written && writesCurrent s a)
    (fun s a h => (and_eq_true_iff.mp h).imp_right (writesCurrent_sound s a))
    .initial redeployedRun (p := fun s => s.threads = [] ∧
      ∃ m ∈ s.records.cached 0, m.deploymentGeneration = 2) (by decide)
  exact ⟨s, m, hs, hthreads, hm, hgeneration, job_updates_kept hs (by simp [hthreads]) hm⟩

/-- The scheduler deploys the job between the two halves of its submission. -/
def lateSubmissionRun : List (Action × Oracle) :=
  each [.startRecovery 0, .finishRecovery, .registerWorker 1 (worker 1) 0,
    .registerWorker 2 (worker 2) 0, .submitJob 0 0 0 1, .tick [0], .dispatch] ++
    place 1 1 ++ each [.proceed 1, .proceed 1, .proceed 1, .proceed 0]

/-- Everything has returned; the job is deployed in memory and new in the store. -/
theorem update_lost : ∃ s m m', Reachable config s ∧ s.threads = [] ∧ s.records.cached 0 = some m ∧
    s.store.jobs 0 = some m' ∧ m.status = .deploying ∧ m'.status = .created := by
  obtain ⟨s, hs, hthreads, ⟨m, hm, hdeploying⟩, m', hm', hcreated⟩ :=
    reachable_of_run (step config) State.initial lateSubmissionRun
    (p := fun s => s.threads = [] ∧ (∃ m ∈ s.records.cached 0, m.status = .deploying) ∧
      ∃ m ∈ s.store.jobs 0, m.status = .created) (by decide)
  exact ⟨s, m, m', hs, hthreads, hm, hm', hdeploying, hcreated⟩

/-! ## Generations -/

/-- The command that an event hands to a worker. -/
def Event.hands : Event → Option Command
  | .enqueued _ c | .called _ c => some c
  | _ => none

/-- The generation is a strict fence. -/
structure GenerationFenced (log : List Event) : Prop where
  /-- A later attempt carries a larger generation. -/
  increasing : ∀ t₁ t₂ t₃ j a g b a' g' b',
    log = (t₁ ++ .deployed j a g b :: t₂) ++ .deployed j a' g' b' :: t₃ → g < g'
  /-- The tasks that workers are handed for different attempts carry different generations. -/
  distinct : ∀ e ∈ log, ∀ e' ∈ log, ∀ j t t' epoch epoch' a a' g g',
    e.hands = some (.deployTask j t epoch a g) → e'.hands = some (.deployTask j t' epoch' a' g') →
      a ≠ a' → g ≠ g'
  /-- A generation is persisted before a task that carries it is handed to a worker. -/
  persisted : ∀ t₁ t₂ e j t epoch a g, log = t₁ ++ e :: t₂ →
    e.hands = some (.deployTask j t epoch a g) → ∃ b, .deployed j a g b ∈ t₁

/-- The generation of a deployment is larger than those of the job's deployments before it. -/
def Ascending (past : List Event) (e : Event) : Prop :=
  ∀ j a g b, e = .deployed j a g b → ∀ a' g' b', .deployed j a' g' b' ∈ past → g' < g

/-- A task that is handed to a worker belongs to a deployment before it. -/
def Backed (past : List Event) (e : Event) : Prop :=
  ∀ j t epoch a g, e.hands = some (.deployTask j t epoch a g) → ∃ b, .deployed j a g b ∈ past

theorem GenerationFenced.of_justified (hascending : Traces.Justified Ascending log)
    (hbacked : Traces.Justified Backed log) : GenerationFenced log := by
  have hincreasing : ∀ t₁ t₂ t₃ j a g b a' g' b',
      log = (t₁ ++ .deployed j a g b :: t₂) ++ .deployed j a' g' b' :: t₃ → g < g' := by
    intro t₁ t₂ t₃ j a g b a' g' b' hlog
    exact hascending _ _ t₃ hlog j a' g' b' rfl a g b (by simp)
  have hpersisted : ∀ t₁ t₂ e j t epoch a g, log = t₁ ++ e :: t₂ →
      e.hands = some (.deployTask j t epoch a g) → ∃ b, .deployed j a g b ∈ t₁ :=
    fun t₁ t₂ e j t epoch a g hlog he => hbacked t₁ e t₂ hlog j t epoch a g he
  have hdeployed : ∀ e ∈ log, ∀ j t epoch a g, e.hands = some (.deployTask j t epoch a g) →
      ∃ b, .deployed j a g b ∈ log := by
    intro e he j t epoch a g hhands
    obtain ⟨t₁, t₂, rfl⟩ := append_of_mem he
    obtain ⟨b, hb⟩ := hpersisted t₁ t₂ e j t epoch a g rfl hhands
    exact ⟨b, mem_append_left _ hb⟩
  refine ⟨hincreasing, ?_, hpersisted⟩
  rintro e he e' he' j t t' epoch epoch' a a' g g' hhands hhands' hne rfl
  obtain ⟨b, hb⟩ := hdeployed e he j t epoch a g hhands
  obtain ⟨b', hb'⟩ := hdeployed e' he' j t' epoch' a' g hhands'
  obtain ⟨t₁, t₂, hlog⟩ := append_of_mem hb
  rw [hlog] at hb'
  rcases mem_append.mp hb' with hbefore | hafter
  · exact (hascending t₁ _ t₂ hlog j a g b rfl a' g b' hbefore).ne rfl
  · rcases mem_cons.mp hafter with heq | hafter
    · exact hne (Event.deployed.inj heq).2.1.symm
    · obtain ⟨t₃, t₄, rfl⟩ := append_of_mem hafter
      exact (hincreasing t₁ t₃ t₄ j a g b a' g b' (by simpa using hlog)).ne rfl

/-! ### Persisted before it is dispatched -/

/-- The assignment that a goroutine delivers was persisted with the generation its tasks carry. -/
def Thread.Delivers (log : List Event) : Thread → Prop
  | .deliver r found _ _ => ∃ g b, .deployed r.job found.attemptID g b ∈ log ∧
      ∀ t ∈ found.assignments, found.generationOf t = g
  | _ => True

structure Dispatched (s : State) : Prop where
  threads : ∀ t ∈ s.threads, t.Delivers s.log
  backed : Traces.Justified Backed s.log

/-- A task is handed to a worker by the goroutine that delivers its assignment. -/
theorem TaskMove.handed {a : Action} {o : Oracle} {run : Option Thread} {s : State} {T : Tasks}
    (h : TaskMove cfg a o run s T es) {e : Event} (he : e ∈ es) {t : TaskID} {epoch : ℕ}
    {attempt : AttemptID} {g : ℕ} (hhands : e.hands = some (.deployTask j t epoch attempt g)) :
    ∃ r found peers workers, run = some (.deliver r found peers workers) ∧
      t ∈ found.assignments ∧ Command.deployTask j t epoch attempt g =
        found.deployment r.job t := by
  cases h with
  | same hes =>
    have hord := hes e he
    cases e with
    | enqueued w c | called w c =>
      cases hhands
      exact hord
    | _ => cases hhands
  | reported | deploy | register | heartbeat =>
    cases mem_singleton.mp he
    cases hhands
  | _ => cases he

namespace Dispatched

theorem initial : Dispatched State.initial where
  threads := nofun
  backed := .nil

variable {t : Thread}

theorem delivers_mono {log' : List Event} (hlog : log ⊆ log') (h : t.Delivers log) :
    t.Delivers log' := by
  cases t with
  | deliver r found peers workers =>
    obtain ⟨g, b, hmem, hg⟩ := h
    exact ⟨g, b, hlog hmem, hg⟩
  | _ => trivial

theorem delivers_spawned {run : Option Thread}
    (hrun : ∀ u, run = some u → u.Delivers log) (h : Spawned cfg run s R log t) :
    t.Delivers log := by
  cases h with
  | ordinary ht href =>
    cases t with
    | deliver => cases ht
    | _ => trivial
  | deliver r p hpublish found generation boundary hgeneration hlog workers =>
    exact ⟨generation, boundary, hlog, hgeneration⟩
  | delivering r found peers w workers hdeliver =>
    have hold := hrun _ hdeliver
    exact hold
  | _ => trivial

theorem step (hs : Dispatched s) (h : step cfg s a = some s') : Dispatched s' := by
  obtain ⟨hthreads, -, -, es, htasks, hlog⟩ := step_moved h
  have hsub : s.log ⊆ s'.log := hlog ▸ subset_append_left _ _
  have hrun : ∀ u, s.running a.1 = some u → u.Delivers s.log :=
    fun u hu => hs.threads u (State.mem_of_running hu)
  refine ⟨fun t ht => ?_, ?_⟩
  · rcases hthreads t ht with hold | hnew
    · exact delivers_mono hsub (hs.threads t hold)
    · exact delivers_spawned (fun u hu => delivers_mono hsub (hrun u hu)) hnew
  · rw [hlog]
    refine hs.backed.append ?_
    rintro before e after hes j t epoch attempt g hhands
    have hmem : e ∈ es := by rw [hes]; simp
    obtain ⟨r, found, peers, workers, hran, htask, hcommand⟩ := htasks.handed hmem hhands
    obtain ⟨g', b, hdeployed, hg⟩ := hrun _ hran
    rw [TaskAssignmentMap.deployment, hg t htask] at hcommand
    cases hcommand
    exact ⟨b, mem_append_left _ hdeployed⟩

end Dispatched

theorem dispatched {s : State} (h : Reachable cfg s) : Dispatched s :=
  h.invariant .initial fun _ _ _ _ hs _ hstep => hs.step hstep

/-! ### Larger than before -/

theorem generation_resetStableRecoveryBudget (cfg : Config) (now : Time) (m : JobMeta) :
    (resetStableRecoveryBudget cfg now m).deploymentGeneration = m.deploymentGeneration := by
  rw [resetStableRecoveryBudget]
  split <;> rfl

theorem generation_transition (cfg : Config) (now : Time) (target : JobStatus) (m : JobMeta) :
    (m.transition cfg now target).deploymentGeneration = m.deploymentGeneration := by
  have hreset : (if target = .failing then resetStableRecoveryBudget cfg now m
      else m).deploymentGeneration = m.deploymentGeneration := by
    split
    · exact generation_resetStableRecoveryBudget cfg now m
    · rfl
  rw [JobMeta.transition]
  split
  · split
    · split
      · exact hreset
      · exact hreset
    · split
      · exact hreset
      · exact hreset
  · split
    · exact hreset
    · exact hreset

theorem generation_checkpointCompleted (now : Time) (cp : CheckpointMeta) (m : JobMeta) :
    (m.checkpointCompleted now cp).deploymentGeneration = m.deploymentGeneration := by
  rw [JobMeta.checkpointCompleted]
  split <;> rfl

/-- Only a deployment changes the generation of a record. -/
theorem Revision.generation {now : Time} {L : Rights} {mem : Memory} {m m' : JobMeta}
    (h : Revision cfg now L mem j m m') : m'.deploymentGeneration = m.deploymentGeneration := by
  cases h with
  | transition target h hask => exact generation_transition cfg now target m
  | fail | rescale => exact generation_resetStableRecoveryBudget cfg now m
  | charge final =>
    rw [JobMeta.chargeCheckpointFailure]
    split
    · exact generation_resetStableRecoveryBudget cfg now _
    · rfl
  | refund charged =>
    rw [JobMeta.refund]
    split <;> rfl
  | rollBack | placementFailure => rfl

/-- No version of a record is behind the deployments of its job, and a deployed job is
persisted. -/
structure Generations (s : State) : Prop where
  bound : ∀ j m, s.records.Version j m → ∀ a g b, .deployed j a g b ∈ s.log →
    g ≤ m.deploymentGeneration
  stored : ∀ j a g b, .deployed j a g b ∈ s.log → s.records.stored j ≠ none
  ascending : Traces.Justified Ascending s.log

namespace Generations

theorem initial : Generations State.initial where
  bound := fun _ _ _ _ _ _ h => nomatch h
  stored := fun _ _ _ _ h => nomatch h
  ascending := .nil

section

variable (hs : Generations s)
include hs

section

variable (hanchored : Anchored s) (hok : WritesCached s a) (hes : ∀ j a g b, .deployed j a g b ∉ es)
include hanchored hok hes

/-- After a step that deploys nothing, every version of a record has the generation of an earlier
one, or its job was never deployed. -/
theorem recordMove_generation
    {issued : List JobID}
    (h : RecordMove cfg a.2 (s.rights a) s.mem s.store s.issued R es issued) {m : JobMeta}
    (hm : R.Version j m) :
    (∃ m₀, s.records.Version j m₀ ∧ m.deploymentGeneration = m₀.deploymentGeneration) ∨
      ∀ a g b, .deployed j a g b ∉ s.log := by
  have hself : ∀ r, (s.rights a).writes r → ∀ m : JobMeta,
      m.deploymentGeneration = (s.mem.heap r).deploymentGeneration →
      (∃ m₀, s.records.Version r.job m₀ ∧ m.deploymentGeneration = m₀.deploymentGeneration) ∨
        ∀ a g b, .deployed r.job a g b ∉ s.log :=
    fun r hr m hm => .inl ⟨_, .inl (Records.cached_of_job (hok.cached r hr)), hm⟩
  have hfresh : ∀ j, s.records.stored j = none → ∀ a g b, .deployed j a g b ∉ s.log :=
    fun j hnone a g b hmem => hs.stored j a g b hmem hnone
  cases h with
  | same => exact .inl ⟨m, hm, rfl⟩
  | unsaved _ r hr target =>
    rcases Records.Version.of_assign hm with ⟨rfl, rfl⟩ | hm
    · exact hself r hr _ (generation_transition cfg a.2.now target _)
    · exact .inl ⟨m, hm, rfl⟩
  | revise _ r hr m' hrev =>
    rcases Records.Version.of_revise hm with ⟨rfl, rfl⟩ | hm
    · exact hself r hr _ hrev.generation
    · exact .inl ⟨m, hm, rfl⟩
  | trigger r hr =>
    rcases Records.Version.of_replace hm with ⟨rfl, rfl⟩ | hm
    · exact hself r (.inl hr) _ rfl
    · exact .inl ⟨m, hm, rfl⟩
  | complete r hr cp hcp req =>
    rcases Records.Version.of_replace hm with ⟨rfl, rfl⟩ | hm
    · exact hself r (.inl hr) _ (generation_checkpointCompleted a.2.now cp _)
    · exact .inl ⟨m, hm, rfl⟩
  | lower r hr hpublishes cp =>
    rcases Records.Version.of_lower hm with ⟨rfl, rfl⟩ | hm
    · exact hself r hr _ rfl
    · exact .inl ⟨m, hm, rfl⟩
  | deploy r hr hpublishes attempt boundary hselects =>
    exact absurd (mem_singleton_self _) (hes r.job attempt _ boundary)
  | submit i hready hi =>
    rcases Records.Version.of_adopt hm with ⟨rfl, -⟩ | hm
    · refine .inr (hfresh j ?_)
      by_contra hne
      obtain ⟨m₀, hm₀⟩ := ne_none_iff_exists'.mp hne
      exact hi (hanchored.stored j m₀ hm₀).2
    · exact .inl ⟨m, hm, rfl⟩
  | submitted r hr hfirst =>
    rcases Records.Version.of_persist hm with ⟨rfl, -⟩ | hm
    · exact .inr (hfresh _ (hok.first r hfirst))
    · exact .inl ⟨m, hm, rfl⟩
  | drop r hr => exact .inl ⟨m, hm.imp_left Records.cached_drop, rfl⟩
  | crash =>
    rcases hm with hm | hm
    · exact absurd hm.symm (some_ne_none m)
    · exact .inl ⟨m, .inr hm, rfl⟩
  | recover => exact .inl ⟨m, .inr (Records.Version.of_recovered hm), rfl⟩

/-- A step that deploys nothing. -/
theorem keep (hlog : s'.log = s.log ++ es)
    (hrecords : RecordMove cfg a.2 (s.rights a) s.mem s.store s.issued s'.records es s'.issued) :
    Generations s' := by
  have hmem : ∀ {j a g b}, .deployed j a g b ∈ s'.log → .deployed j a g b ∈ s.log := by
    intro j a g b h
    rw [hlog] at h
    exact (mem_append.mp h).resolve_right (hes j a g b)
  refine ⟨fun j m hm attempt g b hdeployed => ?_, fun j attempt g b hdeployed => ?_, ?_⟩
  · rcases hs.recordMove_generation hanchored hok hes hrecords hm with ⟨m₀, hm₀, hg⟩ | hnone
    · rw [hg]
      exact hs.bound j m₀ hm₀ attempt g b (hmem hdeployed)
    · exact absurd (hmem hdeployed) (hnone attempt g b)
  · exact hrecords.stored (hs.stored j attempt g b (hmem hdeployed))
  · rw [hlog]
    refine hs.ascending.append ?_
    rintro before e after rfl j attempt g b rfl
    exact absurd (by simp) (hes j attempt g b)

end

/-- A deployment at the boundary its record names. -/
theorem deploy (hok : WritesCurrent s a) {r : Ref}
    (hr : (s.rights a).writes r) (hpublishes : (s.rights a).publishes r) {attempt : AttemptID}
    {boundary : ℕ} (hselects : Selects a.2 s.store r.job (s.mem.heap r) boundary)
    (hR : s'.records = (s.records.fallBack r boundary).replace r
      (JobMeta.deploy a.2.now { s.mem.heap r with latestCheckpoint := boundary }))
    (hlog : s'.log = s.log ++
      [.deployed r.job attempt ((s.mem.heap r).deploymentGeneration + 1) boundary]) :
    Generations s' := by
  have hcached := hok.cached r hr
  have hsame := (Selects.keepsBoundary_iff hselects).mp (hok.boundary r hpublishes)
  rw [Records.fallBack, if_pos (show boundary = (s.records.heap r).latestCheckpoint from hsame)]
    at hR
  have hbefore : ∀ a g b, .deployed r.job a g b ∈ s.log →
      g ≤ (s.mem.heap r).deploymentGeneration :=
    hs.bound r.job _ (.inl (Records.cached_of_job hcached))
  have hmem : ∀ {j a g b}, .deployed j a g b ∈ s'.log → .deployed j a g b ∈ s.log ∨
      j = r.job ∧ g = (s.mem.heap r).deploymentGeneration + 1 := by
    intro j a g b h
    rw [hlog] at h
    rcases mem_append.mp h with hold | hnew
    · exact .inl hold
    · obtain ⟨hj, -, hg, -⟩ := Event.deployed.inj (mem_singleton.mp hnew)
      exact .inr ⟨hj, hg⟩
  refine ⟨fun j m hm attempt' g b hdeployed => ?_, fun j attempt' g b hdeployed => ?_, ?_⟩
  · rw [hR] at hm
    rcases eq_or_ne j r.job with rfl | hne
    · rw [Records.Version.eq_of_replace (Memory.job_eq_some.mp hcached).2 hm]
      rcases hmem hdeployed with hold | ⟨-, rfl⟩
      · exact (hbefore attempt' g b hold).trans (Nat.le_succ _)
      · exact le_rfl
    · have hold := (Records.Version.of_replace hm).resolve_left fun h => hne h.1
      exact hs.bound j m hold attempt' g b ((hmem hdeployed).resolve_right fun h => hne h.1)
  · rw [hR]
    rcases eq_or_ne j r.job with rfl | hne
    · rw [Records.stored_replace_self]
      exact some_ne_none _
    · rw [show ((s.records.replace r _).stored j = s.records.stored j) from
        update_of_ne hne _ _]
      exact hs.stored j attempt' g b ((hmem hdeployed).resolve_right fun h => hne h.1)
  · rw [hlog]
    refine hs.ascending.snoc ?_
    rintro j attempt' g b hnew a' g' b' hold
    obtain ⟨rfl, -, rfl, -⟩ := Event.deployed.inj hnew
    exact Nat.lt_succ_of_le (hbefore a' g' b' hold)

theorem step (hanchored : Anchored s) (hok : WritesCurrent s a)
    (h : step cfg s a = some s') : Generations s' := by
  obtain ⟨es, hrecords, hlog⟩ := step_records h
  by_cases hes : ∀ j a g b, .deployed j a g b ∉ es
  · exact hs.keep hanchored hok.toWritesCached hes hlog hrecords
  · generalize hR : s'.records = R at hrecords
    generalize s'.issued = issued at hrecords
    cases hrecords with
    | deploy r hr hpublishes attempt boundary hselects =>
      exact hs.deploy hok hr hpublishes hselects hR hlog
    | same hcalm | unsaved hcalm | revise hcalm =>
      exact absurd (fun j a g b hmem => nomatch hcalm _ hmem) hes
    | _ => exact absurd (by simp) hes

end

end Generations

/-- **The deployment generation is a strict fence** in every run whose writes are of current
records, whatever is submitted, deployed, rescaled, recovered or crashes in it. -/
theorem generations_fenced {cfg : Config} {s : State}
    (h : Reaches (step cfg) WritesCurrent State.initial s) : GenerationFenced s.log := by
  have hgenerations : Generations s := by
    refine h.invariant .initial fun s a s' hreach hs hok hstep => ?_
    exact hs.step (anchored (hreach.mono fun _ _ hok => hok.toWritesCached)) hok hstep
  exact .of_justified hgenerations.ascending (dispatched h.reachable).backed

theorem generations_fenced_redeployed : ∃ s, Reaches (step config) WritesCurrent State.initial s ∧
    .enqueued 1 (.deployTask 0 10 1 1 1) ∈ s.log ∧ .enqueued 1 (.deployTask 0 10 1 2 2) ∈ s.log ∧
    GenerationFenced s.log := by
  obtain ⟨s, hs, hfirst, hsecond⟩ := reaches_of_run (step config) WritesCurrent writesCurrent
    writesCurrent_sound .initial redeployedRun
    (p := fun s => .enqueued 1 (.deployTask 0 10 1 1 1) ∈ s.log ∧
      .enqueued 1 (.deployTask 0 10 1 2 2) ∈ s.log) (by decide)
  exact ⟨s, hs, hfirst, hsecond, generations_fenced hs⟩

/-- The attempts before and after a recovery that skipped a checkpoint are handed to the worker
with one generation. -/
theorem generation_repeated : ∃ s, Reachable config s ∧ .called 1 (.deployTask 0 10 1 2 2) ∈ s.log ∧
    .enqueued 1 (.deployTask 0 10 1 3 2) ∈ s.log ∧ ¬ GenerationFenced s.log := by
  obtain ⟨s, hs, hcalled, henqueued⟩ := reachable_of_run (step config) State.initial
    staleRecordRun (p := fun s => .called 1 (.deployTask 0 10 1 2 2) ∈ s.log ∧
      .enqueued 1 (.deployTask 0 10 1 3 2) ∈ s.log) (by decide)
  refine ⟨s, hs, hcalled, henqueued, fun hfenced => ?_⟩
  exact hfenced.distinct _ hcalled _ henqueued 0 10 10 1 1 2 3 2 2 rfl rfl (by decide) rfl

end Wire.Coordinator
