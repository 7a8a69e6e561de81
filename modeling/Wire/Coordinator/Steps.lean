import Wire.Coordinator.Tasks

/-!
# What a step does

The three inversions of the coordinator, of the checkpoints, of the job records and of the tasks,
are about the same code.  `Did` has what a function does to all three, with one lemma for each
function; the walk over the goroutines that `proceed` runs, and the one over the actions, put
them together.
-/

namespace Wire.Coordinator

open Guard List Option Function

variable {cfg : Config} {a : Action} {o : Oracle} {s s' : State} {t : Thread} {ts : List Thread}

/-- What a stretch of code has done that started from the goroutines `ts`: to the checkpoint side,
to the job records, and to the tasks and the goroutines. -/
structure Did (cfg : Config) (a : Action) (o : Oracle) (run : Option Thread) (D : JobID → Prop)
    (L : Rights) (s : State) (ts : List Thread) (s' : State) : Prop where
  kept : KeptMove D { s with threads := ts } s'
  records : Recorded cfg o L { s with threads := ts } s'
  moved : Moved cfg a o run s s'

section Did

variable {run : Option Thread} {D : JobID → Prop} {L : Rights} {r : Ref} {j : JobID}

theorem Did.same (hts : Left run s ts) : Did cfg a o run D L s ts { s with threads := ts } :=
  ⟨.silent (.refl _), .refl _, .silent hts (.refl _)⟩

/-- Only events are logged. -/
theorem Did.record (hts : Left run s ts) {es : List Event}
    (hes : ∀ e ∈ es, e.neutral ∧ e.calm ∧ e.Ordinary run) :
    Did cfg a o run D L s ts (.record { s with threads := ts } es) :=
  ⟨.frame (frame_record _ es) fun e he => (hes e he).1,
    .silent rfl rfl (fun e he => (hes e he).2.1) rfl,
    .still hts (.record (.refl _)) fun e he => (hes e he).2.2⟩

theorem Did.spawn (h : Did cfg a o run D L s ts s') (hnotifies : t.notifies = false)
    (ht : Spawned cfg run s s'.records s'.log t) : Did cfg a o run D L s ts (s'.spawn t) :=
  ⟨h.kept.andThen (frame_spawn _ hnotifies), h.records, h.moved.spawn ht⟩

theorem Did.andThen {x : State × Bool} (h : Did cfg a o run D L s ts x.1)
    (hnotifies : t.notifies = false) (ht : Spawned cfg run s x.1.records x.1.log t) :
    Did cfg a o run D L s ts (State.andThen x t) := by
  rw [State.andThen]
  split
  · exact h.spawn hnotifies ht
  · exact h

section

variable (h : Did cfg a o run D L s ts s') (hnotifies : t.notifies = false) (ht : t.ordinary = true)
include h hnotifies ht

/-- A goroutine that holds no record. -/
theorem Did.spawnFree (href : t.ref = none) : Did cfg a o run D L s ts (s'.spawn t) :=
  h.spawn hnotifies (.ordinary ht fun _ hr => nomatch href.symm.trans hr)

/-- A goroutine that holds a record at hand. -/
theorem Did.spawnHolding (href : t.ref = some r) (hr : s.AtHand run r) :
    Did cfg a o run D L s ts (s'.spawn t) :=
  h.spawn hnotifies (.ordinary ht fun _ hr' => some.inj (href.symm.trans hr') ▸ hr)

end

/-! ## Job records -/

section

variable (hts : Left run s ts)
include hts

theorem did_transition (hr : L.writes r) {target : JobStatus} (hask : L.asks target) :
    Did cfg a o run D L s ts (State.transition cfg o { s with threads := ts } r target).1 :=
  ⟨.silent (frame_transition cfg o _ r target), records_transition hr hask,
    .silent hts (still_transition r target)⟩

theorem did_replaceJob (hr : L.writes r) {m : JobMeta}
    (hm : Revision cfg o.now L s.mem r.job (s.deref r) m) :
    Did cfg a o run D L s ts (State.replaceJob o { s with threads := ts } r m).1 :=
  ⟨.silent (frame_replaceJob o _ r m), records_replaceJob hr hm, .silent hts (still_replaceJob r m)⟩

theorem did_rescaleJob (hW : ∀ r, s.mem.job r.job = some r → L.writes r)
    (j : JobID) (savepoint : SavepointID) (request : ℕ) : Did cfg a o run D L s ts
      (State.rescaleJob cfg o { s with threads := ts } j savepoint request) := by
  rw [State.rescaleJob]
  split
  · next r candidate h =>
    obtain ⟨hr, hm⟩ := rescaleJob_ok h
    obtain ⟨rfl, -⟩ := Memory.job_eq_some.mp hr
    exact did_replaceJob hts (hW r hr) hm
  · exact .same hts

theorem did_rollbackFailedRescale (hr : L.writes r) :
    Did cfg a o run D L s ts (State.rollbackFailedRescale o { s with threads := ts } r).1 := by
  rw [State.rollbackFailedRescale]
  split
  · exact .same hts
  · next old hold =>
    split
    · exact did_replaceJob hts hr (.rollBack old hold)
    · exact .same hts

theorem did_recordRescalePlacementFailure (hr : L.writes r) : Did cfg a o run D L s ts
    (State.recordRescalePlacementFailure cfg o { s with threads := ts } r) := by
  rw [State.recordRescalePlacementFailure]
  split
  · exact .same hts
  · next old hold =>
    split
    · next hguard =>
      exact did_replaceJob hts hr (.placementFailure old hold _ _ hguard.2.1)
    · exact .same hts

theorem did_persistSubmission (hr : L.writes r)
    (hfirst : o.written = true → L.submits r) (name : Name) (config : Graph) (parallelism : ℕ)
    (createdAt : Time) :
    Did cfg a o run D L s ts (State.persistSubmission o { s with threads := ts } r
      (.submitted name config parallelism createdAt)) := by
  rw [State.persistSubmission]
  split
  · next hwritten =>
    exact ⟨.silent (frame_setJob _ _ _),
      ⟨[], .submitted r hr (hfirst hwritten) name config parallelism createdAt,
        (append_nil _).symm⟩, .silent hts (.refl _)⟩
  · next hwritten =>
    exact ⟨.silent (frame_mem _ rfl rfl rfl rfl),
      ⟨[], .drop r hr (by simpa using hwritten), (append_nil _).symm⟩, .silent hts (.refl _)⟩

end

/-! ## Checkpoints -/

theorem did_trigger (hts : Left run s ts) (j : JobID) (savepoint : Option SavepointID)
    (final : Bool) (pausing : Option Ref) (hpausing : ∀ r, pausing = some r → s.AtHand run r) :
    Did cfg a o run D L s ts
      (State.trigger cfg o { s with threads := ts } j savepoint final pausing) := by
  rw [State.trigger]
  split
  · next t ht =>
    split
    · obtain ⟨rfl, hopens, hsp⟩ := triggerCheckpointBoundary_ok ht
      obtain ⟨hr, hrunning, attempts, hrecord⟩ := triggerCheckpointBoundary_job ht
      refine ⟨⟨.trigger t.checkpoint hopens ?_ ?_, ?_⟩, ?_, .spawn ?_ ?_⟩
      · exact isSome_iff_exists.mpr ⟨t.job, update_self _ _ _⟩
      · exact ⟨rfl, (frame_setJob _ _ t.job).jobs, rfl, rfl, rfl, rfl, rfl, rfl,
          (frame_spawn _ rfl).notifies⟩
      · refine savepoints_put _ rfl fun x hx => .inr ?_
        rw [hsp x hx]
        exact isSome_iff_exists.mpr ⟨t.job, update_self _ _ _⟩
      · obtain ⟨hjob, hcached⟩ := Memory.job_eq_some.mp hr
        rw [hrecord, ← hjob]
        rw [← hjob] at hr
        exact ⟨_, .trigger t.ref hr hrunning attempts t.checkpoint.id t.checkpoint.attemptID, rfl⟩
      · exact .still hts (.record (.refl _)) (by simp [Event.Ordinary])
      · refine .starting t.checkpoint ?_ (mem_append_right _ (mem_singleton_self _)) _
          pausing hpausing
        exact { hopens with }
    · exact .same hts
  · split
    · next r hr =>
      split
      · have hjob := (Memory.job_eq_some.mp hr).1
        exact (Did.same hts).spawnHolding rfl rfl rfl (.inl (by rw [hjob]; exact hr))
      · exact .same hts
    · exact .same hts

theorem did_abort (hts : Left run s ts) (hW : ∀ r, s.mem.job r.job = some r → L.writes r)
    (j : JobID) (id epoch : ℕ) (failure : Option Text) : Did cfg a o run D L s ts
      (State.abort cfg o { s with threads := ts } j id epoch failure).1 := by
  rw [State.abort]
  split
  · next b hb =>
    split
    · have hes : ∀ e ∈ (if b.alreadyAborted then [] else [.aborted j id]) ++
          b.checkpoint.abortCommands, e.calm ∧ e.Ordinary run := by
        intro e he
        rcases mem_append.mp he with hfirst | hcommand
        · split at hfirst
          · cases hfirst
          · rw [mem_singleton.mp hfirst]
            exact ⟨rfl, trivial⟩
        · obtain ⟨t, -, rfl⟩ := mem_map.mp hcommand
          exact ⟨rfl, trivial⟩
      refine ⟨move_decideAbort hb, ?_, ?_⟩
      · have hcalm := fun e he => (hes e he).1
        rcases abortCheckpoint_job hb with hnone | ⟨r, final, hr, hsome⟩
        · rw [State.decideAbort, hnone]
          exact .silent rfl rfl hcalm rfl
        · rw [State.decideAbort, hsome]
          have hjob := (Memory.job_eq_some.mp hr).1
          exact records_replace hr (hW r (by rw [hjob]; exact hr)) (.charge final) rfl rfl _ hcalm
            rfl
      · rw [State.decideAbort]
        refine .still hts (.record ?_) fun e he => (hes e he).2
        cases b.failedJob with
        | none | some => exact .refl _
    · exact .same hts
  · exact .same hts

theorem did_acknowledge (hts : Left run s s.threads) (req : AcknowledgeRequest) :
    Did cfg a o run D L s s.threads (s.acknowledge o req) := by
  rw [State.acknowledge]
  cases h : acknowledgeCheckpoint o s req with
  | error e => exact .same hts
  | ok b =>
    obtain ⟨cp, path, manifests, hready, hcp, hreq, hcase⟩ := acknowledgeCheckpoint_ok h
    rcases hcase with ⟨hstatus, rfl⟩ | ⟨hstatus, rfl⟩ | ⟨hstatus, hall, r, savepoint, hr, hsp, rfl⟩
    · exact ⟨.of (.again cp hcp hstatus) (.refl _) rfl, Recorded.refl s,
        (Moved.refl s).spawnFree rfl rfl⟩
    · dsimp only
      split
      · exact ⟨.of (.acknowledge cp req path manifests hready hcp hstatus hreq)
          (frame_record _ _) rfl, .silent rfl rfl (by simp [Event.calm]) rfl,
          .still hts (.record (.refl s)) (by simp [Event.Ordinary])⟩
      · exact .same hts
    · dsimp only
      split
      · refine ⟨⟨.complete cp req path manifests hready hcp hstatus hreq hall ?_,
          savepoints_put _ rfl fun x hx => .inl (hsp x hx)⟩, ?_, .spawnFree ?_ rfl rfl⟩
        · rw [hreq.job]
          exact ⟨rfl, (frame_setJob s _ _).jobs, rfl, rfl, rfl, rfl, rfl, rfl, fun _ h => h⟩
        · obtain ⟨hjob, hcached⟩ := Memory.job_eq_some.mp hr
          rw [← hjob] at hr ⊢
          exact ⟨_, .complete r hr _ (hreq.job.symm.trans hjob.symm) req, rfl⟩
        · exact .still hts (.record (.refl s)) (by simp [Event.Ordinary])
      · exact .same hts

theorem did_handleAcknowledgeCheckpoint (hts : Left run s s.threads) (req : AcknowledgeRequest) :
    Did cfg a o run D L s s.threads (s.handleAcknowledgeCheckpoint o req) := by
  rw [State.handleAcknowledgeCheckpoint]
  split
  · exact did_acknowledge hts req
  · split
    · exact (Did.same hts).spawnFree rfl rfl rfl
    · exact .same hts

theorem did_expireCheckpoint (hts : Left run s s.threads) (j : JobID) :
    Did cfg a o run D L s s.threads (s.expireCheckpoint cfg o j) := by
  rw [State.expireCheckpoint]
  split
  · exact .same hts
  · next cp hcp =>
    split
    · next hepoch =>
      exact ⟨.of (.forget j cp hcp hepoch) (.refl _) rfl, Recorded.refl s, .silent hts (.refl s)⟩
    · split
      · exact (Did.same hts).spawnFree rfl rfl rfl
      · exact .same hts

/-! ## Task reports and workers -/

theorem did_updateTaskStatus (hts : Left none s s.threads)
    (hW : ∀ r, s.mem.job r.job = some r → L.writes r) (req : TaskStatusRequest) :
    Did cfg a o none D L s s.threads (s.updateTaskStatus o req) := by
  rw [State.updateTaskStatus]
  split
  · exact .same hts
  · next r found haccept =>
    split
    · exact .same hts
    · next hretained =>
      rw [Bool.not_eq_true] at hretained
      split
      · exact .same hts
      · refine ⟨.frame (frame_noteTaskStatus s r req) (by simp [Event.neutral]),
          .silent rfl rfl (by simp [Event.calm]) rfl,
          .spawn ?_ (.reported rfl req r found haccept rfl)⟩
        have hmove : TaskMove cfg a o none s _ _ :=
          .reported req r found found.recoveryAttemptCharged haccept hretained
        have hsame : update s.store.assignments req.jobID (some found) =
            s.store.assignments := by
          rw [← (acceptTaskStatus_assignment haccept).1]
          exact update_eq_self _ _
        rw [show { found with recoveryAttemptCharged := found.recoveryAttemptCharged } = found
          from rfl, hsame] at hmove
        exact .inPlace hmove rfl rfl rfl
      · next i hi =>
        split
        · obtain ⟨cp, reason, hcp, -, rfl⟩ := invalidation_some hi
          have hr := acceptTaskStatus_job haccept
          have hjob := (Memory.job_eq_some.mp hr).1
          refine ⟨.of (.invalidate cp reason (acceptTaskStatus_ready haccept) hcp req)
            ((((frame_setJob _ req.jobID _).andThen (frame_setAssignments _ req.jobID _)).andThen
                (frame_assign _ r _)).after (frame_noteTaskStatus _ r req)) rfl,
            records_replace hr (hW r (by rw [hjob, hr])) (.refund found.recoveryAttemptCharged)
              rfl rfl [.reported req] (by simp [Event.calm]) rfl,
            .spawn ?_ (.reported rfl req r found haccept rfl)⟩
          exact .inPlace (.reported req r found false haccept hretained) rfl rfl rfl
        · exact .same hts

theorem did_detectLostTaskWorkers (hts : Left run s s.threads)
    (hW : ∀ r, s.mem.job r.job = some r → L.writes r) (j : JobID) :
    Did cfg a o run D L s s.threads (s.detectLostTaskWorkers cfg o j) := by
  rw [State.detectLostTaskWorkers]
  split
  · next r found hr hfound =>
    dsimp only
    split
    · next hguard =>
      rw [setTaskStatuses]
      have hmoved : TaskMove cfg a o run s _ [] := .lost hguard.1 j found hfound
      have hmem : ∀ statuses, Kept [] s { s with mem := { s.mem with taskStatuses := statuses } } :=
        fun _ => frame_mem s rfl rfl rfl rfl
      split
      · next hlost =>
        have hstatus : (s.deref r).status = .running ∨ (s.deref r).status = .deploying := by
          rcases hguard.2 with h | h | h
          · exact .inl h
          · exact .inr h
          · exact absurd h hlost.2
        obtain ⟨rfl, hcached⟩ := Memory.job_eq_some.mp hr
        refine ⟨.silent ((hmem _).andThen (frame_replaceJob o _ _ _)), ?_, ?_⟩
        · rw [State.replaceJob]
          split
          · exact ⟨[], .revise (by simp) r (hW r hr) _ (.fail hstatus), (append_nil _).symm⟩
          · exact Recorded.refl s
        · rw [State.replaceJob]
          split
          · exact .inPlace hmoved rfl rfl (append_nil _).symm
          · exact .inPlace hmoved rfl rfl (append_nil _).symm
      · exact ⟨.silent (hmem _), Recorded.refl s, .inPlace hmoved rfl rfl (append_nil _).symm⟩
    · exact .same hts
  · exact .same hts

/-! ## Deployments -/

theorem did_publish {p : Placement} (hts : Left (some (.publish r p)) s ts) (hD : D r.job)
    (hr : L.writes r) (hp : L.publishes r) : Did cfg a o (some (.publish r p)) D L s ts
      (State.goOn (State.publish cfg o { s with threads := ts } r p)) := by
  have hframe := frame_attachCheckpointRestore cfg o { s with threads := ts } r
    (p.assignments.map (·.1))
  rw [State.publish]
  split
  · next hguard =>
    obtain ⟨hready, -, hlive, -⟩ := hguard
    split
    · next s₁ e hattach =>
      rw [hattach] at hframe
      have hdid : Did cfg a o (some (.publish r p)) D L s ts s₁ := ⟨.silent hframe,
        records_attach hr hp hattach, .silent hts (still_attachCheckpointRestore hattach)⟩
      split
      · exact hdid.spawnHolding rfl rfl rfl (.inr (.inr ⟨_, rfl, rfl⟩))
      · exact hdid
    · next s₁ restore hattach =>
      rw [hattach] at hframe
      have hstill := still_attachCheckpointRestore hattach
      have hdid : Did cfg a o (some (.publish r p)) D L s ts s₁ :=
        ⟨.silent hframe, records_attach hr hp hattach, .silent hts hstill⟩
      split
      · exact hdid
      · split
        · refine .spawn ⟨.of (.deploy r.job p.attemptID _ restore.boundary hready hD)
            (hframe.after (frame_deploy cfg o s₁ r p restore)) rfl, records_deploy hr hp hattach,
            moved_deploy hts restore hready hlive hstill⟩ rfl ?_
          refine .deliver r p rfl _ _ restore.boundary
            (fun t ht => generationOf_assignment _ p restore ht) ?_ _
          exact mem_append_right _ (mem_singleton_self _)
        · exact hdid
  · exact .same hts

theorem did_judgeRestart {l : Restart} (hts : Left (some (.judge r l)) s ts) :
    Did cfg a o (some (.judge r l)) D L s ts
      (State.goOn (State.judgeRestart cfg o { s with threads := ts } r l)) := by
  have hr : s.AtHand (some (.judge r l)) r := .inr (.inr ⟨_, rfl, rfl⟩)
  have hcancel : Did cfg a o (some (.judge r l)) D L s ts (.record { s with threads := ts }
      (l.cancelTasks.map fun c =>
        .enqueued c.1 (.cancelTask r.job c.2 l.epochID l.attemptID))) :=
    .record hts (forall_mem_map.mpr fun _ _ => ⟨rfl, rfl, trivial⟩)
  rw [State.judgeRestart]
  split
  · exact hcancel
  · split
    · exact hcancel.spawnHolding rfl rfl rfl hr
    · split
      · exact hcancel
      · exact hcancel.spawnHolding rfl rfl rfl hr

/-- Handing a worker its tasks. -/
theorem did_deliver {found : TaskAssignmentMap} {peers : List (WorkerID × ℕ)} {w : WorkerID}
    {rest : List WorkerID} (hts : Left (some (.deliver r found peers (w :: rest))) s ts)
    (hr : (peers.lookup w).isSome → o.accepted = false → L.writes r) (hask : L.asks .failing) :
    Did cfg a o (some (.deliver r found peers (w :: rest))) D L s ts
      (State.deliver cfg o { s with threads := ts } r found peers w) := by
  have hhanded : ∀ t ∈ found.tasksOf w, ∃ r' a' peers' ws,
      some (Thread.deliver r found peers (w :: rest)) = some (.deliver r' a' peers' ws) ∧
        t ∈ a'.assignments ∧ found.deployment r.job t = a'.deployment r'.job t :=
    fun t ht => ⟨r, found, peers, w :: rest, rfl, mem_tasksOf ht, rfl⟩
  rw [State.deliver]
  split
  · next hpeer =>
    split
    · exact .record hts (forall_mem_map.mpr fun t ht => ⟨rfl, rfl, hhanded t ht⟩)
    · next haccepted =>
      have hes : ∀ e ∈ ((found.tasksOf w).map fun t =>
          Event.called w (found.deployment r.job t)) ++ (found.tasksOf w).map fun t =>
            .enqueued w (.cancelTask r.job t found.epochID found.attemptID),
          e.neutral ∧ e.calm ∧ e.Ordinary (some (.deliver r found peers (w :: rest))) :=
        forall_mem_append.mpr ⟨forall_mem_map.mpr fun t ht => ⟨rfl, rfl, hhanded t ht⟩,
          forall_mem_map.mpr fun _ _ => ⟨rfl, rfl, trivial⟩⟩
      exact ⟨.frame ((frame_transition cfg o _ r .failing).after (frame_record _ _))
          fun e he => (hes e he).1,
        records_transition_record (hr hpeer (by simpa using haccepted)) hask
          fun e he => (hes e he).2.1,
        .still hts (still_transition r .failing).record fun e he => (hes e he).2.2⟩
  · exact .record hts (forall_mem_map.mpr fun t ht => ⟨rfl, rfl, hhanded t ht⟩)

end Did

/-- One stretch of a goroutine, which is not among those that are left.  What the goroutines that
send decisions do is in `move_notify`. -/
theorem did_go (hts : Left (some t) s ts) (hnotifies : t.notifies = false) {D : JobID → Prop}
    (hD : ∀ j, t.Deploys j → D j) (h : State.go cfg o { s with threads := ts } t = some s') :
    Did cfg a o (some t) D (s.mem.rights (a, o) (some t)) s ts s' := by
  have hcached : ∀ r, s.mem.job r.job = some r → (s.mem.rights (a, o) (some t)).writes r :=
    fun _ => .inl
  have hwrites : ∀ r, t.writes o = some r → (s.mem.rights (a, o) (some t)).writes r :=
    fun r hr => .inr ⟨t, rfl, hr⟩
  have hasks : ∀ target ∈ t.asks, (s.mem.rights (a, o) (some t)).asks target :=
    fun target htarget => ⟨t, rfl, htarget⟩
  have hsame : Did cfg a o (some t) D (s.mem.rights (a, o) (some t)) s ts
      { s with threads := ts } := .same hts
  have hhand : ∀ r, t.ref = some r → s.AtHand (some t) r := fun r hr => .inr (.inr ⟨t, rfl, hr⟩)
  cases t with try cases h
  | schedule r =>
    split <;> exact hsame.spawnHolding rfl rfl rfl (hhand r rfl)
  | rollback r =>
    exact (did_rollbackFailedRescale hts (hwrites r rfl)).andThen rfl (.ordinary rfl hhand)
  | inspect r =>
    rw [State.goOn]
    split
    · next u hu =>
      obtain ⟨l, -, rfl⟩ := map_eq_some_iff.mp hu
      exact hsame.spawnHolding rfl rfl rfl (hhand r rfl)
    · exact hsame
  | abortActive r l =>
    rw [State.go] at h
    split at h
    · cases h
      exact hsame.spawnHolding rfl rfl rfl (hhand r rfl)
    · cases h
      exact (did_abort hts hcached _ _ _ none).andThen rfl (.ordinary rfl hhand)
  | judge r l =>
    exact did_judgeRestart hts
  | place r =>
    rw [State.go] at h
    split at h
    · cases h
      exact hsame.spawnHolding rfl rfl rfl (hhand r rfl)
    · next tasks htasks =>
      cases h
      exact hsame.spawn rfl (.assign r rfl _ _ tasks htasks)
  | assign r tasks =>
    rw [State.go] at h
    split at h
    · next hplacement =>
      cases h
      split
      · exact did_recordRescalePlacementFailure hts
          (hwrites r (by rw [Thread.writes, if_pos hplacement]))
      · exact hsame
    · next p hp =>
      obtain ⟨htasks, rfl⟩ := ite_some_none_eq_some.mp h
      exact hsame.spawn rfl (.publish r p (by rw [htasks]))
  | publish r p =>
    exact did_publish hts (hD r.job ⟨r, p, rfl, rfl⟩) (hwrites r rfl) ⟨p, rfl⟩
  | unrecoverable r =>
    refine hsame.spawnHolding rfl ?_ rfl (hhand r rfl)
    split <;> rfl
  | deliver r found peers workers =>
    cases workers with
    | nil =>
      cases h
      exact hsame
    | cons w rest =>
      cases h
      refine (did_deliver hts (fun hpeer haccepted => ?_) (hasks _ (by simp [Thread.asks]))).spawn
        rfl (.delivering r found peers w rest rfl)
      exact hwrites r (by rw [Thread.writes, if_pos ⟨hpeer, haccepted⟩])
  | transitions origin r targets =>
    cases targets with
    | nil =>
      cases h
      exact hsame
    | cons target rest =>
      cases h
      exact (did_transition hts (hwrites r rfl) (hasks target (by simp [Thread.asks]))).andThen
        rfl (.transitions origin r target rest rfl)
  | reported r status attempt =>
    exact hsame.spawn rfl (.consequence r status attempt rfl _ rfl)
  | pause r savepoint =>
    exact did_trigger hts r.job (some savepoint) false (some r) hhand
  | startTasks cp remaining sent pausing =>
    cases remaining with
    | nil =>
      cases pausing with
      | none =>
        cases h
        exact hsame
      | some r =>
        cases h
        exact hsame.spawnHolding rfl rfl rfl (hhand r rfl)
    | cons task rest =>
      cases h
      rw [State.startTask]
      split
      · split
        · exact hsame.spawn rfl (.startTasks cp _ rest sent pausing rfl _)
        · split
          · exact hsame.spawn rfl (.startTasks cp _ rest sent pausing rfl _)
          · exact hsame.spawnFree rfl rfl rfl
      · refine (Did.record hts fun e he => ?_).spawn rfl (.startTasks cp _ rest sent pausing rfl _)
        rw [mem_singleton.mp he]
        exact ⟨rfl, rfl, cp, rest, sent, pausing, rfl, rfl⟩
  | notify q remaining => cases hnotifies
  | abort j id epoch failure =>
    exact did_abort hts hcached j id epoch failure
  | cancelJob r =>
    exact (did_transition hts (hwrites r rfl) (hasks _ (by simp [Thread.asks]))).andThen rfl
      (.ordinary rfl fun _ hr => nomatch hr)
  | cancelTasks j =>
    rw [State.cancelTasks]
    split
    · exact .record hts (forall_mem_map.mpr fun _ _ => ⟨rfl, rfl, trivial⟩)
    · exact hsame
  | submit r name config parallelism createdAt =>
    refine did_persistSubmission hts (hwrites r rfl) (fun hwritten => ?_) name config parallelism
      createdAt
    exact ⟨_, rfl, by rw [Thread.submits, if_pos hwritten]⟩
  | removeWorker w worker =>
    rw [State.deleteWorker]
    split
    · exact ⟨.silent (frame_storeWorkers _ _), Recorded.refl _, .silent hts (Still.refl _)⟩
    · next hwritten =>
      exact ⟨.silent (frame_setWorker _ w worker), Recorded.refl _,
        fun t ht => .inl (hts.sub ht), fun t ht hkept => (hts.kept t ht hkept).imp_right .inr,
        fun _ => .inl, [], .putBack w worker rfl (by simpa using hwritten), (append_nil _).symm⟩

theorem mem_eraseIdx_or {l : List Thread} {i : ℕ} (h : t ∈ l) :
    l[i]? = some t ∨ t ∈ l.eraseIdx i := by
  obtain ⟨k, hk⟩ := mem_iff_getElem?.mp h
  rcases eq_or_ne k i with rfl | hne
  · exact .inl hk
  · exact .inr (mem_eraseIdx_iff_getElem?.mpr ⟨k, hne, hk⟩)

theorem left_of_running {i : ℕ} (h : s.threads[i]? = some t) :
    Left (some t) s (s.threads.eraseIdx i) where
  sub := eraseIdx_subset
  kept := fun u hu _ => by
    rcases mem_eraseIdx_or hu with hit | hrest
    · exact .inl (h.symm.trans hit)
    · exact .inr hrest

/-- What a step has done to the checkpoint side, to the job records, to the tasks and to the
goroutines. -/
structure Traced (cfg : Config) (a : Action × Oracle) (s s' : State) : Prop where
  kept : KeptMove (Deploys s a.1) s s' ∨ TermMove s s'
  records : Recorded cfg a.2 (s.rights a) s s'
  moved : Moved cfg a.1 a.2 (s.running a.1) s s'

theorem Did.traced {a : Action × Oracle} (hrun : s.running a.1 = none)
    (h : Did cfg a.1 a.2 none (Deploys s a.1) (s.rights a) s s.threads s') : Traced cfg a s s' :=
  ⟨.inl h.kept, h.records, hrun ▸ h.moved⟩

theorem Traced.refl (a : Action × Oracle) (s : State) : Traced cfg a s s :=
  ⟨.inl (.silent (.refl s)), .refl s, .refl s⟩

/-- A request that a goroutine serves with the cached record. -/
theorem traced_serve {a : Action × Oracle} (hrun : s.running a.1 = none) (j : JobID)
    {t : Ref → Thread} (hnotifies : ∀ r, (t r).notifies = false) (ht : ∀ r, (t r).ordinary = true)
    (href : ∀ r, (t r).ref = some r) : Traced cfg a s (s.serve j t) := by
  rw [State.serve]
  split
  · next r hr =>
    have hjob := (Memory.job_eq_some.mp hr).1
    split
    · exact ((Did.same (.all none s)).spawnHolding (hnotifies r) (ht r) (href r)
        (.inl (by rw [hjob]; exact hr))).traced hrun
    · exact .refl a s
  · exact .refl a s

/-- **What a step can do.** -/
theorem step_traced {a : Action × Oracle} (h : step cfg s a = some s') : Traced cfg a s s' := by
  obtain ⟨a, o⟩ := a
  have hts := Left.all none s
  have hcached : ∀ r, s.mem.job r.job = some r → (s.rights (a, o)).writes r := fun _ => .inl
  cases a with try cases h
  | triggerCheckpoint j savepoint final =>
    exact (did_trigger hts j savepoint final none (by simp)).traced rfl
  | acknowledgeCheckpoint req =>
    exact (did_handleAcknowledgeCheckpoint hts req).traced rfl
  | expireCheckpoint j =>
    exact (did_expireCheckpoint hts j).traced rfl
  | updateTaskStatus req =>
    exact (did_updateTaskStatus hts hcached req).traced rfl
  | missingTask w j t =>
    rw [State.missingTask]
    split
    · next r found hr hfound =>
      dsimp only
      split
      · next hexpects =>
        have hmissing : TaskMove cfg (.missingTask w j t) o none s _ [] :=
          .missing w j t rfl ⟨r, found, hr, hfound, hexpects⟩
        split
        · next hstatus =>
          have hjob := (Memory.job_eq_some.mp hr).1
          refine ⟨.inl (.silent ?_), records_replace hr (hcached r (by rw [hjob, hr]))
            (.fail hstatus.1) rfl rfl [] (by simp) (append_nil _).symm,
            .inPlace hmissing rfl rfl (append_nil _).symm⟩
          exact ((frame_setTaskStatus s t _).andThen (frame_setJob _ _ _)).andThen
            (frame_assign _ _ _)
        · exact ⟨.inl (.silent (frame_setTaskStatus s t _)), .refl s,
            .inPlace hmissing rfl rfl (append_nil _).symm⟩
      · exact .refl _ s
    · exact .refl _ s
  | detectLostTaskWorkers j =>
    exact (did_detectLostTaskWorkers hts hcached j).traced rfl
  | submitJob j name config parallelism =>
    obtain ⟨hguard, rfl⟩ := ite_some_none_eq_some.mp h
    exact ⟨.inl (.silent (frame_submitJob s j name config parallelism o.now)),
      ⟨[], .submit j hguard.1 hguard.2.1 name config parallelism rfl, (append_nil _).symm⟩,
      moved_submitJob hguard.1 hguard.2.1 name config parallelism o.now⟩
  | cancelJob j | pauseJob j savepoint | resumeJob j =>
    exact traced_serve rfl j (fun _ => rfl) (fun _ => rfl) fun _ => rfl
  | rescaleJob j savepoint request =>
    exact (did_rescaleJob hts hcached j savepoint request).traced rfl
  | deleteSavepoint j savepoint =>
    rw [State.deleteSavepoint]
    split
    · split
      · exact ⟨.inl (.silent (frame_store s rfl rfl fun _ => mem_of_mem_filter)), .refl s,
          .silent hts (.refl s)⟩
      · exact .refl _ s
    · exact .refl _ s
  | tick js =>
    obtain ⟨_, rfl⟩ := ite_some_none_eq_some.mp h
    refine ⟨.inl (.silent { Kept.refl s with }), Recorded.refl s, fun _ => .inl,
      fun _ h _ => .inr (.inr h), fun r hr => .inr ?_, [], .same (by simp), (append_nil _).symm⟩
    obtain ⟨j, -, hj⟩ := mem_filterMap.mp hr
    have hjob := (filter_eq_some_iff.mp hj).1
    rwa [(Memory.job_eq_some.mp hjob).1]
  | dispatch =>
    rw [step] at h
    dsimp only at h
    split at h
    · cases h
    · next r rest hpending =>
      cases h
      have hpop : Did cfg .dispatch o none (Deploys s .dispatch) (s.rights (.dispatch, o)) s
          s.threads { s with mem := { s.mem with pending := rest } } := by
        refine ⟨.silent (frame_mem s rfl rfl rfl rfl), Recorded.refl s, fun _ => .inl,
          fun _ h _ => .inr (.inr h), fun u hu => .inl ?_, [], .same (by simp),
          (append_nil _).symm⟩
        rw [hpending]
        exact mem_cons_of_mem r hu
      rw [State.dispatch]
      split
      · exact hpop.traced rfl
      · refine (hpop.spawnHolding rfl rfl rfl (.inr (.inl ?_))).traced rfl
        rw [hpending]
        exact mem_cons_self
  | proceed i =>
    obtain ⟨t, ht, hgo⟩ := bind_eq_some_iff.mp h
    have hrun : s.running (.proceed i) = some t := ht
    have hdeploys : ∀ j, t.Deploys j → Deploys s (.proceed i) j := fun j hj => ⟨i, t, rfl, ht, hj⟩
    have hleft := left_of_running ht
    cases t with
    | notify q remaining =>
      refine ⟨.inl (move_notify hleft.sub (mem_of_getElem? ht) hgo), ?_, ?_⟩
      · cases remaining with
        | nil =>
          cases hgo
          exact Recorded.refl s
        | cons task rest =>
          cases hgo
          exact .silent rfl rfl (by simp [Event.calm]) rfl
      · rw [hrun]
        cases remaining with
        | nil =>
          cases hgo
          exact .silent hleft (.refl _)
        | cons task rest =>
          cases hgo
          refine .spawnFree ?_ rfl rfl
          exact .still hleft (.record (.refl _)) (by simp [Event.Ordinary])
    | _ =>
      obtain ⟨hkept, hrecords, hmoved⟩ := did_go (a := .proceed i) hleft rfl hdeploys hgo
      refine ⟨.inl ⟨.ofThreads hleft.sub hkept.move, hkept.savepoints⟩, ?_, hrun ▸ hmoved⟩
      rw [State.rights, hrun]
      exact hrecords
  | abandon i =>
    obtain ⟨hall, rfl⟩ := ite_some_none_eq_some.mp h
    refine ⟨.inl (.silent (frame_threads s eraseIdx_subset)), .refl s,
      .silent ⟨eraseIdx_subset, fun t ht hkept => .inr ?_⟩ (.refl _)⟩
    rcases mem_eraseIdx_or ht with hit | hrest
    · rw [hit, all_some, hkept] at hall
      cases hall
    · exact hrest
  | registerWorker w worker highestSeenEpoch =>
    rw [State.registerWorker]
    split
    · next hguard =>
      refine ⟨.inl (@.frame _ s _ [.contacted w s.mem.epoch o.now] ?_ ?_),
        .silent rfl rfl (by simp [Event.calm]) rfl,
        .inPlace (.register hguard.1 w worker highestSeenEpoch rfl _ rfl rfl) rfl rfl rfl⟩
      · exact ((frame_storeWorkers s _).andThen (frame_setWorker _ w _)).after (frame_record _ _)
      · simp [Event.neutral]
    · exact .refl _ s
  | heartbeat w epoch peer slots =>
    rw [State.heartbeat]
    split
    · exact .refl _ s
    · next worker hworker =>
      split
      · next hguard =>
        obtain ⟨hready, -, -, hlost, hlive⟩ := hguard
        refine ⟨.inl (@.frame _ s _ [.contacted w s.mem.epoch o.now] ?_ ?_),
          .silent rfl rfl (by simp [Event.calm]) rfl,
          .inPlace (.heartbeat hready w worker _ hworker hlive rfl hlost) rfl rfl rfl⟩
        · exact (frame_setWorker s w _).after (frame_record _ _)
        · simp [Event.neutral]
      · exact .refl _ s
  | expireWorkers =>
    rw [State.expireWorkers]
    split
    · refine ⟨.inl (.silent (frame_mem s rfl rfl rfl rfl)), .refl s,
        .inPlace (.workers _ fun w => ?_) rfl rfl (append_nil _).symm⟩
      rw [GoMap.lookup_mapValues]
      cases s.mem.workers.lookup w with
      | none => exact .none
      | some worker =>
        refine .some ?_
        dsimp only
        split
        · next hsilent => exact ⟨rfl, fun _ => .inr (by simpa using hsilent.2)⟩
        · exact ⟨rfl, .inl⟩
    · exact .refl _ s
  | disconnectWorker w =>
    rw [State.disconnectWorker]
    split
    · exact .refl _ s
    · next worker hworker =>
      exact ⟨.inl (.silent (frame_setWorker s w _)), .refl s,
        .inPlace (.setWorker hworker rfl rfl) rfl rfl (append_nil _).symm⟩
  | countSlots w slots =>
    rw [State.countSlots]
    split
    · exact .refl _ s
    · next worker hworker =>
      exact ⟨.inl (.silent (frame_setWorker s w _)), .refl s,
        .inPlace (.setWorker hworker rfl rfl) rfl rfl (append_nil _).symm⟩
  | removeWorker w =>
    rw [State.removeWorker]
    split
    · exact .refl _ s
    · refine ⟨.inl (.silent ((frame_dropWorker s w).andThen (frame_spawn _ rfl))), .refl s,
        .spawnFree ?_ rfl rfl⟩
      exact .inPlace (.remove w rfl) rfl rfl (append_nil _).symm
  | stepDown =>
    exact ⟨.inr (.stepDown rfl), .refl s, .silent hts (.refl s)⟩
  | crash =>
    exact ⟨.inr (.crash rfl), ⟨[], .crash rfl, (append_nil _).symm⟩,
      fun t ht => .inl (mem_of_mem_filter ht), fun _ _ _ => .inr (.inl rfl), by rintro _ ⟨⟩, [],
      .crash rfl, (append_nil _).symm⟩
  | startRecovery electionEpoch =>
    have hterm := TermMove.startRecovery o electionEpoch h
    obtain ⟨hguard, rfl⟩ := ite_some_none_eq_some.mp h
    exact ⟨.inr hterm, .refl s, .inPlace
      (.startRecovery hguard.1 _ (lt_of_lt_of_le (Nat.lt_succ_self _) (le_max_left ..)))
      rfl rfl (append_nil _).symm⟩
  | recoverCheckpoint | recoverSavepoint =>
    have hterm : TermMove s s' := by
      first
        | exact termMove_recoverCheckpoint h
        | exact termMove_recoverSavepoint h
    simp only [step, State.recoverCheckpoint, State.recoverSavepoint] at h
    split at h
    · next hrec =>
      split at h
      · cases h
        refine ⟨.inr hterm, .refl s, .silent hts ⟨?_, rfl, rfl, (append_nil _).symm⟩⟩
        rw [State.tasks, State.tasks, hrec]
        rfl
      · cases h
        exact ⟨.inr hterm, .refl s, .inPlace .failRecovery rfl rfl (append_nil _).symm⟩
    · cases h
  | finishRecovery =>
    have hterm := TermMove.finishRecovery cfg o h
    change s.finishRecovery cfg o = some s' at h
    rw [State.finishRecovery] at h
    split at h
    · next epoch hrec =>
      cases h
      refine ⟨.inr hterm, ⟨[], .recover rfl, (append_nil _).symm⟩, fun _ => .inl,
        fun _ h _ => .inr (.inr h), by simp, [],
        .recover rfl epoch hrec _ fun w worker hw => ?_, (append_nil _).symm⟩
      rw [State.recoveredWorkers, GoMap.lookup_mapValues] at hw
      obtain ⟨old, -, rfl⟩ := map_eq_some_iff.mp hw
      rfl
    · cases h

theorem step_kept {a : Action × Oracle} (h : step cfg s a = some s') :
    KeptMove (Deploys s a.1) s s' ∨ TermMove s s' :=
  (step_traced h).kept

/-- **What a step can do to the checkpoint side.** -/
theorem step_move {a : Action × Oracle} (h : step cfg s a = some s') :
    Move (Deploys s a.1) s s' ∨ TermMove s s' :=
  (step_kept h).imp_left KeptMove.move

/-- **What a step can do to the job records.** -/
theorem step_records {a : Action × Oracle} (h : step cfg s a = some s') :
    Recorded cfg a.2 (s.rights a) s s' :=
  (step_traced h).records

/-- **What a step can do to the tasks and the goroutines.** -/
theorem step_moved {a : Action × Oracle} (h : step cfg s a = some s') :
    Moved cfg a.1 a.2 (s.running a.1) s s' :=
  (step_traced h).moved

end Wire.Coordinator
