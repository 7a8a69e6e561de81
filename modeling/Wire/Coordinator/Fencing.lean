import Wire.Coordinator.Decision

/-!
# Checkpoints and deployment attempts

A checkpoint captures the tasks of the attempt that the store names when it is triggered.
Acknowledging it does not look at the attempt again, so whether it can complete after a newer
attempt was persisted depends on the deployment path having disposed of it first.

It need not have.  The abort of the checkpoint in flight is part of `prepareTaskRestart`, which
a scheduling goroutine only runs when it finds the job failing at its start.  A goroutine that
was dispatched from an old snapshot, when the job had already been deployed, skips it and goes
on to place the tasks; the job may run, trigger a checkpoint and fail before it comes to
publish, and then the status check under the lock lets it through (`completed_after_redeploy`).

What makes it impossible is the check that `rescaleJob` makes, and the deployment path does
not: if a deployment is published only while the job has no checkpoint in flight, then no
attempt is persisted between the trigger of a checkpoint and its completion
(`attempt_fenced`).
-/

namespace Wire.Coordinator

/-! ## Opening and completing checkpoints -/

/-- No checkpoint goes in flight and none is completed. -/
structure Settled (st st' : Store) : Prop where
  inFlight : ∀ new ∈ st'.checkpoints.records, new.status.inFlight = true →
    ∃ cp ∈ st.checkpoints.records, cp.status.inFlight = true ∧ new.key = cp.key
  completed : ∀ new ∈ st'.checkpoints.records, new.status = .completed →
    ∃ cp ∈ st.checkpoints.records, cp.status = .completed ∧ new.key = cp.key ∧
      new.sinkPrepared = cp.sinkPrepared

namespace Settled

variable {st st' : Store}

theorem of_eq (h : st'.checkpoints = st.checkpoints) : Settled st st' where
  inFlight := fun new hnew hf => ⟨new, h ▸ hnew, hf, rfl⟩
  completed := fun new hnew hc => ⟨new, h ▸ hnew, hc, rfl, rfl⟩

/-- A new version of a record that does not settle it. -/
theorem of_put {cp : CheckpointMeta} (new : CheckpointMeta)
    (hput : st'.checkpoints = st.checkpoints.put new)
    (hcp : st.checkpoints.lookup cp.key = some cp) (hkey : new.key = cp.key)
    (hflight : new.status.inFlight = true → cp.status.inFlight = true)
    (hdone : new.status = .completed → cp.status = .completed ∧
      new.sinkPrepared = cp.sinkPrepared) :
    Settled st st' where
  inFlight := by
    intro x hx hf
    rw [hput] at hx
    rcases Table.mem_records_put.mp hx with rfl | ⟨hmem, -⟩
    · exact ⟨cp, Table.mem_records_of_lookup hcp, hflight hf, hkey⟩
    · exact ⟨x, hmem, hf, rfl⟩
  completed := by
    intro x hx hc
    rw [hput] at hx
    rcases Table.mem_records_put.mp hx with rfl | ⟨hmem, -⟩
    · exact ⟨cp, Table.mem_records_of_lookup hcp, (hdone hc).1, hkey, (hdone hc).2⟩
    · exact ⟨x, hmem, hc, rfl, rfl⟩

end Settled

/-- A step opens a checkpoint, completes one, or does neither. -/
inductive CheckpointMove (D : JobID → Prop) (s s' : State) : Prop where
  | settled {es : List Event} (h : Settled s.store s'.store) (hlog : s'.log = s.log ++ es)
      (htrigger : ∀ j id attempt, .triggered j id attempt ∉ es)
      (hcomplete : ∀ j id, .completed j id ∉ es)
      (hdeploy : ∀ j a g b, .deployed j a g b ∈ es → s.mem.ready = true ∧ D j)
  | opened (cp : CheckpointMeta) (hcp : Opens s cp)
      (hput : s'.store.checkpoints = s.store.checkpoints.put cp)
      (hlog : s'.log = s.log ++ [.triggered cp.jobID cp.id cp.attemptID])
  | completed (cp new : CheckpointMeta) (req : AcknowledgeRequest)
      (hcp : s.store.checkpoints.lookup cp.key = some cp) (hstatus : cp.status = .inProgress)
      (hkey : new.key = cp.key) (hnew : new.status = .completed)
      (hput : s'.store.checkpoints = s.store.checkpoints.put new)
      (hlog : s'.log = s.log ++ [.acknowledged req, .completed cp.jobID cp.id])

/-- The events of an abort open and complete nothing. -/
theorem abort_events {cp : CheckpointMeta} {e : Event}
    (he : e ∈ (if cp.status = .aborted then [] else [.aborted cp.jobID cp.id]) ++
      (cp.decide .aborted).abortCommands) :
    e = .aborted cp.jobID cp.id ∨ ∃ w c, e = .enqueued w c := by
  rcases List.mem_append.mp he with hfirst | hcommand
  · split at hfirst
    · cases hfirst
    · exact .inl (List.mem_singleton.mp hfirst)
  · obtain ⟨t, -, rfl⟩ := List.mem_map.mp hcommand
    exact .inr ⟨_, _, rfl⟩

theorem Move.checkpointMove {D : JobID → Prop} {s s' : State} (h : Move D s s') :
    CheckpointMove D s s' := by
  cases h with
  | frame h hes =>
    exact .settled (.of_eq h.checkpoints) h.log (fun _ _ _ hmem => nomatch hes _ hmem)
      (fun _ _ hmem => nomatch hes _ hmem) fun _ _ _ _ hmem => nomatch hes _ hmem
  | deploy j attempt generation boundary hready hj h =>
    refine .settled (.of_eq h.checkpoints) h.log (by simp) (by simp) fun i a g b hmem => ?_
    rw [List.mem_singleton, Event.deployed.injEq] at hmem
    exact ⟨hready, hmem.1 ▸ hj⟩
  | commit _ _ _ _ h | again _ _ _ h | forget _ _ _ _ h =>
    exact .settled (.of_eq h.checkpoints) h.log (by simp) (by simp) (by simp)
  | trigger cp hcp hjob h => exact .opened cp hcp h.checkpoints h.log
  | abort cp hready hcp hepoch hstatus h =>
    have hput := Settled.of_put (cp.decide .aborted) h.checkpoints hcp rfl
      (fun hf => nomatch hf) (fun hc => nomatch hc)
    exact .settled hput h.log (fun _ _ _ hmem => by simpa using abort_events hmem)
      (fun _ _ hmem => by simpa using abort_events hmem)
      (fun _ _ _ _ hmem => by simpa using abort_events hmem)
  | acknowledge cp req path manifests hready hcp hstatus hreq h =>
    refine .settled (.of_put _ h.checkpoints hcp rfl (fun hf => hf) fun hc => ?_) h.log (by simp)
      (by simp) (by simp)
    exact nomatch hstatus.symm.trans hc
  | complete cp req path manifests hready hcp hstatus hreq hall h =>
    exact .completed cp ((cp.addState req.taskID path manifests).decide .completed) req hcp hstatus
      rfl rfl h.checkpoints h.log
  | invalidate cp reason hready hcp req h =>
    exact .settled (.of_put _ h.checkpoints hcp rfl (fun hf => hf) fun hc => ⟨hc, rfl⟩) h.log
      (by simp) (by simp) (by simp)

/-- **What a step can do to the open checkpoints.** -/
theorem step_checkpoints {cfg : Config} {s s' : State} {a : Action × Oracle} (hs : Flights s)
    (h : step cfg s a = some s') : CheckpointMove (Deploys s a.1) s s' := by
  rcases step_move h with hmove | hterm
  · exact hmove.checkpointMove
  · obtain ⟨hlog, -, hsame | ⟨cp, hcp, -, hput⟩⟩ := hterm.checkpoints hs
    · exact .settled (.of_eq hsame) (hlog.trans (List.append_nil _).symm) (by simp) (by simp)
        (by simp)
    · have hput := Settled.of_put (cp.decide .aborted) hput hcp rfl
        (fun hf => nomatch hf) (fun hc => nomatch hc)
      exact .settled hput (hlog.trans (List.append_nil _).symm) (by simp) (by simp) (by simp)

/-! ## Fenced logs -/

/-- No attempt of the job stands in the log behind the trigger of the checkpoint. -/
def Undisturbed (log : List Event) (j : JobID) (id : ℕ) : Prop :=
  ∀ t₁ t₂ attempt a g b, log = t₁ ++ .triggered j id attempt :: t₂ → .deployed j a g b ∉ t₂

/-- No attempt of a job is persisted between the trigger of a checkpoint and its completion. -/
def AttemptFenced (log : List Event) : Prop :=
  ∀ t₁ t₂ t₃ j id attempt a g b,
    log = (t₁ ++ .triggered j id attempt :: t₂) ++ .completed j id :: t₃ → .deployed j a g b ∉ t₂

/-- The same, as a condition on what precedes each completion. -/
theorem attemptFenced_iff {log : List Event} : AttemptFenced log ↔
    Traces.Justified (fun past e => ∀ j id, e = .completed j id → Undisturbed past j id) log := by
  constructor
  · rintro h past e future hlog j id rfl t₁ t₂ attempt a g b rfl
    exact h t₁ t₂ future j id attempt a g b hlog
  · intro h t₁ t₂ t₃ j id attempt a g b hlog
    exact h _ _ t₃ hlog j id rfl t₁ t₂ attempt a g b rfl

/-- Nothing about the checkpoint's trigger or the job's deployment is appended. -/
theorem Undisturbed.append {log es : List Event} {j : JobID} {id : ℕ} (h : Undisturbed log j id)
    (htrigger : ∀ attempt, .triggered j id attempt ∉ es)
    (hdeploy : ∀ a g b, .deployed j a g b ∉ es) : Undisturbed (log ++ es) j id := by
  intro t₁ t₂ attempt a g b hlog hmem
  obtain ⟨mid, hold, rfl⟩ := Traces.split_of_notMem hlog (htrigger attempt)
  rcases List.mem_append.mp hmem with hmid | hnew
  · exact h t₁ mid attempt a g b hold hmid
  · exact hdeploy a g b hnew

/-- Checkpoints in flight and completed checkpoints belong to the attempt they captured. -/
structure Fenced (s : State) : Prop where
  inFlight : ∀ cp ∈ s.store.checkpoints.records, cp.status.inFlight = true →
    Undisturbed s.log cp.jobID cp.id
  fenced : AttemptFenced s.log

namespace Fenced

variable {s s' : State}

/-- The job of a checkpoint in flight is not one whose deployment may be published. -/
theorem ne_of_idle (hflights : Flights s) {cp : CheckpointMeta} {j : JobID}
    (hcp : cp ∈ s.store.checkpoints.records) (hf : cp.status.inFlight = true)
    (hready : s.mem.ready = true) (hidle : s.mem.activeCheckpoints j = none) : cp.jobID ≠ j := by
  rintro rfl
  obtain ⟨active, hactive, -⟩ := hflights.active (Flights.recovered_of_ready hready) cp hcp hf
  exact nomatch hidle.symm.trans hactive

/-- A trigger: the id is new, so the checkpoint is triggered here and nowhere before. -/
theorem undisturbed_opened (hnumbered : Numbered s) {cp : CheckpointMeta} (hcp : Opens s cp) :
    Undisturbed (s.log ++ [.triggered cp.jobID cp.id cp.attemptID]) cp.jobID cp.id := by
  have hnew : ∀ attempt, .triggered cp.jobID cp.id attempt ∉ s.log := by
    intro attempt hmem
    have hid : cp.id ∈ triggeredIDs s.log cp.jobID :=
      List.mem_filterMap.mpr ⟨_, hmem, by simp [Event.triggeredID]⟩
    obtain ⟨x, hx, hxid⟩ := (hnumbered.stored cp.jobID cp.id).mp hid
    exact (hcp.fresh x hx).2.ne hxid
  intro t₁ t₂ attempt a g b hsplit hdeployed
  -- What stands behind the trigger comes after the end of the old log, where nothing is left.
  have htail : t₂ = [] := by
    rcases List.append_eq_append_iff.mp hsplit with ⟨l, -, hrest⟩ | ⟨l, hold, hrest⟩
    · cases l with
      | nil => exact (List.cons.inj hrest).2.symm
      | cons e l => simp at hrest
    · cases l with
      | nil => exact (List.cons.inj hrest).2
      | cons e l =>
        rw [List.cons_append, List.cons.injEq] at hrest
        exact absurd (by rw [hold, hrest.1]; simp) (hnew attempt)
  rw [htail] at hdeployed
  cases hdeployed

theorem step {D : JobID → Prop} (hs : Fenced s) (hflights : Flights s) (hnumbered : Numbered s)
    (hidle : ∀ j, D j → s.mem.activeCheckpoints j = none) (h : CheckpointMove D s s') :
    Fenced s' := by
  cases h with
  | settled h hlog htrigger hcomplete hdeploy =>
    refine ⟨fun new hnew hf => ?_, ?_⟩
    · obtain ⟨cp, hcp, hcpf, hkey⟩ := h.inFlight new hnew hf
      obtain ⟨hjob, hid⟩ := Prod.mk.inj (show (new.jobID, new.id) = (cp.jobID, cp.id) from hkey)
      rw [hlog, hjob, hid]
      refine (hs.inFlight cp hcp hcpf).append (htrigger _ _) fun a g b hmem => ?_
      obtain ⟨hready, hD⟩ := hdeploy _ a g b hmem
      exact ne_of_idle hflights hcp hcpf hready (hidle _ hD) rfl
    · rw [hlog, attemptFenced_iff]
      refine (attemptFenced_iff.mp hs.fenced).append ?_
      rintro before e after rfl j id rfl
      exact absurd (by simp) (hcomplete j id)
  | opened cp hcp hput hlog =>
    refine ⟨fun x hx hf => ?_, ?_⟩
    · rw [hput] at hx
      rw [hlog]
      rcases Table.mem_records_put.mp hx with rfl | ⟨hmem, hne⟩
      · exact undisturbed_opened hnumbered hcp
      · refine (hs.inFlight x hmem hf).append (fun attempt hnew => ?_) (by simp)
        rw [List.mem_singleton, Event.triggered.injEq] at hnew
        exact hne (by rw [CheckpointMeta.key, CheckpointMeta.key, hnew.1, hnew.2.1])
    · rw [hlog, attemptFenced_iff]
      exact (attemptFenced_iff.mp hs.fenced).snoc (by simp)
  | completed cp new req hcp hstatus hkey hnew hput hlog =>
    have hcpf : cp.status.inFlight = true := by rw [hstatus]; rfl
    refine ⟨fun x hx hf => ?_, ?_⟩
    · rw [hput] at hx
      rw [hlog]
      rcases Table.mem_records_put.mp hx with rfl | ⟨hmem, -⟩
      · rw [hnew] at hf
        cases hf
      · exact (hs.inFlight x hmem hf).append (by simp) (by simp)
    · have hlast : s'.log = (s.log ++ [.acknowledged req]) ++ [.completed cp.jobID cp.id] := by
        simpa using hlog
      have hack : AttemptFenced (s.log ++ [.acknowledged req]) :=
        attemptFenced_iff.mpr ((attemptFenced_iff.mp hs.fenced).snoc (by simp))
      rw [hlast, attemptFenced_iff]
      refine (attemptFenced_iff.mp hack).snoc fun j id he => ?_
      obtain ⟨rfl, rfl⟩ := Event.completed.inj he
      exact (hs.inFlight cp (Table.mem_records_of_lookup hcp) hcpf).append (by simp) (by simp)

end Fenced

/-! ## A completion that is not fenced -/

open Sample Runs

/-- A second goroutine is dispatched from a snapshot taken before the first deployed the job,
and places the tasks while the job is running.  A checkpoint is triggered, the task fails, the
goroutine publishes its deployment, and only then the acknowledgement arrives. -/
def staleGoroutineRun : List (Action × Oracle) :=
  start ++ each [.tick [0], .dispatch, .tick [0]] ++ place 0 1 ++
    each [.proceed 0, .proceed 0, .proceed 0, .dispatch] ++ place 0 2 ++
    reported 1 1 .running ++ each [.triggerCheckpoint 0 none false] ++
    each [report 1 .failed, .proceed 2, .proceed 2, .proceed 0] ++
    each [acknowledge 1 1 false]

/-- The checkpoint of attempt 1 is completed after attempt 2 was persisted. -/
theorem completed_after_redeploy : ∃ s, Reachable config s ∧ ¬ AttemptFenced s.log := by
  obtain ⟨s, hs, hlog⟩ := reachable_of_run (step config) State.initial
    staleGoroutineRun (p := fun s => s.log =
      (s.log.take 5 ++ .triggered 0 1 1 :: [.reported (statusReport 1 .failed), .deployed 0 2 2 0,
        .acknowledged (acknowledgement 1 1 false)]) ++ [.completed 0 1]) (by decide)
  refine ⟨s, hs, fun hfenced => ?_⟩
  exact hfenced (s.log.take 5) _ [] 0 1 1 2 2 0 hlog (by simp)

/-! ## When completions are fenced -/

/-- A deployment is published only while the job has no checkpoint in flight. -/
def PublishesIdle (s : State) (a : Action × Oracle) : Prop :=
  ∀ j, Deploys s a.1 j → s.mem.activeCheckpoints j = none

/-- **Checkpoints are fenced to their attempt** in every run that publishes deployments only
while the job has no checkpoint in flight: no attempt of a job is persisted between the trigger
of a checkpoint and its completion. -/
theorem attempt_fenced {cfg : Config} {s : State}
    (h : Reaches (step cfg) PublishesIdle State.initial s) : AttemptFenced s.log := by
  have hfenced : Fenced s := by
    refine h.invariant ⟨nofun, ?_⟩ fun s a s' hreach hs hidle hstep => ?_
    · exact attemptFenced_iff.mpr .nil
    · have hflights := flights hreach.reachable
      exact hs.step hflights (numbered hreach.reachable) hidle (step_checkpoints hflights hstep)
  exact hfenced.fenced

/-- The condition, checked by evaluation. -/
def publishesIdle (s : State) : Action × Oracle → Bool
  | (.proceed i, _) =>
    match s.threads[i]? with
    | some (.publish r _) => (s.mem.activeCheckpoints r.job).isNone
    | _ => true
  | _ => true

theorem publishesIdle_sound (s : State) (a : Action × Oracle) (h : publishesIdle s a = true) :
    PublishesIdle s a := by
  rintro j ⟨i, t, ha, ht, r, p, rfl, rfl⟩
  obtain ⟨act, o⟩ := a
  obtain rfl : act = .proceed i := ha
  rw [publishesIdle, ht] at h
  exact Option.isNone_iff_eq_none.mp h

/-- Checkpoint 1 is completed with a prepared sink, the task fails, and a recovery is about to be
published. -/
def recoveryRun : List (Action × Oracle) :=
  start ++ deploy 1 ++ reported 0 1 .running ++
    checkpoint 1 1 true ++ reported 0 1 .failed ++
    restart oracle 0 (placement 2)

/-- Two attempts, each of which completes a checkpoint. -/
theorem attempt_fenced_completed : ∃ s, Reaches (step config) PublishesIdle State.initial s ∧
    .completed 0 1 ∈ s.log ∧ .deployed 0 2 2 1 ∈ s.log ∧ .completed 0 2 ∈ s.log ∧
    AttemptFenced s.log := by
  obtain ⟨s, hs, hfirst, hdeployed, hsecond⟩ := reaches_of_run (step config) PublishesIdle
    publishesIdle publishesIdle_sound .initial
    (recoveryRun ++ each [.proceed 0, .proceed 0, .proceed 0] ++ reported 0 2 .running ++
      checkpoint 2 2 true)
    (p := fun s => .completed 0 1 ∈ s.log ∧ .deployed 0 2 2 1 ∈ s.log ∧ .completed 0 2 ∈ s.log)
    (by decide)
  exact ⟨s, hs, hfirst, hdeployed, hsecond, attempt_fenced hs⟩

end Wire.Coordinator
