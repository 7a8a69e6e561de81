import Wire.Coordinator.Publication

/-!
# Checkpoints are started after they are persisted, and one after another

What a task is told about a checkpoint, by a command or by a call, comes from the goroutine that
persisted its record, so a checkpoint that anybody has heard of is in the store (`Issued`) under
the epoch it was started with (`Started`).

A checkpoint in flight is the newest one of its job, since the next one is only persisted when none
is in flight (`Newest`).  So once there is a later checkpoint, a decision about an earlier one has
been made: `completed_of_step` says that a step in which both a completed checkpoint and a later
one are there is either one in which both were there before, or the one that persists the later.
-/

namespace Wire.Coordinator

open List Table Prod

/-! ## What a step writes -/

/-- A checkpoint was persisted for the first time. -/
def Event.opening : Event → Bool
  | .triggered _ _ _ => true
  | _ => false

/-- What a step does to the checkpoint records: nothing, a new one, or a new version of one. -/
inductive Writes (s s' : State) : Prop where
  | none (hsame : s'.store.checkpoints = s.store.checkpoints) (es : List Event)
      (hlog : s'.log = s.log ++ es) (hes : ∀ e ∈ es, e.opening = false)
  | opens (cp : CheckpointMeta) (hcp : Opens s cp)
      (hput : s'.store.checkpoints = s.store.checkpoints.put cp)
      (hlog : s'.log = s.log ++ [.triggered cp.jobID cp.id cp.attemptID])
  | revises (old new : CheckpointMeta) (hold : s.store.checkpoints.lookup old.key = some old)
      (hkey : new.key = old.key) (hepoch : new.epochID = old.epochID)
      (htasks : new.tasks = old.tasks)
      (hstatus : new.status = old.status ∨ old.status.inFlight = true)
      (hput : s'.store.checkpoints = s.store.checkpoints.put new) (es : List Event)
      (hlog : s'.log = s.log ++ es) (hes : ∀ e ∈ es, e.opening = false)

theorem Move.writes {D : JobID → Prop} {s s' : State} (h : Move D s s') : Writes s s' := by
  have hopen : ∀ {cp : CheckpointMeta}, cp.status = .inProgress → cp.status.inFlight = true :=
    fun h => by rw [h]; rfl
  cases h with
  | frame h hes =>
    refine .none h.checkpoints _ h.log fun e he => ?_
    cases e with
    | triggered => exact nomatch hes _ he
    | _ => rfl
  | deploy _ _ _ _ _ _ h | commit _ _ _ _ h =>
    refine .none h.checkpoints _ h.log fun e he => ?_
    rw [mem_singleton.mp he]
    rfl
  | again _ _ _ h | forget _ _ _ _ h => exact .none h.checkpoints _ h.log nofun
  | trigger cp hcp hjob h => exact .opens cp hcp h.checkpoints h.log
  | abort cp hready hcp hepoch hstatus h =>
    refine .revises cp (cp.decide .aborted) hcp rfl rfl rfl ?_ h.checkpoints _ h.log fun e he => ?_
    · exact hstatus.symm.imp_left .symm
    · rcases mem_append.mp he with hfirst | hcommand
      · split at hfirst
        · cases hfirst
        · rw [mem_singleton.mp hfirst]
          rfl
      · obtain ⟨t, -, rfl⟩ := mem_map.mp hcommand
        rfl
  | acknowledge cp req path manifests hready hcp hstatus hreq h =>
    refine .revises cp (cp.addState req.taskID path manifests) hcp rfl rfl rfl
      (.inr (hopen hstatus))
      h.checkpoints _ h.log fun e he => ?_
    rw [mem_singleton.mp he]
    rfl
  | complete cp req path manifests hready hcp hstatus hreq hall h =>
    refine .revises cp ((cp.addState req.taskID path manifests).decide .completed) hcp rfl rfl rfl
      (.inr (hopen hstatus)) h.checkpoints _ h.log fun e he => ?_
    rcases mem_pair.mp he with rfl | rfl <;> rfl
  | invalidate cp reason hready hcp req h =>
    refine .revises cp { cp with invalidReason := reason } hcp rfl rfl rfl (.inl rfl) h.checkpoints
      _ h.log fun e he => ?_
    rw [mem_singleton.mp he]
    rfl

variable {cfg : Config} {s s' : State} {a : Action × Oracle}

theorem step_writes (hs : Reachable cfg s) (h : step cfg s a = some s') : Writes s s' := by
  rcases step_move h with hmove | hterm
  · exact hmove.writes
  · obtain ⟨hlog, -, hsame | ⟨cp, hcp, hopen, hput⟩⟩ := hterm.checkpoints (flights hs)
    · exact .none hsame [] (hlog.trans (append_nil _).symm) nofun
    · exact .revises cp (cp.decide .aborted) hcp rfl rfl rfl (.inr hopen) hput []
        (hlog.trans (append_nil _).symm) nofun

/-! ## Records that are there -/

variable {j : JobID} {id epoch : ℕ} {t : TaskID}

/-- The checkpoint is in the store, under the given epoch. -/
def State.Issued (s : State) (j : JobID) (id epoch : ℕ) : Prop :=
  ∃ cp, s.store.checkpoints.lookup (j, id) = some cp ∧ cp.epochID = epoch

/-- The checkpoint is completed, and the task takes part in it. -/
def State.Completed (s : State) (j : JobID) (id : ℕ) (t : TaskID) : Prop :=
  ∃ cp, s.store.checkpoints.lookup (j, id) = some cp ∧ cp.status = .completed ∧ t ∈ cp.tasks

/-- The record of a new checkpoint takes no key that is in use. -/
theorem Opens.key_ne {cp x : CheckpointMeta} (h : Opens s cp)
    (hx : s.store.checkpoints.lookup (j, id) = some x) : (j, id) ≠ cp.key := by
  intro hkey
  obtain ⟨rfl, rfl⟩ := mk.inj (show (j, id) = (cp.jobID, cp.id) from hkey)
  obtain ⟨hjob, hid⟩ := Store.identity hx
  have hmem := Numbered.mem_checkpointsOf.mpr ⟨mem_records_of_lookup hx, hjob⟩
  exact (h.fresh x hmem).2.ne hid

/-- Records stay, under the epoch they were opened with. -/
theorem State.Issued.keep (hs : Reachable cfg s) (h : step cfg s a = some s')
    (hissued : s.Issued j id epoch) : s'.Issued j id epoch := by
  obtain ⟨cp, hcp, hepoch⟩ := hissued
  cases step_writes hs h with
  | none hsame => exact ⟨cp, hsame ▸ hcp, hepoch⟩
  | opens new hnew hput =>
    refine ⟨cp, ?_, hepoch⟩
    rw [hput, lookup_put_of_ne _ (hnew.key_ne hcp)]
    exact hcp
  | revises old new hold hkey hepoch' htasks hstatus hput =>
    by_cases hsame : (j, id) = new.key
    · refine ⟨new, ?_, ?_⟩
      · rw [hput, hsame, lookup_put_self]
      · rw [hsame, hkey, hold] at hcp
        cases hcp
        exact hepoch'.trans hepoch
    · refine ⟨cp, ?_, hepoch⟩
      rw [hput, lookup_put_of_ne _ hsame]
      exact hcp

/-- A record was there before the step, unless the step persists it for the first time. -/
theorem State.Issued.before (hs : Reachable cfg s) (h : step cfg s a = some s')
    (hissued : s'.Issued j id epoch) :
    s.Issued j id epoch ∨ ∃ attempt, s'.log = s.log ++ [.triggered j id attempt] := by
  obtain ⟨cp, hcp, hepoch⟩ := hissued
  cases step_writes hs h with
  | none hsame => exact .inl ⟨cp, hsame ▸ hcp, hepoch⟩
  | opens new hnew hput hlog =>
    rw [hput, lookup_put] at hcp
    split at hcp
    · next hkey =>
      obtain ⟨rfl, rfl⟩ := Prod.mk.inj (show (j, id) = (new.jobID, new.id) from hkey)
      exact .inr ⟨new.attemptID, hlog⟩
    · exact .inl ⟨cp, hcp, hepoch⟩
  | revises old new hold hkey hepoch' htasks hstatus hput =>
    rw [hput, lookup_put] at hcp
    split at hcp
    · next hsame =>
      cases hcp
      exact .inl ⟨old, by rw [hsame, hkey]; exact hold, hepoch'.symm.trans hepoch⟩
    · exact .inl ⟨cp, hcp, hepoch⟩

/-! ## One after another -/

/-- A checkpoint in flight is the newest one of its job. -/
def Newest (s : State) : Prop :=
  ∀ cp ∈ s.store.checkpoints.records, cp.status.inFlight = true →
    ∀ x ∈ s.store.checkpoints.records, x.jobID = cp.jobID → x.id ≤ cp.id

theorem newest (h : Reachable cfg s) : Newest s := by
  refine h.invariant (P := Newest) nofun ?_
  intro s a s' hreach hs _ hstep cp hcp hopen x hx hjob
  cases step_writes hreach hstep with
  | none hsame =>
    rw [hsame] at hcp hx
    exact hs cp hcp hopen x hx hjob
  | opens new hnew hput =>
    rw [hput, mem_records_put] at hcp hx
    have hfresh : ∀ y ∈ s.store.checkpoints.records, y.jobID = new.jobID →
        y.status.inFlight = false ∧ y.id < new.id := fun y hy hyjob =>
      hnew.fresh y (Numbered.mem_checkpointsOf.mpr ⟨hy, hyjob⟩)
    rcases hcp with rfl | ⟨hcp, -⟩
    · rcases hx with rfl | ⟨hx, -⟩
      · exact le_rfl
      · exact (hfresh x hx hjob).2.le
    · rcases hx with rfl | ⟨hx, -⟩
      · exact absurd hopen (Bool.eq_false_iff.mp (hfresh cp hcp hjob.symm).1)
      · exact hs cp hcp hopen x hx hjob
  | revises old new hold hkey hepoch htasks hstatus hput =>
    have hmem := mem_records_of_lookup hold
    obtain ⟨hnewjob, hnewid⟩ :=
      mk.inj (show (new.jobID, new.id) = (old.jobID, old.id) from hkey)
    -- both records have a version with the same identity before the step
    have hbefore : ∀ y ∈ s'.store.checkpoints.records, ∃ z ∈ s.store.checkpoints.records,
        z.jobID = y.jobID ∧ z.id = y.id ∧
          (y.status.inFlight = true → z.status.inFlight = true) := by
      intro y hy
      rw [hput, mem_records_put] at hy
      rcases hy with rfl | ⟨hy, -⟩
      · refine ⟨old, hmem, hnewjob.symm, hnewid.symm, fun hy => ?_⟩
        exact hstatus.elim (fun heq => heq ▸ hy) id
      · exact ⟨y, hy, rfl, rfl, id⟩
    obtain ⟨cp', hcp', hcpjob, hcpid, hcpopen⟩ := hbefore cp hcp
    obtain ⟨x', hx', hxjob, hxid, -⟩ := hbefore x hx
    rw [← hxid, ← hcpid]
    exact hs cp' hcp' (hcpopen hopen) x' hx' (by rw [hxjob, hcpjob, hjob])

/-- **No checkpoint is forgotten.**  While the coordinator serves, an undecided checkpoint in the
store is the one that it tracks for the job, under its own epoch, and the newest one of the job. -/
theorem undecided_tracked (h : Reachable cfg s) (hrec : s.mem.recovered = true)
    {cp : CheckpointMeta}
    (hcp : cp ∈ s.store.checkpoints.records) (hopen : cp.status.inFlight = true) :
    (∃ a, s.mem.activeCheckpoints cp.jobID = some a ∧ a.id = cp.id ∧ a.epochID = s.mem.epoch) ∧
      ∀ x ∈ s.store.checkpoints.records, x.jobID = cp.jobID → x.id ≤ cp.id := by
  have hflights := flights h
  obtain ⟨a, ha, hid⟩ := hflights.active hrec cp hcp hopen
  exact ⟨⟨a, ha, hid, hflights.epoch _ a ha⟩, newest h cp hcp hopen⟩

open Sample in
theorem undecided_tracked_triggered : ∃ s cp, Reachable config s ∧
    cp ∈ s.store.checkpoints.records ∧ cp.status.inFlight = true ∧
    ∃ a, s.mem.activeCheckpoints cp.jobID = some a ∧ a.id = cp.id ∧ a.epochID = s.mem.epoch := by
  obtain ⟨s, hs, hrec, cp, hcp, hopen⟩ := Runs.reachable_of_run (step config) State.initial
    (start ++ deploy 1 ++ reported 0 1 .running ++ each [.triggerCheckpoint 0 none false])
    (p := fun s => s.mem.recovered = true ∧
      ∃ cp ∈ s.store.checkpoints.records, cp.status.inFlight = true) (by decide)
  exact ⟨s, cp, hs, hcp, hopen, (undecided_tracked hs hrec hcp hopen).1⟩

/-- **A later checkpoint is opened after the earlier one is decided.** -/
theorem completed_of_step {n m : ℕ} (hs : Reachable cfg s) (h : step cfg s a = some s')
    (hcompleted : s'.Completed j n t) (hissued : s'.Issued j m epoch) (hlt : n < m) :
    s.Completed j n t ∧
      (s.Issued j m epoch ∨ ∃ attempt, s'.log = s.log ++ [.triggered j m attempt]) := by
  refine ⟨?_, hissued.before hs h⟩
  obtain ⟨cp, hcp, hstatus, ht⟩ := hcompleted
  have hbefore := hissued.before hs h
  cases step_writes hs h with
  | none hsame => exact ⟨cp, hsame ▸ hcp, hstatus, ht⟩
  | opens new hnew hput =>
    rw [hput, lookup_put] at hcp
    split at hcp
    · cases hcp
      cases hstatus.symm.trans hnew.status
    · exact ⟨cp, hcp, hstatus, ht⟩
  | revises old new hold hkey hepoch htasks hstatus' hput es hlog hes =>
    rw [hput, lookup_put] at hcp
    split at hcp
    · next hsame =>
      cases hcp
      have hlookup : s.store.checkpoints.lookup (j, n) = some old := by rw [hsame, hkey]; exact hold
      rcases hstatus' with heq | hopen
      · exact ⟨old, hlookup, heq ▸ hstatus, htasks ▸ ht⟩
      · -- the completion of a checkpoint that is not the newest
        exfalso
        rcases hbefore with ⟨x, hx, -⟩ | ⟨attempt, hnew⟩
        · obtain ⟨hjob, hid⟩ := Store.identity hx
          obtain ⟨hjob', hid'⟩ := Store.identity hlookup
          have hle := newest hs old (mem_records_of_lookup hold) hopen x
            (mem_records_of_lookup hx) (hjob.trans hjob'.symm)
          rw [hid, hid'] at hle
          exact absurd hlt (not_lt.mpr hle)
        · rw [hlog, append_cancel_left_eq] at hnew
          rw [hnew] at hes
          cases hes _ (mem_singleton_self _)
    · exact ⟨cp, hcp, hstatus, ht⟩

/-! ## Started after it is persisted -/

/-- The checkpoint of a request is in the store. -/
def State.Backs (s : State) (q : CheckpointRequest) : Prop :=
  s.Issued q.jobID q.checkpointID q.epochID

/-- Whoever starts a checkpoint on a task, or has been told to, has its record in the store. -/
structure Started (s : State) : Prop where
  threads : ∀ cp remaining sent pausing, Thread.startTasks cp remaining sent pausing ∈ s.threads →
    s.Backs cp.request
  commands : ∀ w t q, .enqueued w (.takeSnapshot t q) ∈ s.log → s.Backs q

/-- A checkpoint that was just opened has its record in the store. -/
theorem backs_of_opens (hs : Reachable cfg s) (h : step cfg s a = some s') {cp : CheckpointMeta}
    (hcp : Opens s cp) (hlog : .triggered cp.jobID cp.id cp.attemptID ∈ s'.log) :
    s'.Backs cp.request := by
  have hold : .triggered cp.jobID cp.id cp.attemptID ∉ s.log := by
    intro hmem
    have hid : cp.id ∈ triggeredIDs s.log cp.jobID :=
      mem_filterMap.mpr ⟨_, hmem, if_pos rfl⟩
    obtain ⟨x, hx, hxid⟩ := ((numbered hs).stored cp.jobID cp.id).mp hid
    exact (hcp.fresh x hx).2.ne hxid
  cases step_writes hs h with
  | none hsame es hes hnew | revises _ _ _ _ _ _ _ _ es hes hnew =>
    rw [hes] at hlog
    rcases mem_append.mp hlog with hmem | hmem
    · exact absurd hmem hold
    · exact nomatch hnew _ hmem
  | opens new hopens hput hes =>
    rw [hes] at hlog
    rcases mem_append.mp hlog with hmem | hmem
    · exact absurd hmem hold
    · obtain ⟨hjob, hid, -⟩ := Event.triggered.inj (mem_singleton.mp hmem)
      refine ⟨new, ?_, hopens.epoch.trans hcp.epoch.symm⟩
      have hkey : (cp.request.jobID, cp.request.checkpointID) = new.key := Prod.ext hjob hid
      rw [hkey, hput, lookup_put_self]

/-- The commands that start a checkpoint come from its goroutine. -/
theorem TaskMove.takeSnapshot {run : Option Thread} {o : Oracle} {act : Action} {k : Tasks}
    {es : List Event} {w : WorkerID} {q : CheckpointRequest} (h : TaskMove cfg act o run s k es)
    (hmem : .enqueued w (.takeSnapshot t q) ∈ es) :
    ∃ cp rest sent pausing, run = some (.startTasks cp ((t, w) :: rest) sent pausing) ∧
      q = cp.request := by
  cases h with
  | same hes => exact hes _ hmem
  | _ => simp at hmem

theorem started (h : Reachable cfg s) : Started s := by
  refine h.invariant (P := Started) ⟨nofun, nofun⟩ ?_
  intro s a s' hreach hs _ hstep
  have hmoved := step_moved hstep
  have hbacks : ∀ q : CheckpointRequest, s.Backs q → s'.Backs q := fun q hq =>
    .keep hreach hstep hq
  have hrunning : ∀ cp remaining sent pausing,
      s.running a.1 = some (.startTasks cp remaining sent pausing) → s'.Backs cp.request :=
    fun cp remaining sent pausing hrun =>
      hbacks _ (hs.threads cp remaining sent pausing (State.mem_of_running hrun))
  constructor
  · intro cp remaining sent pausing hmem
    rcases hmoved.threads _ hmem with hold | hnew
    · exact hbacks _ (hs.threads cp remaining sent pausing hold)
    · cases hnew with
      | ordinary ht => exact nomatch ht
      | starting _ hcp hlog => exact backs_of_opens hreach hstep hcp hlog
      | startTasks _ task _ sent _ hrun => exact hrunning cp _ _ _ hrun
  · intro w t q hmem
    obtain ⟨es, hmove, hlog⟩ := hmoved.tasks
    rw [hlog] at hmem
    rcases mem_append.mp hmem with hold | hnew
    · exact hbacks q (hs.commands w t q hold)
    · obtain ⟨cp, rest, sent, pausing, hrun, rfl⟩ := hmove.takeSnapshot hnew
      exact hrunning cp _ _ _ hrun

end Wire.Coordinator
