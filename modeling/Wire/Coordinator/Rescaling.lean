import Wire.Coordinator.Boundary

/-!
# Rescale requests

`rescaleJob` validates its candidate with `attachCheckpointRestoreLocked`, the function that
attaches the checkpoint to a deployment.  That one has effects of its own: where it falls back to an
older checkpoint it persists a copy of the record with the lower boundary, and the copy becomes the
cached record.  Here is the request with these effects.

There are none.  The candidate is pinned to the checkpoint of the savepoint, which the request has
found to be the latest one of the job, and a pinned selection takes the checkpoint it is pinned to
or fails.  So the only write of a request is that of the candidate, at its end, which is why
`rescaleJob` in `JobManager` can leave the effects out (`rescale_fst`).

A read of the store that fails is a record that is not found.
-/

namespace Wire.Coordinator

open Guard Function Prod

/-- `attachCheckpointRestoreLocked`, on a record that is not cached, with the record it leaves. -/
def State.attachCandidate (cfg : Config) (o : Oracle) (s : State) (j : JobID)
    (candidate : JobMeta) (tasks : List TaskDescriptor) : State × Except Error JobMeta :=
  if candidate.latestCheckpoint < candidate.rescaleCheckpoint then (s, .error .rescaleNotSelected)
  else if candidate.latestCheckpoint = 0 then (s, .ok candidate)
  else
    match selectRecoveryCheckpoint o s.store j candidate with
    | .error e => (s, .error e)
    | .ok cp =>
      let next := { candidate with latestCheckpoint := cp.id }
      let result := (restoreDescriptors cfg s.store j next cp tasks).map fun _ => next
      if cp.id = candidate.latestCheckpoint then (s, result)
      else if o.boundaryWritten then ((s.setJob j next).adopt j next, result)
      else (s, .error .storeWrite)

/-- `rescaleJob`, with all that it may write. -/
def State.rescale (cfg : Config) (o : Oracle) (s : State) (j : JobID) (savepoint : SavepointID)
    (request : ℕ) : State × Except Error JobMeta :=
  match rescaleCandidate cfg o s j savepoint request with
  | .error e => (s, .error e)
  | .ok (r, candidate, tasks) =>
    match s.attachCandidate cfg o j candidate tasks with
    | (s', .error e) => (s', .error e)
    | (s', .ok candidate) =>
      ((s'.replaceJob o r candidate).1, if o.written then .ok candidate else .error .storeWrite)

variable {cfg : Config} {o : Oracle} {s : State} {j : JobID} {savepoint : SavepointID} {request : ℕ}

/-- What a request has checked before it validates its candidate. -/
structure Requests (cfg : Config) (o : Oracle) (s : State) (j : JobID) (savepoint : SavepointID)
    (request : ℕ) (r : Ref) (candidate : JobMeta) : Prop where
  cached : s.mem.job j = some r
  candidate : ∃ sp config parallelism, s.store.savepoints.lookup (j, savepoint) = some sp ∧
    sp.checkpointID ≠ 0 ∧ sp.checkpointID = (s.deref r).latestCheckpoint ∧
    cfg.rescaled (s.deref r).config (s.deref r).parallelism request = some (config, parallelism) ∧
    candidate = (s.deref r).rescale cfg o.now sp.checkpointID config parallelism

variable {candidate : JobMeta} {r : Ref}

theorem rescaleCandidate_ok {tasks : List TaskDescriptor}
    (h : rescaleCandidate cfg o s j savepoint request = .ok (r, candidate, tasks)) :
    Requests cfg o s j savepoint request r candidate := by
  simp only [rescaleCandidate, bind_eq_ok, require_eq_ok, demand_eq_ok, pure_eq_ok, exists_const,
    mk.injEq] at h
  obtain ⟨-, r', hr, -, -, sp, hsp, ⟨-, hne, hlatest⟩, c, hc, tasks', -, rfl, rfl, -⟩ := h
  exact ⟨hr, sp, c.1, c.2, hsp, hne, hlatest, hc, rfl⟩

/-- The candidate is pinned to its latest checkpoint. -/
theorem Requests.pinned
    (h : Requests cfg o s j savepoint request r candidate) : candidate.rescaleCheckpoint ≠ 0 ∧
      candidate.rescaleCheckpoint = candidate.latestCheckpoint := by
  obtain ⟨-, sp, config, parallelism, -, hne, hlatest, -, rfl⟩ := h
  refine ⟨hne, hlatest.trans ?_⟩
  rw [JobMeta.rescale, resetStableRecoveryBudget]
  split <;> rfl

/-- The validation of a pinned candidate has no effect. -/
theorem attachCandidate_pinned (hne : candidate.rescaleCheckpoint ≠ 0)
    (hpin : candidate.rescaleCheckpoint = candidate.latestCheckpoint)
    (tasks : List TaskDescriptor) : s.attachCandidate cfg o j candidate tasks =
      (s, validateCandidate cfg o s j candidate tasks >>= fun _ => pure candidate) := by
  rw [State.attachCandidate, if_neg hpin.le.not_gt, if_neg (hpin ▸ hne), validateCandidate]
  cases hcp : selectRecoveryCheckpoint o s.store j candidate with
  | error e => rfl
  | ok cp =>
    rw [selectRecoveryCheckpoint, JobMeta.pinned, if_pos ⟨hne, hpin⟩] at hcp
    have hid : cp.id = candidate.latestCheckpoint := (chooseCheckpoint_pinned hcp).trans hpin
    have hnext : { candidate with latestCheckpoint := cp.id } = candidate := by rw [hid]
    change _ = (s, (restoreDescriptors cfg s.store j candidate cp tasks >>= fun _ => pure ()) >>=
      fun _ => pure candidate)
    dsimp only
    rw [if_pos hid, hnext]
    cases restoreDescriptors cfg s.store j candidate cp tasks with
    | error | ok => rfl

/-- A request is what `rescaleJob` finds, and the write. -/
theorem State.rescale_eq (cfg : Config) (o : Oracle) (s : State) (j : JobID)
    (savepoint : SavepointID) (request : ℕ) : s.rescale cfg o j savepoint request =
      match Coordinator.rescaleJob cfg o s j savepoint request with
      | .ok (r, m) => ((s.replaceJob o r m).1, if o.written then .ok m else .error .storeWrite)
      | .error e => (s, .error e) := by
  rw [State.rescale, Coordinator.rescaleJob]
  cases hcandidate : rescaleCandidate cfg o s j savepoint request with
  | error e => rfl
  | ok c =>
    have hreq := rescaleCandidate_ok hcandidate
    dsimp only
    rw [attachCandidate_pinned hreq.pinned.1 hreq.pinned.2,
      show (Except.ok c : Except Error _) = pure c from rfl, pure_bind]
    cases validateCandidate cfg o s j c.2.1 c.2.2 with
    | error | ok => rfl

/-- **The effects of a request are those of `rescaleJob`**, which is a step of the coordinator. -/
theorem rescale_fst (cfg : Config) (o : Oracle) (s : State) (j : JobID) (savepoint : SavepointID)
    (request : ℕ) : (s.rescale cfg o j savepoint request).1 =
      s.rescaleJob cfg o j savepoint request := by
  rw [State.rescale_eq, State.rescaleJob]
  cases rescaleJob cfg o s j savepoint request with
  | error | ok => rfl

/-- A request comes to nothing, or to the record that it asks for. -/
theorem State.rescale_cases (cfg : Config) (o : Oracle) (s : State) (j : JobID)
    (savepoint : SavepointID) (request : ℕ) :
    (∃ e, s.rescale cfg o j savepoint request = (s, .error e)) ∨
    ∃ r m, Requests cfg o s j savepoint request r m ∧ s.rescale cfg o j savepoint request =
      (((s.setJob r.job m).assign r m).cache r, .ok m) := by
  rw [State.rescale_eq]
  cases hjob : Coordinator.rescaleJob cfg o s j savepoint request with
  | error e => exact .inl ⟨e, rfl⟩
  | ok c =>
    obtain ⟨r, m⟩ := c
    simp only [Coordinator.rescaleJob, bind_eq_ok, pure_eq_ok] at hjob
    obtain ⟨c, hcandidate, -, -, rfl, rfl⟩ := hjob
    dsimp only [State.replaceJob]
    by_cases hwritten : o.written
    · refine .inr ⟨c.1, c.2.1, rescaleCandidate_ok hcandidate, ?_⟩
      rw [if_pos hwritten, if_pos hwritten]
    · exact .inl ⟨.storeWrite, by rw [if_neg hwritten, if_neg hwritten]⟩

/-- **A rejected rescale is invisible, and an accepted one changes one record.**  A request that
fails leaves the state as it was.  One that succeeds replaces the record of its job, in the store
and behind the pointer that is cached, by a record with the new graph and parallelism, the
checkpoint of the savepoint and what a rollback needs, in one write. -/
theorem rescale_frame (cfg : Config) (o : Oracle) (s : State) (j : JobID)
    (savepoint : SavepointID) (request : ℕ) :
    (∀ s' e, s.rescale cfg o j savepoint request = (s', .error e) → s' = s) ∧
    ∀ s' m, s.rescale cfg o j savepoint request = (s', .ok m) →
      ∃ r sp, s.mem.job j = some r ∧ s.store.savepoints.lookup (j, savepoint) = some sp ∧
        sp.checkpointID = (s.deref r).latestCheckpoint ∧
        cfg.rescaled (s.deref r).config (s.deref r).parallelism request =
          some (m.config, m.parallelism) ∧
        m.rescaleCheckpoint = sp.checkpointID ∧
        m.rescaleRollback = some
          { config := (s.deref r).config, parallelism := (s.deref r).parallelism
            checkpoint := sp.checkpointID } ∧
        s' = { s with
          store := { s.store with jobs := update s.store.jobs j (some m) }
          mem := { s.mem with heap := update s.mem.heap r m } } := by
  rcases s.rescale_cases cfg o j savepoint request with ⟨e, heq⟩ | ⟨r, m, hreq, heq⟩
  · rw [heq]
    refine ⟨fun s' e' h => (mk.inj h).1.symm, fun s' m h => ?_⟩
    cases (mk.inj h).2
  · rw [heq]
    refine ⟨fun s' e' h => ?_, fun s' m' h => ?_⟩
    · cases (mk.inj h).2
    · obtain ⟨rfl, hm⟩ := mk.inj h
      obtain rfl := Except.ok.inj hm
      obtain ⟨hr, sp, config, parallelism, hsp, -, hlatest, hrescaled, rfl⟩ := hreq
      obtain ⟨rfl, hserial⟩ := Memory.job_eq_some.mp hr
      refine ⟨r, sp, hr, hsp, hlatest, hrescaled, rfl, ?_, ?_⟩
      · rw [hlatest]
        rfl
      · have hcached : update s.mem.jobs r.job (some r.serial) = s.mem.jobs :=
          hserial ▸ update_eq_self r.job s.mem.jobs
        dsimp only [State.cache, State.assign, State.setJob]
        rw [hcached]

end Wire.Coordinator
