import Wire.Coordinator.Fencing

/-!
# The recovery boundary

Completing a checkpoint authorises its sinks to commit, so a job must never be restored from a
checkpoint older than a completed one in which a sink prepared a transaction.  One field of the
job record, `LatestCheckpoint`, is the boundary; four paths write it: a completion raises it, a
selection that skips invalid checkpoints lowers it, a rescale remembers it, and the rollback of
a rescale goes back to the remembered one.

Each of the four keeps the bound on the record that it works on (`Revision.anchored`,
`select_covers`).  What breaks it is that two records of one job can be at work.  A selection
that lowers the boundary persists a copy of the record, which makes the copy the cached record,
while the goroutine goes on with its own.  When that goroutine later writes its record again ---
a worker refused its tasks --- the boundary it had then comes back, below whatever was completed
in the meantime (`deployed_below_committed`).  The late write of a submission does the same to
the store.

If every goroutine writes the record that is cached when it does, and the write of a submission
is the first of the job, the bound holds in every run (`recovery_boundary_covered`).
-/

namespace Wire.Coordinator

open Option List Table Runs

/-! ## Selecting a boundary -/

/-- The boundary is at or above every checkpoint that a sink may have committed. -/
def Covers (st : Store) (j : JobID) (n : ℕ) : Prop :=
  ∀ cp ∈ st.checkpointsOf j, cp.status = .completed → cp.sinkPrepared = true → cp.id ≤ n

variable {o : Oracle} {cp : CheckpointMeta} {st : Store} {j : JobID} {m : JobMeta} {mem : Memory}
  {R : Records}

variable {candidates : List CheckpointMeta} {boundary : ℕ} {L : Rights}

/-- A pinned selection is the checkpoint it is pinned to. -/
theorem chooseCheckpoint_pinned {id : ℕ}
    (h : chooseCheckpoint o (some id) candidates = .ok cp) : cp.id = id := by
  induction candidates with
  | nil => cases h
  | cons x rest ih =>
    rw [chooseCheckpoint] at h
    split at h
    · exact ih h
    · next hx =>
      have hid : x.id = id := by simpa using hx
      split at h
      · cases h
        exact hid
      · split at h
        · cases h
        · split at h
          · cases h
          · cases h

/-- A selection only skips checkpoints in which no sink prepared a transaction. -/
theorem chooseCheckpoint_covers (hsorted : candidates.Pairwise fun a b => b.id ≤ a.id)
    (h : chooseCheckpoint o none candidates = .ok cp) :
    ∀ x ∈ candidates, x.sinkPrepared = true → x.id ≤ cp.id := by
  induction candidates with
  | nil => exact nofun
  | cons c rest ih =>
    rw [pairwise_cons] at hsorted
    rw [chooseCheckpoint, if_neg (by simp)] at h
    intro x hx hprepared
    split at h
    · cases h
      rcases mem_cons.mp hx with rfl | hrest
      · exact le_rfl
      · exact hsorted.1 x hrest
    · split at h
      · cases h
      · split at h
        · cases h
        · next hc =>
          rcases mem_cons.mp hx with rfl | hrest
          · exact absurd hprepared hc
          · exact ih hsorted.2 h x hrest hprepared

/-- **A selection stays above every checkpoint that may be committed.** -/
theorem select_covers (h : selectRecoveryCheckpoint o st j m = .ok cp)
    (hm : Covers st j m.latestCheckpoint) : Covers st j cp.id := by
  rw [selectRecoveryCheckpoint] at h
  cases hpin : m.pinned with
  | some id =>
    rw [hpin] at h
    rw [JobMeta.pinned] at hpin
    split at hpin
    · next hlatest =>
      rw [chooseCheckpoint_pinned h, ← some.inj hpin, hlatest.2]
      exact hm
    · cases hpin
  | none =>
    rw [hpin] at h
    intro x hx hcompleted hprepared
    refine chooseCheckpoint_covers (pairwise_insertionSort _ _) h x ?_ hprepared
    rw [mem_insertionSort, mem_filter]
    exact ⟨hx, by simpa using ⟨hm x hx hcompleted hprepared, hcompleted⟩⟩

/-- What a deployment selects stays above every checkpoint that may be committed. -/
theorem Selects.covers (h : Selects o st j m boundary)
    (hm : Covers st j m.latestCheckpoint) : Covers st j boundary := by
  rcases eq_or_ne m.latestCheckpoint 0 with hzero | hne
  · rw [h.none hzero, ← hzero]
    exact hm
  · obtain ⟨cp, hcp, rfl⟩ := h.some hne
    exact select_covers hcp hm

/-- A deployment of a record that is pinned restores from the checkpoint it is pinned to. -/
theorem Selects.eq_of_pinned (h : Selects o st j m boundary)
    (hpin : m.rescaleCheckpoint ≠ 0) (hlatest : m.latestCheckpoint ≤ m.rescaleCheckpoint) :
    boundary = m.rescaleCheckpoint ∧ ∃ sp ∈ st.savepoints.records,
      sp.jobID = j ∧ sp.status = .completed ∧ sp.checkpointID = boundary := by
  have heq : m.rescaleCheckpoint = m.latestCheckpoint := le_antisymm h.pinned hlatest
  have hne : m.latestCheckpoint ≠ 0 := heq ▸ hpin
  obtain ⟨cp, hcp, hid⟩ := h.some hne
  have hboundary : boundary = m.rescaleCheckpoint := by
    rw [selectRecoveryCheckpoint, JobMeta.pinned, if_pos ⟨hpin, heq⟩] at hcp
    rw [hid, chooseCheckpoint_pinned hcp]
  exact ⟨hboundary, h.savepoint hne hpin hboundary.symm⟩

/-! ## Anchored records -/

/-- A version of a job record from which recovery does not go below the boundary: what it
restores from, and what a rollback would make it restore from, covers the checkpoints that may
be committed; and a record that could be rolled back has no checkpoint that may still be
completed. -/
structure JobMeta.Anchored (m : JobMeta) (st : Store) (j : JobID) : Prop where
  latest : Covers st j m.latestCheckpoint
  rollback : ∀ old, m.rescaleRollback = some old → Covers st j old.checkpoint
  running : m.status = .running → m.rescaleRollback = none
  flight : ∀ cp ∈ st.checkpointsOf j, cp.status.inFlight = true → m.rescaleRollback = none

/-- A version with the same boundary, which can be rolled back only where the old one could. -/
structure JobMeta.Keeps (m m' : JobMeta) : Prop where
  latest : m'.latestCheckpoint = m.latestCheckpoint
  rollback : ∀ old', m'.rescaleRollback = some old' →
    ∃ old, m.rescaleRollback = some old ∧ old'.checkpoint = old.checkpoint
  running : m'.status = .running → m.status = .running ∨ m'.rescaleRollback = none

namespace JobMeta

variable {m m' : JobMeta} {st st' : Store} {j : JobID}

theorem Keeps.rollback_none (h : m.Keeps m') (hm : m.rescaleRollback = none) :
    m'.rescaleRollback = none := by
  cases hm' : m'.rescaleRollback with
  | none => rfl
  | some old' =>
    obtain ⟨old, hold, -⟩ := h.rollback old' hm'
    exact nomatch hm.symm.trans hold

section

variable (hm : m.Anchored st j)
include hm

theorem Anchored.keeps (h : m.Keeps m') : m'.Anchored st j where
  latest := h.latest ▸ hm.latest
  rollback := by
    intro old' hold'
    obtain ⟨old, hold, heq⟩ := h.rollback old' hold'
    exact heq ▸ hm.rollback old hold
  running := fun hs => (h.running hs).elim (fun hr => h.rollback_none (hm.running hr)) id
  flight := fun cp hcp hf => h.rollback_none (hm.flight cp hcp hf)

/-- Nothing is opened or completed. -/
theorem Anchored.settled (h : Settled st st') : m.Anchored st' j := by
  have hcovers : ∀ n, Covers st j n → Covers st' j n := by
    intro n hn new hnew hcompleted hprepared
    obtain ⟨hmem, hjob⟩ := Numbered.mem_checkpointsOf.mp hnew
    obtain ⟨cp, hcp, hcpc, hkey, hsame⟩ := h.completed new hmem hcompleted
    obtain ⟨hj, hid⟩ := Prod.mk.inj (show (new.jobID, new.id) = (cp.jobID, cp.id) from hkey)
    rw [hid]
    exact hn cp (Numbered.mem_checkpointsOf.mpr ⟨hcp, hj.symm.trans hjob⟩) hcpc
      (hsame.symm.trans hprepared)
  refine ⟨hcovers _ hm.latest, fun old hold => hcovers _ (hm.rollback old hold), hm.running, ?_⟩
  intro new hnew hf
  obtain ⟨hmem, hjob⟩ := Numbered.mem_checkpointsOf.mp hnew
  obtain ⟨cp, hcp, hcpf, hkey⟩ := h.inFlight new hmem hf
  have hj : new.jobID = cp.jobID := congrArg Prod.fst hkey
  exact hm.flight cp (Numbered.mem_checkpointsOf.mpr ⟨hcp, hj.symm.trans hjob⟩) hcpf

/-- A record of another job is written. -/
theorem Anchored.put_of_ne {new : CheckpointMeta}
    (hput : st'.checkpoints = st.checkpoints.put new) (hne : new.jobID ≠ j) : m.Anchored st' j := by
  have hold : ∀ x ∈ st'.checkpointsOf j, x ∈ st.checkpointsOf j := by
    intro x hx
    obtain ⟨hmem, hjob⟩ := Numbered.mem_checkpointsOf.mp hx
    rw [hput] at hmem
    rcases mem_records_put.mp hmem with rfl | ⟨hmem, -⟩
    · exact absurd hjob hne
    · exact Numbered.mem_checkpointsOf.mpr ⟨hmem, hjob⟩
  exact ⟨fun x hx => hm.latest x (hold x hx), fun old h x hx => hm.rollback old h x (hold x hx),
    hm.running, fun x hx => hm.flight x (hold x hx)⟩

/-- Lowering the boundary to one that still covers everything. -/
theorem Anchored.lower {id : ℕ} (h : Covers st j id) :
    Anchored { m with latestCheckpoint := id } st j :=
  { hm with latest := h }

end

/-- A record that cannot be rolled back. -/
theorem anchored_of_none (hm : m.rescaleRollback = none)
    (hlatest : Covers st j m.latestCheckpoint) :
    m.Anchored st j :=
  ⟨hlatest, fun _ h => (nomatch hm.symm.trans h), fun _ => hm, fun _ _ _ => hm⟩

/-! ## What the functions make of a record -/

theorem Keeps.refl (m : JobMeta) : m.Keeps m :=
  ⟨rfl, fun old h => ⟨old, h, rfl⟩, .inl⟩

section

variable (cfg : Config) (now : Time)
include cfg now

theorem keeps_resetStableRecoveryBudget (m : JobMeta) :
    m.Keeps (resetStableRecoveryBudget cfg now m) := by
  rw [resetStableRecoveryBudget]
  split
  · exact ⟨rfl, fun old h => ⟨old, h, rfl⟩, .inl⟩
  · exact .refl m

theorem keeps_fail (m : JobMeta) : m.Keeps (m.fail cfg now) := by
  have h := keeps_resetStableRecoveryBudget cfg now m
  exact { h with running := nofun }

theorem keeps_transition (target : JobStatus) (m : JobMeta) :
    m.Keeps (m.transition cfg now target) := by
  rcases eq_or_ne target .running with rfl | hne
  · -- A running job cannot be rolled back any more.
    have hnone : (m.transition cfg now .running).rescaleRollback = none := by
      simp [transition]
    exact ⟨by simp [transition], fun _ h => (nomatch hnone.symm.trans h), fun _ => .inr hnone⟩
  · have hreset : m.Keeps
        (if target = .failing then resetStableRecoveryBudget cfg now m else m) := by
      split
      · exact keeps_resetStableRecoveryBudget cfg now m
      · exact .refl m
    rw [transition]
    split
    · split
      · exact { hreset with running := fun h => absurd h hne }
      · exact { hreset with running := fun h => absurd h hne }
    · exact { hreset with running := fun h => absurd h hne }

theorem keeps_chargeCheckpointFailure (final : Bool) (m : JobMeta) :
    m.Keeps (m.chargeCheckpointFailure cfg now final) := by
  rw [chargeCheckpointFailure]
  split
  · have h := keeps_fail cfg now
      { m with
        checkpointOutcomes := recordOutcome m.checkpointOutcomes true
        checkpointFailures := m.checkpointFailures + 1
        consecutiveCheckpointFailures := m.consecutiveCheckpointFailures + 1 }
    exact { h with running := nofun }
  · exact ⟨rfl, fun old h => ⟨old, h, rfl⟩, .inl⟩

end

theorem keeps_refund (charged : Bool) (m : JobMeta) : m.Keeps (m.refund charged) := by
  rw [refund]
  split
  · exact ⟨rfl, fun old h => ⟨old, h, rfl⟩, .inl⟩
  · exact .refl m

theorem keeps_deploy (now : Time) (m : JobMeta) : m.Keeps (m.deploy now) where
  latest := rfl
  rollback := by
    intro old' h
    obtain ⟨old, hold, rfl⟩ := map_eq_some_iff.mp h
    exact ⟨old, hold, rfl⟩
  running := nofun

theorem latestCheckpoint_checkpointCompleted (now : Time) (cp : CheckpointMeta) (m : JobMeta) :
    (m.checkpointCompleted now cp).latestCheckpoint = cp.id := by
  rw [checkpointCompleted]
  split <;> rfl

theorem rescaleRollback_checkpointCompleted (now : Time) (cp : CheckpointMeta) (m : JobMeta) :
    (m.checkpointCompleted now cp).rescaleRollback = m.rescaleRollback := by
  rw [checkpointCompleted]
  split <;> rfl

end JobMeta

/-- Every revision of a record keeps it anchored. -/
theorem Revision.anchored {cfg : Config} {now : Time} {m' : JobMeta}
    (h : Revision cfg now L mem j m m') (hm : m.Anchored st j)
    (hidle : mem.ready = true → mem.activeCheckpoints j = none →
      ∀ cp ∈ st.checkpointsOf j, cp.status.inFlight = false) : m'.Anchored st j := by
  cases h with
  | transition target h hask => exact hm.keeps (JobMeta.keeps_transition cfg now target m)
  | fail h => exact hm.keeps (JobMeta.keeps_fail cfg now m)
  | charge final => exact hm.keeps (JobMeta.keeps_chargeCheckpointFailure cfg now final m)
  | refund charged => exact hm.keeps (JobMeta.keeps_refund charged m)
  | rollBack old h => exact JobMeta.anchored_of_none rfl (hm.rollback old h)
  | placementFailure old h since attempted hstatus =>
    refine hm.keeps ⟨rfl, ?_, .inl⟩
    rintro _ ⟨⟩
    exact ⟨old, h, rfl⟩
  | rescale checkpoint config parallelism hready hnone =>
    have hreset := JobMeta.keeps_resetStableRecoveryBudget cfg now m
    refine ⟨hreset.latest ▸ hm.latest, ?_, nofun, fun cp hcp hf => ?_⟩
    · rintro _ ⟨⟩
      exact hm.latest
    · exact nomatch hf.symm.trans (hidle hready hnone cp hcp)

/-! ## Anchored runs -/

/-- Both versions of every job record are anchored, and belong to jobs that were submitted. -/
structure Anchored (s : State) : Prop where
  stored : ∀ j m, s.records.stored j = some m → m.Anchored s.store j ∧ j ∈ s.issued
  cached : ∀ j m, s.records.cached j = some m → m.Anchored s.store j ∧ j ∈ s.issued

namespace Anchored

variable {s s' : State}

theorem initial : Anchored State.initial where
  stored := fun _ m h => absurd h.symm (some_ne_none m)
  cached := fun _ m h => absurd h.symm (some_ne_none m)

/-- A step that opens and completes nothing, after which each record is an old one or a new
anchored version. -/
theorem versions (hs : Anchored s) (hsettled : Settled s.store s'.store) (hR : s'.records = R)
    (hissued : s.issued ⊆ s'.issued) (hstored : ∀ j m, R.stored j = some m →
      s.records.stored j = some m ∨ m.Anchored s.store j ∧ j ∈ s'.issued)
    (hcached : ∀ j m, R.cached j = some m →
      s.records.cached j = some m ∨ m.Anchored s.store j ∧ j ∈ s'.issued) : Anchored s' where
  stored := by
    intro j m hm
    rw [hR] at hm
    rcases hstored j m hm with hold | ⟨hnew, hj⟩
    · obtain ⟨hnew, hj⟩ := hs.stored j m hold
      exact ⟨hnew.settled hsettled, hissued hj⟩
    · exact ⟨hnew.settled hsettled, hj⟩
  cached := by
    intro j m hm
    rw [hR] at hm
    rcases hcached j m hm with hold | ⟨hnew, hj⟩
    · obtain ⟨hnew, hj⟩ := hs.cached j m hold
      exact ⟨hnew.settled hsettled, hissued hj⟩
    · exact ⟨hnew.settled hsettled, hj⟩

/-- The record of a job without checkpoints. -/
theorem of_unknown (hflights : Flights s) (hj : s.store.jobs j = none)
    (hm : m.rescaleRollback = none) : m.Anchored s.store j := by
  refine JobMeta.anchored_of_none hm fun cp hcp => ?_
  obtain ⟨hmem, rfl⟩ := Numbered.mem_checkpointsOf.mp hcp
  have hknown := hflights.known cp hmem
  rw [hj] at hknown
  cases hknown

variable {r : Ref}

/-- The content of a cached record is anchored. -/
theorem of_job (hs : Anchored s) (hr : s.mem.job r.job = some r) :
    (s.mem.heap r).Anchored s.store r.job ∧ r.job ∈ s.issued :=
  hs.cached r.job _ (Records.cached_of_job hr)

/-- A step that writes anchored versions of one cached record. -/
theorem written (hs : Anchored s) (hsettled : Settled s.store s'.store) (hR : s'.records = R)
    (hissued : s'.issued = s.issued) (hr : s.mem.job r.job = some r)
    (hstored : ∀ j m, R.stored j = some m →
      j = r.job ∧ m.Anchored s.store r.job ∨ s.records.stored j = some m)
    (hcached : ∀ j m, R.cached j = some m →
      j = r.job ∧ m.Anchored s.store r.job ∨ s.records.cached j = some m) : Anchored s' := by
  have hj : r.job ∈ s'.issued := hissued ▸ (hs.of_job hr).2
  refine hs.versions hsettled hR (hissued ▸ .refl _) (fun j m hm => ?_)
    fun j m hm => ?_
  · rcases hstored j m hm with ⟨rfl, hnew⟩ | hold
    · exact .inr ⟨hnew, hj⟩
    · exact .inl hold
  · rcases hcached j m hm with ⟨rfl, hnew⟩ | hold
    · exact .inr ⟨hnew, hj⟩
    · exact .inl hold

end Anchored

variable {issued' : List JobID}

namespace Anchored

variable {cfg : Config} {s s' : State} {a : Action × Oracle}

/-- A job whose active checkpoint is forgotten has none in flight. -/
theorem idle (hflights : Flights s) (hready : s.mem.ready = true)
    (hidle : s.mem.activeCheckpoints j = none) :
    ∀ cp ∈ s.store.checkpointsOf j, cp.status.inFlight = false := by
  intro cp hcp
  obtain ⟨hmem, hjob⟩ := Numbered.mem_checkpointsOf.mp hcp
  cases hf : cp.status.inFlight with
  | false => rfl
  | true => exact absurd hjob (Fenced.ne_of_idle hflights hmem hf hready hidle)

/-- Steps that neither open nor complete a checkpoint. -/
theorem settled (hs : Anchored s) (hflights : Flights s) (hok : WritesCached s a)
    (hsettled : Settled s.store s'.store) {es : List Event}
    (htrigger : ∀ j id attempt, .triggered j id attempt ∉ es)
    (hcomplete : ∀ j id, .completed j id ∉ es)
    (h : RecordMove cfg a.2 (s.rights a) s.mem s.store s.issued s'.records es s'.issued) :
    Anchored s' := by
  have hjob := hok.cached
  generalize hR : s'.records = R at h
  generalize hI : s'.issued = issued at h
  cases h with
  | same hes =>
    exact hs.versions hsettled hR (hI ▸ .refl _) (fun j m => .inl) fun j m => .inl
  | unsaved hes r hr target htarget hask hwritten =>
    have hnew := (hs.of_job (hjob r hr)).1.keeps
      (JobMeta.keeps_transition cfg a.2.now target (s.mem.heap r))
    refine hs.written hsettled hR hI (hjob r hr) (fun j m => .inr) fun j m hm => ?_
    exact (Records.cached_assign hm).imp_left fun ⟨hj, hm⟩ => ⟨hj, hm ▸ hnew⟩
  | revise hes r hr m hm =>
    have hnew := hm.anchored (hs.of_job (hjob r hr)).1 (idle hflights)
    refine hs.written hsettled hR hI (hjob r hr) (fun j x hx => ?_) fun j x hx => ?_
    · exact (Records.stored_persist hx).imp_left fun ⟨hj, hx⟩ => ⟨hj, hx ▸ hnew⟩
    · exact (Records.cached_revise hx).imp_left fun ⟨hj, hx⟩ => ⟨hj, hx ▸ hnew⟩
  | trigger r hr hrunning attempts id attempt => exact absurd (by simp) (htrigger r.job id attempt)
  | complete r hr cp hcp req => exact absurd (by simp) (hcomplete cp.jobID cp.id)
  | lower r hr hpublishes cp hcp hlatest hlower =>
    have hold := (hs.of_job (hjob r hr)).1
    have hnew := hold.lower (select_covers hcp hold.latest)
    refine hs.written hsettled hR hI (hjob r hr) (fun j x hx => ?_) fun j x hx => ?_
    · exact (Records.stored_persist hx).imp_left fun ⟨hj, hx⟩ => ⟨hj, hx ▸ hnew⟩
    · exact (Records.cached_lower hx).imp_left fun ⟨hj, hx⟩ => ⟨hj, hx ▸ hnew⟩
  | deploy r hr hpublishes attempt boundary hselects =>
    have hold := (hs.of_job (hjob r hr)).1
    have hlow := hold.lower (hselects.covers hold.latest)
    have hnew := hlow.keeps (JobMeta.keeps_deploy a.2.now _)
    refine hs.written hsettled hR hI (hjob r hr) (fun j x hx => ?_) fun j x hx => ?_
    · rcases Records.stored_persist hx with ⟨rfl, rfl⟩ | hx
      · exact .inl ⟨rfl, hnew⟩
      · exact (Records.stored_fallBack hx).imp_left fun ⟨hj, hx⟩ => ⟨hj, hx ▸ hlow⟩
    · rcases Records.cached_assign hx with ⟨rfl, rfl⟩ | hx
      · exact .inl ⟨rfl, hnew⟩
      · exact (Records.cached_fallBack hx).imp_left fun ⟨hj, hx⟩ => ⟨hj, hx ▸ hlow⟩
  | submit j hready hj name config parallelism haction =>
    have hnone : s.store.jobs j = none := by
      cases hm : s.store.jobs j with
      | none => rfl
      | some m => exact absurd (hs.stored j m hm).2 hj
    refine hs.versions hsettled hR (hI ▸ subset_cons_self _ _) (fun i m => .inl)
      fun i m hm => ?_
    rcases Records.cached_adopt hm with ⟨rfl, rfl⟩ | hold
    · exact .inr ⟨of_unknown hflights hnone rfl, hI ▸ mem_cons_self⟩
    · exact .inl hold
  | submitted r hr hfirst name config parallelism createdAt =>
    have hnew : (JobMeta.submitted name config parallelism createdAt).Anchored s.store r.job :=
      of_unknown hflights (hok.first r hfirst) rfl
    refine hs.written hsettled hR hI (hjob r hr) (fun j x hx => ?_) fun j x => .inr
    exact (Records.stored_persist hx).imp_left fun ⟨hj, hx⟩ => ⟨hj, hx ▸ hnew⟩
  | drop r hr hwritten =>
    refine hs.versions hsettled hR (hI ▸ .refl _) (fun j m => .inl) fun j m hm => ?_
    exact .inl (Records.cached_drop hm)
  | crash haction =>
    exact hs.versions hsettled hR (hI ▸ .refl _) (fun j m => .inl)
      fun j m hm => absurd hm.symm (some_ne_none m)
  | recover haction =>
    refine hs.versions hsettled hR (hI ▸ .refl _) (fun j m => .inl) fun j m hm => ?_
    rw [Records.cached_recovered] at hm
    obtain ⟨hnew, hj⟩ := hs.stored j m hm
    exact .inr ⟨hnew, hI ▸ hj⟩

/-- A step that writes the cached record of a job together with one of its checkpoints. -/
theorem replaced (hs : Anchored s) {r : Ref} (hr : s.mem.job r.job = some r)
    (hR : s'.records = s.records.replace r m) (hI : s'.issued = s.issued)
    (hput : s'.store.checkpoints = s.store.checkpoints.put cp) (hcp : cp.jobID = r.job)
    (hnew : m.Anchored s'.store r.job) : Anchored s' := by
  have hcached : s.records.jobs r.job = some r.serial := (Memory.job_eq_some.mp hr).2
  have hj : r.job ∈ s'.issued := hI ▸ (hs.of_job hr).2
  refine ⟨fun j x hx => ?_, fun j x hx => ?_⟩
  · rw [hR] at hx
    rcases eq_or_ne j r.job with rfl | hne
    · rw [Records.stored_replace_self, some.injEq] at hx
      exact ⟨hx ▸ hnew, hj⟩
    · rcases Records.stored_persist hx with ⟨hj', -⟩ | hx
      · exact absurd hj' hne
      · obtain ⟨hold, hmem⟩ := hs.stored j x hx
        exact ⟨hold.put_of_ne hput (hcp ▸ hne.symm), hI ▸ hmem⟩
  · rw [hR] at hx
    rcases eq_or_ne j r.job with rfl | hne
    · rw [Records.cached_replace_self hcached, some.injEq] at hx
      exact ⟨hx ▸ hnew, hj⟩
    · rcases Records.cached_assign hx with ⟨hj', -⟩ | hx
      · exact absurd hj' hne
      · obtain ⟨hold, hmem⟩ := hs.cached j x hx
        exact ⟨hold.put_of_ne hput (hcp ▸ hne.symm), hI ▸ hmem⟩

variable {L : Rights} {id : ℕ} {issued : List JobID}

/-- The records that go with a trigger. -/
theorem recordMove_triggered {attempt : AttemptID}
    (h : RecordMove cfg o L mem st issued R [.triggered j id attempt] issued') :
    ∃ r attempts, mem.job r.job = some r ∧ (mem.heap r).status = .running ∧ r.job = j ∧
      R = (Records.of mem st).replace r { mem.heap r with checkpointAttempts := attempts } ∧
      issued' = issued := by
  have hcalm : ¬ ∀ e ∈ [Event.triggered j id attempt], e.calm := by simp [Event.calm]
  cases h with
  | trigger r hr hrunning attempts => exact ⟨r, attempts, hr, hrunning, rfl, rfl, rfl⟩
  | same hes | unsaved hes | revise hes => exact absurd hes hcalm

/-- The records that go with a completion. -/
theorem recordMove_completed {req : AcknowledgeRequest}
    (h : RecordMove cfg o L mem st issued R [.acknowledged req, .completed j id] issued') :
    ∃ r cp, mem.job r.job = some r ∧ r.job = j ∧ cp.id = id ∧
      R = (Records.of mem st).replace r ((mem.heap r).checkpointCompleted o.now cp) ∧
      issued' = issued := by
  have hcalm : ¬ ∀ e ∈ [Event.acknowledged req, Event.completed j id], e.calm := by
    simp [Event.calm]
  cases h with
  | complete r hr cp hcp => exact ⟨r, cp, hr, hcp.symm, rfl, rfl, rfl⟩
  | same hes | unsaved hes | revise hes => exact absurd hes hcalm

theorem step (hs : Anchored s) (hreach : Reachable cfg s) (hok : WritesCached s a)
    (h : step cfg s a = some s') : Anchored s' := by
  have hflights := flights hreach
  obtain ⟨es, hrecords, hlog⟩ := step_records h
  cases step_checkpoints hflights h with obtain rfl := append_cancel_left (hlog.symm.trans hlog')
  | settled hsettled hlog' htrigger hcomplete hdeploy =>
    exact hs.settled hflights hok hsettled htrigger hcomplete hrecords
  | opened cp hcp hput hlog' =>
    obtain ⟨r, attempts, hr, hrunning, hj, hR, hI⟩ := recordMove_triggered hrecords
    have hnone := (hs.of_job hr).1.running hrunning
    refine hs.replaced hr hR hI hput hj.symm (JobMeta.anchored_of_none hnone ?_)
    -- A checkpoint in progress is not one that may be committed.
    intro x hx hcompleted hprepared
    obtain ⟨hmem, hxj⟩ := Numbered.mem_checkpointsOf.mp hx
    rw [hput] at hmem
    rcases mem_records_put.mp hmem with rfl | ⟨hmem, -⟩
    · exact nomatch hcp.status.symm.trans hcompleted
    · exact (hs.of_job hr).1.latest x (Numbered.mem_checkpointsOf.mpr ⟨hmem, hxj⟩) hcompleted
        hprepared
  | completed cp new req hcp hstatus hkey hnew hput hlog' =>
    obtain ⟨r, cp', hr, hj, hid, hR, hI⟩ := recordMove_completed hrecords
    obtain ⟨hnewj, hnewid⟩ :=
      Prod.mk.inj (show (new.jobID, new.id) = (cp.jobID, cp.id) from hkey)
    have hflight : cp.status.inFlight = true := by rw [hstatus]; rfl
    have hcpmem : cp ∈ s.store.checkpointsOf r.job :=
      Numbered.mem_checkpointsOf.mpr ⟨mem_records_of_lookup hcp, hj.symm⟩
    have hnone := (hs.of_job hr).1.flight cp hcpmem hflight
    refine hs.replaced hr hR hI hput (hnewj.trans hj.symm) (JobMeta.anchored_of_none ?_ ?_)
    · rw [JobMeta.rescaleRollback_checkpointCompleted]
      exact hnone
    rw [JobMeta.latestCheckpoint_checkpointCompleted, hid]
    -- The checkpoint in flight is the newest of the job.
    intro x hx _ _
    obtain ⟨hmem, hxj⟩ := Numbered.mem_checkpointsOf.mp hx
    rw [hput] at hmem
    rcases mem_records_put.mp hmem with rfl | ⟨hmem, -⟩
    · exact hnewid.le
    · have hentry := ledger_lookup (mem_records_iff.mp hmem)
      rw [hxj, hj] at hentry
      exact (ledger_sound hreach cp.jobID).newest cp.id _ (ledger_lookup hcp)
        (CheckpointMeta.verdict_eq_none hflight) x.id _ hentry

end Anchored

/-- The records that go with a deployment. -/
theorem recordMove_deployed {cfg : Config} {issued : List JobID} {attempt : AttemptID}
    {generation : ℕ}
    (h : RecordMove cfg o L mem st issued R [.deployed j attempt generation boundary] issued') :
    ∃ r, L.writes r ∧ r.job = j ∧ Selects o st j (mem.heap r) boundary ∧
      generation = (mem.heap r).deploymentGeneration + 1 ∧
      R = ((Records.of mem st).fallBack r boundary).replace r
        (JobMeta.deploy o.now { mem.heap r with latestCheckpoint := boundary }) := by
  have hcalm : ¬ ∀ e ∈ [Event.deployed j attempt generation boundary], e.calm := by
    simp [Event.calm]
  cases h with
  | deploy r hr hpublishes attempt boundary hselects => exact ⟨r, hr, rfl, hselects, rfl, rfl⟩
  | same hes | unsaved hes | revise hes => exact absurd hes hcalm

/-! ## A deployment below the boundary -/

/-- A worker that takes its tasks by a call. -/
def reservingWorker : WorkerMeta :=
  { taskSlotsAvailable := 4, rpcClient := some 7, checkpointAddress := some 1
    supportsReservations := true }

open Sample

/-- Checkpoints 1 and 2 are completed, without a prepared sink, and the job fails.  Its recovery
is about to be published, with a call that hands over the task. -/
def fallbackRun : List (Action × Oracle) :=
  start ++ deploy 1 ++ reported 0 1 .running ++
    checkpoint 1 1 false ++ checkpoint 2 1 false ++ reported 0 1 .failed ++
    each [.registerWorker 1 reservingWorker 0] ++
    restart oracle 0 { placement 2 with peers := [(1, 7)] }

/-- It skips checkpoint 2. -/
def fallback : Action × Oracle :=
  (.proceed 0, { oracle with manifest := fun cp => if cp.id = 2 then .invalid else .valid })

/-- The recovery is published while its call is still under way. -/
def skippedCheckpointRun : List (Action × Oracle) := fallbackRun ++ [fallback]

/-- The task fails.  The cached copy of the record is deployed, runs, and completes checkpoint 3
with a prepared sink. -/
def committedCheckpointRun : List (Action × Oracle) :=
  skippedCheckpointRun ++ each [report 2 .failed, .proceed 1, .proceed 1] ++
    restart oracle 1 (placement 3) ++
    each [.proceed 1, .proceed 1, .proceed 1] ++ reported 1 3 .running ++
    each [.triggerCheckpoint 0 none false, acknowledge 3 3 true]

/-- Now the call of the first deployment fails, which persists and caches the first record
again; the job is restarted from it. -/
def staleRecordRun : List (Action × Oracle) :=
  committedCheckpointRun ++ [(.proceed 0, { oracle with accepted := false })] ++
    each [.proceed 2, report 3 .canceled, .proceed 2, .proceed 2] ++
    restart { oracle with now := 9 } 2 (placement 4)

/-- The step that publishes it. -/
def stalePublication : Action × Oracle := (.proceed 2, { oracle with now := 9 })

/-- The job is restored from checkpoint 1 although checkpoint 3 is completed and may have been
committed. -/
theorem deployed_below_committed :
    ∃ s s', Reachable config s ∧ step config s stalePublication = some s' ∧
      s'.log = s.log ++ [.deployed 0 4 3 1] ∧
      ∃ cp ∈ s.store.checkpointsOf 0, cp.status = .completed ∧ cp.sinkPrepared = true ∧
        1 < cp.id := by
  obtain ⟨s, hs, s', h⟩ := reachable_of_run (step config) State.initial staleRecordRun
    (p := fun s => ∃ s' ∈ step config s stalePublication,
      s'.log = s.log ++ [.deployed 0 4 3 1] ∧ ∃ cp ∈ s.store.checkpointsOf 0,
        cp.status = .completed ∧ cp.sinkPrepared = true ∧ 1 < cp.id) (by decide)
  exact ⟨s, s', hs, h⟩

/-! ## The boundary of a deployment -/

theorem anchored {cfg : Config} {s : State}
    (h : Reaches (step cfg) WritesCached State.initial s) : Anchored s :=
  h.invariant .initial fun _ _ _ hreach hs hok hstep =>
    hs.step hreach.reachable hok hstep

/-- **Recovery never goes below a possibly committed boundary.**  In every run whose goroutines
write cached records, a deployment restores from a boundary at or above every completed
checkpoint of the job in which a sink prepared a transaction; and the deployment of a job that
is pinned to a rescale savepoint restores from exactly that savepoint's checkpoint. -/
theorem recovery_boundary_covered {cfg : Config} {s s' : State} {a : Action × Oracle}
    (h : Reaches (step cfg) WritesCached State.initial s) (hok : WritesCached s a)
    (hstep : step cfg s a = some s') {j : JobID} {attempt : AttemptID} {generation boundary : ℕ}
    (hlog : s'.log = s.log ++ [.deployed j attempt generation boundary]) :
    (∀ cp ∈ s.store.checkpointsOf j, cp.status = .completed → cp.sinkPrepared = true →
      cp.id ≤ boundary) ∧
    ∃ r, s.mem.job j = some r ∧ ((s.deref r).rescaleCheckpoint ≠ 0 →
      (s.deref r).latestCheckpoint ≤ (s.deref r).rescaleCheckpoint →
      boundary = (s.deref r).rescaleCheckpoint ∧ ∃ sp ∈ s.store.savepoints.records,
        sp.jobID = j ∧ sp.status = .completed ∧ sp.checkpointID = boundary) := by
  obtain ⟨es, hrecords, hes⟩ := step_records hstep
  obtain rfl := append_cancel_left (hes.symm.trans hlog)
  obtain ⟨r, hr, rfl, hselects, -⟩ := recordMove_deployed hrecords
  have hjob := hok.cached r hr
  exact ⟨hselects.covers ((anchored h).of_job hjob).1.latest, r, hjob,
    fun hpin hlatest => hselects.eq_of_pinned hpin hlatest⟩

theorem recovery_boundary_covered_recovery :
    ∃ s s' : State, Reaches (step config) WritesCached State.initial s ∧
      s'.log = s.log ++ [.deployed 0 2 2 1] ∧
      ∀ cp ∈ s.store.checkpointsOf 0, cp.status = .completed → cp.sinkPrepared = true →
        cp.id ≤ 1 := by
  obtain ⟨s, hs, hok, s', hstep, hlog⟩ := reaches_of_run (step config) WritesCached
    writesCached writesCached_sound .initial recoveryRun
    (p := fun s => writesCached s (.proceed 0, oracle) ∧
      ∃ s' ∈ step config s (.proceed 0, oracle), s'.log = s.log ++ [.deployed 0 2 2 1])
    (by decide)
  exact ⟨s, s', hs, hlog,
    (recovery_boundary_covered hs (writesCached_sound s _ hok) hstep hlog).1⟩

end Wire.Coordinator
