import Wire.Coordinator.System

/-!
# Deleting savepoints

`DeleteSavepoint` keeps the savepoint that a job was rescaled at only as long as its checkpoint is
the latest one.  Once a newer checkpoint is completed the savepoint can be deleted; but if the newer
ones turn out to be invalid, a recovery goes back to the checkpoint of the rescale, and there it
asks for the record of the savepoint (`deleted_savepoint_needed`).  No other deployment misses the
record (`restores_without_iff`). -/

namespace Wire.Coordinator

open Guard Option

/-- The deployment of a job finds a boundary to restore from. -/
def State.restores (cfg : Config) (o : Oracle) (s : State) (r : Ref) (tasks : List TaskDescriptor) :
    Bool :=
  (s.attachCheckpointRestore cfg o r tasks).2.isOk

/-- The deployment goes back to the checkpoint that the job was rescaled at, and to the savepoint.
-/
def State.FallsBack (o : Oracle) (s : State) (r : Ref) (sp : SavepointMeta) : Prop :=
  ∃ cp, selectRecoveryCheckpoint o s.store r.job (s.deref r) = .ok cp ∧
    (s.deref r).rescaleCheckpoint ≠ 0 ∧ (s.deref r).rescaleCheckpoint = cp.id ∧
      cp.savepointID = some sp.id

section

variable {cfg : Config} {o : Oracle} {s : State} {r : Ref} {tasks : List TaskDescriptor}

theorem isOk_map {ε α β : Type} (m : Except ε α) (f : α → β) : (m.map f).isOk = m.isOk := by
  cases m with
  | error e => rfl
  | ok a => rfl

/-- What a deployment with a boundary has found. -/
theorem restores_iff : s.restores cfg o r tasks = true ↔
    (s.deref r).rescaleCheckpoint ≤ (s.deref r).latestCheckpoint ∧
    ((s.deref r).latestCheckpoint ≠ 0 →
      ∃ cp, selectRecoveryCheckpoint o s.store r.job (s.deref r) = .ok cp ∧
        (cp.id = (s.deref r).latestCheckpoint ∨ o.boundaryWritten = true) ∧
        (restoreDescriptors cfg s.store r.job (s.deref r) cp tasks).isOk = true) := by
  rw [State.restores, State.attachCheckpointRestore]
  split
  · next hlt => exact iff_of_false Bool.false_ne_true fun h => absurd h.1 (not_le.mpr hlt)
  · next hle =>
    rw [not_lt] at hle
    split
    · next hzero => exact iff_of_true rfl ⟨hle, fun hne => absurd hzero hne⟩
    · next hne =>
      rw [and_iff_right hle, imp_iff_right hne]
      cases selectRecoveryCheckpoint o s.store r.job (s.deref r) with
      | error e => simp [Except.isOk, Except.toBool]
      | ok cp =>
        dsimp only
        split
        · next heq => simp [heq, isOk_map]
        · next hother =>
          split
          · next hwritten => simp [hwritten, isOk_map]
          · next hwritten => simp [hother, hwritten, Except.isOk, Except.toBool]

/-- What is looked up in another table of savepoints, where the two differ at one savepoint only. -/
theorem restores_of_not_fallsBack (sp : SavepointMeta) {T : Table SavepointMeta.key}
    (hT : ∀ id ≠ sp.id, T.lookup (r.job, id) = s.store.savepoints.lookup (r.job, id))
    (h : { s with store := { s.store with savepoints := T } }.restores cfg o r tasks = true)
    (hnot : ¬ s.FallsBack o r sp) : s.restores cfg o r tasks = true := by
  rw [restores_iff] at h ⊢
  refine ⟨h.1, fun hne => ?_⟩
  obtain ⟨cp, hcp, hwritten, hok⟩ := h.2 hne
  refine ⟨cp, hcp, hwritten, ?_⟩
  have hok : (restoreDescriptors cfg { s.store with savepoints := T } r.job
    (s.deref r) cp tasks).isOk = true := hok
  rw [restoreDescriptors] at hok ⊢
  split at hok
  · next hpinned =>
    rw [if_pos hpinned]
    cases hid : cp.savepointID with
    | none => rwa [hid] at hok
    | some id =>
      -- the savepoint of this checkpoint is another one
      have hother : id ≠ sp.id := fun heq =>
        hnot ⟨cp, hcp, hpinned.1, hpinned.2, hid.trans (congrArg some heq)⟩
      rw [hid] at hok
      change (demand (T.lookup (r.job, id)) _ >>= _).isOk = true at hok
      rwa [hT id hother] at hok
  · next hfree => rwa [if_neg hfree]

end

/-- **A deleted savepoint is missed only at the checkpoint of the rescale.**  In any state without
the record, and whatever checkpoints are invalid, a deployment that finds a boundary with the record
finds one without it just when it does not fall back to the checkpoint of the rescale. -/
theorem restores_without_iff {cfg : Config} {o : Oracle} {s : State} {r : Ref} {sp : SavepointMeta}
    {tasks : List TaskDescriptor} (hgone : s.store.savepoints.lookup (r.job, sp.id) = none)
    (hwith : (s.setSavepoint (some sp)).restores cfg o r tasks = true) :
    s.restores cfg o r tasks = true ↔ ¬ s.FallsBack o r sp := by
  constructor
  · intro h
    rintro ⟨cp, hcp, hne, hpinned, hid⟩
    obtain ⟨hlatest, h⟩ := restores_iff.mp h
    obtain ⟨cp', hcp', -, hok⟩ := h (by omega)
    cases hcp.symm.trans hcp'
    rw [restoreDescriptors, if_pos ⟨hne, hpinned⟩, hid] at hok
    change (demand (s.store.savepoints.lookup (r.job, sp.id)) _ >>= _).isOk = true at hok
    rw [hgone] at hok
    cases hok
  · intro hnot
    refine restores_of_not_fallsBack sp (fun id hid => ?_) hwith hnot
    exact Table.lookup_put_of_ne _ fun heq => hid (Prod.mk.inj heq).2

/-- **A savepoint of another checkpoint can be deleted.**  If the job was not rescaled at the
checkpoint of the savepoint, no deployment after the deletion misses the record. -/
theorem restores_deleteSavepoint {cfg : Config} {o o' : Oracle} {s : State} {r : Ref}
    {tasks : List TaskDescriptor} {id : SavepointID} {record : SavepointMeta}
    (hrecord : s.store.savepoints.lookup (r.job, id) = some record)
    (hfree : (s.deref r).rescaleCheckpoint = 0 ∨
      (s.deref r).rescaleCheckpoint ≠ record.checkpointID)
    (h : s.restores cfg o r tasks = true) :
    (s.deleteSavepoint o' r.job id).restores cfg o r tasks = true := by
  rw [State.deleteSavepoint]
  split
  · split
    · refine restores_of_not_fallsBack { record with id } (T := s.store.savepoints)
        (fun id' hid => ?_) h ?_
      · exact (Table.lookup_delete_of_ne _ fun heq => hid (Prod.mk.inj heq).2).symm
      · rintro ⟨cp, hcp, hne, hpinned, hid⟩
        obtain ⟨hlatest, h⟩ := restores_iff.mp h
        obtain ⟨cp', hcp', -, hok⟩ := h fun hzero => hne (Nat.le_zero.mp (hzero ▸ hlatest))
        cases hcp.symm.trans hcp'
        -- the deployment has compared the checkpoint of the record with its own
        cases hfound : restoreDescriptors cfg s.store r.job (s.deref r) cp tasks with
        | error e =>
          rw [hfound] at hok
          cases hok
        | ok found =>
          rw [restoreDescriptors, if_pos ⟨hne, hpinned⟩, hid] at hfound
          simp only [bind_eq_ok, demand_eq_ok, require_eq_ok, some.injEq] at hfound
          obtain ⟨_, rfl, sp, hsp, _, ⟨-, -, -, hcheckpoint, -⟩, -⟩ := hfound
          cases hrecord.symm.trans hsp
          exact hfree.elim hne fun hother => hother (hpinned.trans hcheckpoint.symm)
    · exact h
  · exact h

namespace Sample

def rescalable : Config :=
  { config with rescaled := fun g _ n => some (g, n), rescalePlan := fun _ _ => true }

/-- The job is rescaled at the savepoint 7, whose checkpoint is 1, and completes checkpoint 2. -/
def rescaledRun : List (Action × Oracle) :=
  start ++ deploy 1 ++ reported 0 1 .running ++
    each [.triggerCheckpoint 0 (some 7) false, acknowledge 1 1 false, .proceed 0, .proceed 0,
      .proceed 0, .proceed 0, .rescaleJob 0 7 2, report 1 .canceled, .proceed 0, .proceed 0] ++
    restart oracle 0 (placement 2) ++ each [.proceed 0, .proceed 0, .proceed 0] ++
    reported 0 2 .running ++ checkpoint 2 2 false

/-- With checkpoint 2 a deployment does not need the savepoint. -/
theorem restores_without_latest : ∃ s, Reachable rescalable s ∧
    s.store.savepoints.lookup (0, 7) = none ∧
    s.restores rescalable oracle ⟨0, 1⟩ [{ taskID := 10 }] = true := by
  let sp : SavepointMeta := ⟨0, 7, 1, 1, 0, .completed⟩
  obtain ⟨s, hs, hgone, hwith, hlatest⟩ := Runs.reachable_of_run (step rescalable) State.initial
    (rescaledRun ++ each [.deleteSavepoint 0 7])
    (p := fun s => s.store.savepoints.lookup (0, 7) = none ∧
      (s.setSavepoint (some sp)).restores rescalable oracle ⟨0, 1⟩ [{ taskID := 10 }] = true ∧
      (selectRecoveryCheckpoint oracle s.store 0 (s.deref ⟨0, 1⟩)).toOption.all fun cp =>
        (s.deref ⟨0, 1⟩).rescaleCheckpoint ≠ cp.id) (by decide)
  refine ⟨s, hs, hgone, (restores_without_iff hgone hwith).mpr ?_⟩
  rintro ⟨cp, hcp, -, hpinned, -⟩
  rw [hcp] at hlatest
  exact of_decide_eq_true hlatest hpinned

/-- Checkpoint 2 turns out to be invalid. -/
def secondInvalid : Oracle :=
  { oracle with manifest := fun cp => if cp.id = 2 then .invalid else .valid }

theorem deleted_savepoint_needed : ∃ s s', Reachable rescalable s ∧
    (s.deref ⟨0, 1⟩).status = .running ∧ (deleteSavepoint s 0 7).isOk = true ∧
    step rescalable s (.deleteSavepoint 0 7, oracle) = some s' ∧
    s.restores rescalable secondInvalid ⟨0, 1⟩ [{ taskID := 10 }] = true ∧
    s'.restores rescalable secondInvalid ⟨0, 1⟩ [{ taskID := 10 }] = false := by
  obtain ⟨s, hs, hrunning, hagrees, h⟩ := Runs.reachable_of_run (step rescalable) State.initial
    rescaledRun (p := fun s => (s.deref ⟨0, 1⟩).status = .running ∧
      (deleteSavepoint s 0 7).isOk = true ∧
      s.restores rescalable secondInvalid ⟨0, 1⟩ [{ taskID := 10 }] = true ∧
      (s.deleteSavepoint oracle 0 7).restores rescalable secondInvalid ⟨0, 1⟩ [{ taskID := 10 }] =
        false) (by decide)
  exact ⟨s, _, hs, hrunning, hagrees, rfl, h⟩

end Sample

end Wire.Coordinator
