import Wire.Coordinator.Steps

/-!
# The checkpoint in flight

The store says which checkpoints are in flight; the coordinator decides many things by its
memory of them, `activeCheckpoints`.  The two agree whenever the coordinator has recovered:
a checkpoint that the store holds as in flight is the active one of its job.  Between a crash
and the end of the recovery the memory is empty, and the recovery's list is exactly what is in
flight in the store, so that none is left when the coordinator becomes ready again.
-/

namespace Wire.Coordinator

open Function List Option Table

/-- How the store, the memory and a recovery see the checkpoints in flight. -/
structure Flights (s : State) : Prop where
  /-- The job of a checkpoint record is persisted. -/
  known : ∀ cp ∈ s.store.checkpoints.records, (s.store.jobs cp.jobID).isSome
  /-- What is in flight in the store is active in memory. -/
  active : s.mem.recovered = true → ∀ cp ∈ s.store.checkpoints.records,
    cp.status.inFlight = true → ∃ a, s.mem.activeCheckpoints cp.jobID = some a ∧ a.id = cp.id
  epoch : ∀ j a, s.mem.activeCheckpoints j = some a → a.epochID = s.mem.epoch
  idle : s.mem.recovered = false → ∀ j, s.mem.activeCheckpoints j = none
  down : ∀ R, s.recovery = some R → s.mem.recovered = false
  nodup : ∀ R, s.recovery = some R → (R.checkpointsToAbort.map CheckpointMeta.key).Nodup
  /-- What a recovery is going to abort is in flight, and nothing else is. -/
  pending : ∀ R, s.recovery = some R → ∀ cp,
    cp ∈ R.checkpointsToAbort ↔ cp ∈ s.store.checkpoints.records ∧ cp.status.inFlight = true

namespace Flights

variable {es : List Event} {s s' : State}

theorem initial : Flights State.initial where
  known := nofun
  active := nofun
  epoch := nofun
  idle := fun _ _ => rfl
  down := nofun
  nodup := nofun
  pending := nofun

theorem frame (hs : Flights s) (h : Frame es s s') : Flights s' where
  known := by
    rw [h.checkpoints]
    exact fun cp hcp => h.jobs _ (hs.known cp hcp)
  active := by
    rw [h.recovered, h.checkpoints, h.active]
    exact hs.active
  epoch := by
    rw [h.active, h.epoch]
    exact hs.epoch
  idle := by
    rw [h.recovered, h.active]
    exact hs.idle
  down := by
    rw [h.recovery, h.recovered]
    exact hs.down
  nodup := by
    rw [h.recovery]
    exact hs.nodup
  pending := by
    rw [h.recovery, h.checkpoints]
    exact hs.pending

theorem spawn (hs : Flights s) (t : Thread) : Flights (s.spawn t) := { hs with }

theorem recovered_of_ready (hs : s.mem.ready = true) : s.mem.recovered = true := by
  rw [Memory.ready, Bool.and_eq_true] at hs
  exact hs.1

section

variable (hs : Flights s)
include hs

/-- A recovered coordinator is not recovering. -/
theorem recovery_none (hrec : s.mem.recovered = true) : s.recovery = none := by
  cases hR : s.recovery with
  | none => rfl
  | some R => exact nomatch hrec.symm.trans (hs.down R hR)

/-- Two checkpoints of one job that are in flight are the same. -/
theorem eq_of_inFlight (hrec : s.mem.recovered = true) {x y : CheckpointMeta}
    (hx : x ∈ s.store.checkpoints.records) (hy : y ∈ s.store.checkpoints.records)
    (hxf : x.status.inFlight = true) (hyf : y.status.inFlight = true) (hjob : x.jobID = y.jobID) :
    x.key = y.key := by
  obtain ⟨a, ha, hax⟩ := hs.active hrec x hx hxf
  obtain ⟨b, hb, hby⟩ := hs.active hrec y hy hyf
  rw [hjob, hb, some.injEq] at ha
  rw [CheckpointMeta.key, CheckpointMeta.key, hjob, ← hax, ← hby, ha]

variable {new cp : CheckpointMeta} {j : JobID}

/-- Writing a record that the store holds, with the same identity and, if it is in flight
afterwards, in flight before. -/
theorem setCheckpoint (hrec : s.mem.recovered = true) {old : CheckpointMeta}
    (hold : s.store.checkpoints.lookup old.key = some old) (hkey : new.key = old.key)
    (hflight : new.status.inFlight = true → old.status.inFlight = true) :
    Flights (s.setCheckpoint new) where
  __ := hs
  known := by
    intro cp hcp
    rcases mem_records_put.mp hcp with rfl | ⟨hmem, -⟩
    · rw [show cp.jobID = old.jobID from congrArg Prod.fst hkey]
      exact hs.known old (mem_records_of_lookup hold)
    · exact hs.known cp hmem
  active := by
    intro _ cp hcp hf
    rcases mem_records_put.mp hcp with rfl | ⟨hmem, -⟩
    · rw [show cp.jobID = old.jobID from congrArg Prod.fst hkey,
        show cp.id = old.id from congrArg Prod.snd hkey]
      exact hs.active hrec old (mem_records_of_lookup hold) (hflight hf)
    · exact hs.active hrec cp hmem hf
  pending := fun R hR => nomatch hrec.symm.trans (hs.down R hR)

/-- Forgetting the active checkpoint of a job that has none in flight. -/
theorem setActive_none
    (hnone : ∀ cp ∈ s.store.checkpoints.records, cp.jobID = j → cp.status.inFlight = false) :
    Flights (s.setActive j none) where
  __ := hs
  active := by
    intro hrec cp hcp hf
    have hne : cp.jobID ≠ j := fun hj => nomatch hf.symm.trans (hnone cp hcp hj)
    show ∃ a, update s.mem.activeCheckpoints j none cp.jobID = some a ∧ a.id = cp.id
    rw [update_of_ne hne]
    exact hs.active hrec cp hcp hf
  epoch := by
    intro i a (ha : update s.mem.activeCheckpoints j none i = some a)
    rcases eq_or_ne i j with rfl | hne
    · rw [update_self] at ha
      cases ha
    · rw [update_of_ne hne] at ha
      exact hs.epoch i a ha
  idle := by
    intro hrec i
    show update s.mem.activeCheckpoints j none i = none
    rcases eq_or_ne i j with rfl | hne
    · rw [update_self]
    · rw [update_of_ne hne]
      exact hs.idle hrec i

/-- A trigger: the new record is the only one in flight of its job. -/
theorem trigger (hcp : Opens s cp) (hjob : (s'.store.jobs cp.jobID).isSome)
    (h : Frame es ((s.setCheckpoint cp).setActive cp.jobID (some cp)) s') : Flights s' := by
  have hrec := recovered_of_ready hcp.ready
  have hrec' : s'.mem.recovered = true := h.recovered.trans hrec
  have hnone : s'.recovery = none := h.recovery.trans (hs.recovery_none hrec)
  have hrecord : ∀ x ∈ s'.store.checkpoints.records,
      x = cp ∨ x ∈ s.store.checkpoints.records ∧ x.key ≠ cp.key := by
    rw [h.checkpoints]
    exact fun x => mem_records_put.mp
  have hactive : ∀ i, s'.mem.activeCheckpoints i =
      update s.mem.activeCheckpoints cp.jobID (some cp) i := congrFun h.active
  refine ⟨?_, ?_, ?_, ?_, ?_, ?_, ?_⟩
  · intro x hx
    rcases hrecord x hx with rfl | ⟨hmem, -⟩
    · exact hjob
    · exact h.jobs _ (hs.known x hmem)
  · intro _ x hx hf
    rw [hactive]
    rcases hrecord x hx with rfl | ⟨hmem, -⟩
    · exact ⟨x, update_self _ _ _, rfl⟩
    · have hne : x.jobID ≠ cp.jobID := by
        intro hj
        have hold := (hcp.fresh x (mem_filter.mpr ⟨hmem, by simp [hj]⟩)).1
        exact nomatch hf.symm.trans hold
      rw [update_of_ne hne]
      exact hs.active hrec x hmem hf
  · intro i a ha
    rw [h.epoch]
    rw [hactive] at ha
    rcases eq_or_ne i cp.jobID with rfl | hne
    · rw [update_self, some.injEq] at ha
      exact ha ▸ hcp.epoch
    · rw [update_of_ne hne] at ha
      exact hs.epoch i a ha
  · exact fun hdown => nomatch hrec'.symm.trans hdown
  all_goals exact fun R hR => nomatch hnone.symm.trans hR

theorem clearActive {id epoch : ℕ} (hrec : s.mem.recovered = true)
    (hnone : ∀ cp ∈ s.store.checkpoints.records, cp.key = (j, id) → cp.status.inFlight = false) :
    Flights (s.clearActive j id epoch) := by
  by_cases hcleared : ∀ a, s.mem.activeCheckpoints j = some a → a.id = id ∧ a.epochID = epoch
  · have hfilter : s.clearActive j id epoch = s.setActive j none := by
      rw [State.clearActive, filter_eq_none_iff.mpr fun a ha => by simpa using hcleared a ha]
    rw [hfilter]
    refine hs.setActive_none fun cp hcp hj => ?_
    by_contra hf
    rw [Bool.not_eq_false] at hf
    -- What is in flight is the active checkpoint, which is the one that is cleared.
    obtain ⟨a, ha, haid⟩ := hs.active hrec cp hcp hf
    rw [hj] at ha
    have hkey : cp.key = (j, id) := by
      rw [CheckpointMeta.key, hj, ← haid, (hcleared a ha).1]
    cases hf.symm.trans (hnone cp hcp hkey)
  · push Not at hcleared
    obtain ⟨a, ha, hne⟩ := hcleared
    have hkept : s.clearActive j id epoch = s := by
      rw [State.clearActive, ha, filter_some,
        if_pos (by rw [decide_eq_true_eq]; exact fun h => hne h.1 h.2), ← ha, State.setActive,
        update_eq_self]
    rw [hkept]
    exact hs

theorem abort (hready : s.mem.ready = true) (hcp : s.store.checkpoints.lookup cp.key = some cp) :
    Flights ((s.setCheckpoint (cp.decide .aborted)).clearActive cp.jobID cp.id cp.epochID) := by
  have hrec := recovered_of_ready hready
  have hset : Flights (s.setCheckpoint (cp.decide .aborted)) :=
    hs.setCheckpoint hrec hcp rfl (fun hf => nomatch hf)
  refine hset.clearActive hrec fun x hx hkey => ?_
  rcases mem_records_put.mp hx with rfl | ⟨-, hne⟩
  · rfl
  · exact absurd hkey hne

theorem complete (hready : s.mem.ready = true)
    (hcp : s.store.checkpoints.lookup cp.key = some cp) (hstatus : cp.status = .inProgress)
    (hkey : new.key = cp.key) (hnew : new.status.inFlight = false) :
    Flights ((s.setCheckpoint new).setActive cp.jobID none) := by
  have hrec := recovered_of_ready hready
  have hset : Flights (s.setCheckpoint new) :=
    hs.setCheckpoint hrec hcp hkey (fun hf => nomatch hnew.symm.trans hf)
  refine hset.setActive_none fun x hx hj => ?_
  rcases mem_records_put.mp hx with rfl | ⟨hmem, hne⟩
  · exact hnew
  · by_contra hf
    rw [Bool.not_eq_false] at hf
    have hflight : cp.status.inFlight = true := by rw [hstatus]; rfl
    exact hne ((hs.eq_of_inFlight hrec hmem (mem_records_of_lookup hcp) hf hflight hj).trans
      hkey.symm)

theorem move {D : JobID → Prop} (h : Move D s s') : Flights s' := by
  cases h with
  | frame h | deploy _ _ _ _ _ _ h | commit _ _ _ _ h => exact hs.frame h
  | again cp hcp hstatus h =>
    exact (hs.spawn _).frame h
  | trigger cp hcp hjob h => exact hs.trigger hcp hjob h
  | abort cp hready hcp hepoch hstatus h => exact (hs.abort hready hcp).frame h
  | acknowledge _ _ _ _ hready hcp _ _ h | invalidate _ _ hready hcp _ h =>
    refine .frame ?_ h
    exact hs.setCheckpoint (recovered_of_ready hready) hcp rfl fun hf => hf
  | complete cp req path manifests hready hcp hstatus hreq hall h =>
    have hset : Flights ((s.setCheckpoint
        ((cp.addState req.taskID path manifests).decide .completed)).setActive cp.jobID none) :=
      hs.complete hready hcp hstatus rfl rfl
    exact (hset.spawn _).frame h
  | forget j cp hcp hepoch h => exact absurd (hs.epoch j cp hcp) hepoch

end

/-! ### The term -/

section

variable (hs : Flights s)
include hs

theorem crash : Flights s.crash where
  known := hs.known
  active := nofun
  epoch := nofun
  idle := fun _ _ => rfl
  down := nofun
  nodup := nofun
  pending := nofun

variable {o : Oracle}

theorem startRecovery {e : ℕ} (h : s.startRecovery o e = some s') : Flights s' := by
  obtain ⟨hguard, rfl⟩ := ite_some_none_eq_some.mp h
  exact {
    known := hs.known
    active := hs.active
    epoch := hs.epoch
    idle := hs.idle
    down := fun _ _ => hguard.1
    nodup := by
      rintro R ⟨⟩
      exact s.store.checkpoints.nodup.sublist (filter_sublist.map _)
    pending := by
      rintro R ⟨⟩ cp
      simp only [mem_filter, decide_eq_true_eq]
      exact ⟨fun h => ⟨h.1, h.2.1⟩, fun h => ⟨h.1, h.2, hs.known cp h.1⟩⟩ }

theorem recoverCheckpoint {epoch : ℕ} {cp : CheckpointMeta}
    {rest : List CheckpointMeta} {savepoints : List SavepointMeta}
    (hrec : s.recovery = some ⟨epoch, cp :: rest, savepoints⟩) :
    Flights { s.setCheckpoint (cp.decide .aborted) with
      recovery := some ⟨epoch, rest, savepoints⟩ } := by
  have hdown := hs.down _ hrec
  have hnodup := nodup_cons.mp (hs.nodup _ hrec)
  have hpending := hs.pending _ hrec
  refine ⟨?_, ?_, hs.epoch, hs.idle, fun _ _ => hdown, ?_, ?_⟩
  · intro x hx
    rcases mem_records_put.mp hx with rfl | ⟨hmem, -⟩
    · exact hs.known cp ((hpending cp).mp mem_cons_self).1
    · exact hs.known x hmem
  · exact fun hrecovered => nomatch hdown.symm.trans hrecovered
  · rintro R ⟨⟩
    exact hnodup.2
  · rintro R ⟨⟩ x
    constructor
    · intro hx
      have hold := (hpending x).mp (mem_cons_of_mem _ hx)
      refine ⟨mem_records_put.mpr (.inr ⟨hold.1, fun hkey => ?_⟩), hold.2⟩
      exact hnodup.1 (hkey ▸ mem_map_of_mem hx)
    · rintro ⟨hx, hf⟩
      rcases mem_records_put.mp hx with rfl | ⟨hmem, hne⟩
      · exact nomatch hf
      · rcases mem_cons.mp ((hpending x).mpr ⟨hmem, hf⟩) with rfl | hrest
        · exact absurd rfl hne
        · exact hrest

theorem finishRecovery {cfg : Config} (h : s.finishRecovery cfg o = some s') : Flights s' := by
  rw [State.finishRecovery] at h
  split at h
  · next epoch hrec =>
    cases h
    refine ⟨hs.known, ?_, by simp, fun _ _ => rfl, by simp, by simp, by simp⟩
    intro _ cp hcp hf
    exact absurd ((hs.pending _ hrec cp).mpr ⟨hcp, hf⟩) not_mem_nil
  · cases h

theorem termMove (h : TermMove s s') : Flights s' := by
  cases h with
  | stepDown h => exact h ▸ { hs with }
  | crash h => exact h ▸ hs.crash
  | startRecovery o e h => exact hs.startRecovery h
  | failRecovery h => exact h ▸ { hs with down := nofun, nodup := nofun, pending := nofun }
  | recoverCheckpoint epoch cp rest savepoints hrec h => exact h ▸ hs.recoverCheckpoint hrec
  | recoverSavepoint epoch sp rest hrec h =>
    subst h
    exact { hs with
      down := fun _ _ => hs.down _ hrec
      nodup := by
        rintro R ⟨⟩
        exact nodup_nil
      pending := by
        rintro R ⟨⟩
        have hnone := hs.pending _ hrec
        exact hnone }
  | finishRecovery cfg o h => exact hs.finishRecovery h

end

end Flights

/-- **What is in flight is known**, in every reachable state. -/
theorem flights {cfg : Config} {s : State} (h : Reachable cfg s) : Flights s :=
  h.invariant .initial fun _ _ _ _ hs _ hstep =>
    (step_move hstep).elim hs.move hs.termMove

end Wire.Coordinator
