import Wire.Coordinator.Flights
import Wire.Library.Ledger

/-!
# Checkpoint decisions agree

The checkpoint records of a job are a ledger in the sense of `Library.Ledger`: an entry expects
a report from every captured task, and is committed or aborted once.  `step_ledger` is the
refinement: whatever step the coordinator takes, crashes and recoveries included, the ledger
of each job makes a sequence of ledger moves.  So at most one checkpoint of a job is in flight,
and a decision is final, for the reasons they are in any ledger.

What the ledger does not see are the reports themselves and the commands: `Recorded` says that
every recorded task state goes back to an acknowledgement that was accepted, that commit
commands are queued only for completed checkpoints, and abort commands only for aborted ones.
-/

namespace Wire.Coordinator

open Function List Option AList Table Prod

open Relation (ReflTransGen)

/-! ## The ledger of a job -/

/-- How a record is decided. -/
def CheckpointMeta.verdict (cp : CheckpointMeta) : Option Ledger.Verdict :=
  match cp.status with
  | .triggered | .inProgress => none
  | .completed => some .commit
  | .failed | .aborted => some .abort

/-- A record as an entry of a ledger. -/
def CheckpointMeta.entry (cp : CheckpointMeta) : Ledger.Entry TaskID where
  expected := { t | t ∈ cp.tasks }
  reported := { t | t ∈ cp.statePaths }
  verdict := cp.verdict

/-- The checkpoint records of a job as a ledger. -/
def State.ledger (s : State) (j : JobID) : Ledger TaskID :=
  fun id => (s.store.checkpoints.lookup (j, id)).map CheckpointMeta.entry

variable {cp new : CheckpointMeta} {s s' : State} {v : Ledger.Verdict} {D : JobID → Prop}
  {cfg : Config}

theorem CheckpointMeta.verdict_ne_none (h : cp.status.inFlight = false) : cp.verdict ≠ none := by
  rw [CheckpointMeta.verdict]
  cases hs : cp.status with
  | triggered | inProgress => rw [hs] at h; cases h
  | completed | failed | aborted => exact nofun

theorem CheckpointMeta.verdict_eq_none (h : cp.status.inFlight = true) : cp.verdict = none := by
  rw [CheckpointMeta.verdict]
  cases hs : cp.status with
  | triggered | inProgress => rfl
  | completed | failed | aborted => rw [hs] at h; cases h

theorem ledger_lookup (h : s.store.checkpoints.lookup cp.key = some cp) :
    s.ledger cp.jobID cp.id = some cp.entry :=
  congrArg (Option.map CheckpointMeta.entry) h

theorem ledger_congr (h : s'.store.checkpoints = s.store.checkpoints) (j : JobID) :
    s'.ledger j = s.ledger j := by
  funext id
  rw [State.ledger, State.ledger, h]

section

variable (h : s'.store.checkpoints = s.store.checkpoints.put new)
include h

theorem ledger_put : s'.ledger new.jobID = update (s.ledger new.jobID) new.id (some new.entry) := by
  funext id
  rw [State.ledger, h, lookup_put]
  rcases eq_or_ne id new.id with rfl | hne
  · rw [update_self, if_pos (show (new.jobID, new.id) = new.key from rfl)]
    rfl
  · rw [update_of_ne hne, if_neg fun hkey => hne (congrArg snd hkey)]
    rfl

theorem ledger_put_of_ne {j : JobID} (hj : j ≠ new.jobID) : s'.ledger j = s.ledger j := by
  funext id
  rw [State.ledger, h, lookup_put, if_neg fun hkey => hj (congrArg fst hkey)]
  rfl

/-- A written record is a sequence of moves of every ledger if it is one of its own. -/
theorem moves_of_put (hmoves : ReflTransGen Ledger.Move (s.ledger new.jobID)
      (update (s.ledger new.jobID) new.id (some new.entry))) (j : JobID) :
    ReflTransGen Ledger.Move (s.ledger j) (s'.ledger j) := by
  rcases eq_or_ne j new.jobID with rfl | hj
  · rwa [ledger_put h]
  · rw [ledger_put_of_ne h hj]

end

/-- Writing a record without changing its entry. -/
theorem moves_of_same_entry (hcp : s.store.checkpoints.lookup cp.key = some cp)
    (hkey : new.key = cp.key) (hentry : new.entry = cp.entry) :
    ReflTransGen Ledger.Move (s.ledger new.jobID)
      (update (s.ledger new.jobID) new.id (some new.entry)) := by
  rw [show new.jobID = cp.jobID from congrArg fst hkey,
    show new.id = cp.id from congrArg snd hkey, hentry, ← ledger_lookup hcp,
    update_eq_self]

/-! ## The refinement -/

theorem ledger_trigger (hcp : Opens s cp) : ReflTransGen Ledger.Move (s.ledger cp.jobID)
    (update (s.ledger cp.jobID) cp.id (some cp.entry)) := by
  have hentry : cp.entry = ⟨{ t | t ∈ cp.tasks }, ∅, none⟩ := by
    rw [CheckpointMeta.entry, CheckpointMeta.verdict, hcp.statePaths, hcp.status]
    congr 1
    exact Set.eq_empty_of_forall_notMem fun t ht => notMem_empty t ht
  rw [hentry]
  refine .single (.begin cp.id _ fun i e he => ?_)
  obtain ⟨x, hx, rfl⟩ := map_eq_some_iff.mp he
  obtain ⟨hjob, rfl⟩ := Store.identity hx
  have hfresh := hcp.fresh x (mem_filter.mpr ⟨mem_records_of_lookup hx, decide_eq_true hjob⟩)
  exact ⟨hfresh.2, CheckpointMeta.verdict_ne_none hfresh.1⟩

theorem ledger_decide (cp : CheckpointMeta) {status : CheckpointStatus}
    (hcp : s.store.checkpoints.lookup cp.key = some cp) (hopen : cp.status.inFlight = true)
    (hv : (cp.decide status).verdict = some v)
    (hall : v = .commit → cp.entry.expected ⊆ cp.entry.reported) :
    ReflTransGen Ledger.Move (s.ledger cp.jobID)
      (update (s.ledger cp.jobID) cp.id (some (cp.decide status).entry)) := by
  have hentry : (cp.decide status).entry = { cp.entry with verdict := some v } := by
    rw [CheckpointMeta.entry, hv]
    rfl
  rw [hentry]
  exact .single (.decide cp.id cp.entry v (ledger_lookup hcp)
    (CheckpointMeta.verdict_eq_none hopen) hall)

theorem entry_addState (cp : CheckpointMeta) (task : TaskID) (path : Address)
    (manifests : GoMap TaskID Manifest) : (cp.addState task path manifests).entry =
      { cp.entry with reported := insert task cp.entry.reported } := by
  have hreported : { t | t ∈ cp.statePaths.insert task path } =
      insert task { t | t ∈ cp.statePaths } := by
    ext t
    simp [mem_insert]
  rw [CheckpointMeta.entry, CheckpointMeta.addState, hreported]
  rfl

theorem ledger_addState (task : TaskID) (path : Address) (manifests : GoMap TaskID Manifest)
    (hcp : s.store.checkpoints.lookup cp.key = some cp) (hopen : cp.status.inFlight = true) :
    Ledger.Move (s.ledger cp.jobID) (update (s.ledger cp.jobID) cp.id
      (some (cp.addState task path manifests).entry)) := by
  rw [entry_addState]
  exact .report cp.id cp.entry task (ledger_lookup hcp) (CheckpointMeta.verdict_eq_none hopen)

theorem ledger_complete {task : TaskID} {path : Address} (manifests : GoMap TaskID Manifest)
    (hcp : s.store.checkpoints.lookup cp.key = some cp) (hopen : cp.status.inFlight = true)
    (hsub : ∀ t, t ∈ cp.statePaths → t ∈ cp.tasks) (htask : task ∈ cp.tasks)
    (hall : (cp.statePaths.insert task path).entries.length = cp.tasks.entries.length) :
    ReflTransGen Ledger.Move (s.ledger cp.jobID) (update (s.ledger cp.jobID) cp.id
      (some ((cp.addState task path manifests).decide .completed).entry)) := by
  let new := cp.addState task path manifests
  have hstored : (s.setCheckpoint new).store.checkpoints.lookup new.key = some new :=
    lookup_put_self _ _
  have hledger : (s.setCheckpoint new).ledger new.jobID =
      update (s.ledger cp.jobID) cp.id (some new.entry) := ledger_put rfl
  have hdecide : ReflTransGen Ledger.Move ((s.setCheckpoint new).ledger new.jobID)
      (update ((s.setCheckpoint new).ledger new.jobID) new.id
        (some (new.decide .completed).entry)) :=
    ledger_decide (v := .commit) new hstored hopen rfl ?_
  · rw [hledger, show new.id = cp.id from rfl, update_idem] at hdecide
    exact .head (ledger_addState task path manifests hcp hopen) hdecide
  · -- Only expected tasks report, and as many as are expected have reported.
    intro _ t ht
    refine lookup_isSome.mp (lookup_isSome_of_size_eq (fun k hk => ?_) hall ht)
    rcases (mem_insert _).mp hk with rfl | hold
    · exact htask
    · exact hsub k hold

/-! ## Where the records come from -/

/-- The record has one of the three statuses that are used, and each task state in it goes
back to an acknowledgement that was accepted. -/
structure CheckpointMeta.Sourced (cp : CheckpointMeta) (log : List Event) : Prop where
  status : cp.status = .inProgress ∨ cp.status = .completed ∨ cp.status = .aborted
  reported : ∀ t path, cp.statePaths.lookup t = some path →
    ∃ req, .acknowledged req ∈ log ∧ req.taskID = t ∧ req.Acknowledges cp path

namespace CheckpointMeta.Sourced

variable {cp : CheckpointMeta} {log log' : List Event}

section

variable (h : cp.Sourced log)
include h

theorem mono (hlog : log ⊆ log') : cp.Sourced log' where
  status := h.status
  reported := fun t path ht =>
    (h.reported t path ht).imp fun _ hreq => ⟨hlog hreq.1, hreq.2⟩

theorem decide {status : CheckpointStatus} (hstatus : status = .completed ∨ status = .aborted) :
    (cp.decide status).Sourced log where
  status := .inr hstatus
  reported := fun t path ht =>
    (h.reported t path ht).imp fun _ hreq =>
      ⟨hreq.1, hreq.2.1, { hreq.2.2 with }⟩

theorem invalidate (reason : Option Text) : Sourced { cp with invalidReason := reason } log where
  status := h.status
  reported := fun t path ht =>
    (h.reported t path ht).imp fun _ hreq =>
      ⟨hreq.1, hreq.2.1, { hreq.2.2 with }⟩

theorem addState {req : AcknowledgeRequest} {path : Address} (manifests : GoMap TaskID Manifest)
    (hreq : req.Acknowledges cp path) (hlog : .acknowledged req ∈ log) :
    (cp.addState req.taskID path manifests).Sourced log where
  status := h.status
  reported := by
    intro t p ht
    rcases eq_or_ne t req.taskID with rfl | hne
    · obtain rfl : path = p := some.inj ((lookup_insert _).symm.trans ht)
      exact ⟨req, hlog, rfl, { hreq with }⟩
    · have hold : cp.statePaths.lookup t = some p := by
        rwa [CheckpointMeta.addState, lookup_insert_ne hne] at ht
      obtain ⟨req', hreq', htask, hack⟩ := h.reported t p hold
      exact ⟨req', hreq', htask, { hack with }⟩

/-- Only captured tasks have a state. -/
theorem mem_tasks {t : TaskID} (ht : t ∈ cp.statePaths) : t ∈ cp.tasks := by
  obtain ⟨path, hpath⟩ := isSome_iff_exists.mp (lookup_isSome.mpr ht)
  obtain ⟨req, -, rfl, hack⟩ := h.reported t path hpath
  exact lookup_isSome.mp (by rw [hack.worker]; rfl)

end

end CheckpointMeta.Sourced

theorem Move.log_append (h : Move D s s') : ∃ es, s'.log = s.log ++ es := by
  cases h with
  | frame h _ | deploy _ _ _ _ _ _ h | commit _ _ _ _ h | again _ _ _ h | trigger _ _ _ h
  | abort _ _ _ _ _ h
  | acknowledge _ _ _ _ _ _ _ _ h | complete _ _ _ _ _ _ _ _ _ h | invalidate _ _ _ _ _ h
  | forget _ _ _ _ h => exact ⟨_, h.log⟩

/-- Every record is sourced. -/
def AllSourced (s : State) : Prop := ∀ cp ∈ s.store.checkpoints.records, cp.Sourced s.log

theorem AllSourced.of_put (hs : AllSourced s)
    (hput : s'.store.checkpoints = s.store.checkpoints.put new) (hlog : s.log ⊆ s'.log)
    (hnew : new.Sourced s'.log) : AllSourced s' := by
  intro cp hcp
  rw [hput] at hcp
  rcases mem_records_put.mp hcp with rfl | ⟨hmem, -⟩
  · exact hnew
  · exact (hs cp hmem).mono hlog

theorem AllSourced.move (hs : AllSourced s) (h : Move D s s') : AllSourced s' := by
  obtain ⟨es, hes⟩ := h.log_append
  have hlog : s.log ⊆ s'.log := hes ▸ subset_append_left _ _
  have hkeep (hsame : s'.store.checkpoints = s.store.checkpoints) : AllSourced s' := by
    intro cp hcp
    rw [hsame] at hcp
    exact (hs cp hcp).mono hlog
  cases h with
  | frame h _ | deploy _ _ _ _ _ _ h | commit _ _ _ _ h | again _ _ _ h | forget _ _ _ _ h =>
    exact hkeep h.checkpoints
  | trigger cp hcp hjob h =>
    refine hs.of_put h.checkpoints hlog ⟨.inl hcp.status, fun t path ht => ?_⟩
    rw [hcp.statePaths] at ht
    cases ht
  | abort cp hready hcp hepoch hstatus h =>
    refine hs.of_put h.checkpoints hlog ?_
    exact ((hs cp (mem_records_of_lookup hcp)).mono hlog).decide (.inr rfl)
  | acknowledge cp req path manifests hready hcp hstatus hreq h =>
    refine hs.of_put h.checkpoints hlog ?_
    refine ((hs cp (mem_records_of_lookup hcp)).mono hlog).addState manifests hreq ?_
    rw [h.log]
    exact mem_append_right _ mem_cons_self
  | complete cp req path manifests hready hcp hstatus hreq hall h =>
    refine hs.of_put h.checkpoints hlog (.decide ?_ (.inl rfl))
    refine ((hs cp (mem_records_of_lookup hcp)).mono hlog).addState manifests hreq ?_
    rw [h.log]
    exact mem_append_right _ mem_cons_self
  | invalidate cp reason hready hcp req h =>
    refine hs.of_put h.checkpoints hlog ?_
    exact ((hs cp (mem_records_of_lookup hcp)).mono hlog).invalidate reason

theorem recoverCheckpoint_lookup (hs : Flights s) {epoch : ℕ} {rest : List CheckpointMeta}
    {savepoints : List SavepointMeta} (hrec : s.recovery = some ⟨epoch, cp :: rest, savepoints⟩) :
    s.store.checkpoints.lookup cp.key = some cp ∧ cp.status.inFlight = true := by
  have hcp := (hs.pending _ hrec cp).mp mem_cons_self
  exact ⟨mem_records_iff.mp hcp.1, hcp.2⟩

/-- What a step that changes the term does to the store and the log. -/
theorem TermMove.checkpoints (hs : Flights s) (h : TermMove s s') :
    s'.log = s.log ∧ (∀ q, s'.Notifies q → s.Notifies q) ∧
      (s'.store.checkpoints = s.store.checkpoints ∨
        ∃ cp, s.store.checkpoints.lookup cp.key = some cp ∧ cp.status.inFlight = true ∧
          s'.store.checkpoints = s.store.checkpoints.put (cp.decide .aborted)) := by
  cases h with
  | stepDown h | failRecovery h | recoverSavepoint _ _ _ _ h =>
    exact h ▸ ⟨rfl, fun _ h => h, .inl rfl⟩
  | crash h =>
    refine h ▸ ⟨rfl, ?_, .inl rfl⟩
    rintro q ⟨remaining, hmem⟩
    exact ⟨remaining, (mem_filter.mp hmem).1⟩
  | startRecovery o e h =>
    obtain ⟨_, rfl⟩ := ite_some_none_eq_some.mp h
    exact ⟨rfl, fun _ h => h, .inl rfl⟩
  | recoverCheckpoint epoch cp rest savepoints hrec h =>
    have hcp := recoverCheckpoint_lookup hs hrec
    exact h ▸ ⟨rfl, fun _ h => h, .inr ⟨cp, hcp.1, hcp.2, rfl⟩⟩
  | finishRecovery cfg o h =>
    rw [State.finishRecovery] at h
    split at h
    · cases h
      exact ⟨rfl, fun _ h => h, .inl rfl⟩
    · cases h

theorem AllSourced.termMove (hs : AllSourced s) (hflights : Flights s) (h : TermMove s s') :
    AllSourced s' := by
  obtain ⟨hlog, -, hsame | ⟨cp, hcp, -, hput⟩⟩ := h.checkpoints hflights
  · intro cp hcp
    rw [hsame] at hcp
    exact hlog ▸ hs cp hcp
  · refine hs.of_put hput (hlog ▸ .refl _) ?_
    exact hlog ▸ (hs cp (mem_records_of_lookup hcp)).decide (.inr rfl)

theorem allSourced (h : Reachable cfg s) : AllSourced s :=
  h.invariant (P := AllSourced) nofun fun _ _ _ hreach hs _ hstep =>
    (step_move hstep).elim hs.move (hs.termMove (flights hreach))

/-! ## The refinement, completed -/

theorem Move.ledger (hs : AllSourced s) (h : Move D s s') (j : JobID) :
    ReflTransGen Ledger.Move (s.ledger j) (s'.ledger j) := by
  have hkeep (hsame : s'.store.checkpoints = s.store.checkpoints) :
      ReflTransGen Ledger.Move (s.ledger j) (s'.ledger j) := by
    rw [ledger_congr hsame]
  cases h with
  | frame h _ | deploy _ _ _ _ _ _ h | commit _ _ _ _ h | again _ _ _ h | forget _ _ _ _ h =>
    exact hkeep h.checkpoints
  | trigger cp hcp hjob h => exact moves_of_put h.checkpoints (ledger_trigger hcp) j
  | abort cp hready hcp hepoch hstatus h =>
    refine moves_of_put h.checkpoints ?_ j
    rcases hstatus with hopen | haborted
    · exact ledger_decide cp hcp hopen rfl fun h => nomatch h
    · refine moves_of_same_entry hcp rfl ?_
      rw [CheckpointMeta.decide, ← haborted]
  | acknowledge cp req path manifests hready hcp hstatus hreq h =>
    refine moves_of_put h.checkpoints (.single ?_) j
    exact ledger_addState req.taskID path manifests hcp (by rw [hstatus]; rfl)
  | complete cp req path manifests hready hcp hstatus hreq hall h =>
    have hsourced := hs cp (mem_records_of_lookup hcp)
    have hmoves := ledger_complete manifests hcp (by rw [hstatus]; rfl)
      (fun _ ht => hsourced.mem_tasks ht) (lookup_isSome.mp (by rw [hreq.worker]; rfl)) hall
    exact moves_of_put h.checkpoints hmoves j
  | invalidate cp reason hready hcp req h =>
    exact moves_of_put h.checkpoints (moves_of_same_entry hcp rfl rfl) j

/-- **The coordinator refines the ledger**: a step is a sequence of moves of each job's
ledger. -/
theorem step_ledger {a : Action × Oracle} (hs : Reachable cfg s) (h : step cfg s a = some s')
    (j : JobID) : ReflTransGen Ledger.Move (s.ledger j) (s'.ledger j) := by
  rcases step_move h with hmove | hterm
  · exact hmove.ledger (allSourced hs) j
  · obtain ⟨-, -, hsame | ⟨cp, hcp, hopen, hput⟩⟩ := hterm.checkpoints (flights hs)
    · rw [ledger_congr hsame]
    · exact moves_of_put hput (ledger_decide cp hcp hopen rfl fun h => nomatch h) j

theorem ledger_sound (h : Reachable cfg s) (j : JobID) : (s.ledger j).Sound :=
  h.invariant (P := fun s => (s.ledger j).Sound) Ledger.sound_empty
    fun _ _ _ hreach hs _ hstep => hs.moves (step_ledger hreach hstep j)

/-- Along any run, decisions are final. -/
theorem ledger_extends (hs : Reachable cfg s) (h : Runs.Reachable (step cfg) s s') (j : JobID) :
    (s.ledger j).Extends (s'.ledger j) := by
  induction h with
  | refl => exact .refl _
  | tail hrun _ hstep ih =>
    exact ih.trans (Ledger.extends_of_moves (step_ledger (hs.trans hrun) hstep j))

/-! ## The decisions that are sent -/

/-- The store holds a decision about a checkpoint. -/
def State.Decided (s : State) (j : JobID) (id : ℕ) (v : Ledger.Verdict) : Prop :=
  ∃ e, s.ledger j id = some e ∧ e.verdict = some v

variable {id : ℕ} {j : JobID} {e : Event}

theorem State.Decided.extends (h : s.Decided j id v)
    (hext : (s.ledger j).Extends (s'.ledger j)) : s'.Decided j id v := by
  obtain ⟨e, he, hv⟩ := h
  obtain ⟨e', he', -, hv'⟩ := hext id e he
  exact ⟨e', he', (hv' (by rw [hv]; exact nofun)).trans hv⟩

theorem State.Decided.unique {w : Ledger.Verdict} (h : s.Decided j id v)
    (h' : s.Decided j id w) : v = w := by
  obtain ⟨e, he, hv⟩ := h
  obtain ⟨e', he', hw⟩ := h'
  cases some.inj (he.symm.trans he')
  exact some.inj (hv.symm.trans hw)

theorem decided_of_lookup (h : s.store.checkpoints.lookup cp.key = some cp)
    (hv : cp.verdict = some v) : s.Decided cp.jobID cp.id v :=
  ⟨cp.entry, ledger_lookup h, hv⟩

theorem decided_of_put (new : CheckpointMeta)
    (h : s'.store.checkpoints = s.store.checkpoints.put new) (hv : new.verdict = some v) :
    s'.Decided new.jobID new.id v :=
  decided_of_lookup (by rw [h, lookup_put_self]) hv

/-- A command that carries a decision carries the one that the store holds. -/
def Event.Backed (s : State) : Event → Prop
  | .enqueued _ (.commitCheckpoint _ q) => s.Decided q.jobID q.checkpointID .commit
  | .enqueued _ (.abortCheckpoint _ q) => s.Decided q.jobID q.checkpointID .abort
  | _ => True

theorem Event.Backed.of_neutral (h : e.neutral = true) : e.Backed s := by
  unfold Event.Backed
  split
  · cases h
  · cases h
  · trivial

theorem Event.Backed.extends (h : e.Backed s)
    (hext : ∀ j, (s.ledger j).Extends (s'.ledger j)) : e.Backed s' := by
  unfold Event.Backed at h ⊢
  split
  · exact .extends h (hext _)
  · exact .extends h (hext _)
  · trivial

/-- Every decision that was queued or is being sent is the one that the store holds. -/
structure Sent (s : State) : Prop where
  log : ∀ e ∈ s.log, e.Backed s
  notified : ∀ q, s.Notifies q → s.Decided q.jobID q.checkpointID .commit

namespace Sent

variable {s s' : State}

theorem of_extends (hs : Sent s) (hext : ∀ j, (s.ledger j).Extends (s'.ledger j))
    {es : List Event} (hlog : s'.log = s.log ++ es) (hnew : ∀ e ∈ es, e.Backed s')
    (hnotified : ∀ q, s'.Notifies q → s.Notifies q ∨ s'.Decided q.jobID q.checkpointID .commit) :
    Sent s' where
  log := by
    rw [hlog]
    intro e he
    rcases mem_append.mp he with hold | hes
    · exact (hs.log e hold).extends hext
    · exact hnew e hes
  notified := fun q hq =>
    (hnotified q hq).elim (fun hold => (hs.notified q hold).extends (hext _)) id

/-- Only a new notifier sends a new decision. -/
theorem notifies_spawn {q : CheckpointRequest} (h : (s.spawn cp.notifier).Notifies q) :
    s.Notifies q ∨ q = cp.request := by
  obtain ⟨remaining, hmem⟩ := h
  rcases mem_append.mp hmem with hold | hnew
  · exact .inl ⟨remaining, hold⟩
  · cases mem_singleton.mp hnew
    exact .inr rfl

theorem move (hs : Sent s) (hsourced : AllSourced s) (h : Move D s s') : Sent s' := by
  have hext (j : JobID) : (s.ledger j).Extends (s'.ledger j) :=
    Ledger.extends_of_moves (h.ledger hsourced j)
  cases h with
  | frame h hes =>
    exact hs.of_extends hext h.log (fun e he => .of_neutral (hes e he)) fun q hq =>
      .inl (h.notifies q hq)
  | deploy _ _ _ _ _ _ h | trigger _ _ _ h | acknowledge _ _ _ _ _ _ _ _ h
  | invalidate _ _ _ _ _ h =>
    exact hs.of_extends hext h.log (by simp [Event.Backed]) fun q hq => .inl (h.notifies q hq)
  | commit w t q hq h =>
    refine hs.of_extends hext h.log ?_ fun q hq => .inl (h.notifies q hq)
    intro e he
    cases mem_singleton.mp he
    exact (hs.notified q hq).extends (hext _)
  | again cp hcp hstatus h =>
    refine hs.of_extends hext h.log nofun fun q hq => ?_
    rcases notifies_spawn (h.notifies q hq) with hold | rfl
    · exact .inl hold
    · refine .inr (.extends (decided_of_lookup hcp ?_) (hext _))
      rw [CheckpointMeta.verdict, hstatus]
  | abort cp hready hcp hepoch hstatus h =>
    have haborted : s'.Decided cp.jobID cp.id .abort :=
      decided_of_put (cp.decide .aborted) h.checkpoints rfl
    refine hs.of_extends hext h.log ?_ fun q hq => .inl (h.notifies q hq)
    intro e he
    rcases mem_append.mp he with hfirst | hcommand
    · split at hfirst
      · cases hfirst
      · cases mem_singleton.mp hfirst
        trivial
    · obtain ⟨t, -, rfl⟩ := mem_map.mp hcommand
      exact haborted
  | complete cp req path manifests hready hcp hstatus hreq hall h =>
    refine hs.of_extends hext h.log (by simp [Event.Backed]) fun q hq => ?_
    rcases notifies_spawn (h.notifies q hq) with hold | rfl
    · exact .inl hold
    · exact .inr (decided_of_put _ h.checkpoints rfl)
  | forget j cp hcp hepoch h =>
    exact hs.of_extends hext h.log nofun fun q hq => .inl (h.notifies q hq)

theorem termMove (hs : Sent s) (hflights : Flights s)
    (hext : ∀ j, (s.ledger j).Extends (s'.ledger j)) (h : TermMove s s') : Sent s' := by
  obtain ⟨hlog, hnotifies, -⟩ := h.checkpoints hflights
  exact hs.of_extends hext (hlog.trans (append_nil _).symm) nofun fun q hq =>
    .inl (hnotifies q hq)

end Sent

theorem sent (h : Reachable cfg s) : Sent s := by
  refine h.invariant ⟨nofun, fun q hq => ?_⟩ fun s a s' hreach hs _ hstep => ?_
  · obtain ⟨remaining, hmem⟩ := hq
    cases hmem
  · rcases step_move hstep with hmove | hterm
    · exact hs.move (allSourced hreach) hmove
    · exact hs.termMove (flights hreach)
        (fun j => Ledger.extends_of_moves (step_ledger hreach hstep j)) hterm

/-! ## Checkpoint ids -/

/-- The id an event gives to a new checkpoint of the job. -/
def Event.triggeredID (j : JobID) : Event → Option ℕ
  | .triggered i id _ => if i = j then some id else none
  | _ => none

/-- The ids given to the checkpoints of a job, in the order of their triggers. -/
def triggeredIDs (log : List Event) (j : JobID) : List ℕ := log.filterMap (Event.triggeredID j)

theorem triggeredIDs_append (log es : List Event) (j : JobID) :
    triggeredIDs (log ++ es) j = triggeredIDs log j ++ triggeredIDs es j :=
  filterMap_append

/-- The ids are increasing, and they are the ids of the records in the store. -/
structure Numbered (s : State) : Prop where
  increasing : ∀ j, (triggeredIDs s.log j).Pairwise (· < ·)
  stored : ∀ j id, id ∈ triggeredIDs s.log j ↔ ∃ cp ∈ s.store.checkpointsOf j, cp.id = id

namespace Numbered

variable {s s' : State}

theorem mem_checkpointsOf {st : Store} {j : JobID} :
    cp ∈ st.checkpointsOf j ↔ cp ∈ st.checkpoints.records ∧ cp.jobID = j := by
  simp [Store.checkpointsOf]

/-- No new id, and the same records up to their content. -/
theorem keep (hs : Numbered s) {es : List Event} (hlog : s'.log = s.log ++ es)
    (hes : ∀ j, triggeredIDs es j = [])
    (hrecords : ∀ j id, (∃ cp ∈ s'.store.checkpointsOf j, cp.id = id) ↔
      ∃ cp ∈ s.store.checkpointsOf j, cp.id = id) : Numbered s' where
  increasing := fun j => by
    rw [hlog, triggeredIDs_append, hes, append_nil]
    exact hs.increasing j
  stored := fun j id => by
    rw [hlog, triggeredIDs_append, hes, append_nil, hrecords]
    exact hs.stored j id

/-- Writing a record under a key that is in use. -/
theorem records_put (hput : s'.store.checkpoints = s.store.checkpoints.put new)
    (hcp : s.store.checkpoints.lookup cp.key = some cp) (hkey : new.key = cp.key) (j : JobID)
    (id : ℕ) :
    (∃ x ∈ s'.store.checkpointsOf j, x.id = id) ↔ ∃ x ∈ s.store.checkpointsOf j, x.id = id := by
  obtain ⟨hjob, hid⟩ := mk.inj (show (new.jobID, new.id) = (cp.jobID, cp.id) from hkey)
  have hmem := mem_records_of_lookup hcp
  constructor
  · rintro ⟨x, hx, rfl⟩
    rw [mem_checkpointsOf, hput, mem_records_put] at hx
    rcases hx with ⟨rfl | ⟨hold, -⟩, hj⟩
    · exact ⟨cp, mem_checkpointsOf.mpr ⟨hmem, hjob.symm.trans hj⟩, hid.symm⟩
    · exact ⟨x, mem_checkpointsOf.mpr ⟨hold, hj⟩, rfl⟩
  · rintro ⟨x, hx, rfl⟩
    rw [mem_checkpointsOf] at hx
    by_cases hsame : x.key = new.key
    · obtain ⟨hxjob, hxid⟩ := mk.inj (show (x.jobID, x.id) = (new.jobID, new.id) from hsame)
      refine ⟨new, mem_checkpointsOf.mpr ⟨?_, hxjob ▸ hx.2⟩, hxid.symm⟩
      rw [hput]
      exact mem_records_put.mpr (.inl rfl)
    · refine ⟨x, mem_checkpointsOf.mpr ⟨?_, hx.2⟩, rfl⟩
      rw [hput]
      exact mem_records_put.mpr (.inr ⟨hx.1, hsame⟩)

theorem trigger (hs : Numbered s) (hcp : Opens s cp)
    (hput : s'.store.checkpoints = s.store.checkpoints.put cp)
    (hlog : s'.log = s.log ++ [.triggered cp.jobID cp.id cp.attemptID]) : Numbered s' := by
  have hids (j : JobID) : triggeredIDs s'.log j =
      triggeredIDs s.log j ++ if cp.jobID = j then [cp.id] else [] := by
    rw [hlog, triggeredIDs_append]
    congr 1
    by_cases hj : cp.jobID = j <;> simp [triggeredIDs, Event.triggeredID, hj]
  constructor
  · intro j
    rw [hids, pairwise_append]
    refine ⟨hs.increasing j, by split <;> simp, fun id hid n hn => ?_⟩
    split at hn
    · next hj =>
      obtain ⟨x, hx, rfl⟩ := (hs.stored j id).mp hid
      rw [mem_singleton.mp hn]
      exact (hcp.fresh x (hj ▸ hx)).2
    · cases hn
  · intro j id
    rw [hids, mem_append, hs.stored]
    simp only [mem_checkpointsOf, hput, mem_records_put]
    constructor
    · rintro (⟨x, ⟨hx, hj⟩, rfl⟩ | hnew)
      · refine ⟨x, ⟨.inr ⟨hx, fun hkey => ?_⟩, hj⟩, rfl⟩
        obtain ⟨hjob, hid⟩ := mk.inj (show (x.jobID, x.id) = (cp.jobID, cp.id) from hkey)
        exact (hcp.fresh x (mem_checkpointsOf.mpr ⟨hx, hjob⟩)).2.ne hid
      · split at hnew
        · next hj => exact ⟨cp, ⟨.inl rfl, hj⟩, (mem_singleton.mp hnew).symm⟩
        · cases hnew
    · rintro ⟨x, ⟨rfl | ⟨hx, -⟩, hj⟩, rfl⟩
      · exact .inr (by rw [if_pos hj]; exact mem_singleton_self _)
      · exact .inl ⟨x, ⟨hx, hj⟩, rfl⟩

theorem move (hs : Numbered s) (h : Move D s s') : Numbered s' := by
  have hsame (h : s'.store.checkpoints = s.store.checkpoints) (j : JobID) (id : ℕ) :
      (∃ cp ∈ s'.store.checkpointsOf j, cp.id = id) ↔
        ∃ cp ∈ s.store.checkpointsOf j, cp.id = id := by
    rw [Store.checkpointsOf, h, Store.checkpointsOf]
  cases h with
  | frame h hes =>
    refine hs.keep h.log (fun j => filterMap_eq_nil_iff.mpr fun e he => ?_)
      (hsame h.checkpoints)
    cases e with
    | enqueued | called | reported | contacted => rfl
    | _ => exact nomatch hes _ he
  | deploy _ _ _ _ _ _ h | commit _ _ _ _ h | again _ _ _ h | forget _ _ _ _ h =>
    exact hs.keep h.log (fun _ => rfl) (hsame h.checkpoints)
  | trigger cp hcp hjob h => exact hs.trigger hcp h.checkpoints h.log
  | abort cp hready hcp hepoch hstatus h =>
    refine hs.keep h.log (fun j => ?_) (records_put h.checkpoints hcp rfl)
    refine filterMap_eq_nil_iff.mpr fun e he => ?_
    rcases mem_append.mp he with hfirst | hcommand
    · split at hfirst
      · cases hfirst
      · cases mem_singleton.mp hfirst
        rfl
    · obtain ⟨t, -, rfl⟩ := mem_map.mp hcommand
      rfl
  | acknowledge _ _ _ _ _ hcp _ _ h | complete _ _ _ _ _ hcp _ _ _ h | invalidate _ _ _ hcp _ h =>
    exact hs.keep h.log (fun _ => rfl) (records_put h.checkpoints hcp rfl)

theorem termMove (hs : Numbered s) (hflights : Flights s) (h : TermMove s s') : Numbered s' := by
  obtain ⟨hlog, -, hsame | ⟨cp, hcp, -, hput⟩⟩ := h.checkpoints hflights
  · refine hs.keep (hlog.trans (append_nil _).symm) (fun _ => rfl) fun j id => ?_
    rw [Store.checkpointsOf, hsame, Store.checkpointsOf]
  · exact hs.keep (hlog.trans (append_nil _).symm) (fun _ => rfl) (records_put hput hcp rfl)

end Numbered

theorem numbered (h : Reachable cfg s) : Numbered s := by
  refine h.invariant ⟨fun _ => .nil, fun j id => ?_⟩
    fun _ _ _ hreach hs _ hstep => (step_move hstep).elim hs.move (hs.termMove (flights hreach))
  simp [State.initial, triggeredIDs, Store.checkpointsOf, EmptyCollection.emptyCollection]

/-! ## Agreement -/

/-- A status that is used is determined by the verdict. -/
theorem status_of_verdict {cp' : CheckpointMeta} {log log' : List Event} (h : cp.Sourced log)
    (h' : cp'.Sourced log') (hv : cp'.verdict = cp.verdict) : cp'.status = cp.status := by
  rw [CheckpointMeta.verdict, CheckpointMeta.verdict] at hv
  rcases h.status with hs | hs | hs <;> rcases h'.status with hs' | hs' | hs' <;>
    rw [hs, hs'] at hv ⊢ <;> cases hv

/-- A completed checkpoint has been acknowledged by all of its tasks. -/
theorem acknowledged_of_completed (h : Reachable cfg s) (hcp : cp ∈ s.store.checkpoints.records)
    (hstatus : cp.status = .completed) {t : TaskID} (ht : t ∈ cp.tasks) :
    ∃ req path, .acknowledged req ∈ s.log ∧ req.taskID = t ∧ req.Acknowledges cp path := by
  have hall := (ledger_sound h cp.jobID).complete cp.id _
    (ledger_lookup (mem_records_iff.mp hcp)) (by
      rw [CheckpointMeta.entry, CheckpointMeta.verdict, hstatus])
  have hreported : t ∈ cp.statePaths := hall ht
  obtain ⟨path, hpath⟩ := isSome_iff_exists.mp (lookup_isSome.mpr hreported)
  obtain ⟨req, hreq, htask, hack⟩ := (allSourced h cp hcp).reported t path hpath
  exact ⟨req, path, hreq, htask, hack⟩

/-- **Checkpoint decision agreement.**  In every state the coordinator can reach, through any
interleaving of requests, goroutines, failed writes and restarts, for every job: at most one
checkpoint is in flight; the ids of its checkpoints increase; a record is in progress,
completed or aborted, and once it is not in progress it keeps its status in every later state;
a completed checkpoint has an accepted acknowledgement of every captured task, from its worker,
for the checkpoint's attempt and with the state at its replica; and no checkpoint has both a
commit and an abort command. -/
theorem checkpoint_decisions_agree {cfg : Config} {s : State} (h : Reachable cfg s) (j : JobID) :
    (∀ x ∈ s.store.checkpointsOf j, ∀ y ∈ s.store.checkpointsOf j,
      x.status.inFlight = true → y.status.inFlight = true → x = y) ∧
    (triggeredIDs s.log j).Pairwise (· < ·) ∧
    (∀ cp ∈ s.store.checkpointsOf j,
      (cp.status = .inProgress ∨ cp.status = .completed ∨ cp.status = .aborted) ∧
      ∀ s', Runs.Reachable (step cfg) s s' → ∃ cp' ∈ s'.store.checkpointsOf j,
        cp'.id = cp.id ∧ (cp.status ≠ .inProgress → cp'.status = cp.status)) ∧
    (∀ cp ∈ s.store.checkpointsOf j, cp.status = .completed →
      ∀ t w, cp.tasks.lookup t = some w → ∃ req path, .acknowledged req ∈ s.log ∧
        req.taskID = t ∧ req.workerID = w ∧ req.Acknowledges cp path) ∧
    (∀ w t q w' t' q', .enqueued w (.commitCheckpoint t q) ∈ s.log →
      .enqueued w' (.abortCheckpoint t' q') ∈ s.log → q.jobID = j → q'.jobID = j →
      q.checkpointID ≠ q'.checkpointID) := by
  have hsound := ledger_sound h j
  have hstored : ∀ cp ∈ s.store.checkpointsOf j,
      s.ledger j cp.id = some cp.entry ∧ cp.Sourced s.log := by
    intro cp hcp
    rw [Numbered.mem_checkpointsOf] at hcp
    exact ⟨hcp.2 ▸ ledger_lookup (mem_records_iff.mp hcp.1), allSourced h cp hcp.1⟩
  refine ⟨fun x hx y hy hxf hyf => ?_, (numbered h).increasing j, fun cp hcp => ?_,
    fun cp hcp hstatus t w ht => ?_, ?_⟩
  · have hid : x.id = y.id := hsound.eq_of_undecided (hstored x hx).1 (hstored y hy).1
      (CheckpointMeta.verdict_eq_none hxf) (CheckpointMeta.verdict_eq_none hyf)
    rw [Numbered.mem_checkpointsOf] at hx hy
    have hkey : x.key = y.key := by
      rw [CheckpointMeta.key, CheckpointMeta.key, hx.2, hy.2, hid]
    exact inj_on_of_nodup_map s.store.checkpoints.nodup hx.1 hy.1 hkey
  · refine ⟨(hstored cp hcp).2.status, fun s' hrun => ?_⟩
    obtain ⟨e, he, -, hverdict⟩ := ledger_extends h hrun j cp.id _ (hstored cp hcp).1
    obtain ⟨cp', hlookup, rfl⟩ := map_eq_some_iff.mp he
    have hmem := mem_records_of_lookup hlookup
    have hid := Store.identity hlookup
    refine ⟨cp', Numbered.mem_checkpointsOf.mpr ⟨hmem, hid.1⟩, hid.2, fun hopen => ?_⟩
    refine status_of_verdict (hstored cp hcp).2 (allSourced (h.trans hrun) cp' hmem)
      (hverdict (CheckpointMeta.verdict_ne_none ?_))
    rcases (hstored cp hcp).2.status with hs | hs | hs
    · exact absurd hs hopen
    · rw [hs]; rfl
    · rw [hs]; rfl
  · obtain ⟨req, path, hreq, rfl, hack⟩ := acknowledged_of_completed h
      (Numbered.mem_checkpointsOf.mp hcp).1 hstatus (lookup_isSome.mp (by rw [ht]; rfl))
    exact ⟨req, path, hreq, rfl, some.inj (hack.worker.symm.trans ht), hack⟩
  · intro w t q w' t' q' hcommit habort hq hq' hid
    have hc : s.Decided q.jobID q.checkpointID .commit := (sent h).log _ hcommit
    have ha : s.Decided q'.jobID q'.checkpointID .abort := (sent h).log _ habort
    rw [hq] at hc
    rw [hq', ← hid] at ha
    cases hc.unique ha

open Sample

/-- A checkpoint that is triggered, acknowledged and completed. -/
def completedRun : List (Action × Oracle) :=
  start ++ deploy 1 ++ reported 0 1 .running ++
    each [.triggerCheckpoint 0 none false, acknowledge 1 1 false, .proceed 1]

/-- The captured task has acknowledged the checkpoint that was completed. -/
theorem checkpoint_decisions_agree_completed : ∃ s, Reachable config s ∧ .completed 0 1 ∈ s.log ∧
    (triggeredIDs s.log 0).Pairwise (· < ·) ∧
    ∃ cp ∈ s.store.checkpointsOf 0, ∃ req path, .acknowledged req ∈ s.log ∧ req.taskID = 10 ∧
      req.workerID = 1 ∧ req.Acknowledges cp path := by
  obtain ⟨s, hs, hlog, cp, hcp, hstatus, htask⟩ :=
    Runs.reachable_of_run (step config) State.initial completedRun
    (p := fun s => .completed 0 1 ∈ s.log ∧ ∃ cp ∈ s.store.checkpointsOf 0,
      cp.status = .completed ∧ cp.tasks.lookup 10 = some 1) (by decide)
  obtain ⟨-, hincreasing, -, hacknowledged, -⟩ := checkpoint_decisions_agree hs 0
  exact ⟨s, hs, hlog, hincreasing, cp, hcp, hacknowledged cp hcp hstatus 10 1 htask⟩

end Wire.Coordinator
