import Wire.Coordinator.Versions

/-!
# Transitions that fail, and one that is never made

Two things about the state machine of a job.

`transitionJob` checks the transition first, then changes the record and gives the name of a
finished job back, and writes last.  A transition that the table does not allow leaves everything
as it was.  A transition that is allowed and whose write fails leaves the changed record in memory
and the name free, while the store has the old record (`failed_transition_iff`).

The table lets a CANCELING job become CANCELED, and a FAILING one too.  Nothing in the coordinator
asks for that transition: the handler of task reports acts on DEPLOYING and RUNNING jobs, the loss
of a worker on DEPLOYING, RUNNING and FAILING ones, and the scheduler on CREATED and FAILING ones.
So in no run is a job ever CANCELED (`uncanceled`), and a job that was cancelled keeps its name for
good (`canceling_forever`).
-/

namespace Wire.Coordinator

/-! ## Failed transitions -/

/-- The records, in memory and in the store, and the names in use are the same. -/
def State.SameJobs (s s' : State) : Prop :=
  s'.records = s.records ∧ s'.mem.activeJobNames = s.mem.activeJobNames

/-- No status is a transition of itself. -/
theorem ne_of_mem_validTransitions {status target : JobStatus}
    (h : target ∈ validTransitions status) : target ≠ status := by
  rintro rfl
  cases target with
  | _ => simp [validTransitions] at h

theorem status_transition (cfg : Config) (now : Time) (target : JobStatus) (m : JobMeta) :
    (m.transition cfg now target).status = target := rfl

/-- **A transition that fails changes nothing** exactly when it is one that the state machine does
not allow. -/
theorem failed_transition_iff {cfg : Config} {o : Oracle} {s : State} {r : Ref}
    {target : JobStatus} (h : (s.transition cfg o r target).2 = false) :
    s.SameJobs (s.transition cfg o r target).1 ↔ target ∉ validTransitions (s.deref r).status := by
  rw [State.transition] at h ⊢
  split
  · next htarget =>
    rw [if_pos htarget] at h
    split
    · next hwritten =>
      rw [if_pos hwritten] at h
      cases h
    · refine iff_of_false (fun hsame => ?_) (not_not.mpr htarget)
      have hheap : Function.update s.mem.heap r ((s.deref r).transition cfg o.now target) =
          s.mem.heap := congrArg Records.heap hsame.1
      have hstatus := congrArg JobMeta.status (congrFun hheap r)
      rw [Function.update_self, status_transition] at hstatus
      exact ne_of_mem_validTransitions htarget hstatus
  · next htarget => exact iff_of_true ⟨rfl, rfl⟩ htarget

open Sample List Option Runs

/-- The only task of the job has finished, and the job is about to be. -/
def finishingRun : List (Action × Oracle) :=
  start ++ deploy 1 ++ reported 0 1 .running ++
    each [report 1 .finished, .proceed 0, .proceed 0]

/-- The job cannot run again, and the attempt to make it changes nothing. -/
theorem failed_transition_iff_finishing : ∃ s, Reachable config s ∧
    (s.deref ⟨0, 1⟩).status = .finishing ∧ s.mem.activeJobNames 0 = some 0 ∧
    (s.transition config oracle ⟨0, 1⟩ .running).2 = false ∧
    s.SameJobs (s.transition config oracle ⟨0, 1⟩ .running).1 := by
  obtain ⟨s, hs, hstatus, hname, hfailed⟩ :=
    reachable_of_run (step config) State.initial finishingRun
    (p := fun s => (s.deref ⟨0, 1⟩).status = .finishing ∧ s.mem.activeJobNames 0 = some 0 ∧
      (s.transition config oracle ⟨0, 1⟩ .running).2 = false) (by decide)
  refine ⟨s, hs, hstatus, hname, hfailed, (failed_transition_iff hfailed).mpr ?_⟩
  rw [hstatus]
  decide

/-- The write of the last transition fails: the job is FINISHED in memory, its name is free, and
the store has it FINISHING. -/
theorem failed_transition_releases : ∃ s s', Reachable config s ∧
    s.transition config { oracle with written := false } ⟨0, 1⟩ .finished =
        (s', false) ∧
      s.mem.activeJobNames 0 = some 0 ∧ s'.mem.activeJobNames 0 = none ∧
      (s'.deref ⟨0, 1⟩).status = .finished ∧
      (∃ m, s'.store.jobs 0 = some m ∧ m.status = .finishing) ∧ ¬ s.SameJobs s' := by
  obtain ⟨s, hs, hfailed, hname, hfree, hstatus, hstored⟩ :=
    reachable_of_run (step config) State.initial finishingRun
    (p := fun s =>
      let result := s.transition config { oracle with written := false } ⟨0, 1⟩ .finished
      result.2 = false ∧ s.mem.activeJobNames 0 = some 0 ∧ result.1.mem.activeJobNames 0 = none ∧
        (result.1.deref ⟨0, 1⟩).status = .finished ∧
        ∃ m ∈ result.1.store.jobs 0, m.status = .finishing) (by decide)
  refine ⟨s, _, hs, Prod.ext rfl hfailed, hname, hfree, hstatus, hstored, fun hsame => ?_⟩
  rw [hsame.2, hname] at hfree
  cases hfree

/-! ## No job is ever canceled -/

/-- What a step may ask for is not the status CANCELED. -/
def Rights.Uncanceled (L : Rights) : Prop := ∀ target, L.asks target → target ≠ .canceled

theorem Revision.status_ne_canceled {cfg : Config} {now : Time} {L : Rights} {mem : Memory}
    {j : JobID} {m m' : JobMeta} (h : Revision cfg now L mem j m m') (hL : L.Uncanceled)
    (hm : m.status ≠ .canceled) : m'.status ≠ .canceled := by
  cases h with
  | transition target htarget hask => exact hL target hask
  | fail | rescale => rintro ⟨⟩
  | charge final =>
    rw [JobMeta.chargeCheckpointFailure]
    split
    · rintro ⟨⟩
    · exact hm
  | refund charged =>
    rw [JobMeta.refund]
    split <;> exact hm
  | rollBack | placementFailure => exact hm

/-- No record, in memory or in the store, is CANCELED. -/
structure Records.Uncanceled (R : Records) : Prop where
  heap : ∀ r, (R.heap r).status ≠ .canceled
  stored : ∀ j m, R.stored j = some m → m.status ≠ .canceled

namespace Records.Uncanceled

variable {R : Records} {r : Ref} {j : JobID} {m : JobMeta}

section

variable (h : R.Uncanceled)
include h

section

variable (hm : m.status ≠ .canceled)
include hm

theorem assign : (R.assign r m).Uncanceled where
  heap := by
    intro u
    rw [Records.assign]
    rcases eq_or_ne u r with rfl | hne
    · simpa using hm
    · simpa [Function.update_of_ne hne] using h.heap u
  stored := h.stored

theorem persist : (R.persist j m).Uncanceled where
  heap := h.heap
  stored := by
    intro i m' hm'
    rcases stored_persist hm' with ⟨-, rfl⟩ | hold
    · exact hm
    · exact h.stored i m' hold

theorem adopt : (R.adopt j m).Uncanceled := by
  have hassign : (R.assign ⟨j, R.nextSerial⟩ m).Uncanceled := h.assign hm
  exact { hassign with }

theorem replace : (R.replace r m).Uncanceled :=
  (h.persist hm).assign hm

theorem revise : (R.revise r m).Uncanceled :=
  ⟨(h.replace hm).heap, (h.replace hm).stored⟩

end

theorem lower (id : ℕ) : (R.lower r id).Uncanceled := by
  have hm : ({ R.heap r with latestCheckpoint := id } : JobMeta).status ≠ .canceled := h.heap r
  exact ((h.persist hm).adopt hm).assign hm

end

theorem recovered {st : Store} (h : ∀ j m, st.jobs j = some m → m.status ≠ .canceled) :
    (Records.recovered st).Uncanceled where
  heap := by
    intro r
    rw [Records.recovered]
    dsimp only
    cases hj : st.jobs r.job with
    | none => exact nofun
    | some m => exact h r.job m hj
  stored := h

end Records.Uncanceled

theorem RecordMove.uncanceled {cfg : Config} {o : Oracle} {L : Rights} {mem : Memory} {st : Store}
    {issued issued' : List JobID} {R : Records} {es : List Event}
    (h : RecordMove cfg o L mem st issued R es issued') (hL : L.Uncanceled)
    (hs : (Records.of mem st).Uncanceled) : R.Uncanceled := by
  cases h with
  | same => exact hs
  | unsaved _ r hr target htarget hask => exact hs.assign (hL target hask)
  | revise _ r hr m hm => exact hs.revise (hm.status_ne_canceled hL (hs.heap r))
  | trigger r hr hrunning =>
    have hm : (mem.heap r).status ≠ .canceled := hs.heap r
    exact hs.replace hm
  | complete r hr cp =>
    refine hs.replace ?_
    rw [JobMeta.checkpointCompleted]
    split <;> exact hs.heap r
  | lower r hr hpublishes cp => exact hs.lower cp.id
  | deploy r hr hpublishes attempt boundary =>
    refine .replace ?_ (by rintro ⟨⟩)
    rw [Records.fallBack]
    split
    · exact hs
    · exact hs.lower boundary
  | submit => exact hs.adopt (by rintro ⟨⟩)
  | submitted => exact hs.persist (by rintro ⟨⟩)
  | drop => exact { hs with }
  | crash => exact ⟨by rintro _ ⟨⟩, hs.stored⟩
  | recover => exact .recovered hs.stored

/-- No record is CANCELED, and no goroutine asks for it. -/
structure Uncanceled (s : State) : Prop where
  records : s.records.Uncanceled
  threads : ∀ t ∈ s.threads, .canceled ∉ t.asks

namespace Uncanceled

variable {cfg : Config} {s s' : State} {a : Action × Oracle}

theorem initial : Uncanceled State.initial where
  records := ⟨fun _ => nofun, fun _ m h => absurd h.symm (some_ne_none m)⟩
  threads := nofun

/-- A new goroutine does not ask for it either. -/
theorem asks_spawned {run : Option Thread} {R : Records} {log : List Event} {t : Thread}
    (hrun : ∀ u, run = some u → .canceled ∉ u.asks) (h : Spawned cfg run s R log t) :
    .canceled ∉ t.asks := by
  cases h with
  | ordinary ht =>
    cases t with
    | transitions origin r targets =>
      cases origin with
      | report => cases ht
      | _ =>
        have htargets : .canceled ∉ targets := by simpa [Thread.ordinary] using ht
        exact htargets
    | deliver | cancelJob => simp [Thread.asks]
    | _ => exact not_mem_nil
  | consequence r status attempt hran targets htargets =>
    exact htargets ▸ canceled_notMem_reportTargets s r status
  | transitions origin r target targets hran =>
    exact fun hmem => hrun _ hran (mem_cons_of_mem target hmem)
  | deliver | delivering => simp [Thread.asks]
  | _ => exact not_mem_nil

theorem step (hs : Uncanceled s) (h : step cfg s a = some s') : Uncanceled s' := by
  have hrun : ∀ u, s.running a.1 = some u → .canceled ∉ u.asks :=
    fun u hu => hs.threads u (State.mem_of_running hu)
  obtain ⟨es, hrecords, -⟩ := step_records h
  refine ⟨hrecords.uncanceled ?_ hs.records, fun t ht => ?_⟩
  · rintro target ⟨u, hu, hask⟩ rfl
    exact hrun u hu hask
  · rcases (step_moved h).threads t ht with hold | hnew
    · exact hs.threads t hold
    · exact asks_spawned hrun hnew

end Uncanceled

/-- **No job is ever CANCELED.** -/
theorem uncanceled {cfg : Config} {s : State} (h : Reachable cfg s) : Uncanceled s :=
  h.invariant .initial fun _ _ _ _ hs _ hstep => hs.step hstep

/-- Every task of the persisted assignment of a job is recorded terminal, or there is none. -/
def State.TasksTerminal (s : State) (j : JobID) : Prop :=
  ∀ found, s.store.assignments j = some found → ∀ t ∈ found.assignments,
    (s.mem.taskStatuses t).any (·.isTerminal) = true

/-- **A cancellation is not completed.**  After `CancelJob` has succeeded, the completion that is
due once all tasks are terminal is there in exactly those states in which it is not due.  The two
hypotheses about the step say which step it is and are not needed: no record is ever CANCELED. -/
theorem cancellation_completed_iff {cfg : Config} {s₀ s₁ s : State} (h₀ : Reachable cfg s₀) {i : ℕ}
    {o : Oracle} {r : Ref} {m : JobMeta} (_hcancel : s₀.threads[i]? = some (.cancelJob r))
    (_hvalid : (s₀.transition cfg o r .canceling).2 = true)
    (h₁ : step cfg s₀ (.proceed i, o) = some s₁) (h : Runs.Reachable (step cfg) s₁ s)
    (hm : s.records.cached r.job = some m) :
    (s.TasksTerminal r.job → m.status = .canceled ∧ s.mem.activeJobNames m.name = none) ↔
      ¬ s.TasksTerminal r.job := by
  have hreach : Reachable cfg s := .trans (h₀.next h₁) h
  refine ⟨fun hdue hterminal => ?_, fun hnot hterminal => absurd hterminal hnot⟩
  obtain ⟨u, -, rfl⟩ := map_eq_some_iff.mp hm
  exact (uncanceled hreach).records.heap _ (hdue hterminal).1

/-- The job that a goroutine is about to cancel. -/
def State.cancelling (s : State) (i : ℕ) : Option Ref :=
  match s.threads[i]? with
  | some (.cancelJob r) => some r
  | _ => none

theorem State.threads_of_cancelling {s : State} {i : ℕ} {r : Ref} (h : s.cancelling i = some r) :
    s.threads[i]? = some (.cancelJob r) := by
  rw [State.cancelling] at h
  split at h
  · next r' hthread =>
    cases h
    exact hthread
  · cases h

/-- The job is about to be cancelled while it runs. -/
def cancelingRun : List (Action × Oracle) :=
  start ++ deploy 1 ++ reported 0 1 .running ++ each [.cancelJob 0]

/-- Before its task has reported, the cancelled job need not be CANCELED. -/
theorem cancellation_completed_iff_pending : ∃ s₀ s₁ m, Reachable config s₀ ∧
    step config s₀ (.proceed 0, oracle) = some s₁ ∧
    s₁.records.cached 0 = some m ∧
    (s₁.TasksTerminal 0 → m.status = .canceled ∧ s₁.mem.activeJobNames m.name = none) := by
  obtain ⟨s₀, hs, hcancelling, hvalid, s₁, hstep, ⟨m, hm, -⟩, found, hfound, htask, hrunning⟩ :=
    reachable_of_run (step config) State.initial cancelingRun
    (p := fun s => s.cancelling 0 = some ⟨0, 1⟩ ∧
      (s.transition config oracle ⟨0, 1⟩ .canceling).2 = true ∧
      ∃ s' ∈ step config s (.proceed 0, oracle), (∃ m ∈ s'.records.cached 0, True) ∧
        ∃ found ∈ s'.store.assignments 0,
          10 ∈ found.assignments ∧ s'.mem.taskStatuses 10 = some .running) (by decide)
  have hpending : ¬ s₁.TasksTerminal 0 := fun hterminal => by
    have := hterminal found hfound 10 htask
    rw [hrunning] at this
    cases this
  exact ⟨s₀, s₁, m, hs, hstep, hm,
    (cancellation_completed_iff hs (State.threads_of_cancelling hcancelling) hvalid hstep .refl
      hm).mpr hpending⟩

/-- The task then reports that it was cancelled, and every goroutine comes to its end. -/
def canceledRun : List (Action × Oracle) :=
  cancelingRun ++ each
    [.proceed 0, .proceed 0, report 1 .canceled, .proceed 0, .proceed 0]

/-- The task is terminal and nothing is left to be done; the job is still CANCELING, and its name
cannot be submitted again. -/
theorem canceling_forever : ∃ s m, Reachable config s ∧ s.threads = [] ∧ s.TasksTerminal 0 ∧
    s.records.cached 0 = some m ∧ m.status = .canceling ∧
    s.mem.activeJobNames m.name = some 0 ∧
    step config s (.submitJob 1 m.name 0 1, oracle) = none := by
  obtain ⟨s, hs, hthreads, hterminal, m, hm, h⟩ :=
    reachable_of_run (step config) State.initial canceledRun
    (p := fun s => s.threads = [] ∧ (∀ found ∈ s.store.assignments 0,
        ∀ t ∈ found.assignments.keys, (s.mem.taskStatuses t).any (·.isTerminal) = true) ∧
      ∃ m ∈ s.records.cached 0, m.status = .canceling ∧ s.mem.activeJobNames m.name = some 0 ∧
        (step config s (.submitJob 1 m.name 0 1, oracle)).isNone) (by decide)
  exact ⟨s, m, hs, hthreads, hterminal, hm, h.1, h.2.1, isNone_iff_eq_none.mp h.2.2⟩

end Wire.Coordinator
