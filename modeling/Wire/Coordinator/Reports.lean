import Wire.Coordinator.StateMachine

/-!
# Reports of tasks, and the tasks that have finished

`HandleUpdateTaskStatus` works in two parts.  Under the lock it checks the report against the
persisted assignment and notes the status; then it lets the lock go, and draws the consequences for
the job in critical sections of their own.  Nothing is checked again there.  A handler that
validated a report against one attempt can therefore be overtaken by a complete redeployment and
fail the next attempt (`stale_report_fails_attempt`).  What is true is that handlers and their
attempts stay together as long as no deployment is published over a handler in flight
(`stale_reports_harmless`).

The second part is about tasks that reported FINISHED.  Reports never take that back, and the loss
of a worker does not either; both look at the status first.  A worker that registers again without
the task does: `registerWorker` compares the assignment with the tasks that the worker runs, and a
task that has finished is not running (`finished_final_iff`).  A job that fails has another task to
blame: a handler that fails it was left behind by a report of FAILED or CANCELED, and the task of
that report keeps such a status until the job is deployed again (`Explained`).
-/

namespace Wire.Coordinator

/-! ## Handlers of reports -/

/-- The record and the attempt of the report that a goroutine handles. -/
def Thread.report : Thread → Option (Ref × AttemptID)
  | .reported r _ attempt | .transitions (.report attempt) r _ => some (r, attempt)
  | _ => none

/-- The persisted assignment of the job is the one of the given attempt. -/
def State.Persisted (s : State) (j : JobID) (attempt : AttemptID) : Prop :=
  ∃ found, s.store.assignments j = some found ∧ found.attemptID = attempt

/-- A deployment is published only when no report of the job is being handled. -/
def PublishesAlone (s : State) (a : Action × Oracle) : Prop :=
  ∀ r p, s.running a.1 = some (.publish r p) → ∀ u ∈ s.threads, ∀ v attempt,
    u.report = some (v, attempt) → v.job ≠ r.job

variable {cfg : Config} {s : State}

variable {T : Tasks} {es : List Event} {o : Oracle} {t : TaskID}

/-- Without a deployment of the job, its assignment stays. -/
theorem TaskMove.assignment {a : Action} {run : Option Thread} (h : TaskMove cfg a o run s T es)
    {j : JobID} (hrun : ∀ r p, run = some (.publish r p) → j ≠ r.job) {found : TaskAssignmentMap}
    (hfound : s.store.assignments j = some found) : ∃ found', T.assignments j = some found' ∧
      found'.attemptID = found.attemptID ∧ found'.assignments = found.assignments := by
  cases h with
  | reported req r found' charged haccept =>
    dsimp only
    rcases eq_or_ne j req.jobID with rfl | hne
    · cases hfound.symm.trans (acceptTaskStatus_assignment haccept).1
      exact ⟨_, Function.update_self .., rfl, rfl⟩
    · rw [Function.update_of_ne hne]
      exact ⟨found, hfound, rfl, rfl⟩
  | deploy _ r p hran =>
    dsimp only
    rw [Function.update_of_ne (hrun r p hran)]
    exact ⟨found, hfound, rfl, rfl⟩
  | _ => exact ⟨found, hfound, rfl, rfl⟩

/-- Every handler in flight handles a report of the persisted attempt. -/
def HandlersCurrent (s : State) : Prop :=
  ∀ u ∈ s.threads, ∀ r attempt, u.report = some (r, attempt) → s.Persisted r.job attempt

namespace HandlersCurrent

variable {cfg : Config} {s s' : State} {a : Action × Oracle}

/-- A new handler handles a report of the attempt that was persisted before the step, and no
deployment is published in the step. -/
theorem of_spawned (hs : HandlersCurrent s) {R : Records} {log : List Event} {u : Thread}
    (h : Spawned cfg (s.running a.1) s R log u) {r : Ref} {attempt : AttemptID}
    (hu : u.report = some (r, attempt)) :
    s.Persisted r.job attempt ∧ ∀ v p, s.running a.1 ≠ some (.publish v p) := by
  cases h with
  | ordinary hordinary =>
    cases u with
    | transitions origin =>
      cases origin with
      | report => cases hordinary
      | _ => cases hu
    | reported => cases hordinary
    | _ => cases hu
  | reported hrun req r found haccept =>
    cases hu
    obtain ⟨hfound, -, hattempt⟩ := acceptTaskStatus_assignment haccept
    have hjob := (Memory.job_eq_some.mp (acceptTaskStatus_job haccept)).1
    rw [hrun]
    exact ⟨⟨found, hjob ▸ hfound, hattempt⟩, nofun⟩
  | consequence v status A hrun targets =>
    cases hu
    rw [hrun]
    exact ⟨hs _ (State.mem_of_running hrun) _ _ rfl, nofun⟩
  | transitions origin v target targets hrun =>
    have hrun' := hs _ (State.mem_of_running hrun) r attempt
    rw [hrun]
    cases origin with
    | report => exact ⟨hrun' hu, nofun⟩
    | _ => cases hu
  | _ => cases hu

theorem step (hs : HandlersCurrent s) (hok : PublishesAlone s a) (h : step cfg s a = some s') :
    HandlersCurrent s' := by
  have hmoved := step_moved h
  obtain ⟨es, htasks, -⟩ := hmoved.tasks
  intro u hu r attempt hreport
  have hkept : s.Persisted r.job attempt →
      (∀ v p, s.running a.1 = some (.publish v p) → r.job ≠ v.job) →
        s'.Persisted r.job attempt := by
    rintro ⟨found, hfound, rfl⟩ hrun
    obtain ⟨found', hfound', hattempt, -⟩ := htasks.assignment hrun hfound
    exact ⟨found', hfound', hattempt⟩
  rcases hmoved.threads u hu with hold | hnew
  · exact hkept (hs u hold r attempt hreport) fun v p hrun => hok v p hrun u hold r attempt hreport
  · obtain ⟨hpersisted, hrun⟩ := of_spawned hs hnew hreport
    exact hkept hpersisted fun v p hran => absurd hran (hrun v p)

end HandlersCurrent

theorem handlersCurrent (h : Runs.Reaches (step cfg) PublishesAlone State.initial s) :
    HandlersCurrent s :=
  h.invariant nofun fun _ _ _ _ hs hok hstep => hs.step hok hstep

/-- **A stale report does not touch a newer attempt.**  In a run in which no deployment is
published while a report of its job is handled, a step of a handler that changes the status of a
record is made while the attempt of the report is the persisted one.  What the step does is not
needed for that: it is so for every handler in flight (`handlersCurrent`). -/
theorem stale_reports_harmless {cfg : Config} {s s' : State}
    (h : Runs.Reaches (step cfg) PublishesAlone State.initial s) {i : ℕ} {o : Oracle} {u : Thread}
    {r : Ref} {attempt : AttemptID} (hu : s.threads[i]? = some u)
    (hreport : u.report = some (r, attempt)) (_hstep : step cfg s (.proceed i, o) = some s')
    {v : Ref} (_hmoved : (s'.deref v).status ≠ (s.deref v).status) : s.Persisted r.job attempt :=
  handlersCurrent h u (List.mem_of_getElem? hu) r attempt hreport

/-- The goroutine at a position, if it handles a report. -/
def State.handling (s : State) (i : ℕ) : Option (Ref × AttemptID) :=
  (s.threads[i]?).bind Thread.report

/-- The condition of `stale_reports_harmless`, evaluated. -/
def publishesAlone (s : State) (a : Action × Oracle) : Bool :=
  match s.running a.1 with
  | some (.publish r _) => s.threads.all fun u => u.report.all fun x => x.1.job ≠ r.job
  | _ => true

theorem publishesAlone_sound (s : State) (a : Action × Oracle) (h : publishesAlone s a = true) :
    PublishesAlone s a := by
  intro r p hrun u hu v attempt hreport
  rw [publishesAlone, hrun] at h
  have hall := List.all_eq_true.mp h u hu
  rw [hreport] at hall
  exact of_decide_eq_true hall

open Sample Function Option List Runs

/-- The task has reported that it runs, and the handler is about to say so of the job. -/
def runningReportRun : List (Action × Oracle) :=
  start ++ deploy 1 ++ each [report 1 .running, .proceed 0]

theorem stale_reports_harmless_running :
    ∃ s s', Reaches (step config) PublishesAlone State.initial s ∧
      step config s (.proceed 0, oracle) = some s' ∧
      (s.deref ⟨0, 1⟩).status = .deploying ∧ (s'.deref ⟨0, 1⟩).status = .running ∧
      s.Persisted 0 1 := by
  obtain ⟨s, hs, hhandling, hdeploying, s', hstep, hrunning⟩ :=
    reaches_of_run (step config) PublishesAlone publishesAlone publishesAlone_sound .initial
    runningReportRun (p := fun s => s.handling 0 = some (⟨0, 1⟩, 1) ∧
      (s.deref ⟨0, 1⟩).status = .deploying ∧ ∃ s' ∈ step config s (.proceed 0, oracle),
        (s'.deref ⟨0, 1⟩).status = .running) (by decide)
  obtain ⟨u, hu, hreport⟩ := bind_eq_some_iff.mp hhandling
  have hmoved : (s'.deref ⟨0, 1⟩).status ≠ (s.deref ⟨0, 1⟩).status := by
    rw [hrunning, hdeploying]
    decide
  exact ⟨s, s', hs, hstep, hdeploying, hrunning, stale_reports_harmless hs hu hreport hstep hmoved⟩

/-- The task fails and reports it twice.  The first handler is overtaken by the second one and by
the redeployment of the job that follows. -/
def overtakenReportRun : List (Action × Oracle) :=
  start ++ deploy 1 ++ reported 0 1 .running ++
    each [report 1 .failed, .proceed 0] ++ reported 1 1 .failed ++
    restart oracle 1 (placement 2) ++
    each [.proceed 1, .proceed 1, .proceed 1]

/-- The handler of a report of attempt 1 fails attempt 2. -/
theorem stale_report_fails_attempt : ∃ s s', Reachable config s ∧ s.handling 0 = some (⟨0, 1⟩, 1) ∧
    step config s (.proceed 0, oracle) = some s' ∧
    (s.deref ⟨0, 1⟩).status = .deploying ∧ (s'.deref ⟨0, 1⟩).status = .failing ∧
    s.Persisted 0 2 ∧ ¬ s.Persisted 0 1 := by
  obtain ⟨s, hs, hhandling, hdeploying, ⟨found, hfound, hattempt⟩, s', hstep, hfailing⟩ :=
    reachable_of_run (step config) State.initial overtakenReportRun
    (p := fun s => s.handling 0 = some (⟨0, 1⟩, 1) ∧ (s.deref ⟨0, 1⟩).status = .deploying ∧
      (∃ found ∈ s.store.assignments 0, found.attemptID = 2) ∧
      ∃ s' ∈ step config s (.proceed 0, oracle), (s'.deref ⟨0, 1⟩).status = .failing) (by decide)
  refine ⟨s, s', hs, hhandling, hstep, hdeploying, hfailing, ⟨found, hfound, hattempt⟩, ?_⟩
  rintro ⟨found', hfound', hattempt'⟩
  cases hfound.symm.trans hfound'
  cases hattempt.symm.trans hattempt'

/-! ## Finished tasks -/

/-- The task is one of the assignment of the job. -/
def Tasks.Assigned (T : Tasks) (j : JobID) (t : TaskID) : Prop :=
  ∃ found, T.assignments j = some found ∧ (found.assignments.lookup t).isSome = true

/-- A task of the job that is recorded as FAILED or CANCELED. -/
def Tasks.Faulty (T : Tasks) (j : JobID) (t : TaskID) : Prop :=
  T.Assigned j t ∧ (T.statuses t = some .failed ∨ T.statuses t = some .canceled)

/-- The step is neither the deployment of a new attempt of the job nor the end of a term. -/
structure WithinAttempt (s : State) (a : Action) (j : JobID) : Prop where
  deploy : ∀ r p, s.running a = some (.publish r p) →
    r.job ≠ j ∧ ∀ t ∈ p.assignments.map (·.1.taskID), ¬ s.tasks.Assigned j t
  crash : a ≠ .crash
  recover : a ≠ .finishRecovery

/-- The worker registers again, is expected to run the task, and does not. -/
def State.FoundMissing (s : State) (a : Action) (t : TaskID) : Prop :=
  ∃ w j, a = .missingTask w j t ∧ s.Expects w j t

/-- A step of a report and its handler, of a registration or heartbeat, or of the detection of lost
workers. -/
def State.Observes (s : State) : Action → Prop
  | .updateTaskStatus _ | .detectLostTaskWorkers _ | .missingTask _ _ _ | .registerWorker _ _ _
  | .heartbeat _ _ _ _ | .expireWorkers => True
  | a => ∃ u, s.running a = some u ∧ u.report.isSome = true

/-- The step is one of a handler that was at work in `s₀`. -/
def State.Overdue (s₀ s : State) (a : Action) : Prop :=
  ∃ u, s.running a = some u ∧ u.report.isSome = true ∧ ∃ v ∈ s₀.threads, v.report = u.report

/-- The handler is going to fail the job. -/
def Thread.Accuses : Thread → Prop
  | .reported _ status _ => status = .failed ∨ status = .canceled
  | .transitions (.report _) _ targets => .failing ∈ targets
  | _ => False

/-- Every handler that is going to fail the job was at work in `s₀`, or there is a task at
fault. -/
def Explained (s₀ : State) (j : JobID) (s : State) : Prop :=
  ∀ u ∈ s.threads, u.Accuses → ∀ r attempt, u.report = some (r, attempt) → r.job = j →
    (∃ v ∈ s₀.threads, v.report = some (r, attempt)) ∨ ∃ t, s.tasks.Faulty j t

theorem eq_of_not_retained {previous status : TaskStatus} (hterminal : previous.isTerminal = true)
    (h : TaskStatus.retained (some previous) status = false) : status = previous := by
  by_contra hne
  simp [TaskStatus.retained, hterminal, Ne.symm hne] at h

theorem notMem_lostTasks (ht : s.mem.taskStatuses t = some .finished)
    (found : TaskAssignmentMap) : t ∉ s.lostTasks found := by
  intro hmem
  obtain ⟨e, he, rfl⟩ := mem_map.mp hmem
  have hstatus := (of_decide_eq_true (mem_filter.mp he).2).1
  exact hstatus ht

section WithinAttempt

variable {a : Action} {j : JobID} (h : TaskMove cfg a o (s.running a) s T es)
  (hwithin : WithinAttempt s a j)
include h hwithin

theorem TaskMove.assigned (ht : s.tasks.Assigned j t) : T.Assigned j t := by
  obtain ⟨found, hfound, hlookup⟩ := ht
  obtain ⟨found', hfound', -, hsame⟩ :=
    h.assignment (fun r p hrun => ((hwithin.deploy r p hrun).1).symm) hfound
  exact ⟨found', hfound', hsame ▸ hlookup⟩

/-- A final status stays, or the task is found lost or missing and is FAILED then. -/
theorem TaskMove.retained {status : TaskStatus} (hterminal : status.isTerminal = true)
    (hassigned : s.tasks.Assigned j t) (ht : s.mem.taskStatuses t = some status) :
    T.statuses t = some status ∨
      T.statuses t = some .failed ∧ (s.FoundMissing a t ∨ status ≠ .finished) := by
  cases h with try dsimp only
  | reported req r found charged haccept hretained =>
    rcases eq_or_ne t req.taskID with rfl | hne
    · rw [ht] at hretained
      rw [update_self, eq_of_not_retained hterminal hretained]
      exact .inl rfl
    · rw [update_of_ne hne]
      exact .inl ht
  | lost _ i found =>
    split
    · next hlost => exact .inr ⟨rfl, .inr fun h => notMem_lostTasks (h ▸ ht) found hlost⟩
    · exact .inl ht
  | missing w i t' ha hexpects =>
    rcases eq_or_ne t t' with rfl | hne
    · exact .inr ⟨update_self .., .inl ⟨w, i, ha, hexpects⟩⟩
    · rw [update_of_ne hne]
      exact .inl ht
  | deploy _ r p hrun =>
    rw [if_neg fun hmem => (hwithin.deploy r p hrun).2 t hmem hassigned]
    exact .inl ht
  | crash ha => exact absurd ha hwithin.crash
  | recover ha => exact absurd ha hwithin.recover
  | _ => exact .inl ht

/-- A task that is not found missing stays FINISHED. -/
theorem TaskMove.finished (hassigned : s.tasks.Assigned j t)
    (ht : s.mem.taskStatuses t = some .finished) (hfound : ¬ s.FoundMissing a t) :
    T.statuses t = some .finished :=
  (h.retained hwithin rfl hassigned ht).resolve_right fun ⟨_, hor⟩ =>
    hor.elim hfound fun hne => hne rfl

/-- A task at fault stays at fault. -/
theorem TaskMove.faulty (ht : s.tasks.Faulty j t) : T.Faulty j t := by
  refine ⟨h.assigned hwithin ht.1, ?_⟩
  rcases ht.2 with hfailed | hcanceled
  · exact .inl ((h.retained hwithin rfl ht.1 hfailed).elim id And.left)
  · exact (h.retained hwithin rfl ht.1 hcanceled).symm.imp_left And.left

end WithinAttempt

theorem TaskMove.of_reported {a : Action} {run : Option Thread} {req : TaskStatusRequest}
    (h : TaskMove cfg a o run s T [.reported req]) : T.statuses req.taskID = some req.status := by
  cases h with
  | same hes => exact (hes _ (mem_singleton_self _)).elim
  | reported => exact update_self ..

theorem accuses_of_reportTargets {r : Ref} {status : TaskStatus}
    (h : .failing ∈ s.reportTargets r status) : status = .failed ∨ status = .canceled := by
  cases status with
  | failed => exact .inl rfl
  | canceled => exact .inr rfl
  | running | finishing | finished =>
    rw [State.reportTargets] at h
    split at h <;> simp at h
  | _ => cases h

section Steps

variable {s₀ s' : State} {a : Action × Oracle} {j : JobID}

theorem Explained.step (hs : Explained s₀ j s) (hwithin : WithinAttempt s a.1 j)
    (hstep : step cfg s a = some s') : Explained s₀ j s' := by
  have hmoved := step_moved hstep
  obtain ⟨es, htasks, hlog⟩ := hmoved.tasks
  have hold : ∀ u ∈ s.threads, u.Accuses → ∀ r attempt, u.report = some (r, attempt) → r.job = j →
      (∃ v ∈ s₀.threads, v.report = some (r, attempt)) ∨ ∃ t, s'.tasks.Faulty j t := by
    intro u hu haccuses r attempt hreport hr
    exact (hs u hu haccuses r attempt hreport hr).imp_right
      fun ⟨t, ht⟩ => ⟨t, htasks.faulty hwithin ht⟩
  intro u hu haccuses r attempt hreport hr
  rcases hmoved.threads u hu with hmem | hnew
  · exact hold u hmem haccuses r attempt hreport hr
  · cases hnew with
    | reported hrun req r found haccept hlog' =>
      -- the report that left the handler behind is the fault of its task
      obtain ⟨rfl, rfl⟩ := Prod.mk.inj (some.inj hreport)
      cases append_cancel_left (hlog.symm.trans hlog')
      obtain ⟨hfound, hlookup, -⟩ := acceptTaskStatus_assignment haccept
      have hjob := (Memory.job_eq_some.mp (acceptTaskStatus_job haccept)).1
      rw [hr] at hjob
      rw [← hjob] at hfound
      refine .inr ⟨req.taskID, htasks.assigned hwithin ⟨found, hfound, ?_⟩, ?_⟩
      · rw [hlookup]
        rfl
      · rw [htasks.of_reported]
        exact haccuses.imp (congrArg some) (congrArg some)
    | consequence v status A hrun targets htargets =>
      subst htargets
      exact hold _ (State.mem_of_running hrun) (accuses_of_reportTargets haccuses) r attempt hreport
        hr
    | transitions origin v target targets hrun =>
      cases origin with
      | report =>
        exact hold _ (State.mem_of_running hrun) (mem_cons_of_mem target haccuses) r attempt hreport
          hr
      | _ => cases haccuses
    | ordinary hordinary =>
      cases u with
      | transitions origin =>
        cases origin with
        | report => cases hordinary
        | _ => cases haccuses
      | reported => cases hordinary
      | _ => cases haccuses
    | _ => cases haccuses

theorem status_updateTaskStatus (req : TaskStatusRequest) (v : Ref) :
    ((s.updateTaskStatus o req).deref v).status = (s.deref v).status := by
  rw [State.updateTaskStatus]
  split
  · rfl
  · next r found haccept =>
    split
    · rfl
    · split
      · rfl
      · rfl
      · next i hi =>
        split
        · obtain ⟨cp, reason, -, -, rfl⟩ := invalidation_some hi
          rcases eq_or_ne v r with rfl | hne
          · refine (congrArg JobMeta.status (update_self ..)).trans ?_
            dsimp only
            rw [JobMeta.refund]
            split <;> rfl
          · exact congrArg JobMeta.status (update_of_ne hne ..)
        · rfl

theorem assigned_of_lostTasks {found : TaskAssignmentMap}
    (hfound : s.store.assignments j = some found)
    (ht : t ∈ s.lostTasks found) : s.tasks.Assigned j t := by
  obtain ⟨e, he, rfl⟩ := mem_map.mp ht
  exact ⟨found, hfound, AList.lookup_isSome.mpr (AList.mem_keys.mpr
    (mem_map_of_mem (mem_filter.mp he).1))⟩

theorem faulty_of_detectLostTaskWorkers {v : Ref} (hbefore : (s.deref v).status ≠ .failing)
    (hafter : ((s.detectLostTaskWorkers cfg o j).deref v).status = .failing) :
    v.job = j ∧ ∃ t, (s.detectLostTaskWorkers cfg o j).tasks.Faulty j t := by
  rw [State.detectLostTaskWorkers] at hafter ⊢
  split at hafter
  · next r found hr hfound =>
    dsimp only at hafter ⊢
    split at hafter
    · next hready =>
      rw [if_pos hready]
      rw [setTaskStatuses] at hafter ⊢
      split at hafter
      · next hlost =>
        rw [if_pos hlost]
        rw [State.replaceJob] at hafter ⊢
        split at hafter
        · next hwritten =>
          rw [if_pos hwritten]
          rcases eq_or_ne v r with rfl | hne
          · obtain ⟨t, ht⟩ := exists_mem_of_ne_nil _ hlost.1
            have hassigned : s.tasks.Assigned j t := assigned_of_lostTasks hfound ht
            exact ⟨(Memory.job_eq_some.mp hr).1, t, hassigned, .inl (if_pos ht)⟩
          · exact absurd ((congrArg JobMeta.status (update_of_ne hne ..)).symm.trans hafter) hbefore
        · exact absurd hafter hbefore
      · exact absurd hafter hbefore
    · exact absurd hafter hbefore
  · exact absurd hafter hbefore

theorem faulty_of_missingTask {w : WorkerID} {v : Ref} (hbefore : (s.deref v).status ≠ .failing)
    (hafter : ((s.missingTask cfg o w j t).deref v).status = .failing) :
    v.job = j ∧ (s.missingTask cfg o w j t).tasks.Faulty j t := by
  rw [State.missingTask] at hafter ⊢
  split at hafter
  · next r found hr hfound =>
    dsimp only at hafter ⊢
    split at hafter
    · next hexpects =>
      rw [if_pos hexpects]
      split at hafter
      · next hwritten =>
        rw [if_pos hwritten]
        rcases eq_or_ne v r with rfl | hne
        · refine ⟨(Memory.job_eq_some.mp hr).1, ⟨found, hfound, ?_⟩, .inl (update_self ..)⟩
          rw [hexpects.2.2]
          rfl
        · exact absurd ((congrArg JobMeta.status (update_of_ne hne ..)).symm.trans hafter) hbefore
      · exact absurd hafter hbefore
    · exact absurd hafter hbefore
  · exact absurd hafter hbefore

theorem eq_of_transition_failing {r v : Ref} {target : JobStatus}
    (hbefore : (s.deref v).status ≠ .failing)
    (hafter : ((s.transition cfg o r target).1.deref v).status = .failing) :
    v = r ∧ target = .failing := by
  have hstatus : (((s.releaseName (s.deref r).name target).assign r
      ((s.deref r).transition cfg o.now target)).deref v).status = .failing →
        v = r ∧ target = .failing := by
    intro h
    rcases eq_or_ne v r with rfl | hne
    · refine ⟨rfl, ?_⟩
      rw [← h, ← status_transition cfg o.now target (s.deref v)]
      exact (congrArg JobMeta.status (update_self ..)).symm
    · exact absurd ((congrArg JobMeta.status (update_of_ne hne ..)).symm.trans h) hbefore
  rw [State.transition] at hafter
  split at hafter
  · dsimp only at hafter
    split at hafter <;> exact hstatus hafter
  · exact absurd hafter hbefore

/-- **What an observation fails a job for.** -/
theorem faulty_of_observes (hs : Explained s₀ j s) (hwithin : WithinAttempt s a.1 j)
    (hstep : step cfg s a = some s') (hobserves : s.Observes a.1) {v : Ref} (hv : v.job = j)
    (hbefore : (s.deref v).status ≠ .failing) (hafter : (s'.deref v).status = .failing) :
    s₀.Overdue s a.1 ∨ ∃ t, s'.tasks.Faulty j t := by
  obtain ⟨es, htasks, -⟩ := (step_moved hstep).tasks
  obtain ⟨a, o⟩ := a
  cases a with
  | updateTaskStatus req =>
    cases hstep
    exact absurd ((status_updateTaskStatus req v).symm.trans hafter) hbefore
  | detectLostTaskWorkers i =>
    cases hstep
    obtain ⟨rfl, hfaulty⟩ := faulty_of_detectLostTaskWorkers hbefore hafter
    exact .inr (hv ▸ hfaulty)
  | missingTask w i t =>
    cases hstep
    obtain ⟨rfl, hfaulty⟩ := faulty_of_missingTask hbefore hafter
    exact .inr ⟨t, hv ▸ hfaulty⟩
  | registerWorker w worker highest =>
    cases hstep
    rw [State.registerWorker] at hafter
    split at hafter <;> exact absurd hafter hbefore
  | heartbeat w epoch peer slots =>
    cases hstep
    rw [State.heartbeat] at hafter
    split at hafter
    · exact absurd hafter hbefore
    · split at hafter <;> exact absurd hafter hbefore
  | expireWorkers =>
    cases hstep
    rw [State.expireWorkers] at hafter
    split at hafter <;> exact absurd hafter hbefore
  | proceed i =>
    obtain ⟨u, hrun, hreport⟩ := hobserves
    obtain ⟨u', hu, hgo⟩ := bind_eq_some_iff.mp hstep
    cases hu.symm.trans hrun
    cases u with
    | reported r status attempt =>
      cases hgo
      exact absurd hafter hbefore
    | transitions origin r targets =>
      cases targets with
      | nil =>
        cases hgo
        exact absurd hafter hbefore
      | cons target rest =>
        cases hgo
        have htransition : ((State.transition cfg o { s with threads := s.threads.eraseIdx i } r
            target).1.deref v).status = .failing := by
          rw [State.andThen] at hafter
          split at hafter <;> exact hafter
        obtain ⟨rfl, rfl⟩ := eq_of_transition_failing
          (s := { s with threads := s.threads.eraseIdx i }) hbefore htransition
        cases origin with
        | report attempt =>
          have haccuses : Thread.Accuses (.transitions (.report attempt) v (.failing :: rest)) :=
            mem_cons_self
          rcases hs _ (mem_of_getElem? hu) haccuses v attempt rfl hv with ⟨u, hold, hu'⟩ | ⟨t, ht⟩
          · exact .inl ⟨_, hrun, rfl, u, hold, hu'⟩
          · exact .inr ⟨t, htasks.faulty hwithin ht⟩
        | _ => cases hreport
    | _ => cases hreport
  | _ =>
    obtain ⟨u, hrun, -⟩ := hobserves
    cases hrun

theorem failed_of_foundMissing (h : s.FoundMissing a.1 t) (hstep : step cfg s a = some s') :
    s'.mem.taskStatuses t = some .failed := by
  obtain ⟨a, o⟩ := a
  obtain ⟨w, j, rfl, r, found, hr, hfound, hexpects⟩ := h
  cases hstep
  rw [State.missingTask, hr, hfound]
  dsimp only
  rw [if_pos hexpects]
  split <;> exact update_self ..

/-- **FINISHED is final within an attempt** exactly as long as no worker registers again without
the task.  The run up to `s₁` is a part of the attempt; from there on the task is recorded as
FINISHED.  In every later state it still is, and the next step leaves it so and fails the job only
because of another task, or for a report that was handled already when the run began. -/
theorem finished_final_iff {cfg : Config} {s₀ s₁ s s' : State} {a : Action × Oracle} {j : JobID}
    {t : TaskID} (hattempt : Reaches (step cfg) (fun s a => WithinAttempt s a.1 j) s₀ s₁)
    (hassigned : s₁.tasks.Assigned j t) (hfinished : s₁.mem.taskStatuses t = some .finished)
    (hrun : Reaches (step cfg) (fun s a => WithinAttempt s a.1 j ∧ ¬ s.FoundMissing a.1 t) s₁ s)
    (hstep : step cfg s a = some s') (hwithin : WithinAttempt s a.1 j) :
    s.mem.taskStatuses t = some .finished ∧
    ((s'.mem.taskStatuses t = some .finished ∧ ∀ v, v.job = j → s.Observes a.1 →
      (s.deref v).status ≠ .failing → (s'.deref v).status = .failing →
        s₀.Overdue s a.1 ∨ ∃ t', t' ≠ t ∧ s'.tasks.Faulty j t') ↔ ¬ s.FoundMissing a.1 t) := by
  have hkept : s.tasks.Assigned j t ∧ s.mem.taskStatuses t = some .finished := by
    refine hrun.invariant (P := fun s => s.tasks.Assigned j t ∧
      s.mem.taskStatuses t = some .finished) ⟨hassigned, hfinished⟩ fun s a s' _ hs hok hstep => ?_
    obtain ⟨es, htasks, -⟩ := (step_moved hstep).tasks
    exact ⟨htasks.assigned hok.1 hs.1, htasks.finished hok.1 hs.1 hs.2 hok.2⟩
  have haccounted : Explained s₀ j s := by
    refine (hattempt.trans (hrun.mono fun _ _ h => h.1)).invariant ?_
      fun s a s' _ hs hok hstep => hs.step hok hstep
    exact fun u hu _ r attempt hreport _ => .inl ⟨u, hu, hreport⟩
  refine ⟨hkept.2, fun h hfound => ?_, fun hfound => ?_⟩
  · rw [failed_of_foundMissing hfound hstep] at h
    cases h.1
  · obtain ⟨es, htasks, -⟩ := (step_moved hstep).tasks
    have hfinal : s'.mem.taskStatuses t = some .finished :=
      htasks.finished hwithin hkept.1 hkept.2 hfound
    refine ⟨hfinal, fun v hv hobserves hbefore hafter => ?_⟩
    refine (faulty_of_observes haccounted hwithin hstep hobserves hv hbefore hafter).imp_right ?_
    rintro ⟨t', hfaulty⟩
    refine ⟨t', ?_, hfaulty⟩
    rintro rfl
    have hstatus : s'.mem.taskStatuses t' = some .failed ∨
        s'.mem.taskStatuses t' = some .canceled :=
      hfaulty.2
    rw [hfinal] at hstatus
    rcases hstatus with hstatus | hstatus <;> cases hstatus

end Steps

/-- No deployment is published, no term ends, and no task is found missing. -/
def quiet (s : State) (a : Action × Oracle) : Bool :=
  match a.1 with
  | .crash | .finishRecovery | .missingTask _ _ _ => false
  | .proceed i => (s.threads[i]?).all fun u => match u with
    | .publish _ _ => false
    | _ => true
  | _ => true

theorem quiet_sound (j : JobID) (t : TaskID) (s : State) (a : Action × Oracle)
    (h : quiet s a = true) : WithinAttempt s a.1 j ∧ ¬ s.FoundMissing a.1 t := by
  obtain ⟨a, o⟩ := a
  refine ⟨⟨fun r p hrun => ?_, ?_, ?_⟩, ?_⟩
  · cases a with
    | proceed i =>
      have hget : s.threads[i]? = some (.publish r p) := hrun
      simp [quiet, hget] at h
    | _ => cases hrun
  · rintro rfl
    cases h
  · rintro rfl
    cases h
  · rintro ⟨w, i, rfl, -⟩
    cases h

/-- The task has reported that it finished; the handler has not drawn the consequence yet. -/
def finishedReportRun : List (Action × Oracle) :=
  start ++ deploy 1 ++ reported 0 1 .running ++ each [report 1 .finished]

/-- The task has finished.  A report that it failed comes late, its worker falls silent, and the
loss is detected twice. -/
theorem finished_final_iff_reported : ∃ s₀ s₁ s s', Reachable config s₀ ∧
    Reaches (step config) (fun s a => WithinAttempt s a.1 0 ∧ ¬ s.FoundMissing a.1 10) s₀ s₁ ∧
    Reaches (step config) (fun s a => WithinAttempt s a.1 0 ∧ ¬ s.FoundMissing a.1 10) s₁ s ∧
    (s.mem.workers.lookup 1).any (·.lost) = true ∧
    step config s (.detectLostTaskWorkers 0, oracle) = some s' ∧
    s.mem.taskStatuses 10 = some .finished ∧ s'.mem.taskStatuses 10 = some .finished := by
  obtain ⟨s₀, hs₀, s₁, hrun₁, hfinished, hassigned, s, hrun, hlost⟩ :=
    reachable_of_run (step config) State.initial (start ++ deploy 1)
    (p := fun s₀ => ∃ s₁ ∈ run (fun s a => if quiet s a then step config s a else none) s₀
        (reported 0 1 .running ++ each [report 1 .finished]),
      s₁.mem.taskStatuses 10 = some .finished ∧
      (∃ found ∈ s₁.store.assignments 0, (found.assignments.lookup 10).isSome) ∧
      ∃ s ∈ run (fun s a => if quiet s a then step config s a else none) s₁
        (each [report 1 .failed] ++ [(.expireWorkers, { oracle with now := 1000000 }),
          (.detectLostTaskWorkers 0, oracle)]),
        (s.mem.workers.lookup 1).any (·.lost) = true) (by decide)
  have hreach₁ := Reaches.refl.run (quiet_sound 0 10) hrun₁
  have hreach := Reaches.refl.run (quiet_sound 0 10) hrun
  have hstep : step config s (.detectLostTaskWorkers 0, oracle) = some _ := rfl
  obtain ⟨hstill, hiff⟩ := finished_final_iff (hreach₁.mono fun _ _ h => h.1) hassigned
    hfinished hreach hstep (quiet_sound 0 10 s (.detectLostTaskWorkers 0, oracle) rfl).1
  refine ⟨s₀, s₁, s, _, hs₀, hreach₁, hreach, hlost, hstep, hstill, (hiff.mpr ?_).1⟩
  exact (quiet_sound 0 10 s (.detectLostTaskWorkers 0, oracle) rfl).2

/-- Worker 1 registers again; the task that finished is not among those that it runs, and the
job fails. -/
theorem finished_task_fails_job :
    ∃ s s', Reachable config s ∧ s.mem.taskStatuses 10 = some .finished ∧
      (s.deref ⟨0, 1⟩).status = .running ∧
      step config s (.missingTask 1 0 10, oracle) = some s' ∧
      s'.mem.taskStatuses 10 = some .failed ∧ (s'.deref ⟨0, 1⟩).status = .failing := by
  obtain ⟨s, hs, ht, hrunning, s', h⟩ := reachable_of_run (step config) State.initial
    (finishedReportRun ++ each [.registerWorker 1 (worker 1) 1])
    (p := fun s => s.mem.taskStatuses 10 = some .finished ∧
      (s.deref ⟨0, 1⟩).status = .running ∧ ∃ s' ∈ step config s (.missingTask 1 0 10, oracle),
        s'.mem.taskStatuses 10 = some .failed ∧ (s'.deref ⟨0, 1⟩).status = .failing) (by decide)
  exact ⟨s, s', hs, ht, hrunning, h⟩

end Wire.Coordinator
