import Wire.Coordinator.Reports

/-!
# A job that is done is found to be done

A job becomes RUNNING when all of its tasks do, and FINISHED when all of its tasks have; each of
the two is asked for at single reports.  The first question counts only tasks that run or are
about to end.  A task that has finished before its siblings have started is neither, so the answer
is no from then on: the job is never RUNNING, the second question is never asked of it, and it
stays DEPLOYING after its last task has finished (`completion_missed`).

If no task finishes before the job is RUNNING, completion is found whatever the order of the
reports (`completion_detected`).  The run may interleave the handlers of all reports, and
anything else that leaves the job alone.  The argument is one invariant, `Phase`, which says who is
going to move the job on: as soon as all tasks of a RUNNING job have finished there is a handler
that will find that out, and a FINISHING job has a handler that is going to finish it.
-/

namespace Wire.Coordinator

open Function List Bool AList Runs

/-! ## The reports of a job and their handlers -/

/-- The goroutine handles a report about the record. -/
def Thread.Handles (r : Ref) (u : Thread) : Prop := ∃ attempt, u.report = some (r, attempt)

theorem Thread.Handles.cases {r : Ref} {u : Thread} (h : u.Handles r) :
    ∃ attempt, (∃ status, u = .reported r status attempt) ∨
      ∃ targets, u = .transitions (.report attempt) r targets := by
  obtain ⟨attempt, h⟩ := h
  refine ⟨attempt, ?_⟩
  cases u with
  | reported v status A =>
    cases h
    exact .inl ⟨status, rfl⟩
  | transitions origin v targets =>
    cases origin with
    | report A =>
      cases h
      exact .inr ⟨targets, rfl⟩
    | _ => cases h
  | _ => cases h

/-- All tasks of the assignment have finished. -/
def State.AllFinished (s : State) (found : TaskAssignmentMap) : Prop :=
  ∀ t ∈ found.assignments, s.mem.taskStatuses t = some .finished

/-- The state before and after a step agree on what a completion needs to know of the job of a
record. -/
structure State.Aside (s s' : State) (r : Ref) : Prop where
  job : s'.mem.job r.job = s.mem.job r.job
  status : (s'.deref r).status = (s.deref r).status
  sameName : (s'.deref r).name = (s.deref r).name
  assignment : s'.store.assignments r.job = s.store.assignments r.job
  statuses : ∀ found, s.store.assignments r.job = some found →
    ∀ t ∈ found.assignments, s'.mem.taskStatuses t = s.mem.taskStatuses t
  name : s'.mem.activeJobNames (s.deref r).name = some r.job →
    s.mem.activeJobNames (s.deref r).name = some r.job
  handlers : ∀ u : Thread, u.Handles r → (u ∈ s'.threads ↔ u ∈ s.threads)

/-- The steps of a run in which no task of the job fails: a report of one of its tasks, a step of
a handler of such a report, or anything that leaves the job alone.  The writes of the first two
succeed. -/
inductive Reporting (cfg : Config) (r : Ref) (s : State) : Action × Oracle → Prop where
  | report (req : TaskStatusRequest) (hjob : req.jobID = r.job) (hfailed : req.status ≠ .failed)
      (hcanceled : req.status ≠ .canceled) (o : Oracle) (hwritten : o.written = true) :
      Reporting cfg r s (.updateTaskStatus req, o)
  | handler (i : ℕ) (u : Thread) (hu : s.threads[i]? = some u) (hhandles : u.Handles r)
      (o : Oracle) (hwritten : o.written = true) : Reporting cfg r s (.proceed i, o)
  | aside (a : Action × Oracle) (h : ∀ s', step cfg s a = some s' → s.Aside s' r) :
      Reporting cfg r s a

/-- A task reports that it finished only when the job is RUNNING. -/
def FinishesRunning (r : Ref) (s : State) (a : Action × Oracle) : Prop :=
  ∀ req, a.1 = .updateTaskStatus req → req.jobID = r.job → req.status = .finished →
    (s.deref r).status = .running

/-- The job was just deployed. -/
structure Deployed (r : Ref) (found : TaskAssignmentMap) (s : State) : Prop where
  job : s.mem.job r.job = some r
  status : (s.deref r).status = .deploying
  assignment : s.store.assignments r.job = some found
  statuses : ∀ t ∈ found.assignments, s.mem.taskStatuses t = none
  handlers : ∀ u ∈ s.threads, ¬ u.Handles r

/-! ## What single steps do -/

variable {target : JobStatus} {attempt : AttemptID}

variable {cfg : Config} {s s' : State} {o : Oracle} {r : Ref} {found : TaskAssignmentMap}

section Steps

theorem allTasksInStatus_finished (hfound : s.store.assignments r.job = some found)
    (hlen : found.assignments.len ≠ 0) (h : s.AllFinished found) :
    s.allTasksInStatus r.job .finished = true := by
  rw [State.allTasksInStatus, hfound]
  refine decide_eq_true ⟨hlen, ?_⟩
  rw [all_eq_true]
  intro e he
  exact decide_eq_true (.inl (h e.1 (mem_keys.mpr (mem_keys_of_mem he))))

theorem exists_task (hlen : found.assignments.len ≠ 0) : ∃ t, t ∈ found.assignments := by
  obtain ⟨e, he⟩ := exists_mem_of_length_pos (Nat.pos_of_ne_zero hlen)
  exact ⟨e.1, mem_keys.mpr (mem_keys_of_mem he)⟩

/-- A report that is not one of failure is noted, or changes nothing. -/
theorem updateTaskStatus_noted {req : TaskStatusRequest} (hfailed : req.status ≠ .failed) :
    s.updateTaskStatus o req = s ∨ ∃ r found, acceptTaskStatus s req = .ok (r, found) ∧
      s.updateTaskStatus o req = s.noteTaskStatus r req := by
  rw [State.updateTaskStatus]
  split
  · exact .inl rfl
  · next r found haccept =>
    split
    · exact .inl rfl
    · have hnone : invalidation s req r found = .ok none := by
        rw [invalidation]
        split
        · rfl
        · rw [if_neg (fun h => hfailed h.1)]
          rfl
      rw [hnone]
      exact .inr ⟨r, found, haccept, rfl⟩

/-- What a handler may still ask for. -/
def Thread.Sound : Thread → Prop
  | .reported _ status _ => status ≠ .failed ∧ status ≠ .canceled
  | .transitions _ _ targets =>
    targets = [] ∨ targets = [.running] ∨ targets = [.finishing, .finished] ∨ targets = [.finished]
  | _ => True

theorem sound_reportTargets {status : TaskStatus} (hfailed : status ≠ .failed)
    (hcanceled : status ≠ .canceled) (origin : Origin) :
    (Thread.transitions origin r (s.reportTargets r status)).Sound := by
  cases status with
  | running | finishing | finished =>
    rw [State.reportTargets]
    split
    · simp [Thread.Sound]
    · exact .inl rfl
  | failed => exact absurd rfl hfailed
  | canceled => exact absurd rfl hcanceled
  | _ => exact .inl rfl

theorem name_transition_finished (now : Time) (m : JobMeta) :
    (m.transition cfg now .finished).name = m.name := by
  simp [JobMeta.transition]

/-- The state after a transition that was allowed and written. -/
def State.transitioned (cfg : Config) (o : Oracle) (s : State) (ts : List Thread) (r : Ref)
    (target : JobStatus) : State :=
  ((({ s with threads := ts } : State).releaseName (s.deref r).name target).assign r
    ((s.deref r).transition cfg o.now target)).persistJob r

theorem transition_allowed (hwritten : o.written = true)
    (htarget : target ∈ validTransitions (s.deref r).status) (ts : List Thread) :
    State.transition cfg o { s with threads := ts } r target =
      (s.transitioned cfg o ts r target, true) := by
  exact (if_pos htarget).trans (if_pos hwritten)

theorem transition_refused (htarget : target ∉ validTransitions (s.deref r).status)
    (ts : List Thread) : State.transition cfg o { s with threads := ts } r target =
      ({ s with threads := ts }, false) := by
  exact if_neg htarget

end Steps

/-! ## Who moves the job on -/

/-- The goroutine is going to find out that all tasks have finished, or has done so. -/
def Thread.Finishes (r : Ref) (u : Thread) : Prop :=
  ∃ attempt, u = .reported r .finished attempt ∨
    u = .transitions (.report attempt) r [.finishing, .finished]

/-- Where the job is between its deployment and its end, and who is going to move it on, in terms
of its status, the goroutines and the names in use. -/
def Phase (r : Ref) (found : TaskAssignmentMap) (s : State) : JobStatus → Prop
  | .deploying => ∀ t ∈ found.assignments, s.mem.taskStatuses t ≠ some .finished
  | .running => s.AllFinished found → ∃ u ∈ s.threads, u.Finishes r
  | .finishing => ∃ attempt, Thread.transitions (.report attempt) r [.finished] ∈ s.threads
  | .finished => s.mem.activeJobNames (s.deref r).name ≠ some r.job
  | _ => False

structure Completing (r : Ref) (found : TaskAssignmentMap) (s : State) : Prop where
  job : s.mem.job r.job = some r
  assignment : s.store.assignments r.job = some found
  handlers : ∀ u ∈ s.threads, u.Handles r → u.Sound
  phase : Phase r found s (s.deref r).status

namespace Completing

theorem of_deployed (h : Deployed r found s) : Completing r found s where
  job := h.job
  assignment := h.assignment
  handlers := fun u hu hr => absurd hr (h.handlers u hu)
  phase := by
    rw [h.status]
    intro t ht hfinished
    rw [h.statuses t ht] at hfinished
    cases hfinished

section

variable (hs : Completing r found s)
include hs

/-- A step that leaves the job alone. -/
theorem aside (h : s.Aside s' r) : Completing r found s' where
  job := h.job.trans hs.job
  assignment := h.assignment.trans hs.assignment
  handlers := fun u hu hr => hs.handlers u ((h.handlers u hr).mp hu) hr
  phase := by
    have hphase := hs.phase
    have hstatuses := h.statuses found hs.assignment
    rw [h.status]
    cases hstatus : (s.deref r).status with rw [hstatus] at hphase
    | deploying =>
      intro t ht
      rw [hstatuses t ht]
      exact hphase t ht
    | running =>
      intro hall
      obtain ⟨u, hu, hfinishes⟩ := hphase fun t ht => (hstatuses t ht).symm.trans (hall t ht)
      refine ⟨u, (h.handlers u ?_).mpr hu, hfinishes⟩
      rcases hfinishes with ⟨attempt, rfl | rfl⟩ <;> exact ⟨attempt, rfl⟩
    | finishing =>
      obtain ⟨attempt, hmem⟩ := hphase
      exact ⟨attempt, (h.handlers _ ⟨attempt, rfl⟩).mpr hmem⟩
    | finished =>
      intro hname
      rw [h.sameName] at hname
      exact hphase (h.name hname)
    | _ =>
      exact hphase

/-- A report is noted. -/
theorem note {req : TaskStatusRequest} {a : TaskAssignmentMap}
    (haccept : acceptTaskStatus s req = .ok (r, a)) (hjob : req.jobID = r.job)
    (hfailed : req.status ≠ .failed) (hcanceled : req.status ≠ .canceled)
    (hfinishes : req.status = .finished → (s.deref r).status = .running) :
    Completing r found (s.noteTaskStatus r req) where
  job := hs.job
  assignment := hs.assignment
  handlers := by
    intro u hu hr
    rcases mem_append.mp hu with hold | hnew
    · exact hs.handlers u hold hr
    · rw [mem_singleton.mp hnew]
      exact ⟨hfailed, hcanceled⟩
  phase := by
    have hphase := hs.phase
    change Phase r found (s.noteTaskStatus r req) (s.deref r).status
    have hstatuses : (s.noteTaskStatus r req).mem.taskStatuses =
        update s.mem.taskStatuses req.taskID (some req.status) := rfl
    cases hstatus : (s.deref r).status with
    | deploying =>
      rw [hstatus] at hphase hfinishes
      intro t ht
      rw [hstatuses]
      rcases eq_or_ne t req.taskID with rfl | hne
      · rw [update_self]
        exact fun h => JobStatus.noConfusion (hfinishes (Option.some.inj h))
      · rw [update_of_ne hne]
        exact hphase t ht
    | running =>
      intro hall
      obtain ⟨ha, howner, -⟩ := acceptTaskStatus_assignment haccept
      rw [hjob, hs.assignment] at ha
      cases ha
      -- The task of the report belongs to the assignment, so it is the last one to finish.
      have hmem : req.taskID ∈ found.assignments :=
        lookup_isSome.mp (Option.isSome_iff_exists.mpr ⟨_, howner⟩)
      have hlast := hall req.taskID hmem
      rw [hstatuses, update_self, Option.some.injEq] at hlast
      refine ⟨_, mem_append_right _ (mem_singleton_self _), req.attemptID, .inl ?_⟩
      rw [hlast]
    | finishing =>
      rw [hstatus] at hphase
      obtain ⟨attempt, hmem⟩ := hphase
      exact ⟨attempt, mem_append_left _ hmem⟩
    | finished =>
      rw [hstatus] at hphase
      exact hphase
    | _ =>
      rw [hstatus] at hphase
      exact hphase

variable {i : ℕ} {rest : List JobStatus}

/-- A handler leaves, and others come.  If the one that leaves was going to move the job on, one
of the others is. -/
theorem replace {u : Thread} (hu : s.threads[i]? = some u) {new : List Thread}
    (hnew : ∀ w ∈ new, w.Handles r → w.Sound)
    (hfinishes : u.Finishes r → (s.deref r).status = .running → s.AllFinished found →
      ∃ w ∈ new, w.Finishes r)
    (hfinishing : ∀ attempt, u = .transitions (.report attempt) r [.finished] →
      (s.deref r).status ≠ .finishing) :
    Completing r found { s with threads := s.threads.eraseIdx i ++ new } where
  job := hs.job
  assignment := hs.assignment
  handlers := by
    intro w hw hr
    rcases mem_append.mp hw with hold | hadded
    · exact hs.handlers w (eraseIdx_subset hold) hr
    · exact hnew w hadded hr
  phase := by
    have hphase := hs.phase
    change Phase r found _ (s.deref r).status
    cases hstatus : (s.deref r).status with rw [hstatus] at hphase
    | running =>
      intro hall
      obtain ⟨w, hw, hwf⟩ := hphase hall
      rcases mem_eraseIdx_or hw with hit | hrest
      · cases hit.symm.trans hu
        obtain ⟨w', hw', hwf'⟩ := hfinishes hwf hstatus hall
        exact ⟨w', mem_append_right _ hw', hwf'⟩
      · exact ⟨w, mem_append_left _ hrest, hwf⟩
    | finishing =>
      obtain ⟨attempt, hmem⟩ := hphase
      rcases mem_eraseIdx_or hmem with hit | hrest
      · cases hit.symm.trans hu
        exact absurd hstatus (hfinishing attempt rfl)
      · exact ⟨attempt, mem_append_left _ hrest⟩
    | _ =>
      exact hphase

/-- The handler of a report looks at the job. -/
theorem judge (hlen : found.assignments.len ≠ 0) {status : TaskStatus}
    (hu : s.threads[i]? = some (.reported r status attempt)) :
    Completing r found { s with threads := s.threads.eraseIdx i ++
      [.transitions (.report attempt) r (s.reportTargets r status)] } := by
  obtain ⟨hfailed, hcanceled⟩ : status ≠ .failed ∧ status ≠ .canceled :=
    hs.handlers _ (mem_of_getElem? hu) ⟨attempt, rfl⟩
  refine hs.replace hu (fun w hw _ => ?_) ?_ nofun
  · rw [mem_singleton.mp hw]
    exact sound_reportTargets hfailed hcanceled _
  · rintro ⟨attempt', h | h⟩ hrunning hall
    · cases h
      have htargets : s.reportTargets r .finished = [.finishing, .finished] :=
        if_pos ⟨allTasksInStatus_finished hs.assignment hlen hall, hrunning⟩
      exact ⟨_, mem_singleton_self _, attempt, .inr (by rw [htargets])⟩
    · cases h

/-- A transition that the state machine does not allow ends its handler. -/
theorem refused (hu : s.threads[i]? = some (.transitions (.report attempt) r (target :: rest)))
    (htarget : target ∉ validTransitions (s.deref r).status) :
    Completing r found { s with threads := s.threads.eraseIdx i ++ [] } := by
  refine hs.replace hu nofun ?_ ?_
  · rintro ⟨attempt', h | h⟩ hrunning hall
    · cases h
    · cases h
      rw [hrunning] at htarget
      exact absurd (mem_cons_self ..) htarget
  · intro attempt' h hfinishing
    cases h
    rw [hfinishing] at htarget
    exact htarget (mem_cons_self ..)

/-- A transition is made, and its handler goes on. -/
theorem moveOn (hlen : found.assignments.len ≠ 0)
    (hu : s.threads[i]? = some (.transitions (.report attempt) r (target :: rest)))
    (htarget : target ∈ validTransitions (s.deref r).status) :
    Completing r found ((s.transitioned cfg o (s.threads.eraseIdx i) r target).spawn
      (.transitions (.report attempt) r rest)) where
  job := by
    have hjobs : (update s.mem.jobs r.job (some r.serial)) r.job = some r.serial :=
      update_self ..
    exact Memory.job_eq_some.mpr ⟨rfl, hjobs⟩
  assignment := hs.assignment
  handlers := by
    intro w hw hr
    rcases mem_append.mp hw with hold | hadded
    · exact hs.handlers w (eraseIdx_subset hold) hr
    · rw [mem_singleton.mp hadded]
      rcases hs.handlers _ (mem_of_getElem? hu) ⟨attempt, rfl⟩ with h | h | h | h
      · cases h
      · cases h
        exact .inl rfl
      · cases h
        exact .inr (.inr (.inr rfl))
      · cases h
        exact .inl rfl
  phase := by
    have hphase := hs.phase
    have hderef : ((s.transitioned cfg o (s.threads.eraseIdx i) r target).spawn
        (.transitions (.report attempt) r rest)).deref r =
          (s.deref r).transition cfg o.now target := update_self ..
    rw [hderef, status_transition]
    rcases hs.handlers _ (mem_of_getElem? hu) ⟨attempt, rfl⟩ with h | h | h | h
    · cases h
    · cases h
      -- Only a DEPLOYING job becomes RUNNING, and none of its tasks has finished.
      intro hall
      obtain ⟨t, ht⟩ := exists_task hlen
      have hdeploying : (s.deref r).status = .deploying := by
        revert htarget
        cases (s.deref r).status with
        | _ => decide
      rw [hdeploying] at hphase
      exact absurd (hall t ht) (hphase t ht)
    · cases h
      exact ⟨attempt, mem_append_right _ (mem_singleton_self _)⟩
    · cases h
      rw [Phase, hderef, name_transition_finished]
      have hname : update s.mem.activeJobNames (s.deref r).name none (s.deref r).name =
          none := update_self ..
      exact fun h => Option.some_ne_none _ (h.symm.trans hname)

/-- **What a report, its handler or a step that leaves the job alone preserves.** -/
theorem step (hlen : found.assignments.len ≠ 0) {a : Action × Oracle}
    (hreporting : Reporting cfg r s a) (hfinishes : FinishesRunning r s a)
    (h : step cfg s a = some s') : Completing r found s' := by
  cases hreporting with
  | report req hjob hfailed hcanceled o =>
    cases h
    rcases updateTaskStatus_noted hfailed with heq | ⟨r', a, haccept, heq⟩
    · rw [heq]
      exact hs
    · have hr := acceptTaskStatus_job haccept
      rw [hjob, hs.job] at hr
      cases hr
      rw [heq]
      exact hs.note haccept hjob hfailed hcanceled (hfinishes req rfl hjob)
  | handler i u hu hhandles o hwritten =>
    rw [Coordinator.step] at h
    dsimp only at h
    rw [hu, Option.bind_some] at h
    obtain ⟨attempt, ⟨status, rfl⟩ | ⟨targets, rfl⟩⟩ := hhandles.cases
    · cases h
      exact hs.judge hlen hu
    · cases targets with
      | nil =>
        cases h
        have hleft : Completing r found { s with threads := s.threads.eraseIdx i ++ [] } :=
          hs.replace hu (by simp) (by rintro ⟨_, h | h⟩; cases h; cases h) (by simp)
        rwa [append_nil] at hleft
      | cons target rest =>
        cases h
        by_cases htarget : target ∈ validTransitions (s.deref r).status
        · rw [transition_allowed hwritten htarget]
          exact hs.moveOn hlen hu htarget
        · rw [transition_refused htarget]
          have hleft := hs.refused hu htarget
          rwa [append_nil] at hleft
  | aside a haside => exact hs.aside (haside s' h)

end

end Completing

/-- **Completion is found for every order of the reports** in which no task finishes before the
job is RUNNING: once all tasks have finished and all reports are handled, the job is FINISHED and
has given its name back. -/
theorem completion_detected {cfg : Config} {r : Ref} {found : TaskAssignmentMap} {s₀ s : State}
    (h₀ : Deployed r found s₀) (hlen : found.assignments.len ≠ 0)
    (h : Reaches (step cfg) (fun s a => Reporting cfg r s a ∧ FinishesRunning r s a) s₀ s)
    (hall : s.AllFinished found) (hhandled : ∀ u ∈ s.threads, ¬ u.Handles r) :
    (s.deref r).status = .finished ∧ s.mem.activeJobNames (s.deref r).name ≠ some r.job := by
  have hs : Completing r found s := h.invariant (.of_deployed h₀)
    fun _ _ _ _ hs hok hstep => hs.step hlen hok.1 hok.2 hstep
  have hphase := hs.phase
  cases hstatus : (s.deref r).status with rw [hstatus] at hphase
  | deploying =>
    obtain ⟨t, ht⟩ := exists_task hlen
    exact absurd (hall t ht) (hphase t ht)
  | running =>
    obtain ⟨u, hu, attempt, rfl | rfl⟩ := hphase hall
    · exact absurd ⟨attempt, rfl⟩ (hhandled _ hu)
    · exact absurd ⟨attempt, rfl⟩ (hhandled _ hu)
  | finishing =>
    obtain ⟨attempt, hmem⟩ := hphase
    exact absurd ⟨attempt, rfl⟩ (hhandled _ hmem)
  | finished =>
    exact ⟨rfl, hphase⟩
  | _ =>
    exact absurd hphase id

/-! ## Two tasks -/

namespace Sample

/-- Every job has two tasks. -/
def twoTasks : Config where
  taskDescriptors := fun j _ _ => some [{ taskID := 2 * j }, { taskID := 2 * j + 1 }]
  taskJob := fun t => t / 2
  taskJob_eq := by
    intro j g p tasks h t ht
    cases h
    rcases mem_pair.mp ht with rfl | rfl
    · simp
    · simp [Nat.mul_add_div]

/-- Both tasks on worker 1. -/
def placementTwo : Placement where
  attemptID := 1
  assignments := [({ taskID := 0 }, 1), ({ taskID := 1 }, 1)]
  peers := []

/-- Both tasks are deployed. -/
def deployTwo : List (Action × Oracle) :=
  each [.tick [0], .dispatch, .proceed 0, .proceed 0] ++
    [(.proceed 0, { oracle with placement := some placementTwo })] ++
    each [.proceed 0, .proceed 0, .proceed 0]

def reportOf (t : TaskID) (status : TaskStatus) : TaskStatusRequest :=
  { jobID := 0, taskID := t, workerID := 1, attemptID := 1, epochID := 1, status }

/-- The tasks report, one report handled after the other; the number says how many steps its
handler takes. -/
def reports (rs : List (TaskID × TaskStatus × ℕ)) : List (Action × Oracle) :=
  rs.flatMap fun x =>
    each (.updateTaskStatus (reportOf x.1 x.2.1) :: replicate x.2.2 (.proceed 0))

end Sample

/-- `Reporting`, evaluated on the reports and handlers. -/
def reporting (r : Ref) (s : State) (a : Action × Oracle) : Bool :=
  a.2.written && match a.1 with
    | .updateTaskStatus req =>
      decide (req.jobID = r.job ∧ req.status ≠ .failed ∧ req.status ≠ .canceled)
    | .proceed i => (s.threads[i]?).any fun u => u.report.any fun x => x.1 = r
    | _ => false

theorem reporting_sound (cfg : Config) (r : Ref) (s : State) (a : Action × Oracle)
    (h : reporting r s a = true) : Reporting cfg r s a := by
  obtain ⟨a, o⟩ := a
  rw [reporting, and_eq_true] at h
  obtain ⟨hwritten, h⟩ := h
  cases a with
  | updateTaskStatus req =>
    obtain ⟨hjob, hfailed, hcanceled⟩ := of_decide_eq_true h
    exact .report req hjob hfailed hcanceled o hwritten
  | proceed i =>
    obtain ⟨u, hu, h⟩ := (Option.any_eq_true _ _).mp h
    obtain ⟨⟨v, attempt⟩, hreport, h⟩ := (Option.any_eq_true _ _).mp h
    cases of_decide_eq_true h
    exact .handler i u hu ⟨attempt, hreport⟩ o hwritten
  | _ => cases h

/-- `FinishesRunning`, evaluated. -/
def finishesRunning (r : Ref) (s : State) (a : Action × Oracle) : Bool :=
  match a.1 with
  | .updateTaskStatus req =>
    decide (req.jobID = r.job → req.status = .finished → (s.deref r).status = .running)
  | _ => true

theorem finishesRunning_sound (r : Ref) (s : State) (a : Action × Oracle)
    (h : finishesRunning r s a = true) : FinishesRunning r s a := by
  intro req ha
  rw [finishesRunning, ha] at h
  exact of_decide_eq_true h

/-- `Deployed`, evaluated where no goroutine is left. -/
def deployed (r : Ref) (found : TaskAssignmentMap) (s : State) : Bool :=
  decide (s.mem.job r.job = some r) && decide ((s.deref r).status = .deploying) &&
    s.threads.isEmpty && found.assignments.keys.all fun t => s.mem.taskStatuses t = none

theorem deployed_sound {r : Ref} {found : TaskAssignmentMap} {s : State}
    (hfound : s.store.assignments r.job = some found) (h : deployed r found s = true) :
    Deployed r found s := by
  simp only [deployed, and_eq_true, decide_eq_true_eq, List.isEmpty_iff, List.all_eq_true] at h
  obtain ⟨⟨⟨hjob, hstatus⟩, hthreads⟩, hstatuses⟩ := h
  exact ⟨hjob, hstatus, hfound, hstatuses, by simp [hthreads]⟩

open Sample

/-- Task 0 starts and finishes before task 1 starts.  Both have finished, every report is handled,
and the job is DEPLOYING and keeps its name. -/
theorem completion_missed : ∃ s₀ s found, Reachable twoTasks s₀ ∧ Deployed ⟨0, 1⟩ found s₀ ∧
    Reaches (step twoTasks) (Reporting twoTasks ⟨0, 1⟩) s₀ s ∧
    s.log = s₀.log ++ [.reported (reportOf 0 .running),
      .reported (reportOf 0 .finished), .reported (reportOf 1 .running),
      .reported (reportOf 1 .finished)] ∧
    s.AllFinished found ∧ s.threads = [] ∧ (s.deref ⟨0, 1⟩).status = .deploying ∧
    s.mem.activeJobNames (s.deref ⟨0, 1⟩).name = some 0 := by
  obtain ⟨s₀, h₀, found, hfound, hdeployed, s, hrun, h⟩ :=
    reachable_of_run (step twoTasks) State.initial (start ++ deployTwo)
    (p := fun s₀ => ∃ found ∈ s₀.store.assignments 0, deployed ⟨0, 1⟩ found s₀ ∧
      ∃ s ∈ run (fun s a => if reporting ⟨0, 1⟩ s a then step twoTasks s a else none) s₀
        (reports [(0, .running, 2), (0, .finished, 2), (1, .running, 2), (1, .finished, 2)]),
        s.log = s₀.log ++ [.reported (reportOf 0 .running),
          .reported (reportOf 0 .finished), .reported (reportOf 1 .running),
          .reported (reportOf 1 .finished)] ∧
        (∀ t ∈ found.assignments.keys, s.mem.taskStatuses t = some .finished) ∧
        s.threads = [] ∧ (s.deref ⟨0, 1⟩).status = .deploying ∧
        s.mem.activeJobNames (s.deref ⟨0, 1⟩).name = some 0) (by decide)
  exact ⟨s₀, s, found, h₀, deployed_sound hfound hdeployed,
    Reaches.refl.run (reporting_sound _ _) hrun, h⟩

/-- Both tasks start before one finishes. -/
theorem completion_detected_started :
    ∃ s₀ s found, Reachable twoTasks s₀ ∧ Deployed ⟨0, 1⟩ found s₀ ∧
      Reaches (step twoTasks)
        (fun s a => Reporting twoTasks ⟨0, 1⟩ s a ∧ FinishesRunning ⟨0, 1⟩ s a) s₀ s ∧
      s.AllFinished found ∧ (s.deref ⟨0, 1⟩).status = .finished ∧
      s.mem.activeJobNames (s.deref ⟨0, 1⟩).name ≠ some 0 := by
  obtain ⟨s₀, h₀, found, hfound, hdeployed, hlen, s, hrun, hall, hthreads⟩ :=
    reachable_of_run (step twoTasks) State.initial (start ++ deployTwo)
    (p := fun s₀ => ∃ found ∈ s₀.store.assignments 0,
      deployed ⟨0, 1⟩ found s₀ ∧ found.assignments.len ≠ 0 ∧
      ∃ s ∈ run (fun s a => if reporting ⟨0, 1⟩ s a && finishesRunning ⟨0, 1⟩ s a then
          step twoTasks s a else none) s₀
        (reports [(0, .running, 2), (1, .running, 3), (0, .finished, 2), (1, .finished, 4)]),
        (∀ t ∈ found.assignments.keys, s.mem.taskStatuses t = some .finished) ∧
        s.threads = []) (by decide)
  have hreaches := Reaches.refl.run (fun s a h => (and_eq_true_iff.mp h).imp
    (reporting_sound twoTasks ⟨0, 1⟩ s a) (finishesRunning_sound ⟨0, 1⟩ s a)) hrun
  have hdeployed := deployed_sound (r := ⟨0, 1⟩) hfound hdeployed
  exact ⟨s₀, s, found, h₀, hdeployed, hreaches, hall,
    completion_detected hdeployed hlen hreaches hall (by simp [hthreads])⟩

end Wire.Coordinator
