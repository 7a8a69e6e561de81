import Wire.Coordinator.Contacts

/-!
# Whether the tasks of two attempts can run at once

Before a job is deployed again, `prepareTaskRestart` looks at every task of the persisted
assignment.  It has no other sign that a task runs no more than what it remembers: the status that
the task was recorded in, and the time of the last contact with its worker.  This module says what
these two are worth.

The log has every contact that was accepted, with its epoch and time, and every report.  A task of
an assignment is known to be gone if it reported a terminal status of its attempt, or if the last
contact with its worker is older than the timeout, or if the worker was not heard of in this term
and the recovery fence is over (`Gone`).

Several things break that.  A worker can be removed while its tasks run; it is then treated like a
worker that has been silent for long, and its tasks are deployed again at once
(`removed_worker_overlaps`).  The put-back of a worker whose deletion failed overwrites a later
registration.  A task that was marked FAILED when its worker was lost stays so when the worker
comes back with the task.  A task that is missing when its worker registers is marked FAILED
without a report.  And the check is made before the placement, not when the deployment is
published.  `Careful` rules these out one by one, and `attempts_apart` proves that nothing else
is needed: on a clock that does not go back, a new attempt is then persisted only over tasks that
are gone.
-/

namespace Wire.Coordinator

open List Option Function Bool Runs

/-! ## Assignments -/

/-- The tasks of an assignment belong to its job, and the workers of an assignment of this term
were heard of in it. -/
structure Owned (cfg : Config) (T : Tasks) (log : List Event) : Prop where
  jobs : ∀ j found t w, T.assignments j = some found → found.assignments.lookup t = some w →
    cfg.taskJob t = j
  owners : T.recovered = true → ∀ j found t w, T.assignments j = some found →
    found.assignments.lookup t = some w → found.epochID = T.epoch → Heard log T.epoch w

/-- A goroutine places and publishes only tasks of its own job. -/
def Thread.PlacesOwn (cfg : Config) : Thread → Prop
  | .assign r tasks => ∀ d ∈ tasks, cfg.taskJob d.taskID = r.job
  | .publish r p => ∀ x ∈ p.assignments, cfg.taskJob x.1.taskID = r.job
  | _ => True

variable {cfg : Config} {s : State}

theorem Spawned.placesOwn {run : Option Thread} {R : Records} {log : List Event} {t : Thread}
    (h : Spawned cfg run s R log t) (hrun : ∀ u, run = some u → u.PlacesOwn cfg) :
    t.PlacesOwn cfg := by
  cases h with
  | ordinary ht =>
    cases t with
    | assign | publish => cases ht
    | _ => trivial
  | assign r hran config parallelism tasks htasks =>
    exact cfg.taskJob_eq r.job config parallelism tasks htasks
  | publish r p hran =>
    intro x hx
    exact hrun _ hran x.1 (mem_map_of_mem hx)
  | _ => trivial

theorem live_of_placementLive {o : Oracle} {p : Placement} (h : s.placementLive cfg o p = true)
    {x : TaskDescriptor × WorkerID} (hx : x ∈ p.assignments) :
    ∃ worker, s.mem.workers.lookup x.2 = some worker ∧ worker.live cfg o.now = true := by
  rw [State.placementLive, and_eq_true] at h
  obtain ⟨worker, hworker, hlive⟩ :=
    (any_eq_true _ _).mp (all_eq_true.mp h.1 x hx)
  exact ⟨worker, hworker, (of_decide_eq_true hlive).1⟩

theorem sameAttempt_self (s : State) (j : JobID) (new : TaskAssignmentMap)
    (hnew : s.store.assignments j = some new) :
    ∃ old, s.store.assignments j = some old ∧ old.SameAttempt new :=
  ⟨new, hnew, rfl, rfl, rfl⟩

namespace Owned

variable {cfg : Config} {a : Action} {o : Oracle} {run : Option Thread} {s : State} {T T' : Tasks}
  {log es : List Event}

theorem keep (hs : Owned cfg T log) (hrecovered : T'.recovered = T.recovered)
    (hepoch : T'.epoch = T.epoch) (hassigned : ∀ j new, T'.assignments j = some new →
      ∃ old, T.assignments j = some old ∧ old.SameAttempt new) : Owned cfg T' (log ++ es) where
  jobs := by
    intro j new t w hnew ht
    obtain ⟨old, hold, -, -, hsame⟩ := hassigned j new hnew
    rw [hsame] at ht
    exact hs.jobs j old t w hold ht
  owners := by
    intro hrec j new t w hnew ht hnow
    obtain ⟨old, hold, -, hdate, hsame⟩ := hassigned j new hnew
    rw [hrecovered] at hrec
    rw [hsame] at ht
    rw [hdate, hepoch] at hnow
    obtain ⟨time, hmem⟩ := hs.owners hrec j old t w hold ht hnow
    rw [hepoch]
    exact ⟨time, mem_append_left _ hmem⟩

theorem taskMove (hs : Owned cfg s.tasks s.log) (hdated : Dated s.tasks s.log) {now : Time}
    (hwatched : Watched cfg s.tasks s.log now)
    (hrun : ∀ u, run = some u → u.PlacesOwn cfg) (h : TaskMove cfg a o run s T es) :
    Owned cfg T (s.log ++ es) := by
  have hsame := sameAttempt_self s
  cases h with
  | reported req r found charged haccept =>
    exact hs.keep rfl rfl fun j new hnew => assignment_reported haccept hnew
  | deploy hready r p hran hlive new hattempt hepoch hnew =>
    have hplaced : ∀ j found t w,
        update s.store.assignments r.job (some new) j = some found →
        found.assignments.lookup t = some w →
        (j = r.job ∧ ∃ x ∈ p.assignments, x.1.taskID = t ∧ x.2 = w) ∨
          s.store.assignments j = some found := by
      intro j found t w hfound ht
      rcases eq_or_ne j r.job with rfl | hne
      · rw [update_self] at hfound
        cases hfound
        rw [hnew] at ht
        exact .inl ⟨rfl, lookup_placed ht⟩
      · rw [update_of_ne hne] at hfound
        exact .inr hfound
    refine ⟨fun j found t w hfound ht => ?_, fun hrec j found t w hfound ht hdate => ?_⟩
    · rcases hplaced j found t w hfound ht with ⟨rfl, x, hx, rfl, -⟩ | hold
      · exact hrun _ hran x hx
      · exact hs.jobs j found t w hold ht
    · rcases hplaced j found t w hfound ht with ⟨-, x, hx, -, rfl⟩ | hold
      · obtain ⟨worker, hworker, hliving⟩ := live_of_placementLive hlive hx
        have hlast := hwatched.heard hrec x.2 worker hworker (of_decide_eq_true hliving).1
        exact ⟨_, mem_append_left _ (mem_of_lastContact hlast)⟩
      · obtain ⟨time, hmem⟩ := hs.owners hrec j found t w hold ht hdate
        exact ⟨time, mem_append_left _ hmem⟩
  | crash =>
    exact ⟨hs.jobs, nofun⟩
  | recover ha epoch hrec =>
    have hrecovering : s.tasks.recovering = some epoch := by
      rw [State.tasks, hrec]
      rfl
    refine ⟨hs.jobs, fun _ j found t w hfound ht hdate => ?_⟩
    exact absurd hdate ((hdated.recovering epoch hrecovering).2.2.2 j found hfound).ne
  | _ => exact hs.keep rfl rfl hsame

end Owned

/-! ## The conditions -/

/-- What has to be ruled out: a deployment that is published when `prepareTaskRestart` would not
let it pass any more, the removal of a worker that is in contact, a worker put back because it
could not be deleted, a registration of a worker with a task that is recorded terminal without its
own report, and a registration that marks a task FAILED that has not reported its end. -/
structure Careful (cfg : Config) (s : State) (a : Action × Oracle) : Prop where
  publish : ∀ r p, s.running a.1 = some (.publish r p) →
    ∀ old, s.store.assignments r.job = some old →
      restartCancels cfg a.2.now s old (old.assignments.entries.map fun e => (e.1, e.2)) = some []
  remove : ∀ w, a.1 = .removeWorker w → ∀ worker, s.mem.workers.lookup w = some worker →
    worker.live cfg a.2.now = false
  deleted : ∀ w worker, s.running a.1 = some (.removeWorker w worker) → a.2.written = true
  register : ∀ w worker highest, a.1 = .registerWorker w worker highest →
    ∀ j found t status, s.store.assignments j = some found → found.assignments.lookup t = some w →
      s.mem.taskStatuses t = some status → status.isTerminal = true →
        Reported s.log j t found.attemptID
  missing : ∀ w j t, a.1 = .missingTask w j t → ∀ found, s.store.assignments j = some found →
    Reported s.log j t found.attemptID

/-! ## Statuses -/

/-- A task that is recorded terminal reported so, or its worker is quiet. -/
def Ended (cfg : Config) (T : Tasks) (log : List Event) (now : Time) : Prop :=
  T.recovered = true → ∀ j found t w status, T.assignments j = some found →
    found.assignments.lookup t = some w → T.statuses t = some status → status.isTerminal = true →
      Reported log j t found.attemptID ∨ Quiet cfg log T.epoch w now

variable {t : TaskID} {old : TaskAssignmentMap} {j : JobID} {w : WorkerID}

theorem lookup_of_mem_lostTasks {found : TaskAssignmentMap} (h : t ∈ s.lostTasks found) :
    ∃ w, found.assignments.lookup t = some w ∧
      (s.mem.workers.lookup w).all (·.lost) = true := by
  obtain ⟨e, he, rfl⟩ := mem_map.mp h
  obtain ⟨hmem, hlost⟩ := mem_filter.mp he
  exact ⟨e.2, AList.mem_lookup_iff.mpr hmem, (of_decide_eq_true hlost).2⟩

namespace Ended

variable {cfg : Config} {a : Action × Oracle} {s : State} {T T' : Tasks} {log es : List Event}
  {now later : Time}

/-- A step that is no contact, with what a status that it records rests on. -/
theorem keep (hs : Ended cfg T log now) (hrecovered : T'.recovered = T.recovered)
    (hepoch : T'.epoch = T.epoch) (hassigned : ∀ j new, T'.assignments j = some new →
      ∃ old, T.assignments j = some old ∧ old.SameAttempt new)
    (hstatus : T.recovered = true → ∀ j old t w status, T.assignments j = some old →
      old.assignments.lookup t = some w → T'.statuses t = some status →
      status.isTerminal = true → T.statuses t = some status ∨
        Reported (log ++ es) j t old.attemptID ∨ Quiet cfg log T.epoch w now)
    (hes : ∀ w, NoContact es w) (hle : now ≤ later) : Ended cfg T' (log ++ es) later := by
  intro hrec j new t w status hnew ht hrecorded hterminal
  obtain ⟨old, hold, hattempt, -, hsame⟩ := hassigned j new hnew
  rw [hrecovered] at hrec
  rw [hsame] at ht
  rw [hattempt, hepoch]
  rcases hstatus hrec j old t w status hold ht hrecorded hterminal with h | h | h
  · rcases hs hrec j old t w status hold ht h hterminal with hreported | hquiet
    · exact .inl (hreported.append es)
    · exact .inr (hquiet.append (hes w) hle)
  · exact .inl h
  · exact .inr (h.append (hes w) hle)

/-- A contact with a worker, all of whose terminal tasks have reported. -/
theorem contact (hs : Ended cfg T log now) (hle : now ≤ later) {ws : GoMap WorkerID WorkerMeta}
    {w : WorkerID} {epoch : ℕ} {time : Time}
    (hreported : T.recovered = true → ∀ j found t status, T.assignments j = some found →
      found.assignments.lookup t = some w → T.statuses t = some status →
      status.isTerminal = true → Reported log j t found.attemptID) :
    Ended cfg { T with workers := ws } (log ++ [.contacted w epoch time]) later := by
  intro hrec j found t v status hfound ht hstatus hterminal
  rcases eq_or_ne v w with rfl | hne
  · exact .inl ((hreported hrec j found t status hfound ht hstatus hterminal).append _)
  · rcases hs hrec j found t v status hfound ht hstatus hterminal with hrep | hquiet
    · exact .inl (hrep.append _)
    · exact .inr (hquiet.append (.of_ne hne.symm _ _) hle)

theorem taskMove (hs : Ended cfg s.tasks s.log now) (howned : Owned cfg s.tasks s.log)
    (hwatched : Watched cfg s.tasks s.log now) (hok : Careful cfg s a) (hle : now ≤ a.2.now)
    (h : TaskMove cfg a.1 a.2 (s.running a.1) s T es) : Ended cfg T (s.log ++ es) a.2.now := by
  have hsame := sameAttempt_self s
  -- A task belongs to one job only, so to one assignment.
  have hunique : ∀ {i j : JobID} {x y : TaskAssignmentMap} {t : TaskID} {v w : WorkerID},
      s.store.assignments i = some x → x.assignments.lookup t = some v →
      s.store.assignments j = some y → y.assignments.lookup t = some w → i = j ∧ x = y ∧ v = w := by
    intro i j x y t v w hx hv hy hw
    obtain rfl : i = j := (howned.jobs i x t v hx hv).symm.trans (howned.jobs j y t w hy hw)
    obtain rfl : x = y := some.inj (hx.symm.trans hy)
    exact ⟨rfl, rfl, some.inj (hv.symm.trans hw)⟩
  cases h with
  | same hes =>
    exact hs.keep rfl rfl hsame (fun _ _ _ _ _ _ _ _ h _ => .inl h)
      (Event.Ordinary.noContact hes) hle
  | reported req r found charged haccept =>
    refine hs.keep rfl rfl (fun j new hnew => assignment_reported haccept hnew) ?_ ?_ hle
    · intro hrec j old t w status hold ht hstatus hterminal
      dsimp only at hstatus
      rcases eq_or_ne t req.taskID with rfl | hne
      · rw [update_self] at hstatus
        cases hstatus
        obtain ⟨hfound, howner, hattempt⟩ := acceptTaskStatus_assignment haccept
        obtain ⟨rfl, rfl, -⟩ := hunique hold ht hfound howner
        exact .inr (.inl ⟨req, mem_append_right _ (mem_singleton_self _), rfl, rfl,
          hattempt.symm, hterminal⟩)
      · rw [update_of_ne hne] at hstatus
        exact .inl hstatus
    · intro w e he
      rw [mem_singleton.mp he]
      rfl
  | lost hready i found hfound =>
    refine hs.keep rfl rfl hsame ?_ nofun hle
    intro hrec j old t w status hold ht hstatus hterminal
    dsimp only at hstatus
    split at hstatus
    · next hmem =>
      obtain ⟨v, hv, hlost⟩ := lookup_of_mem_lostTasks hmem
      obtain ⟨-, -, rfl⟩ := hunique hold ht hfound hv
      exact .inr (.inr (hwatched.lost hrec w hlost))
    · exact .inl hstatus
  | missing v i t' ha hexpects =>
    refine hs.keep rfl rfl hsame ?_ nofun hle
    intro hrec j old t w status hold ht hstatus hterminal
    dsimp only at hstatus
    rcases eq_or_ne t t' with rfl | hne
    · obtain ⟨r, found, -, hfound, -, -, hv⟩ := hexpects
      obtain ⟨rfl, rfl, -⟩ := hunique hold ht hfound hv
      exact .inr (.inl ((hok.missing v j t ha old hold).append _))
    · rw [update_of_ne hne] at hstatus
      exact .inl hstatus
  | deploy hready r p hran hlive new hattempt hepoch hnew =>
    intro hrec j found t w status hfound ht hstatus hterminal
    dsimp only at hfound hstatus
    obtain ⟨hunplaced, hstatus⟩ := ite_none_left_eq_some.mp hstatus
    have hne : j ≠ r.job := by
      rintro rfl
      rw [update_self] at hfound
      cases hfound
      rw [hnew] at ht
      obtain ⟨x, hx, hxt, -⟩ := lookup_placed ht
      exact hunplaced (hxt ▸ mem_map_of_mem hx)
    rw [update_of_ne hne] at hfound
    rcases hs hrec j found t w status hfound ht hstatus hterminal with hreported | hquiet
    · exact .inl (hreported.append _)
    · refine .inr (hquiet.append (fun e he => ?_) hle)
      rw [mem_singleton.mp he]
      rfl
  | register hready w worker highest ha new =>
    exact hs.contact hle fun _ => hok.register w worker highest ha
  | heartbeat hready w old new hold hlive =>
    refine hs.contact hle fun hrec j found t status hfound ht hstatus hterminal => ?_
    rcases hs hrec j found t w status hfound ht hstatus hterminal with hreported | hquiet
    · exact hreported
    · exact absurd hquiet (hwatched.not_quiet hrec hold hle hlive)
  | crash => exact nofun
  | recover => exact fun _ _ _ _ _ _ _ _ hstatus => nomatch hstatus
  | _ => exact hs.keep rfl rfl hsame (fun _ _ _ _ _ _ _ _ h _ => .inl h) nofun hle

end Ended

/-! ## Runs -/

/-- The steps of the coordinator on a clock that does not go back. -/
abbrev timedStep (cfg : Config) : State × Time → Action × Oracle → Option (State × Time) :=
  timed (step cfg) fun a => a.2.now

/-- The runs all of whose steps are careful. -/
abbrev CarefulRun (cfg : Config) : State × Time → Prop :=
  Reaches (timedStep cfg) (fun x a => Careful cfg x.1 a) (State.initial, 1)

/-- What the statuses, the workers and the assignments are worth at a time. -/
structure Accounted (cfg : Config) (s : State) (now : Time) : Prop where
  dated : Dated s.tasks s.log
  watched : Watched cfg s.tasks s.log now
  owned : Owned cfg s.tasks s.log
  ended : Ended cfg s.tasks s.log now
  places : ∀ t ∈ s.threads, t.PlacesOwn cfg
  clock : 0 < now

namespace Accounted

variable {cfg : Config} {s s' : State} {a : Action × Oracle} {now : Time}

theorem initial : Accounted cfg State.initial 1 where
  dated := ⟨nofun, nofun, nofun, nofun⟩
  watched := ⟨nofun, nofun, nofun⟩
  owned := ⟨nofun, nofun⟩
  ended := nofun
  places := nofun
  clock := one_pos

theorem step (hs : Accounted cfg s now) (hok : Careful cfg s a) (hle : now ≤ a.2.now)
    (h : step cfg s a = some s') : Accounted cfg s' a.2.now := by
  have hmoved := step_moved h
  have hrun : ∀ u, s.running a.1 = some u → u.PlacesOwn cfg :=
    fun u hu => hs.places u (State.mem_of_running hu)
  have hclock : 0 < a.2.now := hs.clock.trans_le hle
  obtain ⟨es, htasks, hlog⟩ := hmoved.tasks
  refine ⟨?_, ?_, ?_, ?_, fun t ht => ?_, hclock⟩
  · rw [hlog]
    exact hs.dated.taskMove htasks
  · rw [hlog]
    exact hs.watched.taskMove hs.dated hok.remove hok.deleted hle hclock htasks
  · rw [hlog]
    exact hs.owned.taskMove hs.dated hs.watched hrun htasks
  · rw [hlog]
    exact hs.ended.taskMove hs.owned hs.watched hok hle htasks
  · rcases hmoved.threads t ht with hold | hnew
    · exact hs.places t hold
    · exact hnew.placesOwn hrun

end Accounted

theorem accounted {x : State × Time} (h : CarefulRun cfg x) : Accounted cfg x.1 x.2 := by
  refine h.invariant (P := fun x => Accounted cfg x.1 x.2) .initial ?_
  intro x a y _ hx hok hstep
  obtain ⟨hle, hs, hy⟩ := timed_eq_some.mp hstep
  rw [hy]
  exact hx.step hok hle hs

/-! ## New attempts -/

/-- The task of the attempt cannot be running any more, for what the coordinator can know: it
reported a terminal status of the attempt, or the last contact with its worker is at least the
timeout old, or the worker was not heard of in this term and the recovery fence is over. -/
def Gone (cfg : Config) (s : State) (now : Time) (j : JobID) (old : TaskAssignmentMap)
    (t : TaskID) (w : WorkerID) : Prop :=
  Reported s.log j t old.attemptID ∨ Silent cfg s.log w now ∨
    (old.epochID < s.mem.epoch ∧ s.mem.recoveryFenceUntil ≤ now ∧ ¬ Heard s.log s.mem.epoch w)

/-- What `prepareTaskRestart` has made sure of when it finds no task to cancel. -/
theorem restartCancels_nil {now : Time} {es : List (TaskID × WorkerID)}
    (h : restartCancels cfg now s old es = some []) :
    ∀ e ∈ es, ¬ (old.epochID < s.mem.epoch ∧ now < s.mem.recoveryFenceUntil ∧
        (s.mem.workers.lookup e.2).all (·.lastHeartbeat = 0) = true) ∧
      ((s.mem.workers.lookup e.2).all (fun w => ¬ w.live cfg now) = true ∨
        (s.mem.taskStatuses e.1).any (·.isTerminal) = true) := by
  induction es with
  | nil => exact nofun
  | cons e rest ih =>
    rw [restartCancels] at h
    obtain ⟨hfence, h⟩ := ite_none_left_eq_some.mp h
    split at h
    · next hsilent => exact forall_mem_cons.mpr ⟨⟨hfence, .inl hsilent⟩, ih h⟩
    · split at h
      · next hterminal => exact forall_mem_cons.mpr ⟨⟨hfence, .inr hterminal⟩, ih h⟩
      · obtain ⟨cancels, -, hcons⟩ := map_eq_some_iff.mp h
        cases hcons

/-- A worker that the check takes for silent is, or the fence is over for it. -/
theorem Accounted.gone_of_quiet {now later : Time} (hs : Accounted cfg s now)
    (hrec : s.mem.recovered = true)
    (hold : s.store.assignments j = some old) (ht : old.assignments.lookup t = some w)
    (hfence : ¬ (old.epochID < s.mem.epoch ∧ later < s.mem.recoveryFenceUntil ∧
      (s.mem.workers.lookup w).all (·.lastHeartbeat = 0) = true))
    (hquiet : Quiet cfg s.log s.mem.epoch w later) : Gone cfg s later j old t w := by
  rcases hquiet with hsilent | hunheard
  · exact .inr (.inl hsilent)
  · have hne : old.epochID ≠ s.mem.epoch := fun heq =>
      hunheard (hs.owned.owners hrec j old t w hold ht heq)
    have hlt : old.epochID < s.mem.epoch := lt_of_le_of_ne ((hs.dated.term hrec).2 j old hold) hne
    have hzero : (s.mem.workers.lookup w).all (·.lastHeartbeat = 0) = true := by
      cases hworker : s.mem.workers.lookup w with
      | none => rfl
      | some worker =>
        by_contra hnot
        have hlast := hs.watched.heard hrec w worker hworker (of_decide_eq_false
          (eq_false_of_not_eq_true hnot))
        exact hunheard ⟨_, mem_of_lastContact hlast⟩
    exact .inr (.inr ⟨hlt, not_lt.mp fun hlater => hfence ⟨hlt, hlater, hzero⟩, hunheard⟩)

theorem Accounted.gone {now later : Time} (hs : Accounted cfg s now) (hrec : s.mem.recovered = true)
    (hle : now ≤ later)
    (hold : s.store.assignments j = some old) (ht : old.assignments.lookup t = some w)
    (hrestart : restartCancels cfg later s old
      (old.assignments.entries.map fun e => (e.1, e.2)) = some []) :
    Gone cfg s later j old t w := by
  have hentry : (t, w) ∈ old.assignments.entries.map fun e => (e.1, e.2) :=
    mem_map.mpr ⟨⟨t, w⟩, AList.mem_lookup_iff.mp ht, rfl⟩
  obtain ⟨hfence, hend⟩ := restartCancels_nil hrestart (t, w) hentry
  rcases hend with hsilent | hterminal
  · refine hs.gone_of_quiet hrec hold ht hfence ?_
    cases hworker : s.mem.workers.lookup w with
    | none =>
      have hlost : (s.mem.workers.lookup w).all (·.lost) = true := by rw [hworker]; rfl
      exact (hs.watched.lost hrec w hlost).mono hle
    | some worker =>
      rw [hworker] at hsilent
      have hlive : worker.live cfg later = false := by simpa using hsilent
      exact hs.watched.quiet hrec hworker hlive
  · obtain ⟨status, hstatus, hterminal⟩ := (any_eq_true _ _).mp hterminal
    rcases hs.ended hrec j old t w status hold ht hstatus hterminal with hreported | hquiet
    · exact .inl hreported
    · exact hs.gone_of_quiet hrec hold ht hfence (hquiet.mono hle)

/-- Only a goroutine that publishes persists a new attempt. -/
theorem TaskMove.publishes {a : Action} {o : Oracle} {run : Option Thread} {T : Tasks}
    {attempt : AttemptID} {generation boundary : ℕ}
    (h : TaskMove cfg a o run s T [.deployed j attempt generation boundary]) :
    s.mem.ready = true ∧ ∃ r p, run = some (.publish r p) ∧ r.job = j := by
  cases h with
  | same hes => exact absurd (hes _ (mem_singleton_self _)) id
  | deploy hready r p hrun => exact ⟨hready, r, p, hrun, rfl⟩

/-- **Attempts do not overlap.**  In a careful run, a new attempt of a job is persisted only if
each task of the previous assignment is gone. -/
theorem attempts_apart {cfg : Config} {s s' : State} {now : Time} {a : Action × Oracle}
    (h : CarefulRun cfg (s, now)) (hok : Careful cfg s a) (hle : now ≤ a.2.now)
    (hstep : step cfg s a = some s') {j : JobID} {attempt : AttemptID} {generation boundary : ℕ}
    (hlog : s'.log = s.log ++ [.deployed j attempt generation boundary])
    {old : TaskAssignmentMap} (hold : s.store.assignments j = some old) {t : TaskID}
    {w : WorkerID} (ht : old.assignments.lookup t = some w) : Gone cfg s a.2.now j old t w := by
  obtain ⟨es, htasks, hlog'⟩ := (step_moved hstep).tasks
  cases append_cancel_left (hlog'.symm.trans hlog)
  obtain ⟨hready, r, p, hrun, rfl⟩ := htasks.publishes
  exact (accounted h).gone (Flights.recovered_of_ready hready) hle hold ht
    (hok.publish r p hrun old hold)

/-! ## Runs on the small cluster -/

/-- Worker 1 is removed while its task runs, and the job is about to be deployed on worker 2. -/
def removedWorkerRun : List (Action × Oracle) :=
  Sample.start ++ Sample.deploy 1 ++ Sample.reported 0 1 .running ++
    Sample.each [.removeWorker 1, .proceed 0, .detectLostTaskWorkers 0] ++
    Sample.restart Sample.oracle 0
      { attemptID := 2, assignments := [({ taskID := 10 }, 2)], peers := [] }

/-- No task reported a terminal status. -/
def noneReported (log : List Event) : Bool :=
  log.all fun
    | .reported req => !req.status.isTerminal
    | _ => true

theorem not_reported {log : List Event} (h : noneReported log = true) (j : JobID) (t : TaskID)
    (attempt : AttemptID) : ¬ Reported log j t attempt := by
  rintro ⟨req, hmem, -, -, -, hterminal⟩
  have hnot : (!req.status.isTerminal) = true := all_eq_true.mp h _ hmem
  rw [hterminal] at hnot
  cases hnot

/-- Attempt 2 is persisted at the very time of the last contact with the worker of the task of
attempt 1, which has not reported its end. -/
theorem removed_worker_overlaps :
    ∃ s s' old, Runs.Reachable (timedStep Sample.config) (State.initial, 1) (s, 2) ∧
      step Sample.config s (.proceed 0, Sample.oracle) = some s' ∧
      s'.log = s.log ++ [.deployed 0 2 2 0] ∧ s.store.assignments 0 = some old ∧
      old.assignments.lookup 10 = some 1 ∧ lastContact s.log 1 = some (1, 2) ∧
      ¬ Gone Sample.config s 2 0 old 10 1 := by
  obtain ⟨⟨s, now⟩, hs, hnow, s', hstep, hlog, hnone, hlast, old, hold, howner, hepoch⟩ :=
    reachable_of_run (timedStep Sample.config) (State.initial, 1) removedWorkerRun
    (p := fun x => x.2 = 2 ∧ ∃ s' ∈ step Sample.config x.1 (.proceed 0, Sample.oracle),
      s'.log = x.1.log ++ [.deployed 0 2 2 0] ∧ noneReported x.1.log ∧
      lastContact x.1.log 1 = some (1, 2) ∧ ∃ old ∈ x.1.store.assignments 0,
        old.assignments.lookup 10 = some 1 ∧ old.epochID = x.1.mem.epoch) (by decide)
  subst hnow
  refine ⟨s, s', old, hs, hstep, hlog, hold, howner, hlast, ?_⟩
  rintro (hreported | hsilent | ⟨hlt, -⟩)
  · exact not_reported hnone 0 10 old.attemptID hreported
  · exact absurd (hsilent 1 2 hlast) (by decide)
  · exact absurd hepoch hlt.ne

/-- `Careful`, evaluated on steps that are no registration. -/
def careful (cfg : Config) (s : State) (a : Action × Oracle) : Bool :=
  (match s.running a.1 with
    | some (.publish r _) => (s.store.assignments r.job).all fun old =>
        restartCancels cfg a.2.now s old (old.assignments.entries.map fun e => (e.1, e.2)) = some []
    | some (.removeWorker _ _) => a.2.written
    | _ => true) &&
  match a.1 with
    | .removeWorker w => (s.mem.workers.lookup w).all fun worker => !worker.live cfg a.2.now
    | .registerWorker _ _ _ | .missingTask _ _ _ => false
    | _ => true

theorem careful_sound (cfg : Config) (s : State) (a : Action × Oracle)
    (h : careful cfg s a = true) : Careful cfg s a := by
  rw [careful, and_eq_true] at h
  obtain ⟨hrun, haction⟩ := h
  refine ⟨fun r p hran old hold => ?_, fun w ha worker hworker => ?_, fun w worker hran => ?_,
    fun w worker highest ha => ?_, fun w j t ha => ?_⟩
  · rw [hran] at hrun
    dsimp only at hrun
    rw [hold, all_some] at hrun
    exact of_decide_eq_true hrun
  · rw [ha] at haction
    dsimp only at haction
    rw [hworker, all_some, not_eq_true'] at haction
    exact haction
  · rw [hran] at hrun
    exact hrun
  · rw [ha] at haction
    cases haction
  · rw [ha] at haction
    cases haction

/-- A registration while nothing is assigned. -/
theorem careful_register (h : s.store.assignments = fun _ => none) (w : WorkerID)
    (worker : WorkerMeta) (highest : ℕ) (o : Oracle) :
    Careful cfg s (.registerWorker w worker highest, o) := by
  refine ⟨nofun, nofun, nofun, fun _ _ _ _ j found t status hfound => ?_, nofun⟩
  rw [h] at hfound
  cases hfound

namespace Sample

/-- The first term has begun and both workers are registered. -/
def registered : State × Time :=
  (run (timedStep config) (State.initial, 1) (start.take 4)).get (by decide)

theorem careful_registered : CarefulRun config registered := by
  have hrun : run (fun x a => if careful config x.1 a then timedStep config x a else none)
      (.initial, 1) (start.take 2) =
        some ((run (timedStep config) (State.initial, 1) (start.take 2)).get (by decide)) :=
    rfl
  have hbegun : CarefulRun config
      ((run (timedStep config) (State.initial, 1) (start.take 2)).get (by decide)) :=
    Reaches.refl.run (fun x a => careful_sound config x.1 a) hrun
  exact (hbegun.tail (careful_register rfl 1 (worker 1) 0 oracle) rfl).tail
    (careful_register rfl 2 (worker 2) 0 oracle) rfl

end Sample

open Sample

/-- The task reports its failure, and the job is deployed again. -/
theorem attempts_apart_failed : ∃ s s' old, CarefulRun config (s, 2) ∧
    step config s (.proceed 0, oracle) = some s' ∧
    s'.log = s.log ++ [.deployed 0 2 2 0] ∧ s.store.assignments 0 = some old ∧
    old.assignments.lookup 10 = some 1 ∧ Gone config s 2 0 old 10 1 := by
  obtain ⟨⟨s, now⟩, hs, hnow, hok, s', hstep, hlog, old, hold, howner⟩ :=
    reaches_of_run (timedStep config) (fun x a => Careful config x.1 a)
    (fun x a => careful config x.1 a) (fun x a => careful_sound config x.1 a) registered
    (start.drop 4 ++ deploy 1 ++ reported 0 1 .running ++
      reported 0 1 .failed ++ restart oracle 0 (placement 2))
    (p := fun x => x.2 = 2 ∧ careful config x.1 (.proceed 0, oracle) ∧
      ∃ s' ∈ step config x.1 (.proceed 0, oracle), s'.log = x.1.log ++ [.deployed 0 2 2 0] ∧
        ∃ old ∈ x.1.store.assignments 0, old.assignments.lookup 10 = some 1) (by decide)
  subst hnow
  have hrun := careful_registered.trans hs
  exact ⟨s, s', old, hrun, hstep, hlog, hold, howner,
    attempts_apart hrun (careful_sound _ _ _ hok) le_rfl hstep hlog hold howner⟩

end Wire.Coordinator
