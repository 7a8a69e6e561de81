import Wire.Worker.EpochFence

/-!
# Slot reservations

A coordinator that reserves slots first asks for them with `RequestTaskSlots` and deploys with
`SubmitJob`.  Between the two, and while a deployment waits without the lock for the end of an older
attempt, slots are released and expire, tasks end, attempts are canceled and other calls come in.

`turn_of_step` says once what a step does to the slots: nothing that takes one (`Stays`), a new
reservation, the start of a whole deployment, or the end of a task.  From it follow the invariant of
every run (`Booked`), that a step replaces no handle (`Booked.handle`), and what holds in one
session, where receipts and canceled attempts are kept. -/

namespace Wire.Worker

open List Option AList Runs

open Wire.Coordinator (GoMap Time)

/-! ## What a step does to the slots -/

/-- What makes a handle the handle it is. -/
def TaskHandle.identity (h : TaskHandle) : Ident × Ident × ℕ × ℕ :=
  (h.jobID, h.attemptID, h.epoch, h.done)

/-- No task is started or removed and no slot is reserved. -/
structure Process.Stays (w w' : Process) : Prop where
  tasks : ∀ t, (w'.tasks.lookup t).map TaskHandle.identity =
    (w.tasks.lookup t).map TaskHandle.identity
  len : w'.tasks.len = w.tasks.len
  reservations : w'.reservations.entries.Sublist w.reservations.entries
  receipts : w'.deploymentReceipts = w.deploymentReceipts
  cancelled : w.cancelledAttempts ⊆ w'.cancelledAttempts
  runs : w'.runs = w.runs
  nextDone : w'.nextDone = w.nextDone
  redeployments : w'.redeployments = w.redeployments

/-- Everything a step of a session can do to the slots, with the events of the step. -/
inductive Turn (cfg : Config) (w : Process) : Process → List Event → Prop where
  | stays {w' : Process} {events : List Event} (h : w.Stays w')
      (hevents : ∀ j t a e, Event.started j t a e ∉ events) : Turn cfg w w' events
  | reserves {w₀ w' : Process} (id : Ident) (r : SlotReservation) (h : w.Stays w₀)
      (hfree : w₀.reservations.lookup id = none) (hslots : 0 ≤ r.slots)
      (hroom : r.slots ≤ w₀.availableSlots cfg)
      (h' : Process.Stays { w₀ with reservations := w₀.reservations.insert id r } w') :
      Turn cfg w w' []
  | starts {w₀ : Process} (req : SubmitJobRequest) (r : SlotReservation) (h : w.Stays w₀)
      (hepoch : w₀.epoch = w.epoch) (hpasses : w₀.Passes req r) :
      Turn cfg w (w₀.startTasks req) (startedEvents req.jobID req.tasks)
  | removes {w' : Process} (i : ℕ) (h : w.removeTask i = some w') : Turn cfg w w' []
  | closes {w' : Process} (i : ℕ) (h : w.closeDone i = some w') : Turn cfg w w' []

variable {taskID attemptID : Ident} {i : ℕ} {tasks : List TaskDescriptor}

namespace Process

variable {cfg : Config} {w w' w'' : Process} {e : Effect}

section Stays

theorem Stays.refl (w : Process) : w.Stays w :=
  ⟨fun _ => rfl, rfl, .refl _, rfl, .refl _, rfl, rfl, rfl⟩

theorem Stays.trans (h : w.Stays w') (h' : w'.Stays w'') : w.Stays w'' where
  tasks t := (h'.tasks t).trans (h.tasks t)
  len := h'.len.trans h.len
  reservations := h'.reservations.trans h.reservations
  receipts := h'.receipts.trans h.receipts
  cancelled := Subset.trans h.cancelled h'.cancelled
  runs := h'.runs.trans h.runs
  nextDone := h'.nextDone.trans h.nextDone
  redeployments := h'.redeployments.trans h.redeployments

theorem stays_dropExpired (w : Process) (now : Time) : w.Stays (w.dropExpired now) :=
  { Stays.refl w with reservations := filter_sublist }

theorem stays_eraseReservation (w : Process) (id : Ident) :
    w.Stays { w with reservations := w.reservations.erase id } :=
  { Stays.refl w with reservations := kerase_sublist .. }

theorem stays_submissions (w : Process) (submissions : List Submission) :
    w.Stays { w with submissions } :=
  { Stays.refl w with }

theorem stays_cancelTasks (w : Process) : w.Stays w.cancelTasks :=
  { Stays.refl w with
    tasks := fun t => by
      change ((w.tasks.mapValues _).lookup t).map _ = _
      rw [GoMap.lookup_mapValues, Option.map_map]
      rfl
    len := length_map .. }

/-- Something about a task that is there is changed. -/
theorem stays_insert {h h' : TaskHandle} (hlookup : w.tasks.lookup taskID = some h)
    (hsame : h'.identity = h.identity) : w.Stays { w with tasks := w.tasks.insert taskID h' } :=
  { Stays.refl w with
    tasks := fun t => by
      by_cases ht : t = taskID
      · rw [ht, lookup_insert, hlookup, map_some, map_some, hsame]
      · rw [lookup_insert_ne ht]
    len := by
      change (w.tasks.insert taskID h').entries.length = w.tasks.entries.length
      rw [(perm_cons_erase hlookup).length_eq, entries_insert]
      rfl }

/-- `CancelTask`, after the attempt is recorded. -/
theorem stays_cancelHandle (w : Process) (jobID taskID : Ident) (epochID : ℕ) (attemptID : Ident) :
    w.Stays (match w.tasks.lookup taskID with
      | some h =>
        if h.jobID = jobID ∧ h.epoch = epochID ∧ h.attemptID = attemptID then
          { w with tasks := w.tasks.insert taskID { h with canceled := true } }
        else w
      | none => w) := by
  split
  · next h hlookup =>
    split
    · exact stays_insert hlookup rfl
    · exact .refl w
  · exact .refl w

theorem stays_handleCancelTask (w : Process) (jobID taskID : Ident) (epochID : ℕ)
    (attemptID : Ident) : w.Stays (w.handleCancelTask jobID taskID epochID attemptID) := by
  have hrecord : w.Stays (if epochID = w.epoch ∧ attemptID ≠ none then
      { w with
        cancelledAttempts := attemptID :: w.cancelledAttempts
        reservations := w.reservations.erase attemptID }
      else w) := by
    split
    · exact { stays_eraseReservation w attemptID with cancelled := subset_cons_self .. }
    · exact .refl w
  exact hrecord.trans (stays_cancelHandle ..)

theorem identity_deliver (h : TaskHandle) (cp : TaskCheckpointRuntime) (type : CheckpointCommand)
    (request : CheckpointRequest) : (h.deliver cp type request).identity = h.identity := by
  unfold TaskHandle.deliver
  cases type <;> dsimp only <;> split <;> rfl

theorem stays_handleCheckpointCommand (w : Process) (type : CheckpointCommand)
    (jobID taskID : Ident) (request : CheckpointRequest) :
    w.Stays (w.handleCheckpointCommand type jobID taskID request) := by
  rw [handleCheckpointCommand]
  split
  · exact .refl w
  · next handle hlookup =>
    split
    · exact .refl w
    · split
      · exact .refl w
      · exact stays_insert hlookup (identity_deliver ..)

end Stays

/-! ### The calls of the coordinator -/

/-- The new memory is that of `w` with slots reserved that are free. -/
def Reserves (cfg : Config) (w w' : Process) : Prop :=
  ∃ id r w₀, w.Stays w₀ ∧ w₀.reservations.lookup id = none ∧ 0 ≤ r.slots ∧
    r.slots ≤ w₀.availableSlots cfg ∧
    w' = { w₀ with reservations := w₀.reservations.insert id r }

theorem reserves_or_stays (cfg : Config) (w : Process) (req : RequestTaskSlotsRequest)
    (hslots : 0 ≤ req.requiredSlots) (now : Time) (ctxErr : Option String) :
    Reserves cfg w (w.reserve cfg req now ctxErr).1 ∨
      w.Stays (w.reserve cfg req now ctxErr).1 := by
  have hreserve := reserving_reserve cfg w req now ctxErr
  generalize (w.reserve cfg req now ctxErr).1 = w' at hreserve ⊢
  cases hreserve with
  | keeps _ hsub => exact .inr { Stays.refl w with reservations := hsub }
  | takes r hfree hr hroom =>
    exact .inl ⟨_, r, _, stays_dropExpired w now, hfree, hr ▸ hslots, hroom, rfl⟩

theorem turn_handleRequestTaskSlots (w : Process) (req : RequestTaskSlotsRequest)
    (now later : Time) (ctxErr : Option String) :
    Turn cfg w (w.handleRequestTaskSlots cfg req now later ctxErr).1 [] := by
  rw [handleRequestTaskSlots]
  split
  · exact .stays (.refl w) (by simp)
  next hbounds =>
  have hslots : 0 ≤ req.requiredSlots := not_lt.mp fun h => hbounds (.inl h)
  have hreserve := reserves_or_stays cfg w req hslots now ctxErr
  split
  · next w₁ response heq =>
    rw [heq] at hreserve
    rcases hreserve with ⟨id, r, w₀, h, hfree, hr, hroom, hw₁⟩ | h
    · exact .reserves id r h hfree hr hroom (hw₁ ▸ stays_dropExpired w₁ later)
    · exact .stays (h.trans (stays_dropExpired w₁ later)) (fun _ _ _ _ h => by cases h)
  · next w₁ err heq =>
    rw [heq] at hreserve
    rcases hreserve with ⟨id, r, w₀, h, hfree, hr, hroom, hw₁⟩ | h
    · exact .reserves id r h hfree hr hroom (hw₁ ▸ .refl w₁)
    · exact .stays h (fun _ _ _ _ h => by cases h)

theorem stays_tryStart (w : Process) (req : SubmitJobRequest) (now : Time)
    (ctxErr : Option String) :
    ((w.tryStart req now ctxErr).2 ≠ .started ∧ w.Stays (w.tryStart req now ctxErr).1) ∨
    ∃ r, (w.dropExpired now).Passes req r ∧
      w.tryStart req now ctxErr = ((w.dropExpired now).startTasks req, .started) := by
  refine (tryStart_cases w req now ctxErr).imp_left fun ⟨hnot, heq⟩ => ⟨hnot, ?_⟩
  rcases heq with heq | heq
  · rw [heq]
    exact .refl w
  · rw [heq]
    exact stays_dropExpired w now

theorem turn_resume (w w₀ : Process) (hw : w.Stays w₀) (hepoch : w₀.epoch = w.epoch)
    (req : SubmitJobRequest) (now : Time) (ctxErr : Option String) :
    Turn cfg w ((w₀.tryStart req now ctxErr).1.resume req (w₀.tryStart req now ctxErr).2).1
      (startedEvents req.jobID
        ((w₀.tryStart req now ctxErr).1.resume req (w₀.tryStart req now ctxErr).2).2) := by
  rcases stays_tryStart w₀ req now ctxErr with ⟨hnot, hstays⟩ | ⟨r, hpasses, heq⟩
  · cases hadmission : (w₀.tryStart req now ctxErr).2 with
    | started => exact absurd hadmission hnot
    | refused e | repeated => exact .stays (hw.trans hstays) (fun _ _ _ _ h => nomatch h)
    | waits previous expires =>
      exact .stays ((hw.trans hstays).trans (stays_submissions ..)) (fun _ _ _ _ h => nomatch h)
  · rw [heq]
    exact .starts req r (hw.trans (stays_dropExpired ..)) hepoch hpasses

end Process

/-- All deployments use reservations: the action is not a `DeployTask` command. -/
def Reserved : Action → Bool
  | .process (.command (.deployTask _ _ _)) => false
  | _ => true

namespace Process

variable {cfg : Config} {w w' : Process} {e : Effect}

theorem turn_quiet (h : w.Stays w') : Turn cfg w w' [] :=
  .stays h (fun _ _ _ _ h => nomatch h)

theorem turn_handleCommand {cmd : WorkerCommand} (hcmd : Reserved (.process (.command cmd))) :
    Turn cfg w (w.handleCommand cmd).1 (startedEvents cmd.jobID (w.handleCommand cmd).2) := by
  cases cmd with
  | deployTask jobID taskID data => cases hcmd
  | cancelTask jobID taskID epochID attemptID => exact turn_quiet (stays_handleCancelTask ..)
  | checkpoint type jobID taskID data =>
    cases data with
    | none => exact turn_quiet (.refl w)
    | some request => exact turn_quiet (stays_handleCheckpointCommand ..)

/-- **What a step of a session does to the slots.** -/
theorem turn_of_step {a : ProcessAction} (ha : Reserved (.process a)) (hstop : a ≠ .stopServer)
    (hnone : w.redeployments = []) (h : w.step cfg a = some e) : Turn cfg w e.process e.events := by
  cases stepped h with
  | session _ _ _ _ _ hprocess hevents =>
    rw [hprocess]
    exact .stays { Stays.refl w with } hevents
  | canceled => exact turn_quiet { stays_cancelTasks w with }
  | stopped ha => exact absurd ha hstop
  | command cmd hcmd => exact turn_handleCommand (hcmd ▸ ha)
  | reserved => exact turn_handleRequestTaskSlots ..
  | submitted submissions req w' admission now ctxErr htry =>
    have hturn : Turn cfg w _ _ :=
      turn_resume w { w with submissions } (stays_submissions ..) rfl req now ctxErr
    rw [htry] at hturn
    exact hturn
  | redeployed i d hd =>
    rw [hnone] at hd
    cases hd
  | removed i hremove => exact .removes i hremove
  | closed i hclose => exact .closes i hclose

/-! ## The tasks of a deployment -/

/-- The tasks of a deployment that need not wait are new, and they are tasks of its attempt. -/
theorem checkTasks_eq_ok_none {req : SubmitJobRequest} {seen : List Ident} {previous : Option ℕ}
    (h : w.checkTasks req seen previous tasks = .ok none) :
    previous = none ∧ (tasks.map (·.taskID)).Nodup ∧
      ∀ desc ∈ tasks, desc.taskID ∉ seen ∧ desc.attemptID = req.attemptID ∧
        w.tasks.lookup desc.taskID = none := by
  induction tasks generalizing seen previous with
  | nil =>
    cases h
    exact ⟨rfl, nodup_nil, fun _ hd => absurd hd not_mem_nil⟩
  | cons desc tasks ih =>
    rw [checkTasks] at h
    split at h
    · cases h
    next hvalid =>
    push Not at hvalid
    obtain ⟨-, hseen, -, hattempt, -⟩ := hvalid
    split at h
    · split at h
      · cases h
      · cases (ih h).1
    · next hlookup =>
      obtain ⟨hprevious, hnodup, hrest⟩ := ih h
      refine ⟨hprevious, nodup_cons.mpr ⟨?_, hnodup⟩, ?_⟩
      · intro hmem
        obtain ⟨d, hd, heq⟩ := mem_map.mp hmem
        exact (hrest d hd).1 (heq ▸ mem_cons_self)
      · intro d hd
        rcases mem_cons.mp hd with rfl | hd
        · exact ⟨hseen, hattempt, hlookup⟩
        · obtain ⟨hnew, hrest⟩ := hrest d hd
          exact ⟨fun hmem => hnew (mem_cons_of_mem _ hmem), hrest⟩

/-- What holds after the tasks of a deployment are installed, one after the other; `n` tasks are
still to be installed. -/
theorem foldl_install {P : ℕ → Process → Prop} (jobID : Ident)
    (hnodup : (tasks.map (·.taskID)).Nodup)
    (habsent : ∀ desc ∈ tasks, w.tasks.lookup desc.taskID = none) (h : P tasks.length w)
    (hinstall : ∀ n w desc, P (n + 1) w → w.tasks.lookup desc.taskID = none →
      P n (w.installTaskLocked jobID desc.taskID desc)) :
    P 0 (tasks.foldl (fun w desc => w.installTaskLocked jobID desc.taskID desc) w) := by
  induction tasks generalizing w with
  | nil => exact h
  | cons desc tasks ih =>
    rw [map_cons, nodup_cons] at hnodup
    refine ih hnodup.2 ?_ (hinstall _ _ _ h (habsent desc mem_cons_self))
    intro d hd
    have hne : d.taskID ≠ desc.taskID := fun heq =>
      hnodup.1 (heq ▸ mem_map_of_mem hd)
    change (w.tasks.insert desc.taskID _).lookup d.taskID = none
    rw [lookup_insert_ne hne]
    exact habsent d (mem_cons_of_mem _ hd)

section Start

variable {req : SubmitJobRequest} {r : SlotReservation}

section

variable (hpasses : w.Passes req r)
include hpasses

/-- The rule for the start of a deployment. -/
theorem Passes.start {P : ℕ → Process → Prop} (h : P req.tasks.length { w with
      deploymentReceipts := w.deploymentReceipts.insert req.attemptID req.digest
      reservations := w.reservations.erase req.reservationID })
    (hinstall : ∀ n w desc, P (n + 1) w → w.tasks.lookup desc.taskID = none →
      P n (w.installTaskLocked req.jobID desc.taskID desc)) :
    P 0 (w.startTasks req) := by
  obtain ⟨-, hnodup, htasks⟩ := checkTasks_eq_ok_none hpasses.checked
  exact foldl_install req.jobID hnodup (fun desc hd => (htasks desc hd).2.2) h hinstall

theorem Passes.len : (w.startTasks req).tasks.len = w.tasks.len + req.tasks.length := by
  refine hpasses.start (P := fun n u => u.tasks.len + n = w.tasks.len + req.tasks.length) rfl ?_
  intro n u desc hu habsent
  have hlen : (u.installTaskLocked req.jobID desc.taskID desc).tasks.len = u.tasks.len + 1 := by
    change (u.tasks.insert desc.taskID _).entries.length = u.tasks.entries.length + 1
    rw [entries_insert_of_notMem (lookup_eq_none.mp habsent)]
    rfl
  omega

/-- The start of a deployment changes the tasks, the receipts and the reservations. -/
theorem Passes.frame : (w.startTasks req).reservations = w.reservations.erase req.reservationID ∧
    (w.startTasks req).deploymentReceipts =
      w.deploymentReceipts.insert req.attemptID req.digest ∧
    (w.startTasks req).cancelledAttempts = w.cancelledAttempts ∧
    (w.startTasks req).redeployments = w.redeployments :=
  hpasses.start (P := fun _ u => u.reservations = w.reservations.erase req.reservationID ∧
      u.deploymentReceipts = w.deploymentReceipts.insert req.attemptID req.digest ∧
      u.cancelledAttempts = w.cancelledAttempts ∧ u.redeployments = w.redeployments)
    ⟨rfl, rfl, rfl, rfl⟩ (fun _ _ _ h _ => h)

/-- The start of a deployment leaves the tasks that are there alone. -/
theorem Passes.lookup {t : Ident} {h : TaskHandle}
    (hlookup : w.tasks.lookup t = some h) : (w.startTasks req).tasks.lookup t = some h := by
  refine hpasses.start (P := fun _ u => u.tasks.lookup t = some h) hlookup ?_
  intro n u desc hu habsent
  have hne : t ≠ desc.taskID := by
    rintro rfl
    rw [habsent] at hu
    cases hu
  change (u.tasks.insert desc.taskID _).lookup t = some h
  rw [lookup_insert_ne hne]
  exact hu

end

end Start

/-! ## The invariant of every run -/

/-- A task that runs is under its name, and no two runs have one channel. -/
structure Handles (w : Process) : Prop where
  owned : ∀ run ∈ w.runs, run.removed = false →
    ∃ h, w.tasks.lookup run.taskID = some h ∧ h.done = run.done
  distinct : (w.runs.map (·.done)).Nodup
  fresh : ∀ run ∈ w.runs, run.done < w.nextDone

/-- The slots are taken at most once. -/
structure Booked (cfg : Config) (w : Process) : Prop where
  bound : w.usedSlots ≤ max 0 cfg.taskSlots
  slots : ∀ r ∈ w.reservations.entries, 0 ≤ r.2.slots
  handles : w.Handles
  redeployments : w.redeployments = []

section Handles

theorem Handles.stays (hw : w.Handles) (h : w.Stays w') : w'.Handles where
  owned run hrun hremoved := by
    rw [h.runs] at hrun
    obtain ⟨k, hlookup, hdone⟩ := hw.owned run hrun hremoved
    have hsame := h.tasks run.taskID
    rw [hlookup, map_some, map_eq_some_iff] at hsame
    obtain ⟨k', hlookup', hidentity⟩ := hsame
    have hdone' : k'.done = k.done := congrArg (·.2.2.2) hidentity
    exact ⟨k', hlookup', hdone'.trans hdone⟩
  distinct := h.runs ▸ hw.distinct
  fresh := by
    rw [h.runs, h.nextDone]
    exact hw.fresh

theorem Handles.install (hw : w.Handles) {jobID : Ident} {desc : TaskDescriptor}
    (habsent : w.tasks.lookup taskID = none) : (w.installTaskLocked jobID taskID desc).Handles where
  owned run hrun hremoved := by
    rcases mem_append.mp hrun with hrun | hrun
    · obtain ⟨h, hlookup, hdone⟩ := hw.owned run hrun hremoved
      have hne : run.taskID ≠ taskID := by
        rintro rfl
        rw [habsent] at hlookup
        cases hlookup
      exact ⟨h, (lookup_insert_ne hne).trans hlookup, hdone⟩
    · rw [mem_singleton.mp hrun]
      exact ⟨_, lookup_insert _, rfl⟩
  distinct := by
    change ((w.runs ++ [_]).map TaskRun.done).Nodup
    rw [map_append, nodup_append]
    refine ⟨hw.distinct, nodup_singleton _, ?_⟩
    intro done hdone done' hdone' heq
    obtain ⟨run, hrun, rfl⟩ := mem_map.mp hdone
    rw [map_singleton, mem_singleton] at hdone'
    exact (hw.fresh run hrun).ne (heq.trans hdone')
  fresh run hrun := by
    rcases mem_append.mp (show run ∈ w.runs ++ [_] from hrun) with hrun | hrun
    · exact (hw.fresh run hrun).trans (Nat.lt_succ_self _)
    · rw [mem_singleton.mp hrun]
      exact Nat.lt_succ_self _

theorem Handles.remove (hw : w.Handles) (h : w.removeTask i = some w') : w'.Handles := by
  obtain ⟨run, hrun, hremoved, rfl⟩ := removeTask_eq_some h
  have hmap : (w.runs.set i { run with removed := true }).map (·.done) = w.runs.map (·.done) := by
    refine ext_getElem? fun j => ?_
    rw [getElem?_map, getElem?_map]
    by_cases hij : i = j
    · subst hij
      rw [List.getElem?_set_self (List.getElem?_eq_some_iff.mp hrun).1, hrun]
      rfl
    · rw [getElem?_set_ne hij]
  refine ⟨?_, hmap ▸ hw.distinct, ?_⟩
  · intro run' hrun' hremoved'
    obtain ⟨j, hj⟩ := mem_iff_getElem?.mp hrun'
    by_cases hij : i = j
    · subst hij
      rw [List.getElem?_set_self (List.getElem?_eq_some_iff.mp hrun).1] at hj
      cases hj
      cases hremoved'
    rw [getElem?_set_ne hij] at hj
    obtain ⟨k, hlookup, hdone⟩ := hw.owned run' (mem_of_getElem? hj) hremoved'
    refine ⟨k, ?_, hdone⟩
    rw [lookup_erase_ne ?_]
    · exact hlookup
    -- one handle under one name, so one channel, so one run
    intro hname
    obtain ⟨k', hlookup', hdone'⟩ := hw.owned run (mem_of_getElem? hrun) hremoved
    rw [← hname, hlookup] at hlookup'
    cases hlookup'
    refine hij ((getElem?_inj ?_ hw.distinct).mp ?_)
    · rw [length_map]
      exact (List.getElem?_eq_some_iff.mp hrun).1
    · rw [getElem?_map, getElem?_map, hrun, hj, map_some, map_some, ← hdone, hdone']
  · intro run' hrun'
    have hmem : run'.done ∈ w.runs.map (·.done) := hmap ▸ mem_map_of_mem hrun'
    obtain ⟨run₀, hrun₀, hdone⟩ := mem_map.mp hmem
    exact hdone ▸ hw.fresh run₀ hrun₀

theorem Handles.close (hw : w.Handles) (h : w.closeDone i = some w') : w'.Handles := by
  rw [closeDone_eq_some h]
  have hsub := eraseIdx_sublist w.runs i
  exact ⟨fun run hrun => hw.owned run (hsub.subset hrun), hw.distinct.sublist (hsub.map _),
    fun run hrun => hw.fresh run (hsub.subset hrun)⟩

end Handles

section Booked

theorem usedSlots_le (h : w.Stays w') (hslots : ∀ r ∈ w.reservations.entries, 0 ≤ r.2.slots) :
    w'.usedSlots ≤ w.usedSlots := by
  have hsum := (h.reservations.map fun r => r.2.slots).sum_le_sum (by
    intro n hn
    obtain ⟨r, hr, rfl⟩ := mem_map.mp hn
    exact hslots r hr)
  rw [usedSlots, usedSlots, h.len]
  exact Int.add_le_add_left hsum _

section

variable (hw : w.Booked cfg)
include hw

theorem Booked.stays (h : w.Stays w') : w'.Booked cfg where
  bound := (usedSlots_le h hw.slots).trans hw.bound
  slots r hr := hw.slots r (h.reservations.subset hr)
  handles := hw.handles.stays h
  redeployments := h.redeployments.trans hw.redeployments

variable {r : SlotReservation}

/-- Slots are reserved that are free. -/
theorem Booked.reserve {id : Ident} (hfree : w.reservations.lookup id = none)
    (hslots : 0 ≤ r.slots) (hroom : r.slots ≤ w.availableSlots cfg) :
    Process.Booked cfg { w with reservations := w.reservations.insert id r } := by
  have hentries := entries_insert_of_notMem (b := r) (lookup_eq_none.mp hfree)
  refine ⟨?_, ?_, ⟨hw.handles.owned, hw.handles.distinct, hw.handles.fresh⟩, hw.redeployments⟩
  · have hbound := hw.bound
    rw [availableSlots] at hroom
    rw [usedSlots] at hbound hroom ⊢
    rw [hentries, map_cons, sum_cons]
    dsimp only
    omega
  · intro r' hr'
    rw [hentries] at hr'
    rcases mem_cons.mp hr' with rfl | hr'
    · exact hslots
    · exact hw.slots r' hr'

/-- The slots of a reservation become those of its tasks. -/
theorem Booked.start {req : SubmitJobRequest} (hpasses : w.Passes req r) :
    (w.startTasks req).Booked cfg := by
  obtain ⟨hreservations, -, -, hredeployments⟩ := hpasses.frame
  refine ⟨?_, ?_, ?_, hredeployments.trans hw.redeployments⟩
  · have hperm := (perm_cons_erase hpasses.reserved).map fun r => r.2.slots
    have hsum := hperm.sum_eq
    rw [map_cons, sum_cons, hpasses.slots] at hsum
    have hbound := hw.bound
    rw [usedSlots, hsum] at hbound
    rw [usedSlots, hpasses.len, hreservations]
    push_cast
    omega
  · intro r' hr'
    rw [hreservations] at hr'
    exact hw.slots r' ((kerase_sublist ..).subset hr')
  · exact hpasses.start (P := fun _ u => u.Handles)
      ⟨hw.handles.owned, hw.handles.distinct, hw.handles.fresh⟩
      (fun _ _ _ hu habsent => hu.install habsent)

theorem Booked.remove (h : w.removeTask i = some w') : w'.Booked cfg := by
  have hhandles := hw.handles.remove h
  obtain ⟨run, hrun, hremoved, rfl⟩ := removeTask_eq_some h
  refine ⟨?_, hw.slots, hhandles, hw.redeployments⟩
  have hlen : GoMap.len (w.tasks.erase run.taskID) ≤ w.tasks.len :=
    (kerase_sublist run.taskID w.tasks.entries).length_le
  have hbound := hw.bound
  rw [usedSlots] at hbound ⊢
  dsimp only
  omega

theorem Booked.forget (h : w.stopServer = some w') : w'.Booked cfg := by
  rw [stopServer] at h
  split at h
  · obtain ⟨-, rfl⟩ := ite_some_none_eq_some.mp h
    have hcancel := hw.stays (stays_cancelTasks w)
    have hsub : w.cancelTasks.Stays { w.cancelTasks with reservations := ∅ } :=
      { Stays.refl _ with reservations := nil_sublist _ }
    have hbooked := hcancel.stays hsub
    exact { hbooked with
      handles := ⟨hbooked.handles.owned, hbooked.handles.distinct, hbooked.handles.fresh⟩ }
  · cases h

theorem Booked.turn {events : List Event} (h : Turn cfg w w' events) : w'.Booked cfg := by
  cases h with
  | stays h _ => exact hw.stays h
  | reserves id r h hfree hslots hroom h' =>
    exact ((hw.stays h).reserve hfree hslots hroom).stays h'
  | starts req r h hepoch hpasses => exact (hw.stays h).start hpasses
  | removes i h => exact hw.remove h
  | closes i h =>
    have hhandles := hw.handles.close h
    rw [closeDone_eq_some h] at hhandles ⊢
    exact { hw with handles := hhandles }

end

end Booked

/-- A task keeps its handle until the goroutine that runs it removes it. -/
theorem Booked.handle (hw : w.Booked cfg) {events : List Event} (hturn : Turn cfg w w' events)
    {t : Ident} {h : TaskHandle} (hlookup : w.tasks.lookup t = some h) :
    (∃ h', w'.tasks.lookup t = some h' ∧ h'.identity = h.identity) ∨
    ∃ i run, w.removeTask i = some w' ∧ w.runs[i]? = some run ∧ run.taskID = t ∧
      run.done = h.done := by
  have hstays : ∀ {u u' : Process} {k : TaskHandle}, u.Stays u' → u.tasks.lookup t = some k →
      ∃ k', u'.tasks.lookup t = some k' ∧ k'.identity = k.identity := by
    intro u u' k hu hk
    have hsame := hu.tasks t
    rw [hk, map_some] at hsame
    exact map_eq_some_iff.mp hsame
  cases hturn with
  | stays h _ => exact .inl (hstays h hlookup)
  | reserves id r h hfree hslots hroom h' =>
    obtain ⟨k, hk, hidentity⟩ := hstays h hlookup
    obtain ⟨k', hk', hidentity'⟩ := hstays h' hk
    exact .inl ⟨k', hk', hidentity'.trans hidentity⟩
  | starts req r h hepoch hpasses =>
    obtain ⟨k, hk, hidentity⟩ := hstays h hlookup
    exact .inl ⟨k, hpasses.lookup hk, hidentity⟩
  | removes i hremove =>
    obtain ⟨run, hrun, hremoved, heq⟩ := removeTask_eq_some hremove
    by_cases ht : t = run.taskID
    · obtain ⟨k, hk, hdone⟩ := hw.handles.owned run (mem_of_getElem? hrun) hremoved
      rw [← ht, hlookup] at hk
      cases hk
      exact .inr ⟨i, run, hremove, hrun, ht.symm, hdone.symm⟩
    · rw [heq]
      exact .inl ⟨h, (lookup_erase_ne ht).trans hlookup, rfl⟩
  | closes i h =>
    rw [closeDone_eq_some h]
    exact .inl ⟨_, hlookup, rfl⟩

end Process

/-! ## Runs -/

section Run

variable {cfg : Config} {file : EpochFile} {s s' : State}

/-- A run in which all deployments use reservations. -/
abbrev ReservedRun (cfg : Config) : State → State → Prop :=
  Reaches (step cfg) fun _ a => Reserved a

/-- The action does not end a session.  A session ends with its process, or when the reverse server
has stopped. -/
def InSession : Action → Bool
  | .start _ | .crash | .process .stopServer => false
  | _ => true

/-- A part of one session in which all deployments use reservations. -/
abbrev SessionRun (cfg : Config) : State → State → Prop :=
  Reaches (step cfg) fun _ a => Reserved a ∧ InSession a

theorem SessionRun.reserved (h : SessionRun cfg s s') : ReservedRun cfg s s' :=
  h.mono fun _ _ ha => ha.1

theorem booked_startProcess {now : Time} {w : Process} (h : startProcess cfg file now = some w) :
    w.Booked cfg := by
  have hempty : ∀ {u : Process}, u.tasks = ∅ → u.reservations = ∅ → u.runs = [] →
      u.redeployments = [] → u.Booked cfg := by
    intro u htasks hreservations hruns hredeployments
    refine ⟨?_, ?_, ⟨?_, ?_, ?_⟩, hredeployments⟩
    · rw [Process.usedSlots, htasks, hreservations]
      exact le_max_left 0 cfg.taskSlots
    · rw [hreservations]
      exact fun _ h => nomatch h
    · rw [hruns]
      exact fun _ h => nomatch h
    · rw [hruns]
      exact nodup_nil
    · rw [hruns]
      exact fun _ h => nomatch h
  rw [startProcess] at h
  split at h
  · obtain ⟨store, -, rfl⟩ := map_eq_some_iff.mp h
    exact hempty rfl rfl rfl rfl
  · cases h
    exact hempty rfl rfl rfl rfl

variable {a : Action}

/-- The steps of a process within a run. -/
theorem process_of_step (h : step cfg s a = some s') :
    (∃ now w, a = .start now ∧ startProcess cfg s.file now = some w ∧ s'.process = some w) ∨
    (a = .crash ∧ s'.process = none) ∨
    ∃ pa w e, a = .process pa ∧ s.process = some w ∧ w.step cfg pa = some e ∧
      s'.process = some e.process ∧ s'.trace = s.trace ++ e.events := by
  cases a with
  | start now =>
    rw [step] at h
    split at h
    · cases h
    · obtain ⟨w, hw, rfl⟩ := map_eq_some_iff.mp h
      exact .inl ⟨now, w, rfl, hw, rfl⟩
  | crash =>
    obtain ⟨w, -, rfl⟩ := map_eq_some_iff.mp h
    exact .inr (.inl ⟨rfl, rfl⟩)
  | process pa =>
    rw [step] at h
    split at h
    · cases h
    · next w hw =>
      obtain ⟨e, he, rfl⟩ := map_eq_some_iff.mp h
      exact .inr (.inr ⟨pa, w, e, rfl, hw, he, rfl, rfl⟩)

theorem booked_step (hs : ∀ w, s.process = some w → w.Booked cfg) (ha : Reserved a)
    (h : step cfg s a = some s') : ∀ w, s'.process = some w → w.Booked cfg := by
  intro w' hw'
  rcases process_of_step h with ⟨now, w, -, hstart, hw⟩ | ⟨-, hnone⟩ |
    ⟨pa, w, e, rfl, hw, he, hprocess, -⟩
  · cases hw.symm.trans hw'
    exact booked_startProcess hstart
  · rw [hnone] at hw'
    cases hw'
  · cases hprocess.symm.trans hw'
    by_cases hstop : pa = .stopServer
    · subst hstop
      obtain ⟨w', hstopped, rfl⟩ := map_eq_some_iff.mp he
      exact (hs w hw).forget hstopped
    · exact (hs w hw).turn (Process.turn_of_step ha hstop (hs w hw).redeployments he)

/-- **The invariant of every run.** -/
theorem booked_of_run (h : ReservedRun cfg (.initial file) s) :
    ∀ w, s.process = some w → w.Booked cfg :=
  h.invariant (P := fun s => ∀ w, s.process = some w → w.Booked cfg) (fun _ hw => nomatch hw)
    fun _ _ _ _ hs ha hstep => booked_step hs ha hstep

end Run

/-! ## One session -/

/-- The names of the tasks of an attempt that the events start. -/
def startsOf (attemptID : Ident) (events : List Event) : List Ident :=
  events.filterMap fun
    | .started _ taskID attempt _ => if attempt = attemptID then some taskID else none
    | _ => none

section Session

variable {cfg : Config} {file : EpochFile} {s₀ s s' : State} {w w' : Process} {events : List Event}

theorem mem_startsOf : taskID ∈ startsOf attemptID events ↔
    ∃ jobID epoch, Event.started jobID taskID attemptID epoch ∈ events := by
  rw [startsOf, mem_filterMap]
  constructor
  · rintro ⟨event, hmem, heq⟩
    cases event with
    | started j t a e =>
      dsimp only at heq
      obtain ⟨ha, rfl⟩ := ite_some_none_eq_some.mp heq
      exact ⟨j, e, ha ▸ hmem⟩
    | persisted | accepted => cases heq
  · rintro ⟨j, e, hmem⟩
    exact ⟨_, hmem, if_pos rfl⟩

theorem startsOf_eq_nil (h : ∀ j t e, Event.started j t attemptID e ∉ events) :
    startsOf attemptID events = [] := by
  refine eq_nil_iff_forall_not_mem.mpr fun t ht => ?_
  obtain ⟨j, e, hmem⟩ := mem_startsOf.mp ht
  exact h j t e hmem

/-- What a step of a session does to the receipts and the canceled attempts, and what it starts: the
tasks of one attempt that was neither deployed nor canceled before, each once. -/
structure Process.Admitting (w w' : Process) (events : List Event) : Prop where
  receipts : ∀ a, (w.deploymentReceipts.lookup a).isSome → (w'.deploymentReceipts.lookup a).isSome
  cancelled : w.cancelledAttempts ⊆ w'.cancelledAttempts
  started : ∀ j t a e, Event.started j t a e ∈ events → w.deploymentReceipts.lookup a = none ∧
    (w'.deploymentReceipts.lookup a).isSome ∧ a ∉ w.cancelledAttempts ∧ e = w.epoch
  once : ∀ a, (startsOf a events).Nodup

theorem Process.Admitting.quiet (hreceipts : w'.deploymentReceipts = w.deploymentReceipts)
    (hcancelled : w.cancelledAttempts ⊆ w'.cancelledAttempts)
    (hevents : ∀ j t a e, Event.started j t a e ∉ events) : w.Admitting w' events where
  receipts a h := by rwa [hreceipts]
  cancelled := hcancelled
  started j t a e h := absurd h (hevents j t a e)
  once a := by
    rw [startsOf_eq_nil fun j t e => hevents j t a e]
    exact nodup_nil

variable {jobID : Ident} {epoch : ℕ}

/-- The starts of a deployment. -/
theorem startsOf_startedEvents (htasks : ∀ desc ∈ tasks, desc.attemptID = attemptID) :
    startsOf attemptID (startedEvents jobID tasks) = tasks.map (·.taskID) := by
  rw [startsOf, startedEvents, filterMap_map]
  refine (filterMap_congr (g := fun desc => some desc.taskID) fun desc hdesc => ?_).trans ?_
  · exact if_pos (htasks desc hdesc)
  · exact congrFun filterMap_eq_map _

theorem Process.admitting_start {req : SubmitJobRequest} {r : SlotReservation} {w₀ : Process}
    (h : w.Stays w₀) (hepoch : w₀.epoch = w.epoch) (hpasses : w₀.Passes req r) :
    w.Admitting (w₀.startTasks req) (startedEvents req.jobID req.tasks) := by
  obtain ⟨-, hreceipts, hattempts, -⟩ := hpasses.frame
  obtain ⟨-, hnodup, htasks⟩ := checkTasks_eq_ok_none hpasses.checked
  have hattempt : ∀ desc ∈ req.tasks, desc.attemptID = req.attemptID :=
    fun desc hdesc => (htasks desc hdesc).2.1
  have hstarted : ∀ j t a e, .started j t a e ∈ startedEvents req.jobID req.tasks →
      a = req.attemptID ∧ e = req.epochID := by
    intro j t a e hmem
    obtain ⟨desc, hdesc, heq⟩ := mem_map.mp hmem
    cases heq
    exact ⟨hattempt desc hdesc, epochID_of_checkTasks hpasses.checked desc hdesc⟩
  constructor
  · intro a ha
    rw [hreceipts, h.receipts]
    by_cases hreq : a = req.attemptID
    · rw [hreq, lookup_insert]
      rfl
    · rwa [lookup_insert_ne hreq]
  · rw [hattempts]
    exact h.cancelled
  · intro j t a e hmem
    obtain ⟨rfl, rfl⟩ := hstarted j t a e hmem
    rw [hreceipts, lookup_insert, ← h.receipts]
    exact ⟨hpasses.receipt, rfl, fun hmem => hpasses.attempt (h.cancelled hmem),
      hpasses.epoch.trans hepoch⟩
  · intro a
    by_cases ha : a = req.attemptID
    · rw [ha, startsOf_startedEvents hattempt]
      exact hnodup
    · rw [startsOf_eq_nil fun j t e hmem => ha (hstarted j t a e hmem).1]
      exact nodup_nil

theorem Turn.admitting (hturn : Turn cfg w w' events) : w.Admitting w' events := by
  cases hturn with
  | stays h hevents => exact .quiet h.receipts h.cancelled hevents
  | reserves id r h hfree hslots hroom h' =>
    exact .quiet (h'.receipts.trans h.receipts) (Subset.trans h.cancelled h'.cancelled)
      (fun _ _ _ _ h => nomatch h)
  | starts req r h hepoch hpasses => exact Process.admitting_start h hepoch hpasses
  | removes i h =>
    obtain ⟨run, -, -, rfl⟩ := Process.removeTask_eq_some h
    exact .quiet rfl (.refl _) (fun _ _ _ _ h => nomatch h)
  | closes i h =>
    rw [Process.closeDone_eq_some h]
    exact .quiet rfl (.refl _) (fun _ _ _ _ h => nomatch h)

/-- A step of a session is a step of its process. -/
theorem turn_of_session {a : Action} (hs : ∀ w, s.process = some w → w.Booked cfg)
    (ha : Reserved a ∧ InSession a) (h : step cfg s a = some s') :
    ∃ w w' events, s.process = some w ∧ s'.process = some w' ∧ s'.trace = s.trace ++ events ∧
      Turn cfg w w' events := by
  rcases process_of_step h with ⟨now, w, rfl, -, -⟩ | ⟨rfl, -⟩ |
    ⟨pa, w, e, rfl, hw, he, hprocess, htrace⟩
  · cases ha.2
  · cases ha.2
  · have hstop : pa ≠ .stopServer := by
      rintro rfl
      cases ha.2
    exact ⟨w, e.process, e.events, hw, hprocess, htrace,
      Process.turn_of_step ha.1 hstop (hs w hw).redeployments he⟩

/-- What was started since the state `s₀` of the session. -/
structure Since (s₀ s : State) (later : List Event) : Prop where
  trace : s.trace = s₀.trace ++ later
  receipts : ∀ j t a e, Event.started j t a e ∈ later →
    ∃ w, s.process = some w ∧ (w.deploymentReceipts.lookup a).isSome
  once : ∀ a, (startsOf a later).Nodup

theorem Since.step {later : List Event} (hs : Since s₀ s later) (hw : s.process = some w)
    (hw' : s'.process = some w') (htrace : s'.trace = s.trace ++ events)
    (h : w.Admitting w' events) : Since s₀ s' (later ++ events) := by
  refine ⟨by rw [htrace, hs.trace, append_assoc], ?_, ?_⟩
  · intro j t a e hmem
    refine ⟨w', hw', ?_⟩
    rcases mem_append.mp hmem with hmem | hmem
    · obtain ⟨u, hu, hreceipt⟩ := hs.receipts j t a e hmem
      cases hw.symm.trans hu
      exact h.receipts a hreceipt
    · exact (h.started j t a e hmem).2.1
  · intro a
    rw [startsOf, filterMap_append]
    refine nodup_append.mpr ⟨hs.once a, h.once a, ?_⟩
    -- what was started before has a receipt, and what is started now has none yet
    intro t ht t' ht' _
    obtain ⟨j, e, hmem⟩ := mem_startsOf.mp ht
    obtain ⟨j', e', hmem'⟩ := mem_startsOf.mp ht'
    obtain ⟨u, hu, hreceipt⟩ := hs.receipts j t a e hmem
    cases hw.symm.trans hu
    rw [(h.started j' t' a e' hmem').1] at hreceipt
    cases hreceipt

theorem since_of_session (h₀ : ReservedRun cfg (.initial file) s₀) (h : SessionRun cfg s₀ s) :
    ∃ later, Since s₀ s later := by
  refine h.invariant (P := fun s => ∃ later, Since s₀ s later) ?_ ?_
  · exact ⟨[], (append_nil _).symm, (fun _ _ _ _ h => nomatch h), fun _ => nodup_nil⟩
  · intro s a s' hrun ⟨later, hs⟩ ha hstep
    have hbooked := booked_of_run (h₀.trans (SessionRun.reserved hrun))
    obtain ⟨w, w', events, hw, hw', htrace, hturn⟩ := turn_of_session hbooked ha hstep
    exact ⟨later ++ events, hs.step hw hw' htrace hturn.admitting⟩

/-! ### Canceled attempts -/

/-- The epoch of a session does not change. -/
theorem Process.epoch_step {a : ProcessAction} {e : Effect} (hadopted : w.session.adopted = true)
    (hstop : a ≠ .stopServer) (h : w.step cfg a = some e) :
    e.process.epoch = w.epoch ∧ e.process.session.adopted = true := by
  have hfence : ∀ {u : Process}, u.fence = w.fence →
      u.epoch = w.epoch ∧ u.session.adopted = true := by
    intro u hu
    exact ⟨congrArg Fence.epoch hu, (congrArg (Fence.session · |>.adopted) hu).trans hadopted⟩
  cases stepped h with
  | session _ _ _ _ _ hprocess _ hkept =>
    rw [hprocess]
    exact hkept hadopted
  | canceled _ hkept => exact ⟨rfl, hkept hadopted⟩
  | stopped ha => exact absurd ha hstop
  | command cmd => exact hfence (fence_handleCommand w cmd)
  | reserved => exact hfence (fence_handleRequestTaskSlots ..)
  | submitted submissions req w' admission now ctxErr htry =>
    have hstart := fence_tryStart { w with submissions } req now ctxErr
    rw [htry] at hstart
    exact hfence ((fence_resume ..).trans hstart)
  | redeployed i d _ w' tasks hdeploy =>
    have hkept := fence_handleDeployTask
      { w with redeployments := w.redeployments.eraseIdx i } d.jobID d.taskID d.desc
    rw [hdeploy] at hkept
    exact hfence hkept
  | removed i hremove => exact hfence (fence_removeTask hremove)
  | closed i hclose => exact hfence (fence_closeDone hclose)

/-- An attempt of an epoch is canceled, in a session of an epoch. -/
structure Process.Cancelled (w : Process) (attemptID : Ident) (epoch : ℕ) : Prop where
  adopted : w.session.adopted = true
  recorded : epoch = w.epoch → attemptID ∈ w.cancelledAttempts

theorem cancelled_of_command (hattempt : attemptID ≠ none)
    (h : step cfg s (.process (.command (.cancelTask jobID taskID epoch attemptID))) = some s') :
    ∃ w, s'.process = some w ∧ w.Cancelled attemptID epoch := by
  rcases process_of_step h with ⟨now, w, ha, -⟩ | ⟨ha, -⟩ | ⟨pa, w, e, ha, hw, he, hprocess, -⟩
  · cases ha
  · cases ha
  cases ha
  obtain ⟨hserving, rfl⟩ := ite_some_none_eq_some.mp he
  refine ⟨_, hprocess, ?_, ?_⟩
  · have hfence := Process.fence_handleCommand w (.cancelTask jobID taskID epoch attemptID)
    have hsession := congrArg Fence.session hfence
    exact (congrArg Session.adopted (hsession.trans hserving)).trans rfl
  · intro hepoch
    have hfence := Process.fence_handleCommand w (.cancelTask jobID taskID epoch attemptID)
    have hw : (w.handleCommand (.cancelTask jobID taskID epoch attemptID)).1.epoch = w.epoch :=
      congrArg Fence.epoch hfence
    refine (Process.stays_cancelHandle (if epoch = w.epoch ∧ attemptID ≠ none then _ else w)
      ..).cancelled ?_
    rw [if_pos ⟨hepoch.trans hw, hattempt⟩]
    exact mem_cons_self

/-- What holds of a canceled attempt for the rest of the session. -/
theorem cancelled_of_session (h₀ : ReservedRun cfg (.initial file) s₀)
    (hcancelled : ∃ w, s₀.process = some w ∧ w.Cancelled attemptID epoch) (h : SessionRun cfg s₀ s)
    : ∃ later, s.trace = s₀.trace ++ later ∧
      (∃ w, s.process = some w ∧ w.Cancelled attemptID epoch) ∧
      ∀ j t, Event.started j t attemptID epoch ∉ later := by
  refine h.invariant (P := fun s => ∃ later, s.trace = s₀.trace ++ later ∧
      (∃ w, s.process = some w ∧ w.Cancelled attemptID epoch) ∧
      ∀ j t, .started j t attemptID epoch ∉ later) ?_ ?_
  · exact ⟨[], (append_nil _).symm, hcancelled, fun _ _ h => nomatch h⟩
  · intro s a s' hrun ⟨later, htrace, ⟨w, hw, hw₀⟩, hnone⟩ ha hstep
    have hbooked := booked_of_run (h₀.trans (SessionRun.reserved hrun))
    rcases process_of_step hstep with ⟨now, u, rfl, -, -⟩ | ⟨rfl, -⟩ |
      ⟨pa, u, e, rfl, hu, he, hprocess, htrace'⟩
    · cases ha.2
    · cases ha.2
    cases hw.symm.trans hu
    have hstop : pa ≠ .stopServer := by
      rintro rfl
      cases ha.2
    have hadmitting :=
      (Process.turn_of_step ha.1 hstop (hbooked w hw).redeployments he).admitting
    obtain ⟨hepoch, hadopted⟩ := Process.epoch_step hw₀.adopted hstop he
    refine ⟨later ++ e.events, by rw [htrace', htrace, append_assoc],
      ⟨e.process, hprocess, hadopted, fun heq => ?_⟩, fun j t hmem => ?_⟩
    · exact hadmitting.cancelled (hw₀.recorded (heq.trans hepoch))
    · rcases mem_append.mp hmem with hmem | hmem
      · exact hnone j t hmem
      · obtain ⟨-, -, hnot, heq⟩ := hadmitting.started j t attemptID epoch hmem
        exact hnot (hw₀.recorded heq)

end Session

/-! ## Reservations are sound -/

/-- The tasks and the unexpired reservations take no more slots than there are.  A negative number
of slots is none. -/
def SlotsBounded (cfg : Config) (s : State) : Prop :=
  ∀ w, s.process = some w → ∀ now, (w.dropExpired now).usedSlots ≤ max 0 cfg.taskSlots

/-- Since `s₀` no task of an attempt was started twice. -/
def StartedOnce (s₀ s : State) : Prop :=
  ∃ later, s.trace = s₀.trace ++ later ∧ ∀ attemptID, (startsOf attemptID later).Nodup

/-- The next step replaces no handle: a task keeps it, or the goroutine that runs the task
removes it. -/
def HandlesKept (cfg : Config) (s : State) : Prop :=
  ∀ a s' w w', Reserved a → InSession a → step cfg s a = some s' → s.process = some w →
    s'.process = some w' → ∀ t h, w.tasks.lookup t = some h →
      (∃ h', w'.tasks.lookup t = some h' ∧ h'.identity = h.identity) ∨
      ∃ i run, w.removeTask i = some w' ∧ w.runs[i]? = some run ∧ run.taskID = t ∧
        run.done = h.done

/-- After a `CancelTask` for an attempt, no task of the attempt is started in the session. -/
def CancelHolds (cfg : Config) (s : State) : Prop :=
  ∀ jobID taskID attemptID epoch s₁ s₂, attemptID ≠ none →
    step cfg s (.process (.command (.cancelTask jobID taskID epoch attemptID))) = some s₁ →
    SessionRun cfg s₁ s₂ →
      ∃ later, s₂.trace = s₁.trace ++ later ∧
        ∀ j t, Event.started j t attemptID epoch ∉ later

/-- **Slot reservations are sound.**  In every session of a worker to which tasks are deployed with
reservations, the slots are enough for the tasks and the reservations, an attempt is started at most
once, no handle is replaced, and a canceled attempt is not started any more. -/
theorem reservations_sound {cfg : Config} {file : EpochFile} {s₀ s : State}
    (h₀ : ReservedRun cfg (.initial file) s₀) (h : SessionRun cfg s₀ s) :
    SlotsBounded cfg s ∧ StartedOnce s₀ s ∧ HandlesKept cfg s ∧ CancelHolds cfg s := by
  have hrun : ReservedRun cfg (.initial file) s := h₀.trans (SessionRun.reserved h)
  have hbooked := booked_of_run hrun
  refine ⟨?_, ?_, ?_, ?_⟩
  · intro w hw now
    exact ((hbooked w hw).stays (Process.stays_dropExpired w now)).bound
  · obtain ⟨later, hsince⟩ := since_of_session h₀ h
    exact ⟨later, hsince.trace, hsince.once⟩
  · intro a s' w w' hreserved hsession hstep hw hw' t k hlookup
    obtain ⟨u, u', events, hu, hu', -, hturn⟩ :=
      turn_of_session hbooked ⟨hreserved, hsession⟩ hstep
    cases hw.symm.trans hu
    cases hw'.symm.trans hu'
    exact (hbooked w hw).handle hturn hlookup
  · intro jobID taskID attemptID epoch s₁ s₂ hattempt hstep hsession
    have hcancelled := cancelled_of_command hattempt hstep
    have hrun₁ : ReservedRun cfg (.initial file) s₁ := hrun.tail rfl hstep
    obtain ⟨later, htrace, -, hnone⟩ := cancelled_of_session hrun₁ hcancelled hsession
    exact ⟨later, htrace, hnone⟩

/-- A worker with two slots. -/
def twoSlots : Config where
  epochPath := false
  taskSlots := 2
  contactTimeout := 100

def registration : List Action :=
  [.start 0, .process (.connect 0), .process (.registered 3), .process (.adopt 1)]

def deployment : SubmitJobRequest where
  jobID := some 1
  attemptID := some 7
  reservationID := some 7
  epochID := 3
  tasks := [{ taskID := some 2, attemptID := some 7, epochID := 3, operatorChain := [.source] }]
  digest := 0

/-- A slot is reserved, and the deployment is sent twice. -/
def retriedDeployment : List Action :=
  [.process (.requestTaskSlots
      { epochID := 3, reservationID := some 7, jobID := some 1, requiredSlots := 1 } 2 2 none),
    .process (.submitJob deployment 3 none), .process (.submitJob deployment 4 none)]

theorem reservations_sound_retried :
    ∃ s₀ s, ReservedRun twoSlots (.initial none) s₀ ∧ SessionRun twoSlots s₀ s ∧
      s.trace.length = s₀.trace.length + 1 ∧
      SlotsBounded twoSlots s ∧ StartedOnce s₀ s ∧ HandlesKept twoSlots s ∧
      CancelHolds twoSlots s := by
  obtain ⟨s₀, h₀, s, hs, hlength⟩ := reaches_of_run (step twoSlots) (fun _ a => Reserved a)
    (fun _ a => Reserved a) (fun _ _ h => h) (.initial none) registration
    (p := fun s₀ => ∃ s ∈ run (fun s a => if Reserved a && InSession a then step twoSlots s a
      else none) s₀ retriedDeployment, s.trace.length = s₀.trace.length + 1) (by decide)
  have h : SessionRun twoSlots s₀ s :=
    Reaches.refl.run (fun _ _ h => (Bool.and_eq_true _ _).mp h) hs
  exact ⟨s₀, s, h₀, h, hlength, reservations_sound h₀ h⟩

end Wire.Worker
