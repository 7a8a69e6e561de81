import Wire.Worker.System

/-!
# The epoch fence of a worker

A task is started under the epoch `w.epoch`, and only under it, and `w.epoch` is set only to an
epoch that is in the file.  So it has to be shown that `w.epoch` never falls behind: within a
process it is compared with the response of the coordinator, and a new process takes it from the
file, to which every epoch goes before it is set.

The comparison in `runCoordinatorSession` is with the epoch read before the request, and the
comparison in `save` with the epoch of the store.  Between the rename and the end of `save` the
file is ahead of the store, and between `save` and the adoption the store is ahead of `w.epoch`
(`Holds`).  A task that starts in that window belongs to the epoch that is about to be replaced,
which is still the highest one that has been accepted.

`step_move` says once what a step of a process can do to the fence.
-/

namespace Wire.Worker

open List Option

open Wire.Coordinator (GoMap Time)

/-! ## What a step does to the fence -/

/-- The part of the memory that decides which epoch is served. -/
structure Fence where
  epoch : ℕ
  store : Option EpochStore
  session : Session

def Process.fence (w : Process) : Fence := ⟨w.epoch, w.epochStore, w.session⟩

/-- `Run` will return. -/
def Session.fatal : Session → Bool
  | .closing fatal | .joining _ fatal => fatal
  | .returned => true
  | _ => false

/-- No epoch is on its way to the file or to `w.epoch`. -/
def Session.settled : Session → Bool
  | .saving _ _ | .saved _ => false
  | session => !session.fatal

/-- The tasks that a process may start. -/
def Process.Admits (w : Process) (tasks : List TaskDescriptor) : Prop :=
  ∀ desc ∈ tasks, desc.epochID = 0 ∨ desc.epochID = w.epoch

/-- Everything a step of a process can do to the fence. -/
inductive Move (w : Process) (e : Effect) : Prop where
  | keep (hfence : e.process.fence = w.fence) (hpersists : e.persists = none) (jobID : Ident)
      (tasks : List TaskDescriptor) (htasks : w.Admits tasks)
      (hevents : e.events = startedEvents jobID tasks)
  | turn (session : Session) (hfence : e.process.fence = { w.fence with session })
      (hpersists : e.persists = none) (hevents : e.events = [])
      (hsession : session.fatal = true ∨ w.session.settled = true ∧ session.settled = true ∧
        ∀ highest, session = .registering highest → highest = w.epoch)
  | unchanged (highest epoch : ℕ) (hsession : w.session = .registering highest)
      (hle : highest ≤ epoch) (hstore : ∀ store, w.epochStore = some store → epoch = store.epoch)
      (hfence : e.process.fence = { w.fence with session := .saved epoch })
      (hpersists : e.persists = none) (hevents : e.events = [])
  | saves (epoch : ℕ) (highest : ℕ) (hsession : w.session = .registering highest)
      (hle : highest ≤ epoch) (hmax : epoch ≤ maxUint64)
      (hstore : ∀ store, w.epochStore = some store → store.epoch < epoch)
      (hfence : e.process.fence = { w.fence with session := .saving epoch .writeTemp })
      (hpersists : e.persists = none) (hevents : e.events = [])
  | written (epoch : ℕ) (hsession : w.session = .saving epoch .writeTemp)
      (hfence : e.process.fence = { w.fence with session := .saving epoch .rename })
      (hpersists : e.persists = none) (hevents : e.events = [])
  | renamed (epoch : ℕ) (hsession : w.session = .saving epoch .rename)
      (hfence : e.process.fence = { w.fence with session := .saving epoch .syncDir })
      (hpersists : e.persists = some epoch) (hevents : e.events = [.persisted epoch])
  | synced (epoch : ℕ) (hsession : w.session = .saving epoch .syncDir)
      (hfence : e.process.fence = { w.fence with store := some ⟨epoch⟩, session := .saved epoch })
      (hpersists : e.persists = none) (hevents : e.events = [])
  | adopted (epoch : ℕ) (hsession : w.session = .saved epoch)
      (hfence : e.process.fence = { w.fence with epoch, session := .serving })
      (hpersists : e.persists = none) (hevents : e.events = [.accepted epoch])

section Move

variable {w w' : Process}

/-- A step that starts no task and leaves the fence alone. -/
theorem Move.quiet (hfence : w'.fence = w.fence) : Move w { process := w' } :=
  .keep hfence rfl none [] (fun _ hd => absurd hd not_mem_nil) rfl

/-- From one session that has no epoch on its way to another one. -/
theorem Move.settled (session : Session) (hfence : w'.fence = { w.fence with session })
    (hfatal : session.fatal = true ∨ w.session.settled = true ∧ session.settled = true)
    (hregistering : ∀ highest, session = .registering highest → highest = w.epoch) :
    Move w { process := w' } :=
  .turn session hfence rfl rfl (hfatal.imp_right fun h => ⟨h.1, h.2, hregistering⟩)

end Move

variable {now : Time} {ctxErr : Option String} {w' : Process} {store : EpochStore}

namespace Process

variable {cfg : Config} {w : Process}

/-! ### Admissions leave the fence alone -/

theorem fence_handleDeployTask (w : Process) (jobID taskID : Ident) (desc : TaskDescriptor) :
    (w.handleDeployTask jobID taskID desc).1.fence = w.fence := by
  rw [handleDeployTask]
  split
  · rfl
  split
  · split <;> rfl
  · split
    · rfl
    · split <;> rfl

theorem admits_handleDeployTask (w : Process) (jobID taskID : Ident) (desc : TaskDescriptor) :
    w.Admits (w.handleDeployTask jobID taskID desc).2 := by
  have hnone : w.Admits [] := fun _ h => absurd h not_mem_nil
  rw [handleDeployTask]
  split
  · exact hnone
  split
  · split <;> exact hnone
  · split
    · exact hnone
    split
    · exact hnone
    · next hepoch =>
      intro d hd
      rw [mem_singleton.mp hd]
      by_cases hzero : desc.epochID = 0
      · exact .inl hzero
      · exact .inr (not_not.mp fun hne => hepoch ⟨hzero, hne⟩)

theorem fence_handleRequestTaskSlots (w : Process) (req : RequestTaskSlotsRequest)
    (now later : Time) (ctxErr : Option String) :
    (w.handleRequestTaskSlots cfg req now later ctxErr).1.fence = w.fence := by
  obtain ⟨_, heq⟩ := handleRequestTaskSlots_eq cfg w req now later ctxErr
  rw [heq]
  rfl

theorem fence_foldl_install (jobID : Ident) (tasks : List TaskDescriptor) (w : Process) :
    (tasks.foldl (fun w desc => w.installTaskLocked jobID desc.taskID desc) w).fence =
      w.fence := by
  induction tasks generalizing w with
  | nil => rfl
  | cons desc tasks ih =>
    rw [foldl_cons, ih]
    rfl

variable {req : SubmitJobRequest} {i : ℕ}

/-- The tasks of a deployment that passes the checks have its epoch. -/
theorem epochID_of_checkTasks {tasks : List TaskDescriptor}
    {seen : List Ident} {previous found : Option ℕ}
    (h : w.checkTasks req seen previous tasks = .ok found) :
    ∀ desc ∈ tasks, desc.epochID = req.epochID := by
  induction tasks generalizing seen previous with
  | nil => exact fun _ hd => absurd hd not_mem_nil
  | cons desc tasks ih =>
    rw [checkTasks] at h
    split at h
    · cases h
    next hvalid =>
    have hhead : desc.epochID = req.epochID :=
      not_not.mp fun hne => hvalid (.inr (.inr (.inl hne)))
    have hrest : ∀ d ∈ tasks, d.epochID = req.epochID := by
      split at h
      · split at h
        · cases h
        · exact ih h
      · exact ih h
    intro d hd
    rcases mem_cons.mp hd with rfl | hd
    · exact hhead
    · exact hrest d hd

theorem fence_tryStart (w : Process) (req : SubmitJobRequest) (now : Time)
    (ctxErr : Option String) : (w.tryStart req now ctxErr).1.fence = w.fence := by
  rcases tryStart_cases w req now ctxErr with ⟨-, heq | heq⟩ | ⟨_, -, heq⟩
  · rw [heq]
  · rw [heq]
    rfl
  · rw [heq]
    exact fence_foldl_install ..

theorem epochID_of_tryStart (h : (w.tryStart req now ctxErr).2 = .started) :
    ∀ desc ∈ req.tasks, desc.epochID = w.epoch := by
  rcases tryStart_cases w req now ctxErr with ⟨hnot, -⟩ | ⟨_, hpasses, -⟩
  · exact absurd h hnot
  · intro desc hdesc
    rw [epochID_of_checkTasks hpasses.checked desc hdesc]
    exact hpasses.epoch

theorem fence_resume (w : Process) (req : SubmitJobRequest) (admission : Admission) :
    (w.resume req admission).1.fence = w.fence := by
  cases admission <;> rfl

/-- A call of `handleSubmitJob` that goes on after a pass through its loop. -/
theorem admits_resume :
    w.Admits ((w.tryStart req now ctxErr).1.resume req (w.tryStart req now ctxErr).2).2 := by
  cases h : (w.tryStart req now ctxErr).2 with
  | started => exact fun desc hdesc => .inr (epochID_of_tryStart h desc hdesc)
  | refused e | repeated | waits previous expires => exact fun _ hd => absurd hd not_mem_nil

theorem fence_handleCommand (w : Process) (cmd : WorkerCommand) :
    (w.handleCommand cmd).1.fence = w.fence := by
  cases cmd with
  | deployTask jobID taskID data =>
    cases data with
    | none => rfl
    | some desc => exact fence_handleDeployTask w jobID taskID desc
  | cancelTask jobID taskID epochID attemptID =>
    rw [handleCommand, handleCancelTask]
    split <;> split
    any_goals split
    all_goals rfl
  | checkpoint type jobID taskID data =>
    cases data with
    | none => rfl
    | some request =>
      rw [handleCommand, handleCheckpointCommand]
      split
      · rfl
      split
      · rfl
      · dsimp only
        split <;> rfl

theorem admits_handleCommand (w : Process) (cmd : WorkerCommand) :
    w.Admits (w.handleCommand cmd).2 := by
  cases cmd with
  | deployTask jobID taskID data =>
    cases data with
    | none => exact fun _ hd => absurd hd not_mem_nil
    | some desc => exact admits_handleDeployTask w jobID taskID desc
  | cancelTask => exact fun _ hd => absurd hd not_mem_nil
  | checkpoint type jobID taskID data =>
    cases data <;> exact fun _ hd => absurd hd not_mem_nil

/-! ### One step -/

variable {e : Effect}

theorem move_registered {epoch : ℕ} (hmax : epoch ≤ maxUint64) (h : w.registered epoch = some w') :
    Move w { process := w' } := by
  rw [registered] at h
  split at h
  case h_2 => cases h
  next highest hsession =>
  split at h
  · cases h
    exact .turn (.closing false) rfl rfl rfl
      (.inr ⟨by rw [hsession]; rfl, rfl, nofun⟩)
  next hle =>
  have hle := Nat.le_of_not_lt hle
  split at h
  · next hstore =>
    cases h
    exact .unchanged highest epoch hsession hle (fun store hs => by rw [hstore] at hs; cases hs)
      rfl rfl rfl
  · next store hstore =>
    have hsome : ∀ store', w.epochStore = some store' → store' = store := fun store' hs => by
      rw [hstore] at hs
      exact (some.inj hs).symm
    split at h
    · cases h
      exact .turn (.closing true) rfl rfl rfl (.inl rfl)
    · next hsave =>
      cases h
      refine .unchanged highest epoch hsession hle (fun store' hs => ?_) rfl rfl rfl
      rw [hsome store' hs]
      exact EpochStore.epoch_of_unchanged hsave
    · next hsave =>
      cases h
      refine .saves epoch highest hsession hle hmax (fun store' hs => ?_) rfl rfl rfl
      rw [hsome store' hs]
      exact EpochStore.lt_of_writing hsave

theorem move_saveStep {ok : Bool} (h : w.saveStep ok = some e) : Move w e := by
  rw [saveStep] at h
  split at h
  case h_2 => cases h
  next epoch stage hsession =>
  split at h
  · cases h
    exact .turn (.closing true) rfl rfl rfl (.inl rfl)
  cases stage with cases h
  | writeTemp =>
    exact .written epoch hsession rfl rfl rfl
  | rename =>
    exact .renamed epoch hsession rfl rfl rfl
  | syncDir =>
    exact .synced epoch hsession rfl rfl rfl

theorem move_adopt (h : w.adopt cfg now = some e) : Move w e := by
  rw [adopt] at h
  split at h
  case h_2 => cases h
  next epoch hsession =>
  split at h
  · cases h
    exact .turn (.closing true) rfl rfl rfl (.inl rfl)
  · cases h
    exact .adopted epoch hsession rfl rfl rfl

/-- A call of `handleSubmitJob`, from one pass through its loop to the next. -/
theorem move_tryStart (w w₀ : Process) (hw : w₀.fence = w.fence) (req : SubmitJobRequest)
    (now : Time)
    (ctxErr : Option String) : Move w {
      process := ((w₀.tryStart req now ctxErr).1.resume req (w₀.tryStart req now ctxErr).2).1
      events := startedEvents req.jobID
        ((w₀.tryStart req now ctxErr).1.resume req (w₀.tryStart req now ctxErr).2).2 } := by
  refine .keep ?_ rfl req.jobID _ ?_ rfl
  · exact (fence_resume ..).trans ((fence_tryStart ..).trans hw)
  · have hepoch : w₀.epoch = w.epoch := congrArg Fence.epoch hw
    intro desc hdesc
    rw [← hepoch]
    exact admits_resume desc hdesc

theorem move_resubmit (h : w.resubmit i now ctxErr = some e) : Move w e := by
  rw [resubmit] at h
  split at h
  · cases h
  next call _ =>
  have hmove := move_tryStart w { w with submissions := w.submissions.eraseIdx i } rfl
    call.request now ctxErr
  split at h
  · cases h
    exact hmove
  · cases h

theorem move_redeploy (h : w.redeploy i = some e) : Move w e := by
  rw [redeploy] at h
  split at h
  · cases h
  next d _ =>
  have hadmits := admits_handleDeployTask { w with redeployments := w.redeployments.eraseIdx i }
    d.jobID d.taskID d.desc
  split at h
  · cases h
    exact .keep (fence_handleDeployTask ..) rfl d.jobID _ hadmits rfl
  · cases h

theorem fence_removeTask (h : w.removeTask i = some w') : w'.fence = w.fence := by
  obtain ⟨_, -, -, rfl⟩ := removeTask_eq_some h
  rfl

theorem fence_closeDone (h : w.closeDone i = some w') : w'.fence = w.fence := by
  rw [closeDone_eq_some h]
  rfl

theorem move_stopServer (h : w.stopServer = some w') : Move w { process := w' } := by
  rw [stopServer] at h
  split at h
  case h_2 => cases h
  next fatal hsession =>
  split at h
  · cases h
    refine .settled _ rfl ?_ nofun
    cases fatal with
    | false => exact .inr ⟨by rw [hsession]; rfl, rfl⟩
    | true => exact .inl rfl
  · cases h

theorem move_joinTasks (h : w.joinTasks = some w') : Move w { process := w' } := by
  rw [joinTasks] at h
  split at h
  case h_2 => cases h
  next tasks fatal hsession =>
  split at h
  · cases h
    cases fatal with
    | false => exact .settled .idle rfl (.inr ⟨by rw [hsession]; rfl, rfl⟩) nofun
    | true => exact .settled .returned rfl (.inl rfl) nofun
  · cases h

/-- **What a step of a process can do to the fence.** -/
theorem step_move {a : ProcessAction} (h : w.step cfg a = some e) : Move w e := by
  cases a with try obtain ⟨w', hw', rfl⟩ := map_eq_some_iff.mp h
  | connect now =>
    obtain ⟨hidle, rfl⟩ := ite_some_none_eq_some.mp h
    exact .settled _ rfl (.inr ⟨by rw [hidle.1]; rfl, rfl⟩)
      fun highest heq => (Session.registering.inj heq).symm
  | registerFailed =>
    rw [step] at h
    split at h
    · next hsession =>
      cases h
      exact .settled (.closing false) rfl (.inr ⟨by rw [hsession]; rfl, rfl⟩)
        (by simp)
    · cases h
  | registered epoch =>
    rw [step] at h
    split at h
    · next hmax =>
      obtain ⟨w', hw', rfl⟩ := map_eq_some_iff.mp h
      exact move_registered hmax hw'
    · cases h
  | save ok => exact move_saveStep h
  | adopt now => exact move_adopt h
  | command cmd =>
    obtain ⟨_, rfl⟩ := ite_some_none_eq_some.mp h
    exact .keep (fence_handleCommand w cmd) rfl _ _ (admits_handleCommand w cmd) rfl
  | requestTaskSlots req now later ctxErr =>
    obtain ⟨_, rfl⟩ := ite_some_none_eq_some.mp h
    exact .quiet (fence_handleRequestTaskSlots ..)
  | submitJob req now ctxErr =>
    rw [step] at h
    split at h
    · rcases handleSubmitJob_eq w req now ctxErr with ⟨err, heq⟩ | heq
      · rw [heq] at h
        cases h
        exact .quiet rfl
      · rw [heq] at h
        cases h
        exact move_tryStart w w rfl ..
    · cases h
  | resubmit i now ctxErr => exact move_resubmit h
  | redeploy i => exact move_redeploy h
  | removeTask i =>
    exact .quiet (fence_removeTask hw')
  | closeDone i =>
    exact .quiet (fence_closeDone hw')
  | confirmContact | watchContact =>
    obtain ⟨_, rfl⟩ := ite_some_none_eq_some.mp h
    exact .quiet rfl
  | shutdown =>
    cases h
    exact .quiet rfl
  | endSession fatal =>
    obtain ⟨hsession, rfl⟩ := ite_some_none_eq_some.mp h
    refine .settled (.closing fatal) rfl ?_ (by simp)
    cases fatal with
    | false => exact .inr ⟨by rw [hsession]; rfl, rfl⟩
    | true => exact .inl rfl
  | stopServer =>
    exact move_stopServer hw'
  | joinTasks =>
    exact move_joinTasks hw'
  | joinTimeout =>
    rw [step] at h
    split at h
    · cases h
      exact .settled .returned rfl (.inl rfl) (by simp)
    · cases h

end Process

/-! ## The invariant -/

/-- How the record at the epoch path, the store and the session go together. -/
def Session.Follows (session : Session) (epoch stored record : ℕ) : Prop :=
  match session with
  | .registering highest => record = stored ∧ highest = epoch
  | .saving next .writeTemp | .saving next .rename =>
    record = stored ∧ stored < next ∧ next ≤ maxUint64
  | .saving next .syncDir => record = next ∧ stored < next
  | .saved next => record = stored ∧ stored = next
  | .idle | .serving | .closing false | .joining _ false => record = stored
  | .closing true | .joining _ true | .returned => stored ≤ record

/-- The memory of a process, against the record at the epoch path and what has happened. -/
structure Holds (f : Fence) (record : ℕ) (trace : List Event) : Prop where
  accepted : .accepted f.epoch ∈ trace
  highest : ∀ epoch, .accepted epoch ∈ trace → epoch ≤ f.epoch
  persisted : f.epoch ≠ 0 → .persisted f.epoch ∈ trace
  store : ∃ store, f.store = some store ∧ f.epoch ≤ store.epoch ∧
    (store.epoch ≠ 0 → .persisted store.epoch ∈ trace) ∧
    f.session.Follows f.epoch store.epoch record

/-- The record at the epoch path, against what has happened. -/
structure Recorded (record : ℕ) (trace : List Event) : Prop where
  persisted : record ≠ 0 → .persisted record ∈ trace
  highest : ∀ epoch, .persisted epoch ∈ trace → epoch ≤ record
  accepted : ∀ epoch, .accepted epoch ∈ trace → epoch ≤ record

/-- The fence: what may be persisted, accepted and started after what. -/
def Fenced (past : List Event) : Event → Prop
  | .persisted epoch => ∀ earlier, .persisted earlier ∈ past → earlier ≤ epoch
  | .accepted epoch => ∀ earlier, .accepted earlier ∈ past → earlier ≤ epoch
  | .started _ _ _ epoch => epoch ≠ 0 →
    .accepted epoch ∈ past ∧ (∀ earlier, .accepted earlier ∈ past → earlier ≤ epoch) ∧
      .persisted epoch ∈ past

structure Invariant (s : State) : Prop where
  fenced : Traces.Justified Fenced s.trace
  recorded : ∀ store, openEpochStore s.file = some store → Recorded store.epoch s.trace
  process : ∀ w, s.process = some w →
    ∃ store, openEpochStore s.file = some store ∧ Holds w.fence store.epoch s.trace

/-! ### Sessions -/

namespace Session.Follows

variable {session : Session} {epoch stored record : ℕ}

/-- The file is never behind the store. -/
theorem le (h : session.Follows epoch stored record) : stored ≤ record := by
  cases session with
  | idle | serving => exact h.ge
  | registering | saved => exact h.1.ge
  | saving next stage =>
    cases stage with
    | writeTemp | rename => exact h.1.ge
    | syncDir => exact h.1 ▸ h.2.le
  | closing fatal | joining _ fatal =>
    cases fatal with
    | false => exact h.ge
    | true => exact h
  | returned => exact h

theorem iff_of_settled (hsettled : session.settled = true) : session.Follows epoch stored record ↔
    record = stored ∧ ∀ highest, session = .registering highest → highest = epoch := by
  cases session with
  | idle | serving => exact ⟨fun h => ⟨h, nofun⟩, And.left⟩
  | registering highest =>
    constructor
    · rintro ⟨h, hhighest⟩
      exact ⟨h, fun _ heq => by cases heq; exact hhighest⟩
    · exact fun h => ⟨h.1, h.2 highest rfl⟩
  | saving | saved | returned => cases hsettled
  | closing fatal | joining _ fatal =>
    cases fatal with
    | false => exact ⟨fun h => ⟨h, nofun⟩, And.left⟩
    | true => cases hsettled

theorem of_fatal (hfatal : session.fatal = true) (h : stored ≤ record) :
    session.Follows epoch stored record := by
  cases session with
  | idle | serving | registering _ | saving _ _ | saved _ => cases hfatal
  | closing fatal | joining _ fatal =>
    cases fatal with
    | false => cases hfatal
    | true => exact h
  | returned => exact h

end Session.Follows

/-! ### Traces -/

variable {w : Process}

section Trace

variable {f : Fence} {record epoch : ℕ} {trace later : List Event}

/-- Starting tasks persists and accepts nothing. -/
def SameEpochs (trace later : List Event) : Prop :=
  ∀ epoch, (.accepted epoch ∈ later ↔ .accepted epoch ∈ trace) ∧
    (.persisted epoch ∈ later ↔ .persisted epoch ∈ trace)

theorem sameEpochs_started (trace : List Event) (jobID : Ident) (tasks : List TaskDescriptor) :
    SameEpochs trace (trace ++ startedEvents jobID tasks) := by
  intro epoch
  have hnot : ∀ ev ∈ startedEvents jobID tasks, ev ≠ .accepted epoch ∧ ev ≠ .persisted epoch := by
    intro ev hev
    obtain ⟨desc, _, rfl⟩ := mem_map.mp hev
    exact ⟨nofun, nofun⟩
  rw [mem_append, mem_append]
  exact ⟨or_iff_left fun h => (hnot _ h).1 rfl, or_iff_left fun h => (hnot _ h).2 rfl⟩

theorem Recorded.congr (h : Recorded record trace) (hsame : SameEpochs trace later) :
    Recorded record later where
  persisted := fun hne => (hsame record).2.mpr (h.persisted hne)
  highest := fun epoch hmem => h.highest epoch ((hsame epoch).2.mp hmem)
  accepted := fun epoch hmem => h.accepted epoch ((hsame epoch).1.mp hmem)

theorem Holds.congr (h : Holds f record trace) (hsame : SameEpochs trace later) :
    Holds f record later where
  accepted := (hsame f.epoch).1.mpr h.accepted
  highest := fun epoch hmem => h.highest epoch ((hsame epoch).1.mp hmem)
  persisted := fun hne => (hsame f.epoch).2.mpr (h.persisted hne)
  store := by
    obtain ⟨store, hstore, hle, hpersisted, hfollows⟩ := h.store
    exact ⟨store, hstore, hle, fun hne => (hsame store.epoch).2.mpr (hpersisted hne), hfollows⟩

/-- A process may start the tasks that it admits. -/
theorem Holds.fenced (h : Holds w.fence record trace) {tasks : List TaskDescriptor}
    (htasks : w.Admits tasks) (hfenced : Traces.Justified Fenced trace) (jobID : Ident) :
    Traces.Justified Fenced (trace ++ startedEvents jobID tasks) := by
  refine hfenced.append fun before ev after hsplit => ?_
  obtain ⟨front, rest, htasks', hbefore, hrest⟩ := map_eq_append_iff.mp hsplit
  obtain ⟨desc, back, hrest', hev, _⟩ := map_eq_cons_iff.mp hrest
  rw [← hev, ← hbefore]
  intro hne
  have hepoch : desc.epochID = w.epoch := by
    refine (htasks desc ?_).resolve_left hne
    rw [htasks', hrest']
    exact mem_append_right front mem_cons_self
  have hpast := h.congr (sameEpochs_started trace jobID front)
  rw [hepoch] at hne ⊢
  exact ⟨hpast.accepted, hpast.highest, hpast.persisted hne⟩

end Trace

/-! ### Steps -/

section Step

variable {cfg : Config} {s s' : State}

theorem invariant_initial (file : EpochFile) : Invariant (.initial file) := by
  cases file with
  | none =>
    refine ⟨.nil, fun store hstore => ?_, fun w hw => absurd hw.symm (some_ne_none w)⟩
    cases hstore
    exact ⟨fun hne => absurd rfl hne, fun _ h => absurd h not_mem_nil,
      fun _ h => absurd h not_mem_nil⟩
  | some data =>
    cases hopen : openEpochStore (some data) with
    | none =>
      have htrace : (State.initial (some data)).trace = [] := by
        rw [State.initial, hopen]
        rfl
      refine ⟨?_, fun store hstore => ?_, fun w hw => absurd hw.symm (some_ne_none w)⟩
      · rw [htrace]
        exact .nil
      · rw [State.initial, hopen] at hstore
        cases hstore
    | some store =>
      have htrace : (State.initial (some data)).trace = [.persisted store.epoch] := by
        rw [State.initial, hopen]
        rfl
      refine ⟨?_, fun store' hstore => ?_, fun w hw => absurd hw.symm (some_ne_none w)⟩
      · rw [htrace]
        exact Traces.Justified.nil.snoc fun _ h => absurd h not_mem_nil
      · rw [State.initial, hopen] at hstore
        obtain rfl := some.inj hstore
        rw [htrace]
        refine ⟨fun _ => mem_singleton_self _, fun epoch hmem => ?_, fun epoch hmem => ?_⟩
        · cases mem_singleton.mp hmem
          exact le_rfl
        · cases mem_singleton.mp hmem

/-- A process reads its epoch from the file. -/
theorem Invariant.start (hs : Invariant s) (hpath : cfg.epochPath = true)
    (hstart : startProcess cfg s.file now = some w) :
    Invariant { s with process := some w, trace := s.trace ++ [.accepted w.epoch] } := by
  rw [startProcess, if_pos hpath] at hstart
  obtain ⟨store, hopen, rfl⟩ := map_eq_some_iff.mp hstart
  have hrecorded := hs.recorded store hopen
  have hpersisted : ∀ epoch, .persisted epoch ∈ s.trace →
      .persisted epoch ∈ s.trace ++ [.accepted store.epoch] :=
    fun epoch h => mem_append_left _ h
  have haccepted : ∀ epoch, .accepted epoch ∈ s.trace ++ [.accepted store.epoch] →
      epoch ≤ store.epoch := by
    intro epoch hmem
    rcases mem_append.mp hmem with hmem | hmem
    · exact hrecorded.accepted epoch hmem
    · cases mem_singleton.mp hmem
      exact le_rfl
  refine ⟨hs.fenced.snoc hrecorded.accepted, fun store' hopen' => ?_, fun w' hw' => ?_⟩
  · cases hopen.symm.trans hopen'
    refine ⟨fun hne => hpersisted _ (hrecorded.persisted hne), fun epoch hmem => ?_, haccepted⟩
    rcases mem_append.mp hmem with hmem | hmem
    · exact hrecorded.highest epoch hmem
    · cases mem_singleton.mp hmem
  · cases hw'
    refine ⟨store, hopen, ?_⟩
    exact {
      accepted := mem_append_right _ (mem_singleton_self _)
      highest := haccepted
      persisted := fun hne => hpersisted _ (hrecorded.persisted hne)
      store := ⟨store, rfl, le_rfl, fun hne => hpersisted _ (hrecorded.persisted hne), rfl⟩ }

/-- A step of a process that leaves the file alone and records nothing. -/
theorem Invariant.quiet (hs : Invariant s) (hopen : openEpochStore s.file = some store)
    (hholds : Holds w.fence store.epoch s.trace) :
    Invariant { s with process := some w, trace := s.trace ++ [] } := by
  rw [append_nil]
  refine { hs with process := fun w' hw' => ?_ }
  cases hw'
  exact ⟨store, hopen, hholds⟩

/-- The session of a process goes on, with the epoch and the store as they are. -/
theorem Holds.turn {f f' : Fence} {record : ℕ} {trace : List Event} (h : Holds f record trace)
    {session : Session} (hf' : f' = { f with session })
    (hfollows : ∀ store, f.store = some store → f.session.Follows f.epoch store.epoch record →
      session.Follows f.epoch store.epoch record) : Holds f' record trace := by
  rw [hf']
  obtain ⟨store, hstore, hle, hpersisted, hsession⟩ := h.store
  exact ⟨h.accepted, h.highest, h.persisted, store, hstore, hle, hpersisted,
    hfollows store hstore hsession⟩

variable {epoch : ℕ} {a : Action}

/-- The rename puts a higher epoch into the file. -/
theorem Invariant.renamed (hs : Invariant s)
    (hopen : openEpochStore s.file = some store) (hholds : Holds w.fence store.epoch s.trace)
    (hsession : w.session = .saving epoch .rename)
    (hfence : w'.fence = { w.fence with session := .saving epoch .syncDir }) :
    Invariant {
      file := some (putUint64 epoch), process := some w'
      trace := s.trace ++ [.persisted epoch] } := by
  obtain ⟨stored, hstored, hle, hpersisted, hfollows⟩ := hholds.store
  have hfollows' : (Session.saving epoch .rename).Follows w.epoch stored.epoch store.epoch :=
    hsession ▸ hfollows
  obtain ⟨hrecord, hlt, hmax⟩ := hfollows'
  have hrecorded := hs.recorded store hopen
  have hhigher : ∀ earlier, earlier ≤ store.epoch → earlier ≤ epoch := by
    intro earlier hearlier
    omega
  have haccepted : ∀ earlier, .accepted earlier ∈ s.trace ++ [.persisted epoch] →
      .accepted earlier ∈ s.trace := by
    intro earlier hmem
    rcases mem_append.mp hmem with hmem | hmem
    · exact hmem
    · cases mem_singleton.mp hmem
  have hkept : ∀ ev ∈ s.trace, ev ∈ s.trace ++ [.persisted epoch] :=
    fun ev hev => mem_append_left _ hev
  refine ⟨hs.fenced.snoc fun earlier h => hhigher earlier (hrecorded.highest earlier h),
    fun store' hopen' => ?_, fun w'' hw'' => ?_⟩
  · cases (openEpochStore_putUint64 hmax).symm.trans hopen'
    refine ⟨fun _ => mem_append_right _ (mem_singleton_self _), fun earlier hmem => ?_,
      fun earlier hmem => hhigher earlier (hrecorded.accepted earlier (haccepted earlier hmem))⟩
    rcases mem_append.mp hmem with hmem | hmem
    · exact hhigher earlier (hrecorded.highest earlier hmem)
    · cases mem_singleton.mp hmem
      exact le_rfl
  · cases hw''
    refine ⟨⟨epoch⟩, openEpochStore_putUint64 hmax, ?_⟩
    rw [hfence]
    exact {
      accepted := hkept _ hholds.accepted
      highest := fun earlier hmem => hholds.highest earlier (haccepted earlier hmem)
      persisted := fun hne => hkept _ (hholds.persisted hne)
      store := ⟨stored, hstored, hle, fun hne => hkept _ (hpersisted hne), rfl, hlt⟩ }

/-- The epoch in the file becomes that of the worker. -/
theorem Invariant.adopted (hs : Invariant s)
    (hopen : openEpochStore s.file = some store) (hholds : Holds w.fence store.epoch s.trace)
    (hsession : w.session = .saved epoch)
    (hfence : w'.fence = { w.fence with epoch, session := .serving }) :
    Invariant { s with process := some w', trace := s.trace ++ [.accepted epoch] } := by
  obtain ⟨stored, hstored, hle, hpersisted, hfollows⟩ := hholds.store
  have hfollows' : (Session.saved epoch).Follows w.epoch stored.epoch store.epoch :=
    hsession ▸ hfollows
  obtain ⟨hrecord, hsaved⟩ := hfollows'
  have hrecorded := hs.recorded store hopen
  have hhigher : ∀ earlier, .accepted earlier ∈ s.trace → earlier ≤ epoch :=
    fun earlier h => hsaved ▸ (hholds.highest earlier h).trans hle
  have haccepted : ∀ earlier, .accepted earlier ∈ s.trace ++ [.accepted epoch] →
      earlier ≤ epoch := by
    intro earlier hmem
    rcases mem_append.mp hmem with hmem | hmem
    · exact hhigher earlier hmem
    · cases mem_singleton.mp hmem
      exact le_rfl
  have hkept : ∀ ev ∈ s.trace, ev ∈ s.trace ++ [.accepted epoch] :=
    fun ev hev => mem_append_left _ hev
  refine ⟨hs.fenced.snoc hhigher, fun store' hopen' => ?_, fun w'' hw'' => ?_⟩
  · cases hopen.symm.trans hopen'
    refine ⟨fun hne => hkept _ (hrecorded.persisted hne), fun earlier hmem => ?_,
      fun earlier hmem => (haccepted earlier hmem).trans_eq (hsaved.symm.trans hrecord.symm)⟩
    rcases mem_append.mp hmem with hmem | hmem
    · exact hrecorded.highest earlier hmem
    · cases mem_singleton.mp hmem
  · cases hw''
    refine ⟨store, hopen, ?_⟩
    rw [hfence]
    exact {
      accepted := mem_append_right _ (mem_singleton_self _)
      highest := haccepted
      persisted := fun hne => hkept _ (hsaved ▸ hpersisted (hsaved.symm ▸ hne))
      store := ⟨stored, hstored, hsaved.ge, fun hne => hkept _ (hpersisted hne), hrecord⟩ }

theorem Invariant.move (hs : Invariant s) (hw : s.process = some w) {e : Effect} (hmove : Move w e)
    : Invariant {
      file := match e.persists with
        | some epoch => some (putUint64 epoch)
        | none => s.file
      process := some e.process
      trace := s.trace ++ e.events } := by
  obtain ⟨store, hopen, hholds⟩ := hs.process w hw
  obtain ⟨w', persists, events⟩ := e
  cases hmove with cases hpersists
  | keep hfence hpersists jobID tasks htasks hevents =>
    cases hevents
    have hsame := sameEpochs_started s.trace jobID tasks
    refine ⟨hholds.fenced htasks hs.fenced jobID,
      fun store' hopen' => (hs.recorded store' hopen').congr hsame, fun w'' hw'' => ?_⟩
    cases hw''
    refine ⟨store, hopen, ?_⟩
    rw [show w'.fence = w.fence from hfence]
    exact hholds.congr hsame
  | turn session hfence hpersists hevents hsession =>
    cases hevents
    refine hs.quiet hopen (hholds.turn hfence fun stored _ hfollows => ?_)
    rcases hsession with hfatal | ⟨hsettled, hsettled', hregistering⟩
    · exact .of_fatal hfatal hfollows.le
    · exact (Session.Follows.iff_of_settled hsettled').mpr
        ⟨((Session.Follows.iff_of_settled hsettled).mp hfollows).1, hregistering⟩
  | unchanged highest epoch hsession hle hstore hfence hpersists hevents =>
    cases hevents
    refine hs.quiet hopen (hholds.turn hfence fun stored hstored hfollows => ?_)
    have hsettled : w.session.settled = true := by rw [hsession]; rfl
    exact ⟨((Session.Follows.iff_of_settled hsettled).mp hfollows).1, (hstore stored hstored).symm⟩
  | saves epoch highest hsession hle hmax hstore hfence hpersists hevents =>
    cases hevents
    refine hs.quiet hopen (hholds.turn hfence fun stored hstored hfollows => ?_)
    have hsettled : w.session.settled = true := by rw [hsession]; rfl
    exact ⟨((Session.Follows.iff_of_settled hsettled).mp hfollows).1, hstore stored hstored, hmax⟩
  | written epoch hsession hfence hpersists hevents =>
    cases hevents
    refine hs.quiet hopen (hholds.turn hfence fun stored hstored hfollows => ?_)
    have hfollows' : (Session.saving epoch .writeTemp).Follows w.epoch stored.epoch store.epoch :=
      hsession ▸ hfollows
    exact hfollows'
  | renamed epoch hsession hfence hpersists hevents =>
    cases hevents
    exact hs.renamed hopen hholds hsession hfence
  | synced epoch hsession hfence hpersists hevents =>
    cases hevents
    obtain ⟨stored, hstored, hle, _, hfollows⟩ := hholds.store
    have hfollows' : (Session.saving epoch .syncDir).Follows w.epoch stored.epoch store.epoch :=
      hsession ▸ hfollows
    obtain ⟨hrecord, hlt⟩ := hfollows'
    refine hs.quiet hopen ?_
    rw [show w'.fence = _ from hfence]
    refine ⟨hholds.accepted, hholds.highest, hholds.persisted, ⟨epoch⟩, rfl, hle.trans hlt.le,
      fun hne => ?_, hrecord, rfl⟩
    rw [← hrecord]
    exact (hs.recorded store hopen).persisted (hrecord.symm ▸ hne)
  | adopted epoch hsession hfence hpersists hevents =>
    cases hevents
    exact hs.adopted hopen hholds hsession hfence

theorem Invariant.step (hs : Invariant s) (hpath : cfg.epochPath = true)
    (h : step cfg s a = some s') : Invariant s' := by
  cases a with
  | start now =>
    rw [Worker.step] at h
    split at h
    · cases h
    · obtain ⟨w, hstart, rfl⟩ := map_eq_some_iff.mp h
      exact hs.start hpath hstart
  | crash =>
    obtain ⟨w, _, rfl⟩ := map_eq_some_iff.mp h
    exact { hs with process := fun w hw => absurd hw.symm (some_ne_none w) }
  | process a =>
    rw [Worker.step] at h
    split at h
    · cases h
    · next w hw =>
      obtain ⟨e, he, rfl⟩ := map_eq_some_iff.mp h
      exact hs.move hw (Process.step_move he)

theorem invariant_of_reachable {file : EpochFile} (hpath : cfg.epochPath = true)
    (h : Reachable cfg file s) : Invariant s :=
  h.invariant (invariant_initial file) fun _ _ _ _ hs _ hstep => hs.step hpath hstep

/-- A step never lowers the epoch in the file. -/
theorem Invariant.file_le (hs : Invariant s) (h : Worker.step cfg s a = some s')
    (hopen : openEpochStore s.file = some store) :
    ∃ store', openEpochStore s'.file = some store' ∧ store.epoch ≤ store'.epoch := by
  cases a with
  | start now =>
    rw [Worker.step] at h
    split at h
    · cases h
    · obtain ⟨w, _, rfl⟩ := map_eq_some_iff.mp h
      exact ⟨store, hopen, le_rfl⟩
  | crash =>
    obtain ⟨w, _, rfl⟩ := map_eq_some_iff.mp h
    exact ⟨store, hopen, le_rfl⟩
  | process a =>
    rw [Worker.step] at h
    split at h
    · cases h
    next w hw =>
    obtain ⟨e, he, rfl⟩ := map_eq_some_iff.mp h
    have hmove := Process.step_move he
    split
    · next epoch hpersists =>
      cases hmove with
      | renamed next hsession _ hpersists' =>
        cases hpersists'.symm.trans hpersists
        obtain ⟨store', hopen', hholds⟩ := hs.process w hw
        cases hopen.symm.trans hopen'
        obtain ⟨stored, _, _, _, hfollows⟩ := hholds.store
        have hfollows' : (Session.saving epoch .rename).Follows w.epoch stored.epoch store.epoch :=
          hsession ▸ hfollows
        obtain ⟨hrecord, hlt, hmax⟩ := hfollows'
        exact ⟨⟨epoch⟩, openEpochStore_putUint64 hmax, hrecord.trans_le hlt.le⟩
      | keep _ hnone | turn _ _ hnone | unchanged _ _ _ _ _ _ hnone | saves _ _ _ _ _ _ _ hnone
        | written _ _ _ hnone | synced _ _ _ hnone | adopted _ _ _ hnone =>
        rw [hnone] at hpersists
        cases hpersists
    · exact ⟨store, hopen, le_rfl⟩

end Step

/-- **The epoch fence.**  Whatever the coordinators send and wherever the process is interrupted,
every task that is started under an epoch is started under the highest one that the worker has
accepted, which has been persisted before; and the record at the epoch path is never lowered. -/
theorem epoch_fence {cfg : Config} (hpath : cfg.epochPath = true) {file : EpochFile} {s s' : State}
    (h : Reachable cfg file s) (hlater : Runs.Reachable (step cfg) s s') :
    Traces.Justified Fenced s.trace ∧
      ∀ store, openEpochStore s.file = some store →
        ∃ store', openEpochStore s'.file = some store' ∧ store.epoch ≤ store'.epoch := by
  refine ⟨(invariant_of_reachable hpath h).fenced, fun store hopen => ?_⟩
  refine hlater.invariant (P := fun s' => ∃ store', openEpochStore s'.file = some store' ∧
    store.epoch ≤ store'.epoch) ⟨store, hopen, le_rfl⟩ ?_
  rintro t a t' hreach ⟨store', hopen', hle⟩ - hstep
  obtain ⟨store'', hopen'', hle'⟩ :=
    (invariant_of_reachable hpath (h.trans hreach)).file_le hstep hopen'
  exact ⟨store'', hopen'', hle.trans hle'⟩

/-! ## A run across a restart -/

namespace Sample

def config : Config where
  epochPath := true
  taskSlots := 2
  contactTimeout := 10 * second

/-- The worker accepts epoch 1, is interrupted after it has saved epoch 2, and starts a task when
it has come back to the coordinator of epoch 2. -/
def restartRun : List Action :=
  [.start 0, .process (.connect 1), .process (.registered 1), .process (.save true),
    .process (.save true), .process (.save true), .process (.adopt 2),
    .process (.endSession false), .process .stopServer, .process .joinTasks,
    .process (.connect 3), .process (.registered 2), .process (.save true),
    .process (.save true), .crash, .start 4, .process (.connect 5), .process (.registered 2),
    .process (.adopt 6),
    .process (.command (.deployTask (some 1) (some 10)
      (some { taskID := some 10, attemptID := some 1, epochID := 2, operatorChain := [.map] })))]

end Sample

theorem epoch_fence_restarted : ∃ s, Reachable Sample.config none s ∧
    s.trace = [.accepted 0, .persisted 1, .accepted 1, .persisted 2, .accepted 2, .accepted 2,
      .started (some 1) (some 10) (some 1) 2] ∧
    Traces.Justified Fenced s.trace := by
  obtain ⟨s, hs, htrace⟩ := Runs.reachable_of_run (step Sample.config) (.initial none)
    Sample.restartRun (p := fun s => s.trace = [.accepted 0, .persisted 1, .accepted 1,
      .persisted 2, .accepted 2, .accepted 2, .started (some 1) (some 10) (some 1) 2]) (by decide)
  exact ⟨s, hs, htrace, (epoch_fence rfl hs .refl).1⟩

end Wire.Worker
