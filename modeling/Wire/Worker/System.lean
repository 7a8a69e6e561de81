import Wire.Library.Runs
import Wire.Worker.State

/-!
# A worker across sessions and restarts

A worker process opens its epoch file, and then runs one coordinator session after another: it
connects, registers, saves the epoch of the response, adopts it, and serves until the session
ends.  Then the reverse server is stopped, what belongs to the session is forgotten, and the tasks
are joined.  The process may end at any point and be started again on the same file.  The lock on
the file means that there is one process at a time; what is left of a worker whose `Run` has
returned is stopping and admits nothing, so the end of the process is the same as its crash.

The coordinators are the environment: any response and any call or command may arrive whenever the
worker listens.

`trace` records the three kinds of events that the epoch fence is about.  It is not read by any
function.
-/

namespace Wire.Worker

open Option

open Wire.Coordinator (GoMap Time)

inductive Event where
  /-- The record at the epoch path became this epoch. -/
  | persisted (epoch : ℕ)
  /-- `w.epoch` was set. -/
  | accepted (epoch : ℕ)
  | started (jobID taskID attemptID : Ident) (epoch : ℕ)
deriving DecidableEq

/-- What a step of a process does: its new memory, the epoch it renames into place, and the
events. -/
structure Effect where
  process : Process
  persists : Option ℕ := none
  events : List Event := []

/-- The events of the tasks that were started. -/
def startedEvents (jobID : Ident) (tasks : List TaskDescriptor) : List Event :=
  tasks.map fun desc => .started jobID desc.taskID desc.attemptID desc.epochID

inductive ProcessAction where
  /-- A coordinator is found, and a session is opened to it. -/
  | connect (now : Time)
  | registerFailed
  /-- The response to `RegisterWorker`. -/
  | registered (epoch : ℕ)
  /-- The next part of `save` succeeds or fails. -/
  | save (ok : Bool)
  | adopt (now : Time)
  | command (cmd : WorkerCommand)
  | requestTaskSlots (req : RequestTaskSlotsRequest) (now later : Time) (ctxErr : Option String)
  | submitJob (req : SubmitJobRequest) (now : Time) (ctxErr : Option String)
  /-- A call of `handleSubmitJob` that waited goes on. -/
  | resubmit (i : ℕ) (now : Time) (ctxErr : Option String)
  /-- A goroutine of `handleDeployTask` goes on. -/
  | redeploy (i : ℕ)
  /-- `runTask` removes its task … -/
  | removeTask (i : ℕ)
  /-- … and closes its channel. -/
  | closeDone (i : ℕ)
  | confirmContact (sent : Time)
  | watchContact (now : Time)
  | shutdown
  | endSession (fatal : Bool)
  | stopServer
  | joinTasks
  | joinTimeout

namespace Process

variable (cfg : Config) (w : Process)

def setSession (session : Session) : Process :=
  { w with session }

/-- `fenceForContactLoss`. -/
def fenceForContactLoss : Process :=
  { w.cancelTasks with stopping := true }

/-- `runCoordinatorSession`: the response to `RegisterWorker` has come. -/
def registered (epoch : ℕ) : Option Process :=
  match w.session with
  | .registering highestEpoch =>
    if epoch < highestEpoch then some (w.setSession (.closing false))
    else match w.epochStore with
      | none => some (w.setSession (.saved epoch))
      | some store =>
        match store.save epoch with
        | .refused => some (w.setSession (.closing true))
        | .unchanged => some (w.setSession (.saved epoch))
        | .writing => some (w.setSession (.saving epoch .writeTemp))
  | _ => none

/-- `epochStore.save`: its next part. -/
def saveStep (ok : Bool) : Option Effect :=
  match w.session with
  | .saving epoch stage =>
    if !ok then some { process := w.setSession (.closing true) }
    else match stage with
      | .writeTemp => some { process := w.setSession (.saving epoch .rename) }
      | .rename => some {
          process := w.setSession (.saving epoch .syncDir)
          persists := some epoch
          events := [.persisted epoch] }
      | .syncDir => some {
          process := { w with epochStore := some ⟨epoch⟩, session := .saved epoch } }
  | _ => none

/-- `runCoordinatorSession`: the saved epoch becomes the worker's, unless contact is lost. -/
def adopt (now : Time) : Option Effect :=
  match w.session with
  | .saved epoch =>
    if w.stopping ∨ w.lastCoordinatorContact ≠ 0 ∧
        cfg.contactTimeout ≤ now - w.lastCoordinatorContact then
      some { process := w.fenceForContactLoss.setSession (.closing true) }
    else some {
      process := { w with
        epoch, lastCoordinatorContact := w.registrationStarted, session := .serving }
      events := [.accepted epoch] }
  | _ => none

/-- A call of `handleSubmitJob` that waits checks everything again when the older attempt has
ended, the reservation has expired or its context is done. -/
def resubmit (i : ℕ) (now : Time) (ctxErr : Option String) : Option Effect :=
  match w.submissions[i]? with
  | none => none
  | some call =>
    if w.isClosed call.previous ∨ call.expires ≤ now ∨ ctxErr.isSome then
      let waiting := { w with submissions := w.submissions.eraseIdx i }
      let (w', admission) := waiting.tryStart call.request now ctxErr
      let (w', tasks) := w'.resume call.request admission
      some { process := w', events := startedEvents call.request.jobID tasks }
    else none

/-- A goroutine of `handleDeployTask` handles its command again when the older attempt has
ended. -/
def redeploy (i : ℕ) : Option Effect :=
  match w.redeployments[i]? with
  | none => none
  | some d =>
    if w.isClosed d.previous then
      let waiting := { w with redeployments := w.redeployments.eraseIdx i }
      let (w', tasks) := waiting.handleDeployTask d.jobID d.taskID d.desc
      some { process := w', events := startedEvents d.jobID tasks }
    else none

/-- The deferred functions of `runTask`. -/
def removeTask (i : ℕ) : Option Process :=
  match w.runs[i]? with
  | none => none
  | some run =>
    if run.removed then none
    else some { w with
      tasks := w.tasks.erase run.taskID
      runs := w.runs.set i { run with removed := true } }

def closeDone (i : ℕ) : Option Process :=
  match w.runs[i]? with
  | none => none
  | some run => if run.removed then some { w with runs := w.runs.eraseIdx i } else none

/-- The reverse server has stopped, once its calls have returned. -/
def stopServer : Option Process :=
  match w.session with
  | .closing fatal =>
    if w.submissions.isEmpty then
      -- `joinTasksForReconnect` cancels the tasks and collects their channels
      some { w.cancelTasks with
        session := .joining (w.tasks.entries.map fun e => e.2.done) fatal
        reservations := ∅
        deploymentReceipts := ∅
        cancelledAttempts := [] }
    else none
  | _ => none

def joinTasks : Option Process :=
  match w.session with
  | .joining tasks fatal =>
    if tasks.all w.isClosed then some (w.setSession (if fatal then .returned else .idle)) else none
  | _ => none

/-- One step of a process. -/
def step : ProcessAction → Option Effect
  | .connect now =>
    if w.session = .idle ∧ !w.stopping then
      some { process :=
        { w with session := .registering w.epoch, registrationStarted := now } }
    else none
  | .registerFailed =>
    match w.session with
    | .registering _ => some { process := w.setSession (.closing false) }
    | _ => none
  | .registered epoch =>
    -- the response carries a `uint64`
    if epoch ≤ maxUint64 then (w.registered epoch).map fun w => { process := w } else none
  | .save ok => w.saveStep ok
  | .adopt now => w.adopt cfg now
  | .command cmd =>
    if w.session = .serving then
      let (w', tasks) := w.handleCommand cmd
      some { process := w', events := startedEvents cmd.jobID tasks }
    else none
  | .requestTaskSlots req now later ctxErr =>
    if w.session.serves then
      some { process := (w.handleRequestTaskSlots cfg req now later ctxErr).1 }
    else none
  | .submitJob req now ctxErr =>
    if w.session.serves then
      let (w', admission) := w.handleSubmitJob req now ctxErr
      let (w', tasks) := w'.resume req admission
      some { process := w', events := startedEvents req.jobID tasks }
    else none
  | .resubmit i now ctxErr => w.resubmit i now ctxErr
  | .redeploy i => w.redeploy i
  | .removeTask i => (w.removeTask i).map fun w => { process := w }
  | .closeDone i => (w.closeDone i).map fun w => { process := w }
  | .confirmContact sent =>
    if w.session = .serving then some { process := { w with lastCoordinatorContact := sent } }
    else none
  | .watchContact now =>
    if cfg.contactTimeout ≤ now - w.lastCoordinatorContact then
      some { process := w.fenceForContactLoss }
    else none
  | .shutdown => some { process := w.fenceForContactLoss }
  | .endSession fatal =>
    if w.session = .serving then some { process := w.setSession (.closing fatal) } else none
  | .stopServer => w.stopServer.map fun w => { process := w }
  | .joinTasks => w.joinTasks.map fun w => { process := w }
  | .joinTimeout =>
    match w.session with
    | .joining _ _ => some { process := w.setSession .returned }
    | _ => none

end Process

/-! ## What the calls of the coordinator come to -/

/-- A deployment passes all checks. -/
structure Process.Passes (w : Process) (req : SubmitJobRequest) (r : SlotReservation) : Prop where
  epoch : req.epochID = w.epoch
  attempt : req.attemptID ∉ w.cancelledAttempts
  receipt : w.deploymentReceipts.lookup req.attemptID = none
  reserved : w.reservations.lookup req.reservationID = some r
  slots : r.slots = req.tasks.length
  checked : w.checkTasks req [] none req.tasks = .ok none

namespace Process

theorem fst_ite {α : Type} {P : Process → Prop} {c : Prop} [Decidable c] {p q : Process × α}
    (hp : P p.1) (hq : ¬ c → P q.1) : P (if c then p else q).1 := by
  split
  · exact hp
  · next hc => exact hq hc

/-- A request for slots takes them if they are free, and otherwise may give some back. -/
inductive Reserving (cfg : Config) (w : Process) (req : RequestTaskSlotsRequest) (now : Time) :
    Process → Prop
  | keeps (reservations : GoMap Ident SlotReservation)
      (hsub : reservations.entries.Sublist w.reservations.entries) :
      Reserving cfg w req now { w with reservations }
  | takes (r : SlotReservation)
      (hfree : (w.dropExpired now).reservations.lookup req.reservationID = none)
      (hslots : r.slots = req.requiredSlots)
      (hroom : r.slots ≤ (w.dropExpired now).availableSlots cfg) :
      Reserving cfg w req now { w with
        reservations := (w.dropExpired now).reservations.insert req.reservationID r }

theorem reserving_reserve (cfg : Config) (w : Process) (req : RequestTaskSlotsRequest) (now : Time)
    (ctxErr : Option String) : Reserving cfg w req now (w.reserve cfg req now ctxErr).1 := by
  have hsame : Reserving cfg w req now w := .keeps _ (.refl _)
  have hdrop : Reserving cfg w req now (w.dropExpired now) := .keeps _ List.filter_sublist
  cases ctxErr with
  | some message => exact hsame
  | none =>
    refine fst_ite hsame fun _ => fst_ite hsame fun _ => fst_ite ?release fun _ =>
      fst_ite hdrop fun _ => fst_ite hdrop fun _ => fst_ite hdrop fun _ => fst_ite hdrop fun _ =>
      fst_ite hdrop fun _ => ?_
    case release =>
      split
      · exact .keeps _ ((List.kerase_sublist ..).trans List.filter_sublist)
      · exact hdrop
    split
    · exact fst_ite hdrop fun _ => hdrop
    · next hfree => exact fst_ite hdrop fun hroom => .takes _ hfree rfl (not_lt.mp hroom)

theorem handleRequestTaskSlots_eq (cfg : Config) (w : Process) (req : RequestTaskSlotsRequest)
    (now later : Time) (ctxErr : Option String) :
    ∃ reservations, (w.handleRequestTaskSlots cfg req now later ctxErr).1 =
      { w with reservations } := by
  have hreserve := reserving_reserve cfg w req now ctxErr
  rw [handleRequestTaskSlots]
  split
  · exact ⟨_, rfl⟩
  split
  · next hpair =>
    rw [hpair] at hreserve
    cases hreserve <;> exact ⟨_, rfl⟩
  · next hpair =>
    rw [hpair] at hreserve
    cases hreserve <;> exact ⟨_, rfl⟩

section

variable (w : Process) (req : SubmitJobRequest) (now : Time) (ctxErr : Option String)
include w req now ctxErr

/-- One pass through the loop of `handleSubmitJob`. -/
theorem tryStart_cases : ((w.tryStart req now ctxErr).2 ≠ .started ∧
      ((w.tryStart req now ctxErr).1 = w ∨ (w.tryStart req now ctxErr).1 = w.dropExpired now)) ∨
    ∃ r, (w.dropExpired now).Passes req r ∧
      w.tryStart req now ctxErr = ((w.dropExpired now).startTasks req, .started) := by
  unfold tryStart
  split
  · exact .inl ⟨nofun, .inl rfl⟩
  split
  · exact .inl ⟨nofun, .inl rfl⟩
  split
  · exact .inl ⟨nofun, .inl rfl⟩
  next hepoch =>
  split
  · exact .inl ⟨nofun, .inl rfl⟩
  next hattempt =>
  split
  · left
    split
    · exact ⟨nofun, .inl rfl⟩
    · exact ⟨nofun, .inl rfl⟩
  next hreceipt =>
  dsimp only
  split
  · exact .inl ⟨nofun, .inr rfl⟩
  next r hreserved =>
  split
  · exact .inl ⟨nofun, .inr rfl⟩
  next hmatch =>
  split
  · exact .inl ⟨nofun, .inr rfl⟩
  · exact .inl ⟨nofun, .inr rfl⟩
  · next hcheck =>
    refine .inr ⟨r, ⟨not_not.mp hepoch, hattempt, hreceipt, hreserved, ?_, hcheck⟩, rfl⟩
    exact not_not.mp fun h => hmatch (.inr (.inr h))

theorem handleSubmitJob_eq : (∃ err, w.handleSubmitJob req now ctxErr = (w, .refused err)) ∨
    w.handleSubmitJob req now ctxErr = w.tryStart req now ctxErr := by
  rw [handleSubmitJob]
  split
  · exact .inl ⟨_, rfl⟩
  · exact .inr rfl

end

theorem removeTask_eq_some {w w' : Process} {i : ℕ} (h : w.removeTask i = some w') :
    ∃ run, w.runs[i]? = some run ∧ run.removed = false ∧
      w' = { w with
        tasks := w.tasks.erase run.taskID
        runs := w.runs.set i { run with removed := true } } := by
  rw [removeTask] at h
  split at h
  · cases h
  next run hrun =>
  split at h
  · cases h
  next hremoved =>
  exact ⟨run, hrun, Bool.eq_false_iff.mpr hremoved, (some.inj h).symm⟩

theorem closeDone_eq_some {w w' : Process} {i : ℕ} (h : w.closeDone i = some w') :
    w' = { w with runs := w.runs.eraseIdx i } := by
  rw [closeDone] at h
  split at h
  · cases h
  split at h
  · exact (some.inj h).symm
  · cases h

end Process

/-- The worker serves, or has stopped to. -/
def Session.adopted : Session → Bool
  | .serving | .closing _ => true
  | _ => false

/-- What a step comes to for everything but the epoch fence. -/
inductive Stepped (cfg : Config) (w : Process) (a : ProcessAction) : Effect → Prop where
  | session {e : Effect} (epoch : ℕ) (epochStore : Option EpochStore) (session : Session)
      (contact started : Time)
      (hprocess : e.process = { w with
        epoch, epochStore, session, lastCoordinatorContact := contact
        registrationStarted := started })
      (hevents : ∀ j t a e', Event.started j t a e' ∉ e.events)
      (hadopted : w.session.adopted = true → epoch = w.epoch ∧ session.adopted = true) :
      Stepped cfg w a e
  | canceled (session : Session) (hadopted : w.session.adopted = true → session.adopted = true) :
      Stepped cfg w a { process := w.fenceForContactLoss.setSession session }
  | stopped {w' : Process} (ha : a = .stopServer) (htasks : w'.tasks = w.cancelTasks.tasks) :
      Stepped cfg w a { process := w' }
  | command (cmd : WorkerCommand) (ha : a = .command cmd) :
      Stepped cfg w a ⟨(w.handleCommand cmd).1, none,
        startedEvents cmd.jobID (w.handleCommand cmd).2⟩
  | reserved (req : RequestTaskSlotsRequest) (now later : Time) (ctxErr : Option String) :
      Stepped cfg w a { process := (w.handleRequestTaskSlots cfg req now later ctxErr).1 }
  /-- A pass through the loop of `handleSubmitJob`. -/
  | submitted (submissions : List Submission) (req : SubmitJobRequest) (w' : Process)
      (admission : Process.Admission) (now : Time) (ctxErr : Option String)
      (htry : { w with submissions }.tryStart req now ctxErr = (w', admission)) :
      Stepped cfg w a ⟨(w'.resume req admission).1, none,
        startedEvents req.jobID (w'.resume req admission).2⟩
  | redeployed (i : ℕ) (d : Redeployment) (hd : w.redeployments[i]? = some d) (w' : Process)
      (tasks : List TaskDescriptor)
      (h : { w with redeployments := w.redeployments.eraseIdx i }.handleDeployTask d.jobID d.taskID
        d.desc = (w', tasks)) : Stepped cfg w a ⟨w', none, startedEvents d.jobID tasks⟩
  | removed {w' : Process} (i : ℕ) (h : w.removeTask i = some w') :
      Stepped cfg w a { process := w' }
  | closed {w' : Process} (i : ℕ) (h : w.closeDone i = some w') : Stepped cfg w a { process := w' }

/-- **What a step comes to.** -/
theorem Process.stepped {cfg : Config} {w : Process} {a : ProcessAction} {e : Effect}
    (h : w.step cfg a = some e) : Stepped cfg w a e := by
  -- an epoch is on its way, or the tasks are joined
  have hother : ∀ {session : Session} {P : Prop}, w.session = session → session.adopted = false →
      w.session.adopted = true → P := fun hw hs hadopted => by simp [hw, hs] at hadopted
  cases a with try obtain ⟨w', hw', rfl⟩ := map_eq_some_iff.mp h
  | connect now =>
    obtain ⟨hidle, rfl⟩ := ite_some_none_eq_some.mp h
    exact .session _ _ _ _ _ rfl (by simp) (hother hidle.1 rfl)
  | registered epoch =>
    rw [Process.step] at h
    split at h
    · obtain ⟨w', hw', rfl⟩ := map_eq_some_iff.mp h
      unfold Process.registered at hw'
      repeat' split at hw'
      all_goals cases hw'
      all_goals exact .session _ _ _ _ _ rfl (by simp) (hother (by assumption) rfl)
    · cases h
  | registerFailed | joinTimeout | save | adopt =>
    simp only [Process.step, saveStep, Process.adopt] at h
    repeat' split at h
    all_goals cases h
    all_goals first
      | exact .session _ _ _ _ _ rfl (by simp) (hother (by assumption) rfl)
      | exact .canceled _ (hother (by assumption) rfl)
  | command cmd =>
    obtain ⟨_, rfl⟩ := ite_some_none_eq_some.mp h
    exact .command cmd rfl
  | requestTaskSlots req now later ctxErr =>
    obtain ⟨_, rfl⟩ := ite_some_none_eq_some.mp h
    exact .reserved ..
  | submitJob req now ctxErr =>
    rw [Process.step] at h
    split at h
    · rcases handleSubmitJob_eq w req now ctxErr with ⟨err, heq⟩ | heq
      · rw [heq] at h
        cases h
        exact .session _ _ _ _ _ rfl nofun fun hadopted => ⟨rfl, hadopted⟩
      · rw [heq] at h
        cases h
        exact .submitted w.submissions req _ _ now ctxErr rfl
    · cases h
  | resubmit i now ctxErr =>
    rw [Process.step, resubmit] at h
    repeat' split at h
    all_goals cases h
    exact .submitted _ _ _ _ now ctxErr rfl
  | redeploy i =>
    rw [Process.step, redeploy] at h
    repeat' split at h
    all_goals cases h
    exact .redeployed i _ (by assumption) _ _ rfl
  | removeTask i =>
    exact .removed i hw'
  | closeDone i =>
    exact .closed i hw'
  | confirmContact | endSession =>
    obtain ⟨hserving, rfl⟩ := ite_some_none_eq_some.mp h
    exact .session _ _ _ _ _ rfl (by simp) fun hadopted => ⟨rfl, by first | rfl | exact hadopted⟩
  | watchContact now =>
    obtain ⟨_, rfl⟩ := ite_some_none_eq_some.mp h
    exact .canceled w.session id
  | shutdown =>
    cases h
    exact .canceled w.session id
  | stopServer =>
    unfold Process.stopServer at hw'
    repeat' split at hw'
    all_goals cases hw'
    exact .stopped rfl rfl
  | joinTasks =>
    unfold Process.joinTasks at hw'
    repeat' split at hw'
    all_goals cases hw'
    all_goals exact .session _ _ _ _ _ rfl (by simp) (hother (by assumption) rfl)

/-! ## The worker and its file -/

structure State where
  file : EpochFile
  process : Option Process := none
  trace : List Event := []

/-- No process runs, and the record at the epoch path, if valid, has been persisted. -/
def State.initial (file : EpochFile) : State where
  file
  trace := match file with
    | none => []
    | some _ => ((openEpochStore file).map fun store => Event.persisted store.epoch).toList

inductive Action where
  /-- A process starts. -/
  | start (now : Time)
  /-- The process ends, at any point. -/
  | crash
  | process (a : ProcessAction)

/-- `Run`, up to its first session. -/
def startProcess (cfg : Config) (file : EpochFile) (now : Time) : Option Process :=
  if cfg.epochPath then
    (openEpochStore file).map fun store =>
      { epochStore := some store, epoch := store.epoch, lastCoordinatorContact := now }
  else some { epochStore := none, epoch := 0, lastCoordinatorContact := now }

def step (cfg : Config) (s : State) : Action → Option State
  | .start now =>
    match s.process with
    | some _ => none
    | none => (startProcess cfg s.file now).map fun w =>
        { s with process := some w, trace := s.trace ++ [.accepted w.epoch] }
  | .crash => s.process.map fun _ => { s with process := none }
  | .process a =>
    match s.process with
    | none => none
    | some w => (w.step cfg a).map fun e => {
        file := match e.persists with
          | some epoch => some (putUint64 epoch)
          | none => s.file
        process := some e.process
        trace := s.trace ++ e.events }

abbrev Reachable (cfg : Config) (file : EpochFile) : State → Prop :=
  Runs.Reachable (step cfg) (State.initial file)

end Wire.Worker
