import Wire.Worker.System

/-!
# What is in the mailboxes of the tasks

A trigger or a decision gets into the mailboxes of a task only by a command or a call about its
checkpoint, so what is known of the requests of the coordinator is known of the mailboxes
(`Mail.step`, `Mail.handleTriggerCheckpoint`).  Everything else that a worker does leaves the
mailboxes of a task alone, or starts a task with empty ones.
-/

namespace Wire.Worker

open Option AList

open Wire.Coordinator (GoMap Time)
open Wire.Engine (ControlMsg)

/-- A message is in the mailboxes of a task; a trigger is the barrier that it asks for. -/
def TaskCheckpointRuntime.Holds (cp : TaskCheckpointRuntime) (m : ControlMsg) : Prop :=
  (∃ trigger, cp.triggers = some trigger ∧
    m = { type := .barrierReceived, identity := ⟨trigger.checkpointID, trigger.epochID⟩ }) ∨
  m ∈ cp.decisions

/-- Everything in the mailboxes satisfies `P`, for the job of its task. -/
def Process.Mail (P : Ident → ControlMsg → Prop) (w : Process) : Prop :=
  ∀ t h cp m, w.tasks.lookup t = some h → h.checkpoint = some cp → cp.Holds m → P h.jobID m

namespace Process

variable {w w' : Process} {P : Ident → ControlMsg → Prop}

theorem Mail.mono {Q : Ident → ControlMsg → Prop} (hw : w.Mail P)
    (hPQ : ∀ jobID m, P jobID m → Q jobID m) : w.Mail Q :=
  fun t h cp m hlookup hcp hm => hPQ _ _ (hw t h cp m hlookup hcp hm)

section

variable (hw : w.Mail P)
include hw

theorem Mail.of_tasks (h : w'.tasks = w.tasks) : w'.Mail P := by
  rw [Mail, h]
  exact hw

/-- The handle of one task changes. -/
theorem Mail.insert {taskID : Ident} {handle : TaskHandle}
    (h : ∀ cp m, handle.checkpoint = some cp → cp.Holds m → P handle.jobID m) :
    Mail P { w with tasks := w.tasks.insert taskID handle } := by
  intro t k cp m hlookup hcp hm
  rcases eq_or_ne t taskID with rfl | hne
  · rw [lookup_insert] at hlookup
    cases hlookup
    exact h cp m hcp hm
  · rw [lookup_insert_ne hne] at hlookup
    exact hw t k cp m hlookup hcp hm

variable (jobID taskID : Ident) (desc : TaskDescriptor)

theorem Mail.installTaskLocked : (w.installTaskLocked jobID taskID desc).Mail P := by
  refine Mail.of_tasks (hw.insert fun cp m hcp hm => ?_) rfl
  split at hcp
  · cases hcp
    simp [TaskCheckpointRuntime.Holds] at hm
  · cases hcp

theorem Mail.cancelTasks : w.cancelTasks.Mail P := by
  intro t h cp m hlookup
  rw [Process.cancelTasks] at hlookup
  rw [GoMap.lookup_mapValues, map_eq_some_iff] at hlookup
  obtain ⟨h, hlookup, rfl⟩ := hlookup
  exact hw t h cp m hlookup

theorem Mail.handleDeployTask : (w.handleDeployTask jobID taskID desc).1.Mail P := by
  rw [Process.handleDeployTask]
  split
  · exact hw
  split
  · split <;> exact hw.of_tasks rfl
  · split
    · exact hw
    split
    · exact hw
    · exact hw.installTaskLocked jobID taskID desc

theorem Mail.handleCancelTask (epochID : ℕ) (attemptID : Ident) :
    (w.handleCancelTask jobID taskID epochID attemptID).Mail P := by
  unfold Process.handleCancelTask
  extract_lets u
  have hu : u.tasks = w.tasks := by
    dsimp only [u]
    split <;> rfl
  have hmail : u.Mail P := hw.of_tasks hu
  split
  · next h hlookup =>
    split
    · exact hmail.insert fun cp m => hmail taskID h cp m (hu ▸ hlookup)
    · exact hmail
  · exact hmail

end

theorem Mail.foldl_install (jobID : Ident) (tasks : List TaskDescriptor) (hw : w.Mail P) :
    (tasks.foldl (fun w desc => w.installTaskLocked jobID desc.taskID desc) w).Mail P := by
  induction tasks generalizing w with
  | nil => exact hw
  | cons desc tasks ih => exact ih (hw.installTaskLocked jobID desc.taskID desc)

theorem Mail.tryStart (req : SubmitJobRequest) (now : Time) (ctxErr : Option String)
    (hw : w.Mail P) : (w.tryStart req now ctxErr).1.Mail P := by
  rcases tryStart_cases w req now ctxErr with ⟨-, heq | heq⟩ | ⟨_, -, heq⟩
  · rwa [heq]
  · rw [heq]
    exact hw.of_tasks rfl
  · rw [heq]
    exact .foldl_install req.jobID req.tasks (hw.of_tasks rfl)

theorem resume_tasks (w : Process) (req : SubmitJobRequest) (admission : Admission) :
    (w.resume req admission).1.tasks = w.tasks := by
  cases admission <;> rfl

end Process

/-! ## Commands and calls about checkpoints -/

theorem TaskHandle.deliver_jobID (h : TaskHandle) (cp : TaskCheckpointRuntime)
    (type : CheckpointCommand) (request : CheckpointRequest) :
    (h.deliver cp type request).jobID = h.jobID := by
  unfold deliver
  dsimp only
  split
  all_goals split <;> rfl

/-- What a request about a checkpoint puts into the mailboxes. -/
def CheckpointRequest.message (request : CheckpointRequest) (type : CheckpointCommand) :
    ControlMsg where
  type := match type with
    | .takeSnapshot => .barrierReceived
    | .commitCheckpoint => .commitCheckpoint
    | .abortCheckpoint => .abortCheckpoint
  identity := ⟨request.checkpointID, request.epochID⟩

/-- What is delivered is the message of the request. -/
theorem TaskHandle.deliver_holds {h : TaskHandle} {cp cp' : TaskCheckpointRuntime}
    {type : CheckpointCommand} {request : CheckpointRequest} {m : ControlMsg}
    (hcp : h.checkpoint = some cp) (hcp' : (h.deliver cp type request).checkpoint = some cp')
    (hm : cp'.Holds m) : cp.Holds m ∨ m = request.message type := by
  have hsame : h.checkpoint = some cp' → cp.Holds m := by
    intro heq
    rw [hcp, some.injEq] at heq
    exact heq ▸ hm
  unfold deliver at hcp'
  dsimp only at hcp'
  split at hcp'
  · split at hcp'
    · exact .inl (hsame hcp')
    · cases hcp'
      rcases hm with ⟨trigger, htrigger, rfl⟩ | hm
      · cases htrigger
        exact .inr rfl
      · exact .inl (.inr hm)
  all_goals
    split at hcp'
    · cases hcp'
      rcases hm with hm | hm
      · exact .inl (.inl hm)
      · exact (List.mem_append.mp hm).imp .inr List.mem_singleton.mp
    · exact .inl (hsame hcp')

/-- The message of the command satisfies `P`, if it is about a checkpoint. -/
def WorkerCommand.Asks (P : Ident → ControlMsg → Prop) : WorkerCommand → Prop
  | .checkpoint type _ _ (some request) => P request.jobID (request.message type)
  | _ => True

namespace Process

variable {w w' : Process} {P : Ident → ControlMsg → Prop} {request : CheckpointRequest}
  {jobID taskID : Ident}

theorem Mail.handleCheckpointCommand {type : CheckpointCommand} (hw : w.Mail P)
    (hrequest : P request.jobID (request.message type)) :
    (w.handleCheckpointCommand type jobID taskID request).Mail P := by
  rw [Process.handleCheckpointCommand]
  split
  · exact hw
  next handle hlookup =>
  split
  · exact hw
  next checkpoint hcheckpoint =>
  split
  · exact hw
  next hguard =>
  refine hw.insert fun cp m hcp hm => ?_
  rw [TaskHandle.deliver_jobID]
  rcases TaskHandle.deliver_holds hcheckpoint hcp hm with hold | rfl
  · exact hw taskID handle checkpoint m hlookup hcheckpoint hold
  · have hjob : handle.jobID = request.jobID := by
      simp only [not_or, not_not] at hguard
      exact hguard.2.1.trans hguard.2.2.1.symm
    rw [hjob]
    exact hrequest

theorem Mail.triggerTasks (hrequest : P request.jobID (request.message .takeSnapshot))
    {tasks : List Ident} (hw : w.Mail P) : (triggerTasks request w tasks).1.Mail P := by
  induction tasks generalizing w with
  | nil => exact hw
  | cons t rest ih =>
    rw [Process.triggerTasks]
    split
    · exact ih (hw.handleCheckpointCommand hrequest)
    · exact hw

variable (hw : w.Mail P)
include hw

/-- The call of a coordinator that starts a checkpoint. -/
theorem Mail.handleTriggerCheckpoint
    (hrequest : P request.jobID (request.message .takeSnapshot)) :
    (w.handleTriggerCheckpoint request).1.Mail P := by
  unfold Process.handleTriggerCheckpoint
  dsimp only
  split
  · exact hw
  · exact hw.triggerTasks hrequest

theorem Mail.handleCommand {cmd : WorkerCommand} (hcmd : cmd.Asks P) :
    (w.handleCommand cmd).1.Mail P := by
  cases cmd with
  | deployTask jobID taskID data =>
    cases data with
    | none => exact hw
    | some desc => exact hw.handleDeployTask jobID taskID desc
  | cancelTask jobID taskID epochID attemptID =>
    exact hw.handleCancelTask jobID taskID epochID attemptID
  | checkpoint type jobID taskID data =>
    cases data with
    | none => exact hw
    | some request => exact hw.handleCheckpointCommand hcmd

/-! ## The tasks' side -/

theorem Mail.takeTrigger {trigger : CheckpointTrigger}
    (h : w.takeTrigger taskID = some (w', jobID, trigger)) :
    w'.Mail P ∧ P jobID
      { type := .barrierReceived, identity := ⟨trigger.checkpointID, trigger.epochID⟩ } := by
  unfold Process.takeTrigger at h
  split at h
  · cases h
  next handle hlookup =>
  split at h
  · cases h
  next cp hcp =>
  obtain ⟨trigger', htrigger, heq⟩ := map_eq_some_iff.mp h
  cases heq
  refine ⟨hw.insert ?_, hw taskID handle cp _ hlookup hcp (.inl ⟨trigger, htrigger, rfl⟩)⟩
  rintro _ m ⟨⟩ (⟨_, hnone, -⟩ | hm)
  · cases hnone
  · exact hw taskID handle cp m hlookup hcp (.inr hm)

theorem Mail.takeDecision {decision : ControlMsg}
    (h : w.takeDecision taskID = some (w', jobID, decision)) : w'.Mail P ∧ P jobID decision := by
  unfold Process.takeDecision at h
  split at h
  · cases h
  next handle hlookup =>
  split at h
  · cases h
  next cp hcp =>
  split at h
  · cases h
  next rest hdecisions =>
  cases h
  have hmail := fun m => hw taskID handle cp m hlookup hcp
  refine ⟨hw.insert ?_, hmail _ (.inr (hdecisions ▸ List.mem_cons_self))⟩
  rintro _ m ⟨⟩ hm
  exact hmail m (hm.imp_right fun hm => hdecisions ▸ List.mem_cons_of_mem _ hm)

/-! ## Steps -/

theorem Mail.removeTask {i : ℕ} (h : w.removeTask i = some w') : w'.Mail P := by
  obtain ⟨run, -, -, rfl⟩ := removeTask_eq_some h
  intro t k cp m hlookup
  rcases eq_or_ne t run.taskID with rfl | hne
  · rw [lookup_erase] at hlookup
    cases hlookup
  · rw [lookup_erase_ne hne] at hlookup
    exact hw t k cp m hlookup

/-- **Only a command about a checkpoint puts something into a mailbox.** -/
theorem Mail.step {cfg : Config} {a : ProcessAction} {e : Effect}
    (hcmd : ∀ cmd, a = .command cmd → cmd.Asks P) (h : w.step cfg a = some e) :
    e.process.Mail P := by
  cases stepped h with
  | session _ _ _ _ _ hprocess => exact hw.of_tasks (by rw [hprocess])
  | canceled => exact hw.cancelTasks
  | stopped _ htasks => exact hw.cancelTasks.of_tasks htasks
  | command cmd ha => exact hw.handleCommand (hcmd cmd ha)
  | reserved req now later ctxErr =>
    obtain ⟨_, heq⟩ := handleRequestTaskSlots_eq cfg w req now later ctxErr
    exact hw.of_tasks (by rw [heq])
  | submitted submissions req w' admission now ctxErr htry =>
    have hstart := Mail.tryStart (w := { w with submissions }) req now ctxErr hw
    rw [htry] at hstart
    exact hstart.of_tasks (resume_tasks ..)
  | redeployed i d _ w' tasks hdeploy =>
    have hmail := Mail.handleDeployTask
      (w := { w with redeployments := w.redeployments.eraseIdx i }) hw d.jobID d.taskID d.desc
    rwa [hdeploy] at hmail
  | removed i hremove => exact hw.removeTask hremove
  | closed i hclose => exact hw.of_tasks (by rw [closeDone_eq_some hclose])

end Process

end Wire.Worker
