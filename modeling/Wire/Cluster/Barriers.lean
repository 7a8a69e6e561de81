import Wire.Cluster.System
import Wire.Coordinator.Triggers
import Wire.Worker.Mailboxes

/-!
# Where the barriers of a cluster come from

Every barrier on its way through the tasks of the job is that of a checkpoint in the coordinator's
store.  The argument follows the way of a checkpoint: a command or a call that starts one comes from
the goroutine that persisted it, a trigger in a mailbox comes from such a command or call, a barrier
in the input of a source from such a trigger, and any other barrier from a task upstream.  A
decision in a mailbox is the one that the store holds.  In the other direction, an acknowledgement
that the coordinator has accepted is that of an upload which the task has started.  `Inv` has all of
these.

A step of the cluster is a step of the coordinator or none, followed by moves that leave the
coordinator alone (`step_cases`); there are six kinds of them (`Local`).  A property of all runs is
proved for the step of the coordinator and for the six.
-/

namespace Wire.Cluster

open Function List Option

open Wire.Coordinator (JobID TaskID WorkerID Oracle CommandQueue.enqueued_of_handed
  CommandQueue.enqueued_of_step CommandQueue.open_of_reachable
  CommandQueue.reachable_enqueueCommand)
open Wire.Engine (CheckpointIdentity ChainConfig ControlMsg InputMsg Obs Task)
open Wire.Worker (Process)

/-! ## Invariant -/

/-- The store has what the message says, if the identifier is that of a job: the checkpoint of a
barrier, or the decision to commit. -/
def State.Issues (s : State) (jobID : Worker.Ident) (m : ControlMsg) : Prop :=
  ∀ j, jobID = some j →
    (m.type = .barrierReceived → s.coordinator.Issued j m.identity.id m.identity.epoch) ∧
    (m.type = .commitCheckpoint → s.coordinator.Decided j m.identity.id .commit)

/-- The barrier is that of a checkpoint of the job in the coordinator's store. -/
def State.Known (cfg : Config) (s : State) (b : CheckpointIdentity) : Prop :=
  s.coordinator.Issued cfg.job b.id b.epoch

structure Inv (cfg : Config) (s : State) : Prop where
  coordinator : Coordinator.Reachable cfg.coordinator s.coordinator
  commands : Coordinator.CommandQueue.Reachable s.commands
  enqueued : ∀ w cmd, cmd ∈ s.commands.enqueued w → .enqueued w cmd ∈ s.coordinator.log
  mail : ∀ w p, (s.workers w).process = some p → p.Mail s.Issues
  early : ∀ t i b, .checkpointBarrier b ∈ s.early t i → s.Known cfg b
  sound : ∀ t k, s.tasks t = some k → k.Sound (cfg.chain t) cfg.maxBufferSize
  carried : ∀ t k b, s.tasks t = some k → k.Carries b → s.Known cfg b
  acknowledged : ∀ req, .acknowledged req ∈ s.coordinator.log → req.jobID = cfg.job →
    ∃ k, s.tasks req.taskID = some k ∧
      .uploadStarted ⟨req.checkpointID, req.epochID⟩ ∈ k.chain.trace

/-- The moves that leave the coordinator alone. -/
inductive Local (cfg : Config) (s : State) : State → Prop where
  /-- A worker or a source counts what it has handled. -/
  | count (streamed answered : WorkerID → ℕ) (last : TaskID → CheckpointIdentity) :
      Local cfg s { s with streamed, answered, last }
  | queue (a : Coordinator.CommandQueue.Action) (q : Coordinator.CommandQueue.State)
      (ha : ∀ w cmd, a ≠ .enqueueCommand w cmd)
      (h : Coordinator.CommandQueue.step s.commands a = some q) :
      Local cfg s { s with commands := q }
  | worker (w : WorkerID) (v : Worker.State)
      (h : ∀ p, v.process = some p → p.Mail s.Issues) :
      Local cfg s { s with workers := Function.update s.workers w v }
  | start (t : TaskID) (h : s.tasks t = none) :
      Local cfg s (s.setTask t (.initial (cfg.chain t) cfg.maxBufferSize (s.early t)))
  | task (t : TaskID) (k k' : Task) (a : Task.Act) (hk : s.tasks t = some k)
      (h : k.step (cfg.chain t) a = some k')
      (ha : ∀ c, a = .decide c → s.Issues (some cfg.job) c) : Local cfg s (s.setTask t k')
  | deliver (d : TaskID × ℕ) (m : InputMsg)
      (h : ∀ b, m = .checkpointBarrier b → s.Known cfg b) : Local cfg s (s.deliver d m)

variable {cfg : Config} {s s' : State} {t : TaskID} {k : Task} {w : WorkerID}

theorem deliver_coordinator (s : State) (d : TaskID × ℕ) (m : InputMsg) :
    (s.deliver d m).coordinator = s.coordinator := by
  unfold State.deliver
  split <;> rfl

theorem setTask_eq_some {t' : TaskID} {k' : Task} (h : (s.setTask t k).tasks t' = some k') :
    t' = t ∧ k' = k ∨ t' ≠ t ∧ s.tasks t' = some k' := by
  rw [State.setTask] at h
  dsimp only at h
  rcases eq_or_ne t' t with rfl | hne
  · rw [update_self] at h
    exact .inl ⟨rfl, (some.inj h).symm⟩
  · rw [update_of_ne hne] at h
    exact .inr ⟨hne, h⟩

namespace Inv

theorem initial (cfg : Config) : Inv cfg {} where
  coordinator := .refl
  commands := .refl
  enqueued := fun _ _ h => absurd h not_mem_nil
  mail := fun _ _ h => nomatch h
  early := fun _ _ _ h => absurd h not_mem_nil
  sound := fun _ _ h => nomatch h
  carried := fun _ _ _ h => nomatch h
  acknowledged := fun _ h => absurd h not_mem_nil

/-- A task starts, or goes on. -/
theorem setTask (hs : Inv cfg s) (hsound : k.Sound (cfg.chain t) cfg.maxBufferSize)
    (hcarried : ∀ b, k.Carries b → s.Known cfg b)
    (htrace : ∀ k₀, s.tasks t = some k₀ → k₀.chain.trace ⊆ k.chain.trace) :
    Inv cfg (s.setTask t k) where
  coordinator := hs.coordinator
  commands := hs.commands
  enqueued := hs.enqueued
  mail := hs.mail
  early := hs.early
  sound := by
    intro t' k' hk'
    rcases setTask_eq_some hk' with ⟨rfl, rfl⟩ | ⟨-, hold⟩
    · exact hsound
    · exact hs.sound t' k' hold
  carried := by
    intro t' k' b hk' hb
    rcases setTask_eq_some hk' with ⟨rfl, rfl⟩ | ⟨-, hold⟩
    · exact hcarried b hb
    · exact hs.carried t' k' b hold hb
  acknowledged := by
    intro req hreq hjob
    obtain ⟨k₀, hk₀, hmem⟩ := hs.acknowledged req hreq hjob
    rcases eq_or_ne req.taskID t with heq | hne
    · refine ⟨k, ?_, htrace k₀ (heq ▸ hk₀) hmem⟩
      rw [State.setTask, heq]
      exact update_self ..
    · refine ⟨k₀, ?_, hmem⟩
      exact (update_of_ne hne ..).trans hk₀

theorem deliver (hs : Inv cfg s) {d : TaskID × ℕ} {m : InputMsg}
    (hm : ∀ b, m = .checkpointBarrier b → s.Known cfg b) : Inv cfg (s.deliver d m) := by
  unfold State.deliver
  split
  · next k hk =>
    refine hs.setTask ((hs.sound _ k hk).deliver d.2 m) (fun b hb => ?_) fun k₀ hk₀ => ?_
    · rcases hb.deliver with hb | hb
      · exact hs.carried _ k b hk hb
      · exact hm b hb
    · rw [hk] at hk₀
      cases hk₀
      exact fun _ h => h
  · refine { hs with early := fun t i b hb => ?_ }
    dsimp only at hb
    rcases eq_or_ne t d.1 with rfl | hne
    · rw [update_self] at hb
      rcases eq_or_ne i d.2 with rfl | hne
      · rw [update_self] at hb
        rcases mem_append.mp hb with hb | hb
        · exact hs.early _ _ b hb
        · exact hm b (mem_singleton.mp hb).symm
      · rw [update_of_ne hne] at hb
        exact hs.early _ i b hb
    · rw [update_of_ne hne] at hb
      exact hs.early t i b hb

theorem move (hs : Inv cfg s) (h : Local cfg s s') : Inv cfg s' := by
  cases h with
  | count => exact { hs with }
  | queue a q ha h =>
    have hkept := CommandQueue.enqueued_of_step (CommandQueue.open_of_reachable hs.commands) h ha
    refine { hs with commands := hs.commands.next h, enqueued := fun w cmd hcmd => ?_ }
    rw [hkept] at hcmd
    exact hs.enqueued w cmd hcmd
  | worker w v h =>
    refine { hs with mail := fun w' p hp => ?_ }
    dsimp only at hp
    rcases eq_or_ne w' w with rfl | hne
    · rw [update_self] at hp
      exact h p hp
    · rw [update_of_ne hne] at hp
      exact hs.mail w' p hp
  | start t h =>
    refine hs.setTask (.initial ..) (fun b hb => ?_) fun k₀ hk₀ => ?_
    · obtain ⟨i, hi⟩ := hb.of_initial
      exact hs.early t i b hi
    · rw [h] at hk₀
      cases hk₀
  | task t k k' a hk h =>
    have hsound := hs.sound t k hk
    refine hs.setTask (hsound.step h) (fun b hb => ?_) fun k₀ hk₀ => ?_
    · exact hs.carried t k b hk (hb.step hsound h)
    · rw [hk] at hk₀
      cases hk₀
      obtain ⟨l, htrace, -⟩ := hsound.recorded h
      rw [htrace]
      exact subset_append_left _ _
  | deliver d m h => exact hs.deliver h

theorem moves (hs : Inv cfg s) (h : Relation.ReflTransGen (Local cfg) s s') : Inv cfg s' := by
  induction h with
  | refl => exact hs
  | tail _ hmove ih => exact ih.move hmove

end Inv

/-! ## The coordinator steps -/

variable {q : Coordinator.CommandQueue.State}

section Enter

variable {a : Coordinator.Action} {o : Oracle} {c : Coordinator.State}

/-- The coordinator's log grows at its end. -/
theorem log_eq (h : Coordinator.step cfg.coordinator s.coordinator (a, o) = some c) :
    c.log = s.coordinator.log ++ c.log.drop s.coordinator.log.length := by
  obtain ⟨es, -, hlog⟩ := (Coordinator.step_moved h).tasks
  rw [hlog, drop_left]

theorem enqueue_enqueued {e : Coordinator.Event} {cmd : Coordinator.Command}
    (h : cmd ∈ (enqueue q e).enqueued w) : cmd ∈ q.enqueued w ∨ e = .enqueued w cmd := by
  unfold enqueue at h
  split at h
  · next w' cmd' =>
    rw [Coordinator.CommandQueue.State.enqueueCommand] at h
    dsimp only at h
    rcases eq_or_ne w w' with rfl | hne
    · rw [update_self] at h
      refine (mem_append.mp h).imp_right fun h => ?_
      rw [mem_singleton.mp h]
    · rw [update_of_ne hne] at h
      exact .inl h
  · exact .inl h

theorem reachable_enqueue (h : Coordinator.CommandQueue.Reachable q) (e : Coordinator.Event) :
    Coordinator.CommandQueue.Reachable (enqueue q e) := by
  unfold enqueue
  split
  · exact CommandQueue.reachable_enqueueCommand h _ _
  · exact h

theorem foldl_enqueue (es : List Coordinator.Event) (h : Coordinator.CommandQueue.Reachable q) :
    Coordinator.CommandQueue.Reachable (es.foldl enqueue q) ∧
      ∀ w cmd, cmd ∈ (es.foldl enqueue q).enqueued w → cmd ∈ q.enqueued w ∨
        .enqueued w cmd ∈ es := by
  induction es generalizing q with
  | nil => exact ⟨h, fun _ _ => .inl⟩
  | cons e es ih =>
    obtain ⟨hreach, henqueued⟩ := ih (reachable_enqueue h e)
    refine ⟨hreach, fun w cmd hcmd => ?_⟩
    rcases henqueued w cmd hcmd with hcmd | hcmd
    · refine (enqueue_enqueued hcmd).imp_right fun he => ?_
      rw [he]
      exact mem_cons_self
    · exact .inr (mem_cons_of_mem e hcmd)

section

variable (hs : Inv cfg s) (h : Coordinator.step cfg.coordinator s.coordinator (a, o) = some c)
include hs h

variable {id : ℕ} {j : JobID}

/-- What is in the store stays there. -/
theorem Inv.keep {epoch : ℕ} (hissued : s.coordinator.Issued j id epoch) : c.Issued j id epoch :=
  .keep hs.coordinator h hissued

theorem Inv.decided {v : Ledger.Verdict}
    (hdecided : s.coordinator.Decided j id v) : c.Decided j id v :=
  hdecided.extends (Coordinator.ledger_extends hs.coordinator (.next .refl h) j)

theorem Inv.enter
    (hjustified : (c.log.drop s.coordinator.log.length).all (s.justifies cfg) = true) :
    Inv cfg (s.enter c) where
  coordinator := hs.coordinator.next h
  commands := (foldl_enqueue _ hs.commands).1
  enqueued := by
    intro w cmd hcmd
    change _ ∈ c.log
    rw [log_eq h]
    rcases (foldl_enqueue _ hs.commands).2 w cmd hcmd with hcmd | hcmd
    · exact mem_append_left _ (hs.enqueued w cmd hcmd)
    · exact mem_append_right _ hcmd
  mail := fun w p hp => (hs.mail w p hp).mono fun _ _ hissues j hj =>
    (hissues j hj).imp (hs.keep h ∘ ·) (hs.decided h ∘ ·)
  early := fun t i b hb => hs.keep h (hs.early t i b hb)
  sound := hs.sound
  carried := fun t k b hk hb => hs.keep h (hs.carried t k b hk hb)
  acknowledged := by
    intro req hreq hjob
    change _ ∈ c.log at hreq
    rw [log_eq h] at hreq
    rcases mem_append.mp hreq with hold | hnew
    · exact hs.acknowledged req hold hjob
    · have hreq := all_eq_true.mp hjustified _ hnew
      rw [State.justifies, Bool.or_eq_true, decide_eq_true_eq, Option.any_eq_true] at hreq
      obtain ⟨k, hk, huploaded⟩ := hreq.resolve_left fun hne => hne hjob
      rw [uploaded, Bool.and_eq_true, decide_eq_true_eq] at huploaded
      exact ⟨k, hk, huploaded.1⟩

end

end Enter

/-! ## What a step consists of -/

section Steps

/-- One move after another. -/
abbrev Moves (cfg : Config) : State → State → Prop := Relation.ReflTransGen (Local cfg)

theorem moves_startTasks {events : List Worker.Event}
    (h : Runs.run (startTask cfg) s events = some s') : Moves cfg s s' := by
  induction events generalizing s with
  | nil => exact some.inj h ▸ .refl
  | cons e events ih =>
    rw [Runs.run, bind_eq_some_iff] at h
    obtain ⟨s₁, hfirst, hrest⟩ := h
    refine .trans ?_ (ih hrest)
    unfold startTask at hfirst
    split at hfirst
    · split at hfirst
      · split at hfirst
        · next hnone =>
          cases hfirst
          exact .single (.start _ hnone)
        · cases hfirst
      · cases hfirst
        exact .refl
    · cases hfirst
      exact .refl

variable {P : Worker.Ident → ControlMsg → Prop} {p : Process} {wcfg : Worker.Config}
  {a : Worker.Action} {cmd : Coordinator.Command}

theorem mail_startProcess {file : Worker.EpochFile} {now : Coordinator.Time}
    (h : Worker.startProcess wcfg file now = some p) : p.Mail P := by
  have hempty : p.tasks = ∅ := by
    unfold Worker.startProcess at h
    split at h
    · obtain ⟨store, -, rfl⟩ := map_eq_some_iff.mp h
      rfl
    · cases h
      rfl
  intro t handle cp m hlookup
  rw [hempty] at hlookup
  cases hlookup

theorem mail_workerStep {v v' : Worker.State} (hv : ∀ p, v.process = some p → p.Mail P)
    (hcmd : ∀ cmd, a = .process (.command cmd) → cmd.Asks P)
    (h : Worker.step wcfg v a = some v') : ∀ p, v'.process = some p → p.Mail P := by
  intro p hp
  cases a with
  | start now =>
    unfold Worker.step at h
    dsimp only at h
    split at h
    · cases h
    · obtain ⟨w, hw, rfl⟩ := map_eq_some_iff.mp h
      cases hp
      exact mail_startProcess hw
  | crash =>
    obtain ⟨w, -, rfl⟩ := map_eq_some_iff.mp h
    cases hp
  | process a =>
    unfold Worker.step at h
    dsimp only at h
    split at h
    · cases h
    · next w hw =>
      obtain ⟨e, he, rfl⟩ := map_eq_some_iff.mp h
      cases hp
      exact (hv w hw).step (fun cmd ha => hcmd cmd (congrArg _ ha)) he

theorem moves_workerStep (hs : Inv cfg s)
    (hcmd : ∀ cmd, a = .process (.command cmd) → cmd.Asks s.Issues)
    (h : workerStep cfg s w a = some s') : Moves cfg s s' := by
  unfold workerStep at h
  split at h
  · cases h
  · next v hv =>
    exact .head (.worker w v (mail_workerStep (hs.mail w) hcmd hv)) (moves_startTasks h)

/-- A command that has reached a worker says what is in the store. -/
theorem Inv.asks (hs : Inv cfg s)
    (hcmd : cmd ∈ s.commands.written w ∨ cmd ∈ s.commands.returned w) :
    (cfg.command cmd).Asks s.Issues := by
  have hlog := hs.enqueued w cmd (CommandQueue.enqueued_of_handed hs.commands hcmd)
  cases cmd with
  | takeSnapshot t q =>
    rintro j ⟨⟩
    exact ⟨fun _ => (Coordinator.started hs.coordinator).commands w t q hlog, nofun⟩
  | commitCheckpoint t q =>
    rintro j ⟨⟩
    exact ⟨nofun, fun _ => (Coordinator.sent hs.coordinator).log _ hlog⟩
  | abortCheckpoint => exact fun _ _ => ⟨nofun, nofun⟩
  | _ => trivial

theorem moves_handleCommand (hs : Inv cfg s)
    (hcmd : cmd ∈ s.commands.written w ∨ cmd ∈ s.commands.returned w)
    (h : handleCommand cfg s w cmd = some s') : Moves cfg s s' := by
  refine moves_workerStep hs (fun cmd' heq => ?_) h
  cases heq
  exact hs.asks hcmd

theorem moves_deliver {d : TaskID × ℕ} {m : InputMsg}
    (h : ∀ b, m = .checkpointBarrier b → s.Known cfg b) : Moves cfg s (s.deliver d m) :=
  .single (.deliver d m h)

theorem moves_forward {l : List (CheckpointIdentity × TaskID × ℕ)}
    (h : ∀ x ∈ l, s.Known cfg x.1) : Moves cfg s (l.foldl forward s) := by
  induction l generalizing s with
  | nil => exact .refl
  | cons x l ih =>
    have hx : ∀ b, InputMsg.checkpointBarrier x.1 = .checkpointBarrier b → s.Known cfg b := by
      intro b hb
      cases hb
      exact h x mem_cons_self
    refine .head (.deliver x.2 _ hx) (ih fun y hy => ?_)
    rw [State.Known, deliver_coordinator]
    exact h y (mem_cons_of_mem x hy)

theorem moves_taskStep {a : Task.Act} (hs : Inv cfg s) (h : taskStep cfg s t a = some s')
    (ha : ∀ c, a = .decide c → s.Issues (some cfg.job) c) : Moves cfg s s' := by
  unfold taskStep at h
  split at h
  · cases h
  next k hk =>
  split at h
  · cases h
  next k' hk' =>
  cases h
  refine .head (.task t k k' a hk hk' ha) (moves_forward fun x hx => ?_)
  obtain ⟨b, hb, hx⟩ := mem_flatMap.mp hx
  obtain ⟨d, -, rfl⟩ := mem_map.mp hx
  obtain ⟨e, he, heq⟩ := mem_filterMap.mp hb
  split at heq
  · cases heq
    have hsound := hs.sound t k hk
    obtain ⟨l, htrace, -⟩ := hsound.recorded hk'
    rw [htrace, drop_left] at he
    exact hs.carried t k b hk (.of_outputBarrier hsound hk' htrace he)
  · cases heq

theorem moves_setProcess (h : p.Mail s.Issues) : Moves cfg s (s.setProcess w p) := by
  refine .single (.worker w _ fun p' hp' => ?_)
  cases hp'
  exact h

theorem moves_acceptBoundary {b : CheckpointIdentity} (hb : s.Known cfg b) :
    Moves cfg s (acceptBoundary s t k b) := by
  have hcount : Local cfg s { s with last := update s.last t b } := .count _ _ _
  unfold acceptBoundary
  split
  · exact .refl
  split
  · exact .single hcount
  · refine .head hcount (moves_deliver fun b' hb' => ?_)
    cases hb'
    exact hb

theorem moves_takeTrigger (hs : Inv cfg s) (h : takeTrigger cfg s w t = some s') :
    Moves cfg s s' := by
  unfold takeTrigger at h
  split at h
  · next k p jobID trigger hk htake =>
    obtain ⟨p₀, hp₀, htake⟩ := bind_eq_some_iff.mp htake
    obtain ⟨hmail, hissues⟩ := (hs.mail w p₀ hp₀).takeTrigger htake
    obtain ⟨hjob, rfl⟩ := ite_some_none_eq_some.mp h
    exact (moves_setProcess hmail).trans (moves_acceptBoundary ((hissues cfg.job hjob).1 rfl))
  · cases h

theorem moves_takeDecision (hs : Inv cfg s) (h : takeDecision cfg s w t = some s') :
    Moves cfg s s' := by
  unfold takeDecision at h
  split at h
  · next p jobID decision htake =>
    obtain ⟨p₀, hp₀, htake⟩ := bind_eq_some_iff.mp htake
    obtain ⟨hmail, hissues⟩ := (hs.mail w p₀ hp₀).takeDecision htake
    have hmoves : Moves cfg s (s.setProcess w p) := moves_setProcess hmail
    split at h
    · next hjob =>
      refine hmoves.trans (moves_taskStep (hs.moves hmoves) h ?_)
      rintro c ⟨⟩
      exact hjob ▸ hissues
    · cases h
  · cases h

theorem moves_call {q : Coordinator.CheckpointRequest} {accepted delivered : Bool}
    (hs : Inv cfg s) (hq : s.coordinator.Backs q) (h : s.call w q accepted delivered = some s') :
    Moves cfg s s' := by
  have hasks : s.Issues (request q).jobID ((request q).message .takeSnapshot) := by
    rintro j ⟨⟩
    exact ⟨fun _ => hq, nofun⟩
  unfold State.call at h
  split at h
  · next p hp =>
    split at h
    · dsimp only at h
      split at h
      · cases h
        exact moves_setProcess ((hs.mail w p hp).handleTriggerCheckpoint hasks)
      · cases h
    · split at h <;> cases h
      exact .refl
  · split at h <;> cases h
    exact .refl

/-- The coordinator calls for a checkpoint that is in its store. -/
theorem Inv.calling (hs : Inv cfg s) {a : Coordinator.Action} {q : Coordinator.CheckpointRequest}
    (h : calling s.coordinator a = some (w, q)) : s.coordinator.Backs q := by
  unfold Cluster.calling at h
  split at h
  · split at h
    · next cp _ _ _ sent pausing hthread =>
      split at h
      · cases h
        exact (Coordinator.started hs.coordinator).threads cp _ sent pausing
          (mem_of_getElem? hthread)
      · cases h
    · cases h
  · cases h

/-- **What a step consists of**: a step of the coordinator or none, and moves that leave the
coordinator alone. -/
theorem step_cases {act : Action} (hs : Inv cfg s) (h : step cfg s act = some s') :
    Moves cfg s s' ∨ ∃ a o delivered c, act = .coordinator a o delivered ∧
      Coordinator.step cfg.coordinator s.coordinator (a, o) = some c ∧
      (c.log.drop s.coordinator.log.length).all (s.justifies cfg) = true ∧
      Moves cfg (s.enter c) s' := by
  unfold step at h
  split at h
  · cases h
  · next a o delivered _ =>
    refine .inr ?_
    unfold coordinatorStep at h
    split at h
    · cases h
    next c hstep =>
    obtain ⟨hjustified, h⟩ := ite_none_right_eq_some.mp h
    refine ⟨a, o, delivered, c, rfl, hstep, hjustified, ?_⟩
    split at h
    · cases h
      exact .refl
    · next w q hcalling =>
      exact moves_call (hs.enter hstep hjustified) (hs.keep hstep (hs.calling hcalling)) h
  · cases h
  · next a ha =>
    obtain ⟨q, hq, rfl⟩ := map_eq_some_iff.mp h
    exact .inl (.single (.queue a q (fun w cmd heq => ha w cmd heq) hq))
  · next w =>
    split at h
    · cases h
    · next cmd hcmd =>
      have hcount : Local cfg s
          { s with streamed := update s.streamed w (s.streamed w + 1) } := .count _ _ _
      exact .inl (.head hcount
        (moves_handleCommand (hs.move hcount) (.inl (mem_of_getElem? hcmd)) h))
  · next w =>
    split at h
    · cases h
    · next cmd hcmd =>
      have hcount : Local cfg s
          { s with answered := update s.answered w (s.answered w + 1) } := .count _ _ _
      exact .inl (.head hcount
        (moves_handleCommand (hs.move hcount) (.inr (mem_of_getElem? hcmd)) h))
  · cases h
  · cases h
  · next w a _ hcmd =>
    exact .inl (moves_workerStep hs (fun cmd heq => absurd heq (hcmd cmd)) h)
  · exact .inl (moves_takeTrigger hs h)
  · exact .inl (moves_takeDecision hs h)
  · cases h
  · next m hm =>
    cases h
    exact .inl (moves_deliver fun b hb => absurd hb (hm b))
  · cases h
  · next ha => exact .inl (moves_taskStep hs h fun c heq => absurd heq (ha c))

end Steps

theorem Inv.step {act : Action} (hs : Inv cfg s) (h : step cfg s act = some s') : Inv cfg s' := by
  rcases step_cases hs h with hmoves | ⟨a, o, delivered, c, -, hstep, hjustified, hmoves⟩
  · exact hs.moves hmoves
  · exact (hs.enter hstep hjustified).moves hmoves

theorem inv_of_reaches {ok : State → Action → Prop} (h : Runs.Reaches (step cfg) ok {} s) :
    Inv cfg s :=
  h.invariant (.initial cfg) fun _ _ _ _ hs _ hstep => hs.step hstep

/-- **No barrier runs ahead of the store.**  A barrier that a task has on an input, on its control
channel or in its code is that of a checkpoint in the store, in the same epoch, and there is none of
a later checkpoint while one is undecided. -/
theorem barrier_persisted (h : Runs.Reachable (step cfg) {} s) (hk : s.tasks t = some k)
    {b : CheckpointIdentity} (hb : k.Carries b) :
    (∃ cp, s.coordinator.store.checkpoints.lookup (cfg.job, b.id) = some cp ∧
      cp.epochID = b.epoch) ∧
    ∀ x ∈ s.coordinator.store.checkpoints.records, x.jobID = cfg.job → x.status.inFlight = true →
      b.id ≤ x.id := by
  have hs := inv_of_reaches h
  obtain ⟨cp, hcp, hepoch⟩ := hs.carried t k b hk hb
  refine ⟨⟨cp, hcp, hepoch⟩, fun x hx hjob hopen => ?_⟩
  obtain ⟨hjob', hid⟩ := Coordinator.Store.identity hcp
  rw [← hid]
  exact Coordinator.newest hs.coordinator x hx hopen cp (Table.mem_records_of_lookup hcp)
    (hjob'.trans hjob.symm)

end Wire.Cluster
