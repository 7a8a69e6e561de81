import Wire.Coordinator.Types
import Wire.Library.Custody
import Wire.Library.Runs

/-!
# The way of a command to its worker

A command for a worker goes into the channel of the worker's command stream if there is one and it
has room, and into `pendingCmds` otherwise.  The stream's handler takes commands out of the channel
and writes them to the worker; what is pending is returned with the next heartbeat, or moved into
the channel of the next stream.  `EnqueueCommand`, `DrainCommands` and `RegisterCommandStream` hold
the coordinator's lock; the handler does not, and calls `cleanup` under it at its end.

The channel of a stream that was replaced is closed.  Its handler still receives what is in it, and
ends when it is empty.

Two results.  The coordinator never sends on a closed channel and never closes one twice, either of
which would be a panic (`never_panics`).  And commands are conserved up to what the handlers lose
(`commands_conserved`): a command that a handler has taken out of the channel is gone if the write
fails, and what is left in the channel is gone when the handler ends without having emptied it
(`commands_lost`).
-/

namespace Wire.Coordinator.CommandQueue

open Function Runs Multiset

/-! ## Model -/

/-- `bufSize`. -/
def bufSize : ℕ := 64

/-- A channel of commands. -/
structure Channel where
  buffer : List Command := []
  closed : Bool := false

/-- Where `HandleWatchCommands` is: at its `select`, with a command in hand, or past its loop. -/
inductive Phase where
  | selecting
  | writing (cmd : Command)
  | leaving
deriving DecidableEq

/-- `HandleWatchCommands`, for one stream. -/
structure Handler where
  worker : WorkerID
  phase : Phase := .selecting
deriving DecidableEq

/-- The queues of all workers, and the commands that went through them. -/
structure State where
  pendingCmds : WorkerID → List Command := fun _ => []
  cmdStreams : WorkerID → Option ℕ := fun _ => none
  channels : ℕ → Channel := fun _ => {}
  handlers : ℕ → Option Handler := fun _ => none
  nextChannel : ℕ := 0
  panicked : Bool := false
  enqueued : WorkerID → List Command := fun _ => []
  /-- Written to a stream. -/
  written : WorkerID → List Command := fun _ => []
  /-- Returned in the response to a heartbeat. -/
  returned : WorkerID → List Command := fun _ => []

/-- What came of a command that a handler took. -/
inductive Outcome where
  | written | encodingFailed | writeFailed
deriving DecidableEq

namespace State

variable (s : State)

def appendPending (w : WorkerID) (cmds : List Command) : State :=
  { s with pendingCmds := update s.pendingCmds w (s.pendingCmds w ++ cmds) }

def setChannel (i : ℕ) (ch : Channel) : State :=
  { s with channels := update s.channels i ch }

def setHandler (i : ℕ) (h : Option Handler) : State :=
  { s with handlers := update s.handlers i h }

/-- `close(ch)`. -/
def closeChannel (i : ℕ) : State :=
  if (s.channels i).closed then { s with panicked := true }
  else s.setChannel i { s.channels i with closed := true }

/-- `enqueueCommandLocked`. -/
def enqueueCommandLocked (w : WorkerID) (cmd : Command) : State :=
  match s.cmdStreams w with
  | none => s.appendPending w [cmd]
  | some i =>
    let ch := s.channels i
    if ch.closed then { s with panicked := true }
    else if ch.buffer.length < bufSize then
      s.setChannel i { ch with buffer := ch.buffer ++ [cmd] }
    else s.appendPending w [cmd]

/-- `EnqueueCommand`. -/
def enqueueCommand (w : WorkerID) (cmd : Command) : State :=
  { s.enqueueCommandLocked w cmd with
    enqueued := update s.enqueued w (s.enqueued w ++ [cmd]) }

/-- `DrainCommands`, for the response to a heartbeat. -/
def drainCommands (w : WorkerID) : State :=
  { s with
    pendingCmds := update s.pendingCmds w []
    returned := update s.returned w (s.returned w ++ s.pendingCmds w) }

/-- Send a command of the backlog without blocking, or queue it again. -/
def offer (p : List Command × List Command) (cmd : Command) : List Command × List Command :=
  if p.1.length < bufSize then (p.1 ++ [cmd], p.2) else (p.1, p.2 ++ [cmd])

/-- The backlog that fits into a new channel, and the rest. -/
def splitBacklog (backlog : List Command) : List Command × List Command :=
  backlog.foldl offer ([], [])

/-- `RegisterCommandStream`, with the handler that calls it. -/
def registerCommandStream (w : WorkerID) : State :=
  let s' := match s.cmdStreams w with
    | some old => s.closeChannel old
    | none => s
  let backlog := splitBacklog (s.pendingCmds w)
  { s' with
    cmdStreams := update s'.cmdStreams w (some s'.nextChannel)
    channels := update s'.channels s'.nextChannel { buffer := backlog.1 }
    handlers := update s'.handlers s'.nextChannel (some { worker := w })
    pendingCmds := update s'.pendingCmds w backlog.2
    nextChannel := s'.nextChannel + 1 }

/-- `HandleWatchCommands`: receive from the channel. -/
def receive (i : ℕ) : Option State :=
  match s.handlers i, (s.channels i).buffer with
  | some ⟨w, .selecting⟩, cmd :: rest =>
    some ((s.setChannel i { s.channels i with buffer := rest }).setHandler i
      (some ⟨w, .writing cmd⟩))
  | some ⟨w, .selecting⟩, [] =>
    if (s.channels i).closed then some (s.setHandler i (some ⟨w, .leaving⟩)) else none
  | _, _ => none

/-- `HandleWatchCommands`: the context is done. -/
def cancel (i : ℕ) : Option State :=
  match s.handlers i with
  | some ⟨w, .selecting⟩ => some (s.setHandler i (some ⟨w, .leaving⟩))
  | _ => none

/-- `HandleWatchCommands`: write the command in hand to the stream. -/
def write (i : ℕ) (outcome : Outcome) : Option State :=
  match s.handlers i with
  | some ⟨w, .writing cmd⟩ =>
    match outcome with
    | .written => some { s.setHandler i (some ⟨w, .selecting⟩) with
        written := update s.written w (s.written w ++ [cmd]) }
    | .encodingFailed => some (s.setHandler i (some ⟨w, .selecting⟩))
    | .writeFailed => some (s.setHandler i (some ⟨w, .leaving⟩))
  | _ => none

/-- The deferred `cleanup`, with which the handler ends. -/
def cleanup (i : ℕ) : Option State :=
  match s.handlers i with
  | some ⟨w, .leaving⟩ =>
    let s' := if s.cmdStreams w = some i then
        { s.closeChannel i with cmdStreams := update s.cmdStreams w none }
      else s
    some (s'.setHandler i none)
  | _ => none

end State

inductive Action where
  | enqueueCommand (w : WorkerID) (cmd : Command)
  | heartbeat (w : WorkerID)
  | watchCommands (w : WorkerID)
  | receive (i : ℕ)
  | cancel (i : ℕ)
  | write (i : ℕ) (outcome : Outcome)
  | cleanup (i : ℕ)

/-- One step, unless the process has panicked. -/
def step (s : State) (a : Action) : Option State :=
  if s.panicked then none
  else match a with
    | .enqueueCommand w cmd => some (s.enqueueCommand w cmd)
    | .heartbeat w => some (s.drainCommands w)
    | .watchCommands w => some (s.registerCommandStream w)
    | .receive i => s.receive i
    | .cancel i => s.cancel i
    | .write i outcome => s.write i outcome
    | .cleanup i => s.cleanup i

abbrev Reachable : State → Prop := Runs.Reachable step {}

/-! ## Channels in use are open -/

/-- The channel of a registered stream is open and has a handler, which is the worker's. -/
structure Open (s : State) : Prop where
  streams : ∀ w i, s.cmdStreams w = some i →
    (s.channels i).closed = false ∧ ∃ phase, s.handlers i = some ⟨w, phase⟩
  allocated : ∀ i h, s.handlers i = some h → i < s.nextChannel
  running : s.panicked = false

/-- The command in hand. -/
def Phase.hand : Phase → Multiset Command
  | .writing cmd => {cmd}
  | _ => 0

/-- Everything a step can do while the channels in use are open. -/
inductive Effect (s s' : State) (a : Action) : Prop where
  | pend (w : WorkerID) (cmd : Command) (ha : a = .enqueueCommand w cmd)
      (h : s' = { s.appendPending w [cmd] with
        enqueued := update s.enqueued w (s.enqueued w ++ [cmd]) })
  | send (w : WorkerID) (cmd : Command) (ha : a = .enqueueCommand w cmd) (i : ℕ) (phase : Phase)
      (hhandler : s.handlers i = some ⟨w, phase⟩)
      (h : s' = { s.setChannel i
          { s.channels i with buffer := (s.channels i).buffer ++ [cmd] } with
        enqueued := update s.enqueued w (s.enqueued w ++ [cmd]) })
  | drain (w : WorkerID) (ha : a = .heartbeat w) (h : s' = s.drainCommands w)
  /-- The channel that the worker had, if any, is closed. -/
  | watch (w : WorkerID) (ha : a = .watchCommands w) (channels : ℕ → Channel)
      (hbuffer : ∀ k, (channels k).buffer = (s.channels k).buffer)
      (hother : ∀ k, s.cmdStreams w ≠ some k → channels k = s.channels k)
      (h : s' = { s with
        cmdStreams := update s.cmdStreams w (some s.nextChannel)
        channels := update channels s.nextChannel
          { buffer := (State.splitBacklog (s.pendingCmds w)).1 }
        handlers := update s.handlers s.nextChannel (some { worker := w })
        pendingCmds := update s.pendingCmds w (State.splitBacklog (s.pendingCmds w)).2
        nextChannel := s.nextChannel + 1 })
  | receive (i : ℕ) (ha : a = .receive i) (w : WorkerID) (cmd : Command) (rest : List Command)
      (hhandler : s.handlers i = some ⟨w, .selecting⟩)
      (hbuffer : (s.channels i).buffer = cmd :: rest)
      (h : s' = (s.setChannel i { s.channels i with buffer := rest }).setHandler i
        (some ⟨w, .writing cmd⟩))
  | leave (i : ℕ) (ha : a = .receive i ∨ a = .cancel i) (w : WorkerID)
      (hhandler : s.handlers i = some ⟨w, .selecting⟩)
      (h : s' = s.setHandler i (some ⟨w, .leaving⟩))
  | write (i : ℕ) (ha : a = .write i .written) (w : WorkerID) (cmd : Command)
      (hhandler : s.handlers i = some ⟨w, .writing cmd⟩)
      (h : s' = { s.setHandler i (some ⟨w, .selecting⟩) with
        written := update s.written w (s.written w ++ [cmd]) })
  | fail (i : ℕ) (outcome : Outcome) (ha : a = .write i outcome) (houtcome : outcome ≠ .written)
      (w : WorkerID) (cmd : Command) (hhandler : s.handlers i = some ⟨w, .writing cmd⟩)
      (phase : Phase) (hphase : phase.hand = 0) (h : s' = s.setHandler i (some ⟨w, phase⟩))
  /-- The channel is closed if the stream is still registered. -/
  | cleanup (i : ℕ) (ha : a = .cleanup i) (w : WorkerID)
      (hhandler : s.handlers i = some ⟨w, .leaving⟩)
      (channels : ℕ → Channel) (cmdStreams : WorkerID → Option ℕ)
      (hbuffer : ∀ k, (channels k).buffer = (s.channels k).buffer)
      (hother : ∀ k, k ≠ i → channels k = s.channels k)
      (hstreams : ∀ v k, cmdStreams v = some k → s.cmdStreams v = some k ∧ k ≠ i)
      (h : s' = { s with channels, cmdStreams, handlers := update s.handlers i none })

section Effect

variable {s s' : State} {a : Action} {i : ℕ}

theorem closeChannel_of_open (h : (s.channels i).closed = false) :
    s.closeChannel i = s.setChannel i { s.channels i with closed := true } := by
  rw [State.closeChannel, h]
  rfl

/-- Closing a channel leaves its buffer and all other channels as they are. -/
theorem closed_channels (s : State) (i : ℕ) :
    (∀ k, ((s.setChannel i { s.channels i with closed := true }).channels k).buffer =
      (s.channels k).buffer) ∧
    ∀ k, k ≠ i →
      (s.setChannel i { s.channels i with closed := true }).channels k = s.channels k := by
  refine ⟨fun k => ?_, fun k hne => update_of_ne hne ..⟩
  rw [State.setChannel]
  dsimp only
  rcases eq_or_ne k i with rfl | hne
  · rw [update_self]
  · rw [update_of_ne hne]

theorem effect_enqueueCommand (hs : Open s) (w : WorkerID) (cmd : Command) :
    Effect s (s.enqueueCommand w cmd) (.enqueueCommand w cmd) := by
  have hcases : s.enqueueCommandLocked w cmd = s.appendPending w [cmd] ∨
      ∃ i phase, s.handlers i = some ⟨w, phase⟩ ∧ s.enqueueCommandLocked w cmd =
        s.setChannel i { s.channels i with buffer := (s.channels i).buffer ++ [cmd] } := by
    rw [State.enqueueCommandLocked]
    split
    · exact .inl rfl
    · next i hi =>
      obtain ⟨hopen, phase, hhandler⟩ := hs.streams w i hi
      dsimp only
      rw [hopen, if_neg Bool.false_ne_true]
      split
      · exact .inr ⟨i, phase, hhandler, by rw [hopen]⟩
      · exact .inl rfl
  rw [State.enqueueCommand]
  rcases hcases with heq | ⟨i, phase, hhandler, heq⟩
  · rw [heq]
    exact .pend w cmd rfl rfl
  · rw [heq]
    exact .send w cmd rfl i phase hhandler rfl

theorem effect_registerCommandStream (hs : Open s) (w : WorkerID) :
    Effect s (s.registerCommandStream w) (.watchCommands w) := by
  rw [State.registerCommandStream]
  split
  · next old hold =>
    rw [closeChannel_of_open (hs.streams w old hold).1]
    obtain ⟨hbuffer, hother⟩ := closed_channels s old
    exact .watch w rfl _ hbuffer (fun k hk => hother k fun heq => hk (heq ▸ hold)) rfl
  · exact .watch w rfl s.channels (fun _ => rfl) (fun _ _ => rfl) rfl

theorem effect_receive (h : s.receive i = some s') : Effect s s' (.receive i) := by
  rw [State.receive] at h
  split at h
  · next w cmd rest hhandler hbuffer =>
    cases h
    exact .receive i rfl w cmd rest hhandler hbuffer rfl
  · next w hhandler hbuffer =>
    split at h
    · cases h
      exact .leave i (.inl rfl) w hhandler rfl
    · cases h
  · cases h

theorem effect_cancel (h : s.cancel i = some s') : Effect s s' (.cancel i) := by
  rw [State.cancel] at h
  split at h
  · next w hhandler =>
    cases h
    exact .leave i (.inr rfl) w hhandler rfl
  · cases h

theorem effect_write {outcome : Outcome} (h : s.write i outcome = some s') :
    Effect s s' (.write i outcome) := by
  rw [State.write] at h
  split at h
  · next w cmd hhandler =>
    cases outcome with cases h
    | written =>
      exact .write i rfl w cmd hhandler rfl
    | encodingFailed =>
      exact .fail i .encodingFailed rfl nofun w cmd hhandler .selecting rfl rfl
    | writeFailed =>
      exact .fail i .writeFailed rfl nofun w cmd hhandler .leaving rfl rfl
  · cases h

theorem effect_cleanup (hs : Open s) (h : s.cleanup i = some s') : Effect s s' (.cleanup i) := by
  rw [State.cleanup] at h
  split at h
  · next w hhandler =>
    cases h
    split
    · next hi =>
      rw [closeChannel_of_open (hs.streams w i hi).1]
      obtain ⟨hbuffer, hother⟩ := closed_channels s i
      refine .cleanup i rfl w hhandler _ (update s.cmdStreams w none) hbuffer hother
        (fun v k hk => ?_) rfl
      rcases eq_or_ne v w with rfl | hne
      · rw [update_self] at hk
        cases hk
      · rw [update_of_ne hne] at hk
        refine ⟨hk, ?_⟩
        -- Another worker's stream has another handler.
        rintro rfl
        obtain ⟨-, phase, hother⟩ := hs.streams v k hk
        cases hhandler.symm.trans hother
        exact hne rfl
    · next hi =>
      refine .cleanup i rfl w hhandler s.channels s.cmdStreams (fun _ => rfl) (fun _ _ => rfl)
        (fun v k hk => ⟨hk, ?_⟩) rfl
      rintro rfl
      obtain ⟨-, phase, hother⟩ := hs.streams v k hk
      cases hhandler.symm.trans hother
      exact hi hk
  · cases h

theorem step_effect (hs : Open s) (h : step s a = some s') : Effect s s' a := by
  unfold step at h
  rw [if_neg (by rw [hs.running]; exact Bool.false_ne_true)] at h
  cases a with try cases h
  | enqueueCommand w cmd =>
    exact effect_enqueueCommand hs w cmd
  | heartbeat w =>
    exact .drain w rfl rfl
  | watchCommands w =>
    exact effect_registerCommandStream hs w
  | receive i => exact effect_receive h
  | cancel i => exact effect_cancel h
  | write i outcome => exact effect_write h
  | cleanup i => exact effect_cleanup hs h

end Effect

variable {phase : Phase} {cmd : Command}

namespace Open

variable {s s' : State} {a : Action} {w : WorkerID} {i : ℕ}

theorem initial : Open {} := ⟨nofun, nofun, rfl⟩

/-- No channel is opened or closed, and no handler comes or goes. -/
theorem keep (hs : Open s) (hstreams : s'.cmdStreams = s.cmdStreams)
    (hclosed : ∀ k, (s'.channels k).closed = (s.channels k).closed)
    (hhandlers : ∀ k, (s'.handlers k).map Handler.worker = (s.handlers k).map Handler.worker)
    (hnext : s'.nextChannel = s.nextChannel) (hrunning : s'.panicked = s.panicked) : Open s' where
  streams := by
    rw [hstreams]
    intro w i hi
    obtain ⟨hopen, phase, hhandler⟩ := hs.streams w i hi
    have hworker := hhandlers i
    rw [hhandler] at hworker
    obtain ⟨⟨v, phase'⟩, h, rfl⟩ := Option.map_eq_some_iff.mp hworker
    rw [hclosed]
    exact ⟨hopen, phase', h⟩
  allocated := by
    rw [hnext]
    intro i h hi
    have hworker := hhandlers i
    rw [hi] at hworker
    obtain ⟨old, hold, -⟩ := Option.map_eq_some_iff.mp hworker.symm
    exact hs.allocated i old hold
  running := hrunning.trans hs.running

theorem closed_setChannel {ch : Channel} (h : ch.closed = (s.channels i).closed) (k : ℕ) :
    ((s.setChannel i ch).channels k).closed = (s.channels k).closed := by
  rw [State.setChannel]
  dsimp only
  rcases eq_or_ne k i with rfl | hne
  · rw [update_self, h]
  · rw [update_of_ne hne]

theorem worker_setHandler {phase' : Phase} (h : s.handlers i = some ⟨w, phase⟩) (k : ℕ) :
    ((s.setHandler i (some ⟨w, phase'⟩)).handlers k).map Handler.worker =
      (s.handlers k).map Handler.worker := by
  rw [State.setHandler]
  dsimp only
  rcases eq_or_ne k i with rfl | hne
  · rw [update_self, h]
    rfl
  · rw [update_of_ne hne]

theorem effect (hs : Open s) (h : Effect s s' a) : Open s' := by
  cases h with rw [h]
  | pend _ _ _ h | drain _ _ h =>
    exact hs.keep rfl (fun _ => rfl) (fun _ => rfl) rfl rfl
  | send w cmd ha i phase hhandler h =>
    exact hs.keep rfl (closed_setChannel rfl) (fun _ => rfl) rfl rfl
  | watch w ha channels hbuffer hother h =>
    refine ⟨fun v k hk => ?_, fun k h hk => ?_, hs.running⟩
    · dsimp only at hk ⊢
      rcases eq_or_ne v w with rfl | hne
      · rw [update_self] at hk
        cases hk
        exact ⟨by rw [update_self], .selecting, update_self ..⟩
      · rw [update_of_ne hne] at hk
        obtain ⟨hopen, phase, hhandler⟩ := hs.streams v k hk
        have hfresh : k ≠ s.nextChannel := (hs.allocated k _ hhandler).ne
        rw [update_of_ne hfresh, update_of_ne hfresh, hother k ?_]
        · exact ⟨hopen, phase, hhandler⟩
        · intro hk'
          obtain ⟨-, phase', hhandler'⟩ := hs.streams w k hk'
          cases hhandler.symm.trans hhandler'
          exact hne rfl
    · dsimp only at hk ⊢
      rcases eq_or_ne k s.nextChannel with rfl | hne
      · exact Nat.lt_succ_self _
      · rw [update_of_ne hne] at hk
        exact (hs.allocated k h hk).trans (Nat.lt_succ_self _)
  | receive i ha w cmd rest hhandler hbuffer h =>
    exact hs.keep rfl (closed_setChannel rfl) (worker_setHandler hhandler) rfl rfl
  | leave _ _ _ hhandler h | write _ _ _ _ hhandler h | fail _ _ _ _ _ _ hhandler _ _ h =>
    exact hs.keep rfl (fun _ => rfl) (worker_setHandler hhandler) rfl rfl
  | cleanup i ha w hhandler channels cmdStreams hbuffer hother hstreams h =>
    refine ⟨fun v k hk => ?_, fun k h hk => ?_, hs.running⟩
    · obtain ⟨hold, hne⟩ := hstreams v k hk
      dsimp only
      rw [hother k hne, update_of_ne hne]
      exact hs.streams v k hold
    · dsimp only at hk ⊢
      rcases eq_or_ne k i with rfl | hne
      · rw [update_self] at hk
        cases hk
      · rw [update_of_ne hne] at hk
        exact hs.allocated k h hk

end Open

variable {s : State}

theorem open_of_reachable (h : Reachable s) : Open s :=
  h.invariant .initial fun _ _ _ _ hs _ hstep => hs.effect (step_effect hs hstep)

/-! ## Conservation -/

/-- The commands of a worker that are in the channel of a running handler, or in its hand. -/
def State.held (s : State) (w : WorkerID) (i : ℕ) : Multiset Command :=
  match s.handlers i with
  | some h => if h.worker = w then ↑(s.channels i).buffer + h.phase.hand else 0
  | none => 0

/-- The commands of a worker that are still pending or with a running handler. -/
def State.kept (s : State) (w : WorkerID) : Multiset Command :=
  ↑(s.pendingCmds w) + Custody.total (s.held w) s.nextChannel

/-- The queues as a place where a worker's commands are kept. -/
def State.custody (s : State) (w : WorkerID) : Custody Command where
  entered := ↑(s.enqueued w)
  handed := ↑(s.written w) + ↑(s.returned w)
  kept := s.kept w

/-- The commands that a step loses: the one in hand whose write fails, and those left in the
channel of a handler that ends. -/
def State.lost (s : State) (w : WorkerID) : Action → Multiset Command
  | .write i outcome =>
    match s.handlers i with
    | some h => if h.worker = w ∧ outcome ≠ .written then h.phase.hand else 0
    | none => 0
  | .cleanup i => s.held w i
  | _ => 0

section Custody

variable {s s' : State} {a : Action} {w v : WorkerID} {i : ℕ}

theorem held_of_handler (h : s.handlers i = some ⟨w, phase⟩) :
    s.held w i = ↑(s.channels i).buffer + phase.hand := by
  rw [State.held, h]
  exact if_pos rfl

theorem held_of_ne (h : s.handlers i = some ⟨w, phase⟩) (hne : v ≠ w) : s.held v i = 0 := by
  rw [State.held, h]
  exact if_neg hne.symm

theorem held_congr (hhandler : s'.handlers i = s.handlers i)
    (hbuffer : (s'.channels i).buffer = (s.channels i).buffer) (w : WorkerID) :
    s'.held w i = s.held w i := by
  rw [State.held, State.held, hhandler, hbuffer]

theorem offer_add (p : List Command × List Command) (cmd : Command) :
    ((State.offer p cmd).1 : Multiset Command) + ↑(State.offer p cmd).2 = ↑p.1 + ↑p.2 + ↑[cmd] := by
  rw [State.offer]
  split
  · dsimp only
    rw [← coe_add]
    exact add_right_comm _ _ _
  · dsimp only
    rw [← coe_add, add_assoc]

theorem splitBacklog_add (backlog : List Command) :
    ((State.splitBacklog backlog).1 : Multiset Command) + ↑(State.splitBacklog backlog).2 =
      ↑backlog := by
  have hfold : ∀ (l : List Command) (p : List Command × List Command),
      ((l.foldl State.offer p).1 : Multiset Command) + ↑(l.foldl State.offer p).2 =
        ↑p.1 + ↑p.2 + ↑l := by
    intro l
    induction l with
    | nil => exact fun p => (add_zero _).symm
    | cons cmd rest ih =>
      intro p
      rw [List.foldl_cons, ih, offer_add, add_assoc, coe_add]
      rfl
  rw [State.splitBacklog, hfold]
  exact zero_add _

/-- A command is put aside. -/
theorem kept_appendPending (cmd : Command) :
    (s.appendPending w [cmd]).kept w = s.kept w + ↑[cmd] := by
  have hpending : (s.appendPending w [cmd]).pendingCmds w = s.pendingCmds w ++ [cmd] :=
    update_self ..
  rw [State.kept, hpending, ← coe_add]
  exact add_right_comm _ _ _

/-- One of the worker's handlers has more than before. -/
theorem kept_add {m : Multiset Command} (hpending : s'.pendingCmds w = s.pendingCmds w)
    (hnext : s'.nextChannel = s.nextChannel) (hi : i < s.nextChannel)
    (hother : ∀ k, k ≠ i → s'.held w k = s.held w k) (hadd : s'.held w i = s.held w i + m) :
    s'.kept w = s.kept w + m := by
  rw [State.kept, State.kept, hpending, hnext, Custody.total_add hi hother hadd, add_assoc]

/-- Nothing changes for the worker. -/
theorem kept_congr (hpending : s'.pendingCmds w = s.pendingCmds w)
    (hnext : s'.nextChannel = s.nextChannel) (hheld : ∀ k, s'.held w k = s.held w k) :
    s'.kept w = s.kept w := by
  rw [State.kept, State.kept, hpending, hnext, Custody.total_congr fun k _ => hheld k]

theorem coe_update_append (f : WorkerID → List Command) (w : WorkerID) (cmds : List Command) :
    (update f w (f w ++ cmds) w : Multiset Command) = ↑(f w) + ↑cmds := by
  rw [update_self, coe_add]

theorem coe_update_of_ne (f : WorkerID → List Command) (hne : v ≠ w) (cmds : List Command) :
    (update f w cmds v : Multiset Command) = ↑(f v) := by
  rw [update_of_ne hne]

variable {phase' : Phase} {k : ℕ} {channels : ℕ → Channel}

/-- Only the handler at `i` changes, and it serves another worker. -/
theorem held_elsewhere (hhandler : s.handlers i = some ⟨w, phase⟩)
    (hhandler' : s'.handlers i = some ⟨w, phase'⟩) (hne : v ≠ w)
    (hother : ∀ k, k ≠ i → s'.held v k = s.held v k) (k : ℕ) : s'.held v k = s.held v k := by
  rcases eq_or_ne k i with rfl | hk
  · rw [held_of_ne hhandler' hne, held_of_ne hhandler hne]
  · exact hother k hk

/-- The commands of the worker stay where they are, or go from the channel to the hand of its
handler. -/
theorem kept_same (hpending : s'.pendingCmds = s.pendingCmds)
    (hnext : s'.nextChannel = s.nextChannel) (hhandler : s.handlers i = some ⟨w, phase⟩)
    (hhandler' : s'.handlers i = some ⟨w, phase'⟩)
    (hother : ∀ k, k ≠ i → ∀ u, s'.held u k = s.held u k)
    (hheld : ((s'.channels i).buffer : Multiset Command) + phase'.hand =
      ↑(s.channels i).buffer + phase.hand) (v : WorkerID) : s'.kept v = s.kept v := by
  refine kept_congr (congrFun hpending v) hnext fun k => ?_
  rcases eq_or_ne v w with rfl | hne
  · rcases eq_or_ne k i with rfl | hk
    · rw [held_of_handler hhandler', held_of_handler hhandler, hheld]
    · exact hother k hk v
  · exact held_elsewhere hhandler hhandler' hne (fun k hk => hother k hk v) k

theorem held_setHandler {h : Option Handler} (hk : k ≠ i) (u : WorkerID) :
    (s.setHandler i h).held u k = s.held u k := by
  have hhandler : (s.setHandler i h).handlers k = s.handlers k := update_of_ne hk ..
  exact held_congr hhandler rfl u

theorem channels_setChannel_self (s : State) (i : ℕ) (ch : Channel) :
    (s.setChannel i ch).channels i = ch := update_self ..

theorem channels_setChannel_of_ne {ch : Channel} (hk : k ≠ i) :
    (s.setChannel i ch).channels k = s.channels k := update_of_ne hk ..

theorem move_pend (h : s' = { s.appendPending w [cmd] with
      enqueued := update s.enqueued w (s.enqueued w ++ [cmd]) }) (v : WorkerID) :
    Custody.Move (s.custody v) (s'.custody v) 0 := by
  subst h
  rcases eq_or_ne v w with rfl | hne
  · exact .intro ↑[cmd] 0 (coe_update_append s.enqueued v [cmd]) (add_zero _).symm
      (by rw [add_zero, add_zero]; exact (kept_appendPending cmd).symm)
  · exact .rearranged (coe_update_of_ne s.enqueued hne _) rfl
      (kept_congr (update_of_ne hne ..) rfl fun _ => rfl)

theorem move_send (hs : Open s) (hhandler : s.handlers i = some ⟨w, phase⟩)
    (h : s' = { s.setChannel i { s.channels i with buffer := (s.channels i).buffer ++ [cmd] } with
      enqueued := update s.enqueued w (s.enqueued w ++ [cmd]) }) (v : WorkerID) :
    Custody.Move (s.custody v) (s'.custody v) 0 := by
  subst h
  have hother : ∀ k, k ≠ i → (s.setChannel i { s.channels i with
      buffer := (s.channels i).buffer ++ [cmd] }).held v k = s.held v k := by
    intro k hk
    refine held_congr (by rfl) ?_ v
    rw [channels_setChannel_of_ne hk]
  rcases eq_or_ne v w with rfl | hne
  · refine .intro ↑[cmd] 0 (coe_update_append s.enqueued v [cmd]) (add_zero _).symm ?_
    rw [add_zero, add_zero]
    symm
    refine kept_add rfl rfl (hs.allocated i _ hhandler) hother ?_
    refine (held_of_handler (by exact hhandler)).trans ?_
    rw [held_of_handler hhandler]
    dsimp only
    rw [channels_setChannel_self, ← coe_add]
    exact add_right_comm _ _ _
  · exact .rearranged (coe_update_of_ne s.enqueued hne _) rfl
      (kept_congr rfl rfl (held_elsewhere hhandler hhandler hne hother))

theorem move_drain (w v : WorkerID) :
    Custody.Move (s.custody v) ((s.drainCommands w).custody v) 0 := by
  rcases eq_or_ne v w with rfl | hne
  · have hreturned : ((s.drainCommands v).returned v : Multiset Command) =
        ↑(s.returned v) + ↑(s.pendingCmds v) := coe_update_append s.returned v _
    have hpending : (s.drainCommands v).pendingCmds v = [] := update_self ..
    refine .intro 0 ↑(s.pendingCmds v) (add_zero _).symm ?_ ?_
    · rw [State.custody, State.custody]
      rw [hreturned, ← add_assoc]
      rfl
    · rw [State.custody, State.custody]
      dsimp only
      rw [State.kept, State.kept, hpending, add_zero, add_zero, coe_nil, zero_add, add_comm]
      rfl
  · refine .rearranged rfl ?_ (kept_congr (update_of_ne hne ..) rfl fun _ => rfl)
    exact congrArg (_ + ·) (coe_update_of_ne s.returned hne _)

/-- What was pending is in the new channel, or is pending again. -/
theorem move_watch (hbuffer : ∀ k, (channels k).buffer = (s.channels k).buffer) (h : s' = { s with
      cmdStreams := update s.cmdStreams w (some s.nextChannel)
      channels := update channels s.nextChannel
        { buffer := (State.splitBacklog (s.pendingCmds w)).1 }
      handlers := update s.handlers s.nextChannel (some { worker := w })
      pendingCmds := update s.pendingCmds w (State.splitBacklog (s.pendingCmds w)).2
      nextChannel := s.nextChannel + 1 }) (v : WorkerID) :
    Custody.Move (s.custody v) (s'.custody v) 0 := by
  have hold : ∀ k < s.nextChannel, s'.held v k = s.held v k := by
    intro k hk
    refine held_congr ?_ ?_ v
    · rw [h]
      exact update_of_ne hk.ne ..
    · rw [h]
      dsimp only
      rw [update_of_ne hk.ne, hbuffer]
  have hnew : s'.handlers s.nextChannel = some ⟨w, .selecting⟩ := by
    rw [h]
    exact update_self ..
  have hnext : s'.nextChannel = s.nextChannel + 1 := by rw [h]
  refine .rearranged (by rw [h]; rfl) (by rw [h]; rfl) ?_
  change s'.kept v = s.kept v
  rw [State.kept, State.kept, hnext, Custody.total_succ, Custody.total_congr hold]
  rcases eq_or_ne v w with rfl | hne
  · have hchannel : (s'.channels s.nextChannel).buffer =
        (State.splitBacklog (s.pendingCmds v)).1 := by
      rw [h]
      dsimp only
      rw [update_self]
    have hpending : s'.pendingCmds v = (State.splitBacklog (s.pendingCmds v)).2 := by
      rw [h]
      exact update_self ..
    rw [held_of_handler hnew, hchannel, hpending, ← splitBacklog_add (s.pendingCmds v)]
    rw [show Phase.selecting.hand = 0 from rfl, add_zero, add_comm (Custody.total ..), ← add_assoc,
      add_comm (((State.splitBacklog (s.pendingCmds v)).2 : List Command) : Multiset Command)]
  · have hpending : s'.pendingCmds v = s.pendingCmds v := by
      rw [h]
      exact update_of_ne hne ..
    rw [held_of_ne hnew hne, add_zero, hpending]

/-- A handler gives up the command in its hand. -/
theorem kept_release (hs : Open s) (hhandler : s.handlers i = some ⟨w, .writing cmd⟩)
    (hphase : phase.hand = 0) (v : WorkerID) :
    s.kept v = (s.setHandler i (some ⟨w, phase⟩)).kept v + if v = w then {cmd} else 0 := by
  have hhandler' : (s.setHandler i (some ⟨w, phase⟩)).handlers i = some ⟨w, phase⟩ :=
    update_self ..
  rcases eq_or_ne v w with rfl | hne
  · rw [if_pos rfl]
    refine kept_add rfl rfl (hs.allocated i _ hhandler) (fun k hk => (held_setHandler hk v).symm) ?_
    rw [held_of_handler hhandler, held_of_handler hhandler', hphase, add_zero]
    rfl
  · have hsame : (s.setHandler i (some ⟨w, phase⟩)).kept v = s.kept v :=
      kept_congr rfl rfl (held_elsewhere hhandler hhandler' hne fun k hk => held_setHandler hk v)
    rw [if_neg hne, add_zero, hsame]

/-- What a handler leaves in its channel when it ends is not kept any more. -/
theorem kept_cleanup (hs : Open s) (hhandler : s.handlers i = some ⟨w, phase⟩)
    {cmdStreams : WorkerID → Option ℕ}
    (hbuffer : ∀ k, (channels k).buffer = (s.channels k).buffer) (v : WorkerID) :
    s.kept v = State.kept { s with
      channels, cmdStreams, handlers := update s.handlers i none } v + s.held v i := by
  refine kept_add rfl rfl (hs.allocated i _ hhandler) (fun k hk => ?_) ?_
  · refine held_congr ?_ (hbuffer k).symm v
    exact (update_of_ne hk ..).symm
  · have hnone : State.held { s with
        channels, cmdStreams, handlers := update s.handlers i none } v i = 0 := by
      rw [State.held]
      dsimp only
      rw [update_self]
    rw [hnone, zero_add]

/-- **What a step does to the commands of a worker.** -/
theorem Effect.custody_move (hs : Open s) (h : Effect s s' a) (v : WorkerID) :
    Custody.Move (s.custody v) (s'.custody v) (s.lost v a) := by
  cases h with
  | pend w cmd ha h =>
    rw [ha]
    exact move_pend h v
  | send w cmd ha i phase hhandler h =>
    rw [ha]
    exact move_send hs hhandler h v
  | drain w ha h =>
    rw [ha, h]
    exact move_drain w v
  | watch w ha channels hbuffer hother h =>
    rw [ha]
    exact move_watch hbuffer h v
  | receive i ha w cmd rest hhandler hbuffer h =>
    subst h
    rw [ha]
    refine .rearranged rfl rfl
      (kept_same (by rfl) (by rfl) hhandler (update_self ..) (fun k hk u => ?_) ?_ v)
    · refine (held_setHandler hk u).trans (held_congr (by rfl) ?_ u)
      rw [channels_setChannel_of_ne hk]
    · rw [hbuffer, show Phase.selecting.hand = 0 from rfl, add_zero]
      refine (congrArg (· + _) ?_).trans ((add_comm _ _).trans (singleton_add cmd ↑rest))
      exact congrArg (Channel.buffer · : Channel → Multiset Command)
        (channels_setChannel_self s i _)
  | leave i ha w hhandler h =>
    have hlost : s.lost v a = 0 := by
      rcases ha with rfl | rfl <;> rfl
    subst h
    rw [hlost]
    exact .rearranged rfl rfl (kept_same (by rfl) (by rfl) hhandler (update_self ..)
      (fun k hk => held_setHandler hk) (by rfl) v)
  | write i ha w cmd hhandler h =>
    subst h
    have hlost : s.lost v a = 0 := by
      rw [ha, State.lost, hhandler]
      exact if_neg fun h => h.2 rfl
    have hwritten : (update s.written w (s.written w ++ [cmd]) v : Multiset Command) =
        ↑(s.written v) + if v = w then {cmd} else 0 := by
      rcases eq_or_ne v w with rfl | hne
      · rw [if_pos rfl, coe_update_append]
        rfl
      · rw [if_neg hne, add_zero, coe_update_of_ne s.written hne]
    rw [hlost]
    refine .intro 0 (if v = w then {cmd} else 0) (add_zero _).symm ?_ ?_
    · refine (congrArg (· + (s.returned v : Multiset Command)) hwritten).trans ?_
      exact add_right_comm _ _ _
    · rw [add_zero, add_zero]
      exact kept_release hs hhandler rfl v
  | fail i outcome ha houtcome w cmd hhandler phase hphase h =>
    subst h
    have hlost : s.lost v a = if v = w then {cmd} else 0 := by
      rw [ha, State.lost, hhandler]
      exact if_congr ⟨fun h => h.1.symm, fun h => ⟨h.symm, houtcome⟩⟩ rfl rfl
    rw [hlost]
    refine .intro 0 0 (add_zero _).symm (add_zero _).symm ?_
    rw [add_zero, add_zero]
    exact kept_release hs hhandler hphase v
  | cleanup i ha w hhandler channels cmdStreams hbuffer hother hstreams h =>
    rw [ha, h]
    exact .intro 0 0 (add_zero _).symm (add_zero _).symm
      (by rw [add_zero, add_zero]; exact kept_cleanup hs hhandler hbuffer v)

end Custody

/-- Every command that a handler takes is written, and a handler ends with an empty channel. -/
def Lossless (s : State) : Action → Prop
  | .write _ outcome => outcome = .written
  | .cleanup i => (s.channels i).buffer = []
  | _ => True

instance (s : State) : DecidablePred (Lossless s)
  | .write _ outcome => inferInstanceAs (Decidable (outcome = .written))
  | .cleanup i => inferInstanceAs (Decidable ((s.channels i).buffer = []))
  | .enqueueCommand .. | .heartbeat _ | .watchCommands _ | .receive _ | .cancel _ => .isTrue trivial

theorem lost_of_lossless {s' : State} {a : Action} (hok : Lossless s a) (h : Effect s s' a)
    (w : WorkerID) : s.lost w a = 0 := by
  cases h with
  | pend v cmd ha | drain v ha | watch v ha | receive i ha | send v cmd ha =>
    rw [ha]
    rfl
  | leave i ha =>
    rcases ha with rfl | rfl <;> rfl
  | write i ha v cmd hhandler =>
    rw [ha, State.lost, hhandler]
    exact if_neg fun h => h.2 rfl
  | fail i outcome ha houtcome =>
    rw [ha] at hok
    exact absurd hok houtcome
  | cleanup i ha v hhandler =>
    rw [ha] at hok
    rw [ha, State.lost, State.held, hhandler]
    rw [show (s.channels i).buffer = [] from hok]
    exact ite_self _

/-- **Commands are conserved** in every run in which no write of a command fails and no handler
ends before its channel is empty: each command that was enqueued for a worker was written to a
stream or returned with a heartbeat, once, or is pending, or with a running handler. -/
theorem commands_conserved {s : State} (h : Runs.Reaches step Lossless {} s) (w : WorkerID) :
    (s.enqueued w : Multiset Command) = ↑(s.written w) + ↑(s.returned w) +
      (↑(s.pendingCmds w) + ∑ i ∈ Finset.range s.nextChannel, s.held w i) := by
  refine h.invariant (P := fun s => (s.custody w).Conserved) rfl ?_
  intro s a s' hreach hs hok hstep
  have hopen := open_of_reachable hreach.reachable
  have heffect := step_effect hopen hstep
  exact ((heffect.custody_move hopen w).conserved_iff hs).mpr (lost_of_lossless hok heffect w)

theorem reachable_enqueueCommand (h : Reachable s) (w : WorkerID) (cmd : Command) :
    Reachable (s.enqueueCommand w cmd) := by
  have hrunning := (open_of_reachable h).running
  exact h.next (a := .enqueueCommand w cmd) (by rw [step, hrunning]; rfl)

/-- Only the coordinator puts commands into the queues. -/
theorem enqueued_of_step {s' : State} {a : Action} (hs : Open s) (h : step s a = some s')
    (ha : ∀ w cmd, a ≠ .enqueueCommand w cmd) : s'.enqueued = s.enqueued := by
  cases step_effect hs h with
  | pend w cmd heq | send w cmd heq => exact absurd heq (ha w cmd)
  | drain w heq h | watch w heq channels hbuffer hother h
  | receive i heq w cmd rest hhandler hbuffer h
  | leave i heq w hhandler h | write i heq w cmd hhandler h
  | fail i outcome heq houtcome w cmd hhandler phase hphase h
  | cleanup i heq w hhandler channels cmdStreams hbuffer hother hstreams h =>
    subst h
    rfl

/-- Whatever reaches a worker was enqueued for it. -/
theorem enqueued_of_handed (h : Reachable s) {w : WorkerID}
    (hcmd : cmd ∈ s.written w ∨ cmd ∈ s.returned w) : cmd ∈ s.enqueued w := by
  have hcovered : (s.custody w).Covered := by
    refine h.invariant (P := fun s => (s.custody w).Covered) (le_refl 0) ?_
    intro s a s' hreach hs _ hstep
    have hopen := open_of_reachable hreach
    exact ((step_effect hopen hstep).custody_move hopen w).covered hs
  have hhanded : cmd ∈ (s.custody w).handed := mem_add.mpr hcmd
  exact mem_of_le hcovered (mem_add.mpr (.inl hhanded))

/-- **The queues never panic**: no command is sent on a closed channel, and no channel is closed
twice. -/
theorem never_panics (h : Reachable s) : s.panicked = false :=
  (open_of_reachable h).running

/-! ## Runs of one stream -/

def first : Command := .cancelTask 0 10 1 1

def second : Command := .cancelTask 0 11 1 1

/-- Two commands are enqueued on the stream of one worker, and the first is taken. -/
def takenRun : List Action :=
  [.watchCommands 1, .enqueueCommand 1 first, .enqueueCommand 1 second, .receive 0]

/-- The first command is written; the second is still in the channel. -/
theorem commands_conserved_first : ∃ s, Reaches step Lossless {} s ∧ s.written 1 = [first] ∧
    (s.enqueued 1 : Multiset Command) = ↑(s.written 1) + ↑(s.returned 1) +
      (↑(s.pendingCmds 1) + ∑ i ∈ Finset.range s.nextChannel, s.held 1 i) := by
  obtain ⟨s, hs, hwritten⟩ := reaches_of_run step Lossless
    (fun s a => decide (Lossless s a)) (fun _ _ => of_decide_eq_true) {}
    (takenRun ++ [.write 0 .written]) (p := fun s => s.written 1 = [first]) (by decide)
  exact ⟨s, hs, hwritten, commands_conserved hs 1⟩

theorem never_panics_closed :
    ∃ s, Reachable s ∧ (s.channels 0).closed = true ∧ s.panicked = false := by
  obtain ⟨s, hs, hclosed⟩ := reachable_of_run step {} (takenRun ++ [.watchCommands 1])
    (p := fun s => (s.channels 0).closed = true) (by decide)
  exact ⟨s, hs, hclosed, never_panics hs⟩

/-- When a write fails, the command in hand and those left in the channel are nowhere. -/
theorem commands_lost : ∃ s, Reachable s ∧ s.enqueued 1 = [first, second] ∧ s.written 1 = [] ∧
    s.returned 1 = [] ∧ s.pendingCmds 1 = [] ∧ ∀ i, s.handlers i = none := by
  obtain ⟨s, hs, henqueued, hwritten, hreturned, hpending, hnext, hhandler⟩ :=
    reachable_of_run step {} (takenRun ++ [.write 0 .writeFailed, .cleanup 0])
    (p := fun s => s.enqueued 1 = [first, second] ∧ s.written 1 = [] ∧ s.returned 1 = [] ∧
      s.pendingCmds 1 = [] ∧ s.nextChannel = 1 ∧ s.handlers 0 = none) (by decide)
  refine ⟨s, hs, henqueued, hwritten, hreturned, hpending, fun i => ?_⟩
  cases hi : s.handlers i with
  | none => rfl
  | some running =>
    have hlt := (open_of_reachable hs).allocated i running hi
    rw [hnext, Nat.lt_one_iff] at hlt
    rw [hlt, hhandler] at hi
    cases hi

end Wire.Coordinator.CommandQueue
