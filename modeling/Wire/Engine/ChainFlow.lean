import Wire.Engine.ChainInvariant

/-!
# How events move through the chain

Between the readers and the operators an event is in one of four places: queued in the event
channel, held in a side buffer of the aligner, deferred behind a prepared transaction, or
pending in the loop that processes what a release handed out.  `Stock` is that part of the
state together with what has been processed already.

`Moves` lists how a step can shift events between these places, and `opStep_moves` and
`loopStep_moves` show that the list is complete.  Most code moves nothing.  An event is processed
from the head of the queue --- with nothing pending, and with nothing deferred unless an abort is
being handled --- or from the head of the pending ones; and the three ways to end an alignment hand
out what it buffered.

The second half is about code that is reached only through a check: the code of a barrier
once it is aligned, and the end of the chain once every input has ended.  `Passes` lists the
ways there, and `opStep_passes` shows that there are no others.
-/

namespace Wire.Engine

open Option List

/-- The event whose processing an observation records. -/
def Obs.processedEvent : Obs → Option Event
  | .processed e => some e
  | _ => none

/-- The events processed so far, in order. -/
def processedEvents (t : List Obs) : List Event :=
  t.filterMap Obs.processedEvent

@[simp] theorem processedEvents_append (t l : List Obs) :
    processedEvents (t ++ l) = processedEvents t ++ processedEvents l :=
  filterMap_append

@[simp] theorem processedEvents_processed (e : Event) (writes : ℕ) :
    processedEvents (.processed e :: replicate writes .write) = [e] := by
  have hwrites : processedEvents (replicate writes .write) = [] :=
    filterMap_eq_nil_iff.mpr fun o ho => by
      rw [(mem_replicate.mp ho).2]
      rfl
  change e :: processedEvents (replicate writes .write) = [e]
  rw [hwrites]

/-- Where the events are that the chain has or can take. -/
structure Stock where
  processed : List Event
  pending : List Event
  deferred : List Event
  queued : List Event
  aligner : BarrierAligner

variable {rest : List ChainOp}

namespace Chain

def stock (s : Chain) : Stock :=
  ⟨processedEvents s.trace, s.pending, s.deferredEvents, s.inputCh, s.aligner⟩

/-- How a step moves events.  The index is the stretch of code that ran, or `none` for an
action of the main loop. -/
inductive Moves : Option ChainOp → Stock → Stock → Prop
  | still (op : Option ChainOp) (k : Stock) : Moves op k k
  /-- An event is taken from the queue and processed. -/
  | take (op : Option ChainOp) (k : Stock) (e : Event) (rest : List Event)
      (hqueued : k.queued = e :: rest) (hpending : k.pending = [])
      (hdeferred : k.deferred = [] ∨ ∃ c remaining, op = some (.abortDrain c (remaining + 1))) :
      Moves op k { k with processed := k.processed ++ [e], queued := rest }
  /-- A pending event is processed. -/
  | next (k : Stock) (e : Event) (rest : List Event) (hpending : k.pending = e :: rest) :
      Moves (some .process) k { k with processed := k.processed ++ [e], pending := rest }
  /-- An aligned checkpoint is finished and its buffers are handed out for processing. -/
  | finish (c : ControlMsg) (k : Stock) (hpending : k.pending = []) (hdeferred : k.deferred = []) :
      Moves (some (.barrier c .finish)) k
        { k with
          aligner := (k.aligner.finishAlignment c.identity.id).1
          pending := (k.aligner.finishAlignment c.identity.id).2 }
  /-- An aligned checkpoint is finished and its buffers are deferred. -/
  | postpone (c : ControlMsg) (k : Stock) (hpending : k.pending = [])
      (hdeferred : k.deferred = []) :
      Moves (some (.barrier c .finish)) k
        { k with
          aligner := (k.aligner.finishAlignment c.identity.id).1
          deferred := (k.aligner.finishAlignment c.identity.id).2 }
  | abort (c : ControlMsg) (k : Stock) (hpending : k.pending = []) :
      Moves (some (.abortAlignment c)) k
        { k with
          aligner := (k.aligner.abortAlignment c.identity).1
          pending := (k.aligner.abortAlignment c.identity).2 }
  | drain (k : Stock) (hpending : k.pending = []) (hdeferred : k.deferred = []) :
      Moves (some .beginDrain) k
        { k with aligner := k.aligner.beginDrain.1, pending := k.aligner.beginDrain.2 }
  /-- The deferred events are handed out for processing. -/
  | undefer (k : Stock) (hpending : k.pending = []) :
      Moves (some .epilogue) k { k with pending := k.deferred, deferred := [] }

/-! ## What moves nothing -/

section Still

variable (cfg : ChainConfig) (s : Chain)

theorem stock_emit {o : Obs} (h : o.processedEvent = none) : (s.emit o).stock = s.stock := by
  have : processedEvents [o] = [] := by simp [processedEvents, h]
  simp [stock, emit, this]

@[simp] theorem stock_leave (reason : ExitReason) : (s.leave cfg reason).stock = s.stock := by
  have : processedEvents [.cleanupAbort] = [] := rfl
  simp only [stock, leave]
  split <;> simp [this]

@[simp] theorem stock_fail (e : ChainError) : (s.fail cfg e).stock = s.stock :=
  stock_leave cfg s _

@[simp] theorem stock_emitChainEnd (o : Outcome) : (emitChainEnd cfg s o).stock = s.stock := by
  unfold emitChainEnd
  split
  · exact stock_fail ..
  · split
    · rw [stock_leave, stock_emit s rfl]
    · exact stock_fail ..

theorem stock_startStep (o : Outcome) : (startStep cfg s o).stock = s.stock := by
  unfold startStep
  repeat' split
  · rfl
  · exact stock_emit s rfl
  · exact stock_emit s rfl

theorem stock_handleControl (c : ControlMsg) : (handleControl cfg s c).stock = s.stock := by
  obtain ⟨cp, -, hhandled⟩ := handled cfg s c
  generalize handleControl cfg s c = t at hhandled
  cases hhandled with
  | left => exact stock_leave ..
  | overrun => exact stock_fail ..
  | _ => rfl

theorem stock_commitStep (c : ControlMsg) (attempt : ℕ) (o : Outcome) :
    (commitStep cfg s c attempt o).stock = s.stock := by
  unfold commitStep
  split
  · exact stock_fail ..
  · exact stock_emit s rfl
  all_goals
    split
    · rw [stock_fail, stock_emit s rfl]
    · exact stock_emit s rfl

theorem stock_abortSinkStep (c : ControlMsg) (o : Outcome) :
    (abortSinkStep cfg s c o).stock = s.stock := by
  unfold abortSinkStep
  split
  · rw [stock_fail]
    exact stock_emit s rfl
  · rw [stock_fail, stock_emit s rfl]

theorem stock_barrierStep (c : ControlMsg) (o : Outcome) (w : ℕ) {stage : BarrierStage}
    (hdrain : stage ≠ .drain) (hfinish : stage ≠ .finish) :
    (barrierStep cfg s c o w stage).stock = s.stock := by
  cases stage with simp only [barrierStep]
  | drain => exact absurd rfl hdrain
  | finish => exact absurd rfl hfinish
  | prepare =>
    repeat' split
    · rfl
    · exact stock_fail ..
    · exact stock_emit s rfl
    · rw [stock_fail, stock_emit s rfl]
  | capture =>
    split
    · exact stock_emit s rfl
    · rw [stock_fail, stock_emit s rfl]
  | report =>
    repeat' split
    · rw [stock_fail]
      exact stock_emit s rfl
    · exact stock_emit s rfl
    · rfl
    · exact stock_emit s rfl
    · exact stock_fail ..
  | submit =>
    repeat' split
    · rfl
    · rfl
    · exact stock_emit s rfl
    · rw [stock_fail]
      exact stock_emit s rfl

end Still

/-! ## What moves something -/

theorem stock_processEvent (cfg : ChainConfig) (s : Chain) (e : Event) (o : Outcome) (w : ℕ) :
    (processEvent cfg s e o w).stock =
      { s.stock with processed := s.stock.processed ++ [e] } := by
  unfold processEvent
  split
  · have : processedEvents [.processed e] = [e] := rfl
    simp [stock, emit, this]
  · dsimp only
    split
    · simp [stock]
    · rw [stock_fail]
      simp [stock]

variable {cfg : ChainConfig} {s s' : Chain} {o : Outcome} {w : ℕ}

/-- Taking the head of the event channel, wherever it is done. -/
theorem moves_take {op : Option ChainOp} {t : Chain} {e : Event} {rest : List Event}
    (hch : s.inputCh = e :: rest) (hpending : s.pending = [])
    (hdeferred : s.deferredEvents = [] ∨ ∃ c remaining, op = some (.abortDrain c (remaining + 1)))
    (ht : t.stock = { s.stock with queued := rest }) :
    Moves op s.stock (processEvent cfg t e o w).stock := by
  rw [stock_processEvent, ht]
  exact .take op s.stock e rest hch hpending hdeferred

theorem moves_drainInputCh {op : Option ChainOp} {again done : ChainOp} (hpending : s.pending = [])
    (hdeferred : s.deferredEvents = []) :
    Moves op s.stock (drainInputCh cfg { s with todo := rest } again done o w).stock := by
  unfold drainInputCh
  split
  · exact .still op s.stock
  · next e ch hch => exact moves_take hch hpending (.inl hdeferred) rfl

/-- **How a stretch of code moves events.** -/
theorem opStep_moves {op : ChainOp} (hinv : Inv cfg s) (htodo : s.todo = op :: rest)
    (hstep : opStep cfg { s with todo := rest } o w op = some s') :
    Moves (some op) s.stock s'.stock := by
  have hat : s.At cfg op := hinv.point op (by simp [htodo])
  have hpending : op ≠ .process → s.pending = [] := fun hop => (hinv.base htodo hop).pending
  have hstill : ∀ {t : Chain}, t.stock = s.stock → Moves (some op) s.stock t.stock := by
    intro t ht
    rw [ht]
    exact .still _ _
  cases op with try cases hstep
  | handle c =>
    exact hstill (stock_handleControl ..)
  | barrier c stage =>
    cases stage with
    | drain => exact moves_drainInputCh (hpending (by simp)) hat.2
    | finish =>
      simp only [barrierStep]
      split
      · exact .postpone c s.stock (hpending (by simp)) hat.2
      · exact .finish c s.stock (hpending (by simp)) hat.2
    | prepare | capture | report | submit =>
      exact hstill (stock_barrierStep _ _ _ _ _ (by simp) (by simp))
  | commit c attempt =>
    exact hstill (stock_commitStep ..)
  | beginTransaction =>
    simp only [opStep] at hstep
    split at hstep <;> cases hstep
    · exact hstill (stock_emit _ rfl)
    · exact hstill (by rw [stock_fail]; exact stock_emit _ rfl)
  | abortSink c =>
    exact hstill (stock_abortSinkStep ..)
  | abortCheckpoint c =>
    exact hstill rfl
  | abortDrain c remaining =>
    cases remaining with
    | zero =>
      cases hstep
      exact hstill rfl
    | succ remaining =>
      simp only [opStep, abortDrainStep] at hstep
      split at hstep
      · cases hstep
        exact hstill (stock_fail ..)
      · split at hstep
        · simp at hstep
        · next e ch hch =>
          cases hstep
          exact moves_take hch (hpending (by simp)) (.inr ⟨c, _, rfl⟩) rfl
  | abortAlignment c =>
    exact .abort c s.stock (hpending (by simp))
  | endOfPartition | drainInputs =>
    exact moves_drainInputCh (hpending (by simp))
      (hinv.deferredEvents_eq_nil htodo (by simp) (by simp) hat)
  | chainEnd =>
    unfold chainEndStep
    repeat' split
    · exact hstill (stock_emitChainEnd ..)
    · exact hstill (stock_emitChainEnd ..)
    · exact hstill rfl
  | beginDrain =>
    exact .drain s.stock (hpending (by simp))
      (hinv.deferredEvents_eq_nil htodo (by simp) (by simp) hat)
  | shutdown =>
    simp only [opStep] at hstep
    split at hstep
    · next hopen =>
      split at hstep <;> cases hstep
      · exact hstill (stock_leave ..)
      · next e ch hch =>
        exact moves_take hch (hpending (by simp))
          (.inl (hinv.deferredEvents_eq_nil htodo (by simp) (by simp) hopen.2)) rfl
    · cases hstep
      exact hstill (stock_leave ..)
  | process =>
    simp only [opStep] at hstep
    split at hstep <;> cases hstep
    · exact hstill rfl
    · next e es hes =>
      rw [stock_processEvent]
      exact .next s.stock e es hes
  | epilogue =>
    unfold epilogueStep
    split
    · exact hstill rfl
    · split
      · exact .undefer s.stock (hpending (by simp))
      · exact hstill rfl

theorem Inv.pending_of_idle (h : Inv cfg s) (htodo : s.todo = []) : s.pending = [] := by
  rcases h.pending with hp | hp
  · exact hp
  · simp [htodo] at hp

/-- **How the main loop moves events.** -/
theorem loopStep_moves {a : Act} (hinv : Inv cfg s) (htodo : s.todo = [])
    (hstep : loopStep cfg s a = some s') : Moves none s.stock s'.stock := by
  have hstill : ∀ {t : Chain}, t.stock = s.stock → Moves none s.stock t.stock := by
    intro t ht
    rw [ht]
    exact .still _ _
  cases turn_of_loopStep hstep with
  | received => exact hstill (stock_emit _ rfl)
  | processed e rest o w hp hch =>
    exact moves_take hch (hinv.pending_of_idle htodo)
      (.inl ((hinv.deferred_of_idle htodo).resolve_right (by simp [hp]))) rfl
  | turned => exact hstill rfl
  | ended => exact hstill (stock_emitChainEnd ..)
  | failed => exact hstill (stock_fail ..)

/-- **How a step of the chain moves events.** -/
theorem Inv.moves {a : Act} (hinv : Inv cfg s) (hstep : s.step cfg a = some s') :
    Moves s.todo.head? s.stock s'.stock := by
  obtain ⟨-, ⟨o, -, -, rfl⟩ | ⟨o, w, op, rest, -, -, htodo, hop⟩ | ⟨-, htodo, hloop⟩⟩ :=
    step_cases hstep
  · rw [stock_startStep]
    exact .still _ _
  · rw [htodo]
    exact opStep_moves hinv htodo hop
  · rw [htodo]
    exact loopStep_moves hinv htodo hloop

end Chain

/-! ## Code that is reached through a check -/

/-- The stretches that are entered only through a check: those of a barrier once it is
aligned, and those of the end once every input has ended. -/
def ChainOp.gated : ChainOp → Bool
  | .barrier _ _ | .endOfPartition | .chainEnd => true
  | _ => false

/-- Code of another kind, and not that of a barrier's message. -/
def ChainOp.Plain (p : ChainOp) : Prop :=
  p.gated = false ∧ ∀ c, p = .handle c → c.type ≠ .barrierReceived

theorem plain_handle {c : ControlMsg} (h : c.type ≠ .barrierReceived) :
    (ChainOp.handle c).Plain := by
  refine ⟨rfl, ?_⟩
  rintro _ ⟨⟩
  exact h

variable {p : ChainOp}

namespace Chain

variable {cfg : ChainConfig} {s s' : Chain} {c : ControlMsg} {o : Outcome} {w : ℕ}

/-- Only plain code waits on the stack. -/
theorem Inv.plain_of_rest {op : ChainOp} (h : Inv cfg s) (htodo : s.todo = op :: rest)
    (hp : rest.head? = some p) : p.Plain := by
  have hpost := h.postponed p (by simpa [htodo] using mem_of_head? hp)
  cases p with
  | handle c =>
    have hc : c.type = .endOfPartition := by simpa [ChainOp.postponed] using hpost
    exact plain_handle (by simp [hc])
  | abortCheckpoint => exact ⟨rfl, by simp⟩
  | _ => simp [ChainOp.postponed] at hpost

/-- What a message leads to through a check: the barrier code if it is an aligned barrier, the end
if it is the last end of partition. -/
theorem handleControl_head (hrest : ∀ p, s.todo.head? = some p → p.Plain)
    (hp : (handleControl cfg s c).todo.head? = some p) :
    p.Plain ∨ (p = .barrier c .drain ∧ c.type = .barrierReceived ∧
      s.aligner.allAligned c.identity.id = true ∧ s.aligner.activeEpoch = c.identity.epoch) ∨
    (p = .endOfPartition ∧ cfg.numInputs ≤ (handleControl cfg s c).eofCount) := by
  obtain ⟨cp, -, hhandled⟩ := handled cfg s c
  generalize handleControl cfg s c = t at hp hhandled ⊢
  cases hhandled with
  | returned | left | overrun | deferred => exact .inl (hrest p hp)
  | barrier hc _ hall hepoch => exact .inr (.inl ⟨(some.inj hp).symm, hc, hall, hepoch⟩)
  | counted op _ _ hop =>
    rcases hop with rfl | ⟨rfl, hlast⟩
    · exact .inl (some.inj hp ▸ ⟨rfl, nofun⟩)
    · exact .inr (.inr ⟨(some.inj hp).symm, hlast⟩)
  | _ => exact .inl (some.inj hp ▸ ⟨rfl, nofun⟩)

/-- Code other than that of a message, of a barrier or of the end passes no check. -/
theorem opStep_head_of_other {op : ChainOp} (hrest : ∀ p, rest.head? = some p → p.Plain)
    (hdeferred : ∀ c ∈ s.deferredEOF, c.type = .endOfPartition)
    (hop : op.gated = false) (hhandle : ∀ c, op ≠ .handle c)
    (hstep : opStep cfg { s with todo := rest } o w op = some s') (hp : s'.todo.head? = some p) :
    p.Plain := by
  have hmap : ∀ l : List ControlMsg, (∀ c ∈ l, c.type = .endOfPartition) →
      (l.map ChainOp.handle ++ rest).head? = some p → p.Plain := by
    rintro (_ | ⟨c, l⟩) hl hhead
    · exact hrest p hhead
    · cases hhead
      exact plain_handle (by simp [hl c mem_cons_self])
  have hpush : ∀ {t : Chain} (q : ChainOp), (t.push q).todo.head? = some p → q.Plain →
      p.Plain := fun q hl hq => some.inj hl ▸ hq
  cases op with
  | handle c => exact absurd rfl (hhandle c)
  | barrier | endOfPartition | chainEnd => simp [ChainOp.gated] at hop
  | _ =>
    simp only [opStep, abortDrainStep, epilogueStep, commitStep, abortSinkStep,
      drainInputCh] at hstep
    repeat' split at hstep
    all_goals cases hstep
    all_goals first
      | exact hrest p hp
      | exact hmap _ hdeferred hp
      | exact hpush _ hp ⟨rfl, by simp⟩
      | rw [processEvent_todo] at hp
        exact hpush _ hp ⟨rfl, by simp⟩

/-- A turn of a drain finds the event channel empty or processes its head. -/
theorem drainInputCh_cases (cfg : ChainConfig) (s : Chain) (again done : ChainOp) (o : Outcome)
    (w : ℕ) : (s.inputCh = [] ∧ drainInputCh cfg s again done o w = s.push done) ∨
    ∃ e rest, s.inputCh = e :: rest ∧ drainInputCh cfg s again done o w =
      processEvent cfg ({ s with inputCh := rest }.push again) e o w := by
  unfold drainInputCh
  split
  · next hch => exact .inl ⟨hch, rfl⟩
  · next e rest hch => exact .inr ⟨e, rest, hch, rfl⟩

/-- Behind the drain the stretches of a barrier follow one another. -/
theorem barrierStep_head {d : ControlMsg} {before : BarrierStage}
    (hrest : ∀ p, s.todo.head? = some p → p.Plain) (hdrain : before ≠ .drain)
    (hp : (barrierStep cfg s d o w before).todo.head? = some p) :
    p.Plain ∨ before ≠ .finish ∧ ∃ stage, stage ≠ .drain ∧ p = .barrier d stage := by
  cases before with
  | drain => exact absurd rfl hdrain
  | _ =>
    simp only [barrierStep] at hp
    repeat' split at hp
    all_goals first
      | exact .inl (hrest _ hp)
      | cases some.inj hp
        exact .inl ⟨rfl, nofun⟩
      | cases some.inj hp
        refine .inr ⟨nofun, _, ?_, rfl⟩
        exact nofun

/-- **How code behind a check is reached.**  A barrier's code: by the message of an aligned
barrier, by draining the event channel until it is found empty, or from the stretch before,
which moves no events.  The end: by the last end of partition, and through the same drain. -/
inductive Passes (cfg : ChainConfig) (s s' : Chain) : ChainOp → ChainOp → Prop
  | aligned (c : ControlMsg) (hstock : s'.stock = s.stock)
      (hall : s.aligner.allAligned c.identity.id = true)
      (hepoch : s.aligner.activeEpoch = c.identity.epoch) :
      Passes cfg s s' (.handle c) (.barrier c .drain)
  | draining (c : ControlMsg) (haligner : s'.aligner = s.aligner) :
      Passes cfg s s' (.barrier c .drain) (.barrier c .drain)
  | drained (c : ControlMsg) (hstock : s'.stock = s.stock) (hch : s.inputCh = []) :
      Passes cfg s s' (.barrier c .drain) (.barrier c .prepare)
  | staged (c : ControlMsg) (before stage : BarrierStage) (hbefore : before ≠ .drain)
      (hstage : stage ≠ .drain) (hstock : s'.stock = s.stock) :
      Passes cfg s s' (.barrier c before) (.barrier c stage)
  | ended (c : ControlMsg) (hall : cfg.numInputs ≤ s'.eofCount) :
      Passes cfg s s' (.handle c) .endOfPartition
  | ending (hcount : s'.eofCount = s.eofCount) :
      Passes cfg s s' .endOfPartition .endOfPartition
  | emptied (hcount : s'.eofCount = s.eofCount) (hstock : s'.stock = s.stock)
      (hch : s.inputCh = []) : Passes cfg s s' .endOfPartition .chainEnd

section

variable {op : ChainOp} (hinv : Inv cfg s) (htodo : s.todo = op :: rest)
  (hstep : opStep cfg { s with todo := rest } o w op = some s') (hp : s'.todo.head? = some p)
include hinv htodo hstep hp

theorem opStep_leads : p.Plain ∨ Passes cfg s s' op p ∧
    ∀ c, op = .handle c → p = .endOfPartition ∨ c.type = .barrierReceived := by
  have hrest : ∀ p, rest.head? = some p → p.Plain := fun p hp => hinv.plain_of_rest htodo hp
  have hdrain : ∀ again done, drainInputCh cfg { s with todo := rest } again done o w = s' →
      (s.inputCh = [] ∧ p = done ∧ s'.stock = s.stock ∧ s'.eofCount = s.eofCount) ∨
      (p = again ∧ s'.aligner = s.aligner ∧ s'.eofCount = s.eofCount) := by
    rintro again done rfl
    rcases drainInputCh_cases cfg { s with todo := rest } again done o w with
      ⟨hch, heq⟩ | ⟨e, ch, -, heq⟩
    · rw [heq] at hp ⊢
      exact .inl ⟨hch, (some.inj hp).symm, rfl, rfl⟩
    · rw [heq] at hp ⊢
      obtain ⟨_, _, _, heq'⟩ :=
        processEvent_eq cfg (push { s with todo := rest, inputCh := ch } again) e o w
      rw [heq'] at hp ⊢
      exact .inr ⟨(some.inj hp).symm, rfl, rfl⟩
  by_cases hop : op.gated = false ∧ ∀ c, op ≠ .handle c
  · exact .inl (opStep_head_of_other hrest hinv.deferredEOF hop.1 hop.2 hstep hp)
  · cases op with
    | handle c =>
      rw [← some.inj hstep] at hp ⊢
      rcases handleControl_head hrest hp with hplain | ⟨rfl, hc, hall, hepoch⟩ | ⟨rfl, hall⟩
      · exact .inl hplain
      · refine .inr ⟨.aligned c (stock_handleControl ..) hall hepoch, ?_⟩
        rintro _ ⟨⟩
        exact .inr hc
      · exact .inr ⟨.ended c hall, fun _ _ => .inl rfl⟩
    | barrier d before =>
      have hs' := some.inj hstep
      by_cases hbefore : before = .drain
      · subst hbefore
        rcases hdrain _ _ hs' with ⟨hch, rfl, hstock, -⟩ | ⟨rfl, haligner, -⟩
        · exact .inr ⟨.drained d hstock hch, nofun⟩
        · exact .inr ⟨.draining d haligner, nofun⟩
      · rw [← hs'] at hp ⊢
        rcases barrierStep_head hrest hbefore hp with hplain | ⟨hfinish, stage, hstage, rfl⟩
        · exact .inl hplain
        · exact .inr ⟨.staged d before stage hbefore hstage
            (stock_barrierStep _ _ _ _ _ hbefore hfinish), nofun⟩
    | endOfPartition =>
      rcases hdrain _ _ (some.inj hstep) with ⟨hch, rfl, hstock, hcount⟩ | ⟨rfl, -, hcount⟩
      · exact .inr ⟨.emptied hcount hstock hch, nofun⟩
      · exact .inr ⟨.ending hcount, nofun⟩
    | chainEnd =>
      have htodo' : s'.todo = rest := by
        cases hstep
        unfold chainEndStep
        repeat' split
        all_goals first | rfl | exact emitChainEnd_todo ..
      rw [htodo'] at hp
      exact .inl (hrest p hp)
    | _ => exact absurd ⟨rfl, nofun⟩ hop

theorem opStep_passes (hgated : p.gated = true) : Passes cfg s s' op p := by
  rcases opStep_leads hinv htodo hstep hp with hplain | hpasses
  · exact nomatch hplain.1.symm.trans hgated
  · exact hpasses.1

end

end Chain
end Wire.Engine
