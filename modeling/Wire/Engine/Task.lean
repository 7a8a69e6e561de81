import Wire.Engine.ChainFlow

/-!
# A task: input readers around an operator chain

One reader goroutine per input stream dispatches the messages of its stream: items go to the
side buffer or the event channel, barriers to the aligner and then the control channel, an
end of partition to the control channel.  Readers, chain and the rest of the task run
concurrently, so a reader is cut at the points where it touches something shared: it looks
at the next message together with the first shared access that message needs, and what is
left to do is its program position `ReaderPc`.

Channel capacities are not modelled: a full channel only delays a send, and when a send
happens is the scheduler's choice anyway.  A reader that is never scheduled again is one
whose context has ended.

`history` and `since` are what the statements about a task are about: the messages a reader
has dispatched, and those it has dispatched since it last reported a barrier to the aligner.
Neither is read by the code.
-/

namespace Wire.Engine

/-- Where a reader stands. -/
inductive ReaderPc where
  /-- Waiting for the next message. -/
  | reading
  /-- Sending an event that was not buffered to the event channel. -/
  | enqueue (e : Event)
  /-- Reporting a barrier to the aligner. -/
  | mark (b : CheckpointIdentity)
  /-- Sending the control message of a barrier. -/
  | notify (b : CheckpointIdentity)
  /-- Returned after its end of partition. -/
  | stopped
  /-- Returned with an error. -/
  | failed
deriving DecidableEq

structure Reader where
  pc : ReaderPc := .reading
  /-- What the stream will still deliver. -/
  inbox : List InputMsg
  history : List InputMsg := []
  since : List InputMsg := []

/-- Dispatch the next message and stand at `pc`. -/
def Reader.consume (r : Reader) (m : InputMsg) (rest : List InputMsg) (pc : ReaderPc) : Reader :=
  { pc, inbox := rest, history := r.history ++ [m], since := r.since ++ [m] }

structure Task where
  chain : Chain
  readers : ℕ → Reader
  /-- Per input, the highest checkpoint known to be globally completed. -/
  completed : ℕ → ℕ

namespace Task

/-- A task before its first step.  The restored checkpoint counts as completed. -/
def initial (cfg : ChainConfig) (maxBufferSize : ℕ) (inboxes : ℕ → List InputMsg) : Task where
  chain := .initial cfg maxBufferSize
  readers := fun i => { inbox := inboxes i }
  completed := fun _ => cfg.restoredCommitted

/-! ## Small updates -/

def setReader (t : Task) (i : ℕ) (r : Reader) : Task :=
  { t with readers := Function.update t.readers i r }

def setAligner (t : Task) (ba : BarrierAligner) : Task :=
  { t with chain := { t.chain with aligner := ba } }

/-- Send an event to the event channel. -/
def sendEvent (t : Task) (e : Event) : Task :=
  { t with chain := { t.chain with inputCh := t.chain.inputCh ++ [e] } }

/-- Send a message to the control channel. -/
def sendControl (t : Task) (c : ControlMsg) : Task :=
  { t with chain := { t.chain with controlCh := t.chain.controlCh ++ [c] } }

/-! ## The readers -/

/-- Dispatch an item: buffer it, or go on to send it to the event channel. -/
def dispatchItem (t : Task) (i : ℕ) (m : InputMsg) (rest : List InputMsg) (e : Event) :
    Option Task :=
  match t.chain.aligner.bufferAlignedEvent i e with
  | .notAligning => some (t.setReader i ((t.readers i).consume m rest (.enqueue e)))
  | .buffered ba => some ((t.setAligner ba).setReader i ((t.readers i).consume m rest .reading))
  | .full => none

/-- Dispatch a barrier: skip it if its checkpoint is completed, wait for an earlier
alignment, or go on to report it. -/
def dispatchBarrier (t : Task) (i : ℕ) (b : CheckpointIdentity) (rest : List InputMsg) :
    Option Task :=
  let consumed pc := t.setReader i ((t.readers i).consume (.checkpointBarrier b) rest pc)
  if b.id ≠ 0 ∧ b.id ≤ t.completed i then some (consumed .reading)
  else match t.chain.aligner.waitForPriorAlignment i b.id with
    | .proceed => some (consumed (.mark b))
    | .skipped _ => some (consumed .failed)
    | .wait => none

/-- Report a barrier.  If this is the input's first report to the alignment, what it
dispatches from here on comes after its barrier. -/
def markBarrier (t : Task) (i : ℕ) (b : CheckpointIdentity) : Task :=
  let aligner := (t.chain.aligner.onBarrier i b).1
  let r := t.readers i
  (t.setAligner aligner).setReader i { r with
    pc := .notify b
    since := if i ∈ aligner.arrived ∧ i ∉ t.chain.aligner.arrived then [] else r.since }

/-- One step of the reader of input `i`. -/
def readerStep (cfg : ChainConfig) (t : Task) (i : ℕ) : Option Task :=
  if cfg.numInputs ≤ i then none
  else match (t.readers i).pc, (t.readers i).inbox with
    | .reading, .dataRecord m :: rest => t.dispatchItem i (.dataRecord m) rest (dataEvent i m)
    | .reading, .watermark ts :: rest =>
      t.dispatchItem i (.watermark ts) rest (watermarkBoundary i ts)
    | .reading, .checkpointBarrier b :: rest => t.dispatchBarrier i b rest
    | .reading, .endOfPartition :: rest =>
      some ((t.setReader i ((t.readers i).consume .endOfPartition rest .stopped)).sendControl
        { type := .endOfPartition, inputIndex := i })
    | .reading, [] => none
    | .enqueue e, _ => some ((t.setReader i { t.readers i with pc := .reading }).sendEvent e)
    | .mark b, _ => some (t.markBarrier i b)
    | .notify b, _ =>
      some ((t.setReader i { t.readers i with pc := .reading }).sendControl
        { type := .barrierReceived, inputIndex := i, identity := b })
    | .stopped, _ | .failed, _ => none

/-! ## The task -/

/-- The kinds of messages the coordinator's decisions are restricted to. -/
def isDecision : ControlType → Bool
  | .commitCheckpoint | .abortCheckpoint | .abortTransaction => true
  | .barrierReceived | .shutdown | .endOfPartition | .drainInputs => false

/-- The actions of a task. -/
inductive Act where
  | chain (a : Chain.Act)
  | reader (i : ℕ)
  /-- A checkpoint decision arrives. -/
  | decide (c : ControlMsg)
  /-- The task is asked to stop: alignment is released first, … -/
  | drainInputs
  /-- … and the chain is shut down after the readers have returned. -/
  | shutdown
  /-- The propagator emits a combined watermark. -/
  | propagate (timestamp : ℤ)
  /-- A stream learns that a checkpoint is globally completed. -/
  | complete (i id : ℕ)

def step (cfg : ChainConfig) (t : Task) : Act → Option Task
  | .chain a => (t.chain.step cfg a).map fun chain => { t with chain }
  | .reader i => t.readerStep cfg i
  | .decide c => if isDecision c.type then some (t.sendControl c) else none
  | .drainInputs => some (t.sendControl { type := .drainInputs })
  | .shutdown => some (t.sendControl { type := .shutdown })
  | .propagate timestamp => some (t.sendEvent (watermarkEvent timestamp))
  | .complete i id =>
    some { t with completed := Function.update t.completed i (max (t.completed i) id) }

/-! ## What a reader can do -/

variable {cfg : ChainConfig} {t t' : Task} {i : ℕ}

/-- The steps of a reader, each with the shared access it makes. -/
inductive Reads (t : Task) (i : ℕ) : Task → Prop
  /-- An item goes to the side buffer. -/
  | buffer (m : InputMsg) (rest : List InputMsg) (e : Event) (ba : BarrierAligner)
      (hpc : (t.readers i).pc = .reading) (hinbox : (t.readers i).inbox = m :: rest)
      (he : m.item i = some e) (hba : t.chain.aligner.bufferAlignedEvent i e = .buffered ba) :
      Reads t i ((t.setAligner ba).setReader i ((t.readers i).consume m rest .reading))
  /-- An item is not buffered and will be sent to the event channel. -/
  | hold (m : InputMsg) (rest : List InputMsg) (e : Event)
      (hpc : (t.readers i).pc = .reading) (hinbox : (t.readers i).inbox = m :: rest)
      (he : m.item i = some e) (hba : t.chain.aligner.bufferAlignedEvent i e = .notAligning) :
      Reads t i (t.setReader i ((t.readers i).consume m rest (.enqueue e)))
  | send (e : Event) (hpc : (t.readers i).pc = .enqueue e) :
      Reads t i ((t.setReader i { t.readers i with pc := .reading }).sendEvent e)
  /-- A barrier is dispatched: skipped, found out of order, or about to be reported. -/
  | barrier (b : CheckpointIdentity) (rest : List InputMsg) (pc : ReaderPc)
      (hpc : (t.readers i).pc = .reading)
      (hinbox : (t.readers i).inbox = .checkpointBarrier b :: rest)
      (hpc' : pc = .reading ∨ pc = .failed ∨ pc = .mark b) :
      Reads t i (t.setReader i ((t.readers i).consume (.checkpointBarrier b) rest pc))
  | mark (b : CheckpointIdentity) (hpc : (t.readers i).pc = .mark b) :
      Reads t i (t.markBarrier i b)
  | notify (b : CheckpointIdentity) (hpc : (t.readers i).pc = .notify b) :
      Reads t i ((t.setReader i { t.readers i with pc := .reading }).sendControl
        { type := .barrierReceived, inputIndex := i, identity := b })
  | finish (rest : List InputMsg) (hpc : (t.readers i).pc = .reading)
      (hinbox : (t.readers i).inbox = .endOfPartition :: rest) :
      Reads t i ((t.setReader i
        ((t.readers i).consume .endOfPartition rest .stopped)).sendControl
          { type := .endOfPartition, inputIndex := i })

variable {rest : List InputMsg} {inboxes : ℕ → List InputMsg} {maxBufferSize : ℕ}
  {ok : Task → Act → Prop}

theorem reads_of_dispatchItem {m : InputMsg} {e : Event}
    (hpc : (t.readers i).pc = .reading) (hinbox : (t.readers i).inbox = m :: rest)
    (he : m.item i = some e) (h : t.dispatchItem i m rest e = some t') : Reads t i t' := by
  unfold dispatchItem at h
  split at h <;> cases h
  · next hba => exact .hold m rest e hpc hinbox he hba
  · next ba hba => exact .buffer m rest e ba hpc hinbox he hba

theorem reads_of_dispatchBarrier {b : CheckpointIdentity} (hpc : (t.readers i).pc = .reading)
    (hinbox : (t.readers i).inbox = .checkpointBarrier b :: rest)
    (h : t.dispatchBarrier i b rest = some t') : Reads t i t' := by
  unfold dispatchBarrier at h
  repeat' split at h
  all_goals cases h
  · exact .barrier b rest .reading hpc hinbox (.inl rfl)
  · exact .barrier b rest (.mark b) hpc hinbox (.inr (.inr rfl))
  · exact .barrier b rest .failed hpc hinbox (.inr (.inl rfl))

/-- **The steps of a reader are the listed ones.** -/
theorem reads_of_readerStep (h : t.readerStep cfg i = some t') :
    i < cfg.numInputs ∧ Reads t i t' := by
  unfold readerStep at h
  obtain ⟨hi, h⟩ := Option.ite_none_left_eq_some.mp h
  refine ⟨not_le.mp hi, ?_⟩
  split at h
  · next hpc hinbox => exact reads_of_dispatchItem hpc hinbox rfl h
  · next hpc hinbox => exact reads_of_dispatchItem hpc hinbox rfl h
  · next hpc hinbox => exact reads_of_dispatchBarrier hpc hinbox h
  · next hpc hinbox =>
    cases h
    exact .finish _ hpc hinbox
  · simp at h
  · next hpc =>
    cases h
    exact .send _ hpc
  · next hpc =>
    cases h
    exact .mark _ hpc
  · next hpc =>
    cases h
    exact .notify _ hpc
  · simp at h
  · simp at h

/-! ## A task is a chain among particular surroundings -/

/-- Every step of a task is, seen from its chain, a step of the chain or a change of what it
shares. -/
theorem chain_step {a : Act} (h : t.step cfg a = some t') :
    t'.chain = t.chain ∨ ∃ b, Chain.openStep cfg t.chain b = some t'.chain := by
  have hmail : ∀ u : Task, (∃ m, u.chain = t.chain.withMailbox m) →
      ∃ b, Chain.openStep cfg t.chain b = some u.chain := by
    rintro u ⟨m, hu⟩
    exact ⟨.surroundings m, congrArg some hu.symm⟩
  cases a with try cases h
  | chain a =>
    simp only [step, Option.map_eq_some_iff] at h
    obtain ⟨chain, hchain, rfl⟩ := h
    exact .inr ⟨.chain a, hchain⟩
  | reader i =>
    obtain ⟨-, hreads⟩ := reads_of_readerStep h
    cases hreads with
    | hold | barrier => exact .inl rfl
    | buffer m rest e ba =>
      exact .inr (hmail _ ⟨⟨t.chain.inputCh, t.chain.controlCh, ba⟩, rfl⟩)
    | send e =>
      exact .inr (hmail _ ⟨⟨t.chain.inputCh ++ [e], t.chain.controlCh, t.chain.aligner⟩, rfl⟩)
    | mark b => exact .inr (hmail _ ⟨⟨t.chain.inputCh, t.chain.controlCh, _⟩, rfl⟩)
    | notify | finish => exact .inr (hmail _ ⟨⟨t.chain.inputCh, _, t.chain.aligner⟩, rfl⟩)
  | decide c =>
    simp only [step] at h
    split at h <;> cases h
    exact .inr (hmail _ ⟨⟨t.chain.inputCh, t.chain.controlCh ++ [c], t.chain.aligner⟩, rfl⟩)
  | drainInputs | shutdown =>
    exact .inr (hmail _ ⟨⟨t.chain.inputCh, _, t.chain.aligner⟩, rfl⟩)
  | propagate timestamp =>
    exact .inr (hmail _ ⟨⟨t.chain.inputCh ++ [watermarkEvent timestamp], t.chain.controlCh,
      t.chain.aligner⟩, rfl⟩)
  | complete i id =>
    exact .inl rfl

/-- **The chain of a reachable task is a reachable chain**, so everything proved for a chain
among arbitrary surroundings holds in a task. -/
theorem chain_reachable (h : Runs.Reaches (step cfg) ok (initial cfg maxBufferSize inboxes) t) :
    Runs.Reachable (Chain.openStep cfg) (.initial cfg maxBufferSize) t.chain :=
  h.map Task.chain fun _ _ _ hstep => chain_step hstep

/-- The chain's invariant, in a task whose chain is still running. -/
theorem chain_inv (h : Runs.Reaches (step cfg) ok (initial cfg maxBufferSize inboxes) t)
    (hexit : t.chain.exit = none) : t.chain.Inv cfg :=
  Chain.inv_of_reachable (chain_reachable h) hexit

end Task
end Wire.Engine
