import Wire.Engine.Task

/-!
# Where the items of an input are

An item that the reader of input `i` has dispatched is in exactly one place: still in the
reader's hand, in the event channel, in the side buffer of its input, deferred or pending
inside the chain, or processed.  This file follows the items of one input through these
places.

## What is proved

* `Tracks` --- the aligner and the readers agree: an input that has reported the active
  barrier has dispatched that barrier, and its side buffer holds exactly the items it has
  dispatched since; a reader on its way to the event channel has not reported.
* `items_perm` --- the items dispatched are, up to order, the items in all the places.
* `items_eq` --- and in order, as long as no step releases a side buffer ahead of items of
  the same input (`InTurn`).
* `Aligned` --- while the code of a barrier runs, every input has reported that barrier,
  and behind its drain the event channel holds no item of any input.

The first three are proved by one argument each for a step of the chain, of a reader, and of
the rest of the task; `step_cases` says what these steps can be.
-/

namespace Wire.Engine

open Function List Finset

/-! ## The items of an input inside the chain -/

/-- The items of input `i` that the chain has or can take, in the order of the places they
pass through. -/
def Stock.items (k : Stock) (i : ℕ) : List Event :=
  inputItems i (k.processed ++ k.pending ++ k.deferred ++ k.queued) ++ k.aligner.sideBuffers i

variable {ba : BarrierAligner} {i : ℕ} {stream : List InputMsg} {r : Reader}

namespace Chain

variable {op : Option ChainOp} {k k' : Stock}

/-- The step releases no item of input `i` ahead of an earlier one. -/
def InTurn (k : Stock) (i : ℕ) : Option ChainOp → Prop
  | some (.abortDrain _ (_ + 1)) =>
    k.queued.head?.bind Event.input = some i → inputItems i k.deferred = []
  | some (.barrier _ .finish) => k.aligner.sideBuffers i ≠ [] → inputItems i k.queued = []
  | some (.abortAlignment c) =>
    k.aligner.active = c.identity → k.aligner.sideBuffers i ≠ [] →
      inputItems i (k.deferred ++ k.queued) = []
  | some .beginDrain => k.aligner.sideBuffers i ≠ [] → inputItems i k.queued = []
  | _ => True

/-- A step of the chain ends an alignment or leaves the aligner alone. -/
theorem Moves.releases (h : Moves op k k') :
    k'.aligner = k.aligner ∨ ∃ released, k.aligner.Releases k'.aligner released := by
  cases h with
  | still | take | next | undefer => exact .inl rfl
  | finish c | postpone c => exact .inr ⟨_, k.aligner.releases_finishAlignment c.identity.id⟩
  | abort c => exact .inr ⟨_, k.aligner.releases_abortAlignment c.identity⟩
  | drain => exact .inr ⟨_, k.aligner.releases_beginDrain⟩

/-- A step of the chain only takes from the head of the event channel. -/
theorem Moves.queued (h : Moves op k k') :
    k'.queued = k.queued ∨ ∃ e, k.queued = e :: k'.queued := by
  cases h with
  | take _ k e rest hqueued => exact .inr ⟨e, hqueued⟩
  | _ => exact .inl rfl

/-- **No step of the chain loses or repeats an item.** -/
theorem Moves.items_perm (h : Moves op k k') (hwf : k.aligner.Wf) (i : ℕ) :
    (k'.items i).Perm (k.items i) := by
  refine perm_iff_count.mpr fun x => ?_
  have hrel : ∀ {ba released}, k.aligner.Releases ba released →
      (inputItems i released).count x + (ba.sideBuffers i).count x =
        (k.aligner.sideBuffers i).count x := by
    intro ba released hrel
    rw [← count_append, hwf.inputItems_released hrel]
  cases h with simp only [Stock.items, inputItems_append, count_append]
  | take _ k e rest hqueued hpending =>
    have : (inputItems i k.queued).count x =
        (inputItems i [e]).count x + (inputItems i rest).count x := by
      rw [hqueued, inputItems_cons, count_append]
    omega
  | next k e rest hpending =>
    have : (inputItems i k.pending).count x =
        (inputItems i [e]).count x + (inputItems i rest).count x := by
      rw [hpending, inputItems_cons, count_append]
    omega
  | finish c k hpending hdeferred | postpone c k hpending hdeferred =>
    have := hrel (k.aligner.releases_finishAlignment c.identity.id)
    simp only [hpending, hdeferred, inputItems_nil, count_nil]
    omega
  | abort c k hpending =>
    have := hrel (k.aligner.releases_abortAlignment c.identity)
    simp only [hpending, inputItems_nil, count_nil]
    omega
  | drain k hpending =>
    have := hrel k.aligner.releases_beginDrain
    simp only [hpending, inputItems_nil, count_nil]
    omega
  | undefer k hpending =>
    simp only [hpending, inputItems_nil, count_nil]
    omega

/-- A release in turn: what is handed out for input `i` goes ahead of what is queued for it,
so there must be nothing on one side or the other. -/
theorem release_in_turn {released : List Event} {later : List Event} (hwf : k.aligner.Wf)
    (hrel : k.aligner.Releases ba released) (hturn : k.aligner.sideBuffers i ≠ [] → later = []) :
    inputItems i released ++ later ++ ba.sideBuffers i = later ++ k.aligner.sideBuffers i := by
  have hitems := hwf.inputItems_released hrel i
  by_cases hside : k.aligner.sideBuffers i = []
  · rw [hside, append_eq_nil_iff] at hitems
    rw [hside, hitems.1, hitems.2]
    rfl
  · rw [hturn hside, append_nil, nil_append, hitems]

/-- **A step in turn keeps the items of an input in order.** -/
theorem Moves.items_eq (h : Moves op k k') (hwf : k.aligner.Wf) (hturn : InTurn k i op) :
    k'.items i = k.items i := by
  cases h with
  | still => rfl
  | take _ k e rest hqueued hpending hdeferred =>
    have hde : inputItems i k.deferred = [] ∨ inputItems i [e] = [] := by
      rcases hdeferred with hnil | ⟨c, remaining, rfl⟩
      · exact .inl (by rw [hnil]; rfl)
      · by_cases hi : e.input = some i
        · exact .inl (hturn (by rw [hqueued]; exact hi))
        · exact .inr (by simp [inputItems, hi])
    simp only [Stock.items, inputItems_append, hpending, hqueued, inputItems_cons i e rest,
      append_nil, append_assoc]
    rcases hde with hnil | hnil <;> simp [hnil]
  | next k e rest hpending =>
    simp only [Stock.items, inputItems_append, hpending, inputItems_cons i e rest, append_assoc]
  | finish c k hpending hdeferred | postpone c k hpending hdeferred =>
    have := release_in_turn hwf (k.aligner.releases_finishAlignment c.identity.id) hturn
    simpa [Stock.items, hpending, hdeferred] using this
  | abort c k hpending =>
    by_cases hactive : k.aligner.active = c.identity
    · have := release_in_turn hwf (k.aligner.releases_abortAlignment c.identity) (hturn hactive)
      simpa [Stock.items, hpending] using this
    · have hside : (k.aligner.abortAlignment c.identity) = (k.aligner.retire c.identity, []) :=
        if_pos hactive
      simp [Stock.items, hpending, hside]
  | drain k hpending hdeferred =>
    have := release_in_turn hwf k.aligner.releases_beginDrain hturn
    simpa [Stock.items, hpending, hdeferred] using this
  | undefer k hpending => simp [Stock.items, hpending]

end Chain

/-! ## Readers and aligner -/

/-- The item a reader is about to send to the event channel. -/
def ReaderPc.hand : ReaderPc → List Event
  | .enqueue e => [e]
  | _ => []

/-- The reader of input `i` and the aligner agree about what the input has delivered. -/
structure Follows (ba : BarrierAligner) (i : ℕ) (stream : List InputMsg) (r : Reader) : Prop where
  /-- What has been dispatched and what has not make up the stream. -/
  delivered : r.history ++ r.inbox = stream
  /-- An item on its way to the event channel belongs to an input that has not reported. -/
  holding : ∀ e, r.pc = .enqueue e → i ∉ ba.arrived ∧ e.input = some i
  /-- A barrier about to be reported is the last message dispatched. -/
  reporting : ∀ b, r.pc = .mark b → ∃ pre, r.history = pre ++ [.checkpointBarrier b]
  /-- Once an input has reported the active barrier, the items it has dispatched since are
  those in its side buffer. -/
  reported : i ∈ ba.arrived → ∃ pre, r.history = pre ++ .checkpointBarrier ba.active :: r.since ∧
    itemsOf i r.since = ba.sideBuffers i

section

variable (h : Follows ba i stream r)
include h

variable {ba' : BarrierAligner} {m : InputMsg} {rest : List InputMsg}

/-- An alignment may end or go on; nobody else touches what concerns input `i`. -/
theorem Follows.congr (hba : i ∈ ba'.arrived → i ∈ ba.arrived ∧ ba'.active = ba.active ∧
      ba'.sideBuffers i = ba.sideBuffers i) : Follows ba' i stream r := by
  refine ⟨h.delivered, fun e he => ⟨fun hi => (h.holding e he).1 (hba hi).1, (h.holding e he).2⟩,
    h.reporting, fun hi => ?_⟩
  obtain ⟨hmem, hactive, hside⟩ := hba hi
  rw [hactive, hside]
  exact h.reported hmem

/-- Dispatching a message that is not an item, or one that will be sent on. -/
theorem Follows.consume {pc : ReaderPc} (hinbox : r.inbox = m :: rest)
    (hholding : ∀ e, pc = .enqueue e → i ∉ ba.arrived ∧ e.input = some i)
    (hreporting : ∀ b, pc = .mark b → m = .checkpointBarrier b)
    (hitem : i ∈ ba.arrived → m.item i = none) : Follows ba i stream (r.consume m rest pc) := by
  refine ⟨?_, hholding, ?_, ?_⟩
  · rw [← h.delivered, hinbox]
    simp [Reader.consume]
  · intro b hb
    exact ⟨r.history, by rw [← hreporting b hb]; rfl⟩
  · intro hi
    obtain ⟨pre, hpre, hsince⟩ := h.reported hi
    refine ⟨pre, by simp [Reader.consume, hpre], ?_⟩
    rw [← hsince]
    simp [Reader.consume, hitem hi]

/-- Dispatching an item into the side buffer. -/
theorem Follows.buffer {e : Event} (hinbox : r.inbox = m :: rest) (he : m.item i = some e)
    (hba : ba.bufferAlignedEvent i e = .buffered ba') :
    Follows ba' i stream (r.consume m rest .reading) := by
  obtain ⟨-, hi, -, rfl⟩ := BarrierAligner.bufferAlignedEvent_buffered hba
  obtain ⟨pre, hpre, hsince⟩ := h.reported hi
  refine ⟨?_, nofun, nofun, fun _ => ⟨pre, ?_, ?_⟩⟩
  · rw [← h.delivered, hinbox]
    simp [Reader.consume]
  · simp [Reader.consume, hpre, BarrierAligner.active]
  · simp [Reader.consume, hsince, he]

/-- Reporting a barrier: a first report starts the count of what comes after it. -/
theorem Follows.mark {b : CheckpointIdentity} (hwf : ba.Wf) (hpc : r.pc = .mark b) :
    Follows (ba.onBarrier i b).1 i stream { r with
      pc := .notify b
      since := if i ∈ (ba.onBarrier i b).1.arrived ∧ i ∉ ba.arrived then [] else r.since } := by
  obtain ⟨pre, hpre⟩ := h.reporting b hpc
  refine ⟨h.delivered, nofun, nofun, fun hmem' => ?_⟩
  by_cases hmem : i ∈ ba.arrived
  · obtain ⟨pre', hpre', hsince⟩ := h.reported hmem
    have hactive := hwf.onBarrier_active hmem i b
    exact ⟨pre', by simpa [hmem, hactive] using hpre', by simpa [hmem] using hsince⟩
  · rcases ba.onBarrier_cases i b with hign | ⟨-, -, -, -, -, hmark⟩
    · exact absurd (hign ▸ hmem') hmem
    · refine ⟨pre, ?_, ?_⟩
      · simp [hmark, hmem, hpre, BarrierAligner.active]
      · simp [hmark, hmem, hwf.sideBuffers_of_notMem hmem]

end

namespace Task

variable {cfg : ChainConfig} {t t' : Task} {i : ℕ} {inboxes : ℕ → List InputMsg}

/-- The readers of a task and its aligner agree. -/
structure Tracks (cfg : ChainConfig) (inboxes : ℕ → List InputMsg) (t : Task) : Prop where
  wf : t.chain.aligner.Wf
  numInputs : t.chain.aligner.numInputs = cfg.numInputs
  follows : ∀ i, Follows t.chain.aligner i (inboxes i) (t.readers i)

theorem Tracks.initial (cfg : ChainConfig) (maxBufferSize : ℕ) (inboxes : ℕ → List InputMsg) :
    Tracks cfg inboxes (initial cfg maxBufferSize inboxes) where
  wf := .new _ _
  numInputs := rfl
  follows i := ⟨rfl, nofun, nofun, fun hi => absurd hi (notMem_empty i)⟩

/-- A step of the chain, or of the task outside its readers. -/
theorem Tracks.releases (h : Tracks cfg inboxes t) (hreaders : t'.readers = t.readers)
    (hrel : t'.chain.aligner = t.chain.aligner ∨
      ∃ released, t.chain.aligner.Releases t'.chain.aligner released) : Tracks cfg inboxes t' := by
  rcases hrel with hsame | ⟨released, hrel⟩
  · exact ⟨hsame ▸ h.wf, hsame ▸ h.numInputs, fun i => by rw [hsame, hreaders]; exact h.follows i⟩
  · refine ⟨h.wf.releases hrel, hrel.numInputs.trans h.numInputs, fun i => ?_⟩
    rw [hreaders]
    refine (h.follows i).congr fun hi => ?_
    rcases hrel.all_or_nothing with ⟨-, harrived, hactive, hside⟩ | ⟨-, harrived, -⟩
    · exact ⟨harrived ▸ hi, hactive, congrFun hside i⟩
    · simp [harrived] at hi

/-- The reader of an input changes; the aligner, as far as other inputs are concerned, does
not. -/
theorem Tracks.reader (h : Tracks cfg inboxes t) (hchain : t'.chain.aligner = ba)
    (hreaders : t'.readers = Function.update t.readers i r) (hwf : ba.Wf)
    (hnum : ba.numInputs = t.chain.aligner.numInputs)
    (hothers : ∀ j, j ≠ i → j ∈ ba.arrived → j ∈ t.chain.aligner.arrived ∧
      ba.active = t.chain.aligner.active ∧ ba.sideBuffers j = t.chain.aligner.sideBuffers j)
    (hr : Follows ba i (inboxes i) r) : Tracks cfg inboxes t' := by
  subst hchain
  refine ⟨hwf, hnum.trans h.numInputs, fun j => ?_⟩
  rw [hreaders]
  by_cases hj : j = i
  · subst hj
    rwa [update_self]
  · rw [update_of_ne hj]
    exact (h.follows j).congr (hothers j hj)

/-- The step of a reader keeps readers and aligner in agreement. -/
theorem Tracks.reads (h : Tracks cfg inboxes t) (hreads : Reads t i t') :
    Tracks cfg inboxes t' := by
  have hf := h.follows i
  -- most steps of a reader leave the aligner alone
  have hsame : ∀ {u : Task} {r : Reader}, u.chain.aligner = t.chain.aligner →
      u.readers = update t.readers i r → Follows t.chain.aligner i (inboxes i) r →
      Tracks cfg inboxes u := fun hchain hreaders hr =>
    h.reader hchain hreaders h.wf rfl (fun j _ hj => ⟨hj, rfl, rfl⟩) hr
  cases hreads with
  | buffer m rest e ba hpc hinbox he hba =>
    have hwf := h.wf.buffered (InputMsg.input_of_item he) hba
    refine h.reader rfl rfl hwf ?_ ?_ (hf.buffer hinbox he hba)
    all_goals obtain ⟨-, hi, -, rfl⟩ := BarrierAligner.bufferAlignedEvent_buffered hba
    · rfl
    · exact fun j hj hmem => ⟨hmem, rfl, update_of_ne hj _ _⟩
  | hold m rest e hpc hinbox he hba =>
    have hnot := h.wf.notMem_of_notAligning hba
    refine hsame rfl rfl (hf.consume hinbox ?_ nofun fun hi => absurd hi hnot)
    intro e' he'
    rw [← ReaderPc.enqueue.inj he']
    exact ⟨hnot, InputMsg.input_of_item he⟩
  | send | notify => exact hsame rfl rfl ⟨hf.delivered, nofun, nofun, hf.reported⟩
  | barrier b rest pc hpc hinbox hpc' =>
    refine hsame rfl rfl (hf.consume hinbox ?_ ?_ fun _ => rfl)
    · rintro e rfl
      simp at hpc'
    · rintro b' rfl
      simpa [eq_comm] using hpc'
  | finish rest hpc hinbox => exact hsame rfl rfl (hf.consume hinbox nofun nofun fun _ => rfl)
  | mark b hpc =>
    exact h.reader rfl rfl (h.wf.onBarrier i b) (by exact t.chain.aligner.onBarrier_numInputs b i)
      (fun j hj => h.wf.onBarrier_others i b hj) (hf.mark h.wf hpc)

/-! ## The items of an input inside the task -/

/-- The items of input `i` that its reader has dispatched, place by place. -/
def items (t : Task) (i : ℕ) : List Event :=
  t.chain.stock.items i ++ (t.readers i).pc.hand

/-- The items of input `i` that its reader has dispatched, in the order of the stream. -/
def dispatched (t : Task) (i : ℕ) : List Event :=
  itemsOf i (t.readers i).history

/-- What a reader does is nothing to the other inputs. -/
theorem Reads.other {j : ℕ} (h : Tracks cfg inboxes t) (hreads : Reads t i t') (hj : j ≠ i) :
    t'.readers j = t.readers j ∧ t'.chain.stock.items j = t.chain.stock.items j := by
  cases hreads with
  | buffer m rest e ba hpc hinbox he hba =>
    obtain ⟨-, -, -, rfl⟩ := BarrierAligner.bufferAlignedEvent_buffered hba
    refine ⟨update_of_ne hj _ _, ?_⟩
    simp [Stock.items, Chain.stock, setReader, setAligner, update_of_ne hj]
  | send e hpc =>
    refine ⟨update_of_ne hj _ _, ?_⟩
    have he : inputItems j [e] = [] :=
      inputItems_eq_nil hj (by simpa using ((h.follows i).holding e hpc).2)
    simp [Stock.items, Chain.stock, setReader, sendEvent, he]
  | mark b hpc =>
    refine ⟨update_of_ne hj _ _, ?_⟩
    simp [Stock.items, Chain.stock, markBarrier, setReader, setAligner]
  | hold | barrier | notify | finish => exact ⟨update_of_ne hj _ _, rfl⟩

/-- **A reader adds what it dispatches at the end**, wherever that is. -/
theorem Tracks.reads_items (h : Tracks cfg inboxes t) (hreads : Reads t i t') (j : ℕ) :
    ∃ new, t'.dispatched j = t.dispatched j ++ new ∧ t'.items j = t.items j ++ new := by
  by_cases hj : j = i
  · subst hj
    cases hreads with
    | buffer m rest e ba hpc hinbox he hba =>
      obtain ⟨-, -, -, rfl⟩ := BarrierAligner.bufferAlignedEvent_buffered hba
      refine ⟨[e], ?_, ?_⟩
      · simp [dispatched, setReader, Reader.consume, he]
      · simp [items, Stock.items, Chain.stock, setReader, setAligner, Reader.consume, hpc,
          ReaderPc.hand]
    | hold m rest e hpc hinbox he hba =>
      refine ⟨[e], ?_, ?_⟩
      · simp [dispatched, setReader, Reader.consume, he]
      · simp [items, setReader, Reader.consume, hpc, ReaderPc.hand]
    | send e hpc =>
      obtain ⟨hnot, he⟩ := (h.follows j).holding e hpc
      refine ⟨[], ?_, ?_⟩
      · simp [dispatched, setReader, sendEvent]
      · have hitem : inputItems j [e] = [e] := inputItems_eq_self (by simpa using he)
        simp [items, Stock.items, Chain.stock, setReader, sendEvent, hpc, ReaderPc.hand, hitem,
          h.wf.sideBuffers_of_notMem hnot]
    | barrier b rest pc hpc hinbox hpc' =>
      refine ⟨[], ?_, ?_⟩
      · simp [dispatched, setReader, Reader.consume, InputMsg.item]
      · rcases hpc' with rfl | rfl | rfl <;>
          simp [items, setReader, Reader.consume, hpc, ReaderPc.hand]
    | mark b hpc =>
      refine ⟨[], ?_, ?_⟩
      · simp [dispatched, markBarrier, setReader]
      · simp [items, Stock.items, Chain.stock, markBarrier, setReader, setAligner, hpc,
          ReaderPc.hand]
    | notify b hpc =>
      refine ⟨[], ?_, ?_⟩
      · simp [dispatched, setReader, sendControl]
      · simp [items, Chain.stock, setReader, sendControl, hpc, ReaderPc.hand]
    | finish rest hpc hinbox =>
      refine ⟨[], ?_, ?_⟩
      · simp [dispatched, setReader, sendControl, Reader.consume, InputMsg.item]
      · simp [items, Chain.stock, setReader, sendControl, Reader.consume, hpc, ReaderPc.hand]
  · obtain ⟨hreader, hitems⟩ := hreads.other h hj
    exact ⟨[], by simp [dispatched, hreader], by simp [items, hreader, hitems]⟩

/-! ## Steps and runs -/

/-- What the rest of the task sends: no items, and no ends of partition. -/
structure Sends (t t' : Task) (events : List Event) (messages : List ControlMsg) : Prop where
  readers : t'.readers = t.readers
  chain : t'.chain = { t.chain with
    inputCh := t.chain.inputCh ++ events, controlCh := t.chain.controlCh ++ messages }
  events : ∀ e ∈ events, e.input = none
  messages : ∀ c ∈ messages, c.type ≠ .endOfPartition

/-- A step of a task is one of its chain, of a reader, or a message of the rest of the
task. -/
theorem step_cases {a : Act} (h : t.step cfg a = some t') :
    (∃ b, a = .chain b ∧ t'.readers = t.readers ∧ t.chain.step cfg b = some t'.chain) ∨
    (∃ i, i < cfg.numInputs ∧ Reads t i t') ∨
    (∃ events messages, Sends t t' events messages) := by
  have hquiet : ∀ c : ControlMsg, c.type ≠ .endOfPartition → Sends t (t.sendControl c) [] [c] := by
    intro c hc
    exact ⟨rfl, by simp [sendControl], by simp, by simpa using hc⟩
  cases a with try cases h
  | chain b =>
    simp only [step, Option.map_eq_some_iff] at h
    obtain ⟨chain, hchain, rfl⟩ := h
    exact .inl ⟨b, rfl, rfl, hchain⟩
  | reader i =>
    obtain ⟨hi, hreads⟩ := reads_of_readerStep h
    exact .inr (.inl ⟨i, hi, hreads⟩)
  | decide c =>
    simp only [step] at h
    split at h <;> cases h
    next hc =>
    exact .inr (.inr ⟨_, _, hquiet c fun heq => by simp [heq, isDecision] at hc⟩)
  | drainInputs | shutdown =>
    exact .inr (.inr ⟨_, _, hquiet _ (by simp)⟩)
  | propagate timestamp =>
    exact .inr (.inr ⟨[watermarkEvent timestamp], [], rfl, by simp [sendEvent], by simp, by simp⟩)
  | complete i id =>
    exact .inr (.inr ⟨[], [], rfl, by simp, by simp, by simp⟩)

variable {events : List Event} {messages : List ControlMsg} {c : ControlMsg} {stage : BarrierStage}

/-- What the rest of the task sends belongs to no input. -/
theorem Sends.inputItems (h : Sends t t' events messages) (i : ℕ) : inputItems i events = [] :=
  filter_eq_nil_iff.mpr fun e he => by simp [h.events e he]

theorem Sends.items (h : Sends t t' events messages) (i : ℕ) : t'.items i = t.items i := by
  simp [Task.items, h.readers, h.chain, Chain.stock, Stock.items, h.inputItems i]

section Runs

variable {ok : Task → Act → Prop} {maxBufferSize : ℕ}

section

variable (h : Runs.Reaches (step cfg) ok (initial cfg maxBufferSize inboxes) t)
include h

/-- **Readers and aligner agree in every run.** -/
theorem tracks : Tracks cfg inboxes t := by
  refine h.invariant (P := Tracks cfg inboxes) (.initial ..) ?_
  intro t a t' hreach htracks _ hstep
  rcases step_cases hstep with ⟨b, -, hreaders, hchain⟩ | ⟨i, -, hreads⟩ |
    ⟨events, messages, hsends⟩
  · have hinv := chain_inv hreach (Chain.exit_eq_none_of_step hchain)
    exact htracks.releases hreaders (hinv.moves hchain).releases
  · exact htracks.reads hreads
  · exact htracks.releases hsends.readers (.inl (by rw [hsends.chain]))

/-- **Nothing is lost and nothing is repeated**: what the reader of an input has dispatched
is, up to order, what is found in all the places. -/
theorem dispatched_perm_items (i : ℕ) : (t.dispatched i).Perm (t.items i) := by
  refine h.invariant (P := fun t => (t.dispatched i).Perm (t.items i)) (.refl _) ?_
  intro t a t' hreach hperm _ hstep
  have htracks := tracks hreach
  rcases step_cases hstep with ⟨b, -, hreaders, hchain⟩ | ⟨j, -, hreads⟩ |
    ⟨events, messages, hsends⟩
  · have hinv := chain_inv hreach (Chain.exit_eq_none_of_step hchain)
    have hitems := (hinv.moves hchain).items_perm htracks.wf i
    simp only [dispatched, items, hreaders]
    exact hperm.trans (hitems.symm.append_right _)
  · obtain ⟨new, hdispatched, hitems⟩ := htracks.reads_items hreads i
    rw [hdispatched, hitems]
    exact hperm.append_right new
  · rw [hsends.items i, dispatched, hsends.readers]
    exact hperm

/-- **In order, too**, in every run in which each step of the chain releases nothing of the
input ahead of its turn. -/
theorem dispatched_eq_items {i : ℕ}
    (hturn : ∀ t b t', Runs.Reaches (step cfg) ok (initial cfg maxBufferSize inboxes) t →
      ok t (.chain b) → t.chain.step cfg b = some t' →
      Chain.InTurn t.chain.stock i t.chain.todo.head?) : t.dispatched i = t.items i := by
  refine h.invariant (P := fun t => t.dispatched i = t.items i) rfl ?_
  intro t a t' hreach heq hok hstep
  have htracks := tracks hreach
  rcases step_cases hstep with
    ⟨b, rfl, hreaders, hchain⟩ | ⟨j, -, hreads⟩ | ⟨events, messages, hsends⟩
  · have hinv := chain_inv hreach (Chain.exit_eq_none_of_step hchain)
    have hitems := (hinv.moves hchain).items_eq htracks.wf (hturn t b _ hreach hok hchain)
    simp only [dispatched, items, hreaders, hitems]
    exact heq
  · obtain ⟨new, hdispatched, hitems⟩ := htracks.reads_items hreads i
    rw [hdispatched, hitems, heq]
  · rw [hsends.items i, dispatched, hsends.readers]
    exact heq

end

end Runs

/-! ## The code of a barrier -/

/-- What holds while a stretch of the code of the barrier `c` comes next. -/
structure Aligned (cfg : ChainConfig) (t : Task) (c : ControlMsg) (stage : BarrierStage) :
    Prop where
  active : t.chain.aligner.active = c.identity
  started : c.identity.id ≠ 0
  arrived : ∀ i < cfg.numInputs, i ∈ t.chain.aligner.arrived
  drained : stage ≠ .drain → ∀ i, inputItems i t.chain.inputCh = []

/-- As long as the chain runs, its barrier code runs aligned. -/
def BarrierAligned (cfg : ChainConfig) (t : Task) : Prop :=
  t.chain.exit = none → ∀ c stage, t.chain.todo.head? = some (.barrier c stage) →
    Aligned cfg t c stage

/-- Only the aligner and the items in the event channel matter. -/
theorem Aligned.congr (h : Aligned cfg t c stage)
    (hactive : t'.chain.aligner.active = t.chain.aligner.active)
    (harrived : t.chain.aligner.arrived ⊆ t'.chain.aligner.arrived)
    (hqueued : ∀ i, inputItems i t'.chain.inputCh = inputItems i t.chain.inputCh) :
    Aligned cfg t' c stage :=
  ⟨hactive.trans h.active, h.started, fun i hi => harrived (h.arrived i hi),
    fun hstage i => (hqueued i).trans (h.drained hstage i)⟩

theorem Aligned.of_stock (h : Aligned cfg t c stage)
    (hstock : t'.chain.stock = t.chain.stock) : Aligned cfg t' c stage := by
  have haligner : t'.chain.aligner = t.chain.aligner := congrArg Stock.aligner hstock
  have hqueued : t'.chain.inputCh = t.chain.inputCh := congrArg Stock.queued hstock
  exact h.congr (by rw [haligner]) (by rw [haligner]) fun i => by rw [hqueued]

theorem BarrierAligned.chain (h : BarrierAligned cfg t) (htracks : Tracks cfg inboxes t)
    (hinv : t.chain.Inv cfg) {b : Chain.Act} (hstep : t.chain.step cfg b = some t'.chain) :
    BarrierAligned cfg t' := by
  intro hexit' c stage hhead
  obtain ⟨hexit, ⟨o, -, -, heq⟩ | ⟨o, w, op, rest, -, -, htodo, hop⟩ | ⟨-, htodo, hloop⟩⟩ :=
    Chain.step_cases hstep
  · rw [heq, Chain.startStep_todo] at hhead
    exact (h hexit c stage hhead).of_stock (heq ▸ Chain.stock_startStep ..)
  · have hpasses := Chain.opStep_passes hinv htodo hop hhead rfl
    have hbefore : ∀ d before, op = .barrier d before → Aligned cfg t d before := by
      rintro d before rfl
      exact h hexit d before (by rw [htodo]; rfl)
    generalize hp : ChainOp.barrier c stage = p at hpasses
    cases hpasses with try obtain ⟨rfl, rfl⟩ := ChainOp.barrier.inj hp
    | aligned d hstock hall hepoch =>
      have hids : c.identity.id ≠ 0 ∧ t.chain.aligner.activeID = c.identity.id := by
        simp only [BarrierAligner.allAligned, Bool.and_eq_true, decide_eq_true_eq, beq_iff_eq]
          at hall
        exact hall.1
      refine .of_stock ⟨?_, hids.1, fun i hi => ?_, fun hne => absurd rfl hne⟩ hstock
      · rw [BarrierAligner.active, hids.2, hepoch]
      · exact htracks.wf.mem_of_allAligned hall (htracks.numInputs.symm ▸ hi)
    | draining d haligner =>
      have hal := hbefore _ _ rfl
      exact ⟨haligner ▸ hal.active, hal.started, haligner ▸ hal.arrived, fun hne => absurd rfl hne⟩
    | drained d hstock hch =>
      have hal := hbefore _ _ rfl
      exact .of_stock { hal with drained := fun _ i => by rw [hch]; rfl } hstock
    | staged d before stage' hne _ hstock =>
      have hal := hbefore _ _ rfl
      exact .of_stock { hal with drained := fun _ => hal.drained hne } hstock
    | ended | ending | emptied => simp at hp
  · rcases Chain.loopStep_todo htodo hloop with ⟨d, rest, -, heq⟩ | hnil
    · simp [heq, Chain.receive] at hhead
    · simp [hnil] at hhead

/-- No reader disturbs an aligned barrier: every input has reported, so none is on its way to
the event channel, and a further report changes nothing. -/
theorem Aligned.reads (h : Aligned cfg t c stage)
    (htracks : Tracks cfg inboxes t) (hi : i < cfg.numInputs) (hreads : Reads t i t') :
    Aligned cfg t' c stage := by
  have hmem := h.arrived i hi
  cases hreads with
  | buffer m rest e ba hpc hinbox he hba =>
    obtain ⟨-, -, -, rfl⟩ := BarrierAligner.bufferAlignedEvent_buffered hba
    exact h.congr rfl (Subset.refl _) fun _ => rfl
  | send e hpc => exact absurd hmem ((htracks.follows i).holding e hpc).1
  | mark b hpc =>
    exact h.congr (htracks.wf.onBarrier_active hmem i b)
      (t.chain.aligner.arrived_subset_onBarrier i b) fun _ => rfl
  | hold | barrier | notify | finish => exact h.congr rfl (Subset.refl _) fun _ => rfl

/-- **The barrier code runs aligned**, in every run. -/
theorem barrierAligned {ok : Task → Act → Prop} {maxBufferSize : ℕ}
    (h : Runs.Reaches (step cfg) ok (initial cfg maxBufferSize inboxes) t) :
    BarrierAligned cfg t := by
  refine h.invariant (P := BarrierAligned cfg) nofun ?_
  intro t a t' hreach haligned _ hstep
  have htracks := tracks hreach
  rcases step_cases hstep with ⟨b, -, -, hchain⟩ | ⟨i, hi, hreads⟩ | ⟨events, messages, hsends⟩
  · exact haligned.chain htracks (chain_inv hreach (Chain.exit_eq_none_of_step hchain)) hchain
  · intro hexit c stage hhead
    have hchain : t'.chain.exit = t.chain.exit ∧ t'.chain.todo = t.chain.todo := by
      cases hreads <;> exact ⟨rfl, rfl⟩
    rw [hchain.1] at hexit
    rw [hchain.2] at hhead
    exact (haligned hexit c stage hhead).reads htracks hi hreads
  · intro hexit c stage hhead
    rw [hsends.chain] at hexit hhead
    refine (haligned hexit c stage hhead).congr (by rw [hsends.chain]) (by rw [hsends.chain]) ?_
    intro i
    simp [hsends.chain, hsends.inputItems i]

end Task
end Wire.Engine
