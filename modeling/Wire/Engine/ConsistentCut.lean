import Wire.Engine.ChainEffects
import Wire.Engine.TaskFlow

/-!
# Consistent cuts and the order of an input's items

Two results about what the operators of a task have been given.

**The cut.**  When the chain captures the operators' snapshots for a checkpoint, the items
processed are, for each input, exactly those the input delivered before its barrier of that
checkpoint (`captured_consistent_cut`).  Nothing more is needed than the two invariants of a
task: the barrier code runs aligned and behind its drain, so every item that is neither
processed nor in a side buffer is nowhere; and the side buffer of an input that has reported
holds exactly what came after its barrier.

**The order.**  The items of an input are processed in the order of its stream as long as no
side buffer is released ahead of items of the same input.  Finishing an alignment never does
that, by the same two invariants.  The other two releases can: between the drain of the event
channel, or the reading of its length, and the release itself a reader may still send items,
report a barrier and buffer what follows it.  `Orderly` is the condition that this has not
happened, and `processed_in_order` the result under it; `reordered_by_abort` is a run in which
it does happen.
-/

namespace Wire.Engine
namespace Task

open List Runs

variable {cfg : ChainConfig} {t t' : Task} {i : ℕ} {inboxes : ℕ → List InputMsg}
  {maxBufferSize : ℕ}

/-! ## The cut -/

/-- The operators are in the state after exactly the items that input `i` delivered `before`
its barrier `b`; what it delivered `after` it is in its side buffer. -/
structure Cut (t : Task) (i : ℕ) (b : CheckpointIdentity) (before after : List InputMsg) :
    Prop where
  history : (t.readers i).history = before ++ .checkpointBarrier b :: after
  processed : (inputItems i (processedEvents t.chain.trace)).Perm (itemsOf i before)
  buffered : t.chain.aligner.sideBuffers i = itemsOf i after
  unqueued : inputItems i (t.chain.pending ++ t.chain.deferredEvents ++ t.chain.inputCh) = []
  unheld : (t.readers i).pc.hand = []

/-- A reader whose input has reported holds nothing. -/
theorem Tracks.hand_eq_nil (h : Tracks cfg inboxes t) (hi : i ∈ t.chain.aligner.arrived) :
    (t.readers i).pc.hand = [] := by
  cases hpc : (t.readers i).pc with
  | enqueue e => exact absurd hi ((h.follows i).holding e hpc).1
  | _ => rfl

/-- An aligned and drained barrier is a cut. -/
theorem Aligned.cut {ok : Task → Act → Prop} {c : ControlMsg} {stage : BarrierStage}
    (h : Aligned cfg t c stage) (hstage : stage ≠ .drain)
    (hreach : Reaches (step cfg) ok (initial cfg maxBufferSize inboxes) t)
    (hpending : t.chain.pending = []) (hdeferred : t.chain.deferredEvents = [])
    (hi : i < cfg.numInputs) : ∃ before after, Cut t i c.identity before after := by
  have htracks := tracks hreach
  have hmem := h.arrived i hi
  obtain ⟨before, hhistory, hsince⟩ := (htracks.follows i).reported hmem
  have hhand := htracks.hand_eq_nil hmem
  rw [h.active] at hhistory
  refine ⟨before, (t.readers i).since, hhistory, ?_, hsince.symm, ?_, hhand⟩
  · have hall : (t.dispatched i).Perm (t.items i) := dispatched_perm_items hreach i
    have hdispatched : t.dispatched i = itemsOf i before ++ t.chain.aligner.sideBuffers i := by
      simp [dispatched, hhistory, InputMsg.item, hsince]
    have hitems : t.items i =
        inputItems i (processedEvents t.chain.trace) ++ t.chain.aligner.sideBuffers i := by
      simp [items, Stock.items, Chain.stock, hhand, hpending, hdeferred, h.drained hstage i]
    rw [hdispatched, hitems] at hall
    exact ((perm_append_right_iff _).mp hall).symm
  · simp [hpending, hdeferred, h.drained hstage i]

/-- Two inputs and no transactional sink. -/
def twoInputs : ChainConfig := ⟨2, false, false, false, 0⟩

/-- The first input delivers a record before and one after its barrier, the second one only
the barrier. -/
def alignedInboxes : ℕ → List InputMsg
  | 0 => [.dataRecord { value := [1] }, .checkpointBarrier ⟨1, 1⟩, .dataRecord { value := [2] }]
  | 1 => [.checkpointBarrier ⟨1, 1⟩]
  | _ => []

/-- The readers dispatch everything, the first one first. -/
def alignedReaders : List Act :=
  replicate 6 (.reader 0) ++ replicate 3 (.reader 1)

/-- **Every captured snapshot is a consistent cut.**  Whenever the chain captures the
operators for a checkpoint, the items processed so far are, for each input, exactly those
the input delivered before its barrier of that checkpoint. -/
theorem captured_consistent_cut (cfg : ChainConfig) (maxBufferSize : ℕ)
    (inboxes : ℕ → List InputMsg) (t t' : Task) (a : Act) (b : CheckpointIdentity) (success : Bool)
    (later : List Obs) (hreach : Reachable (step cfg) (initial cfg maxBufferSize inboxes) t)
    (hstep : t.step cfg a = some t')
    (hcaptured : t'.chain.trace = t.chain.trace ++ .captured b success :: later) :
    ∀ i < cfg.numInputs, ∃ before after rest, Cut t i b before after ∧
      inboxes i = before ++ .checkpointBarrier b :: (after ++ rest) := by
  intro i hi
  rcases step_cases hstep with ⟨d, -, -, hchain⟩ | ⟨j, -, hreads⟩ | ⟨events, messages, hsends⟩
  · have hexit := Chain.exit_eq_none_of_step hchain
    have hinv := chain_inv hreach hexit
    obtain ⟨obs, txn, heff⟩ := hinv.effect_of_trace hchain hcaptured nofun nofun
    have hhead : ∃ c, t.chain.todo.head? = some (.barrier c .capture) ∧ c.identity = b := by
      generalize t.chain.todo.head? = op at heff
      cases heff
      exact ⟨_, rfl, rfl⟩
    obtain ⟨c, hhead, rfl⟩ := hhead
    have hat := hinv.point _ hhead
    have hpending : t.chain.pending = [] := hinv.pending.resolve_right (by simp [hhead])
    obtain ⟨before, after, hcut⟩ :=
      (barrierAligned hreach hexit c _ hhead).cut nofun hreach hpending hat.2 hi
    refine ⟨before, after, (t.readers i).inbox, hcut, ?_⟩
    rw [← ((tracks hreach).follows i).delivered, hcut.history]
    simp
  · exfalso
    cases hreads <;> simp [setReader, setAligner, sendEvent, sendControl, markBarrier] at hcaptured
  · exfalso
    rw [hsends.chain] at hcaptured
    simp at hcaptured

/-- A task with two inputs, of which the first delivers a record before and one after its
barrier, captures a cut: the first record is processed, the second one is not. -/
theorem captured_consistent_cut_two_inputs :
    ∃ t t', Reachable (step twoInputs) (initial twoInputs 8 alignedInboxes) t ∧
      t.step twoInputs (.chain (.resume .ok 0)) = some t' ∧
      t'.chain.trace = t.chain.trace ++ [.captured ⟨1, 1⟩ true] ∧
      ∀ i < 2, ∃ before after rest, Cut t i ⟨1, 1⟩ before after ∧
        alignedInboxes i = before ++ .checkpointBarrier ⟨1, 1⟩ :: (after ++ rest) := by
  obtain ⟨t, ht, t', hstep, htrace⟩ := reachable_of_run (step twoInputs)
    (initial twoInputs 8 alignedInboxes)
    (alignedReaders ++ [.chain (.start .ok), .chain (.poll .ok)] ++
      .replicate 4 (.chain (.resume .ok 0)))
    (p := fun t => ∃ t' ∈ t.step twoInputs (.chain (.resume .ok 0)),
      t'.chain.trace = t.chain.trace ++ [.captured ⟨1, 1⟩ true]) (by decide)
  exact ⟨t, t', ht, hstep, htrace,
    captured_consistent_cut twoInputs 8 alignedInboxes t t' _ ⟨1, 1⟩ true [] ht hstep htrace⟩

/-! ## The order -/

/-- No side buffer is released ahead of items of its own input: while an abort drains the
event channel nothing of the same input is deferred, and when an abort or a drain releases
the aligner, an input with buffered items has none left in front of them. -/
def Orderly (t : Task) : Act → Prop
  | .chain _ =>
    match t.chain.todo.head? with
    | some (.abortDrain _ (_ + 1)) => ∀ i, t.chain.inputCh.head?.bind Event.input = some i →
        inputItems i t.chain.deferredEvents = []
    | some (.abortAlignment c) => t.chain.aligner.active = c.identity →
        ∀ i, t.chain.aligner.sideBuffers i ≠ [] →
          inputItems i (t.chain.deferredEvents ++ t.chain.inputCh) = []
    | some .beginDrain => ∀ i, t.chain.aligner.sideBuffers i ≠ [] →
        inputItems i t.chain.inputCh = []
    | _ => True
  | _ => True

/-- Finishing an alignment is always in turn; the other releases are if the step is
orderly. -/
theorem inTurn_of_orderly {ok : Task → Act → Prop}
    (hreach : Reaches (step cfg) ok (initial cfg maxBufferSize inboxes) t)
    (hexit : t.chain.exit = none) {b : Chain.Act} (h : Orderly t (.chain b)) (i : ℕ) :
    Chain.InTurn t.chain.stock i t.chain.todo.head? := by
  simp only [Orderly] at h
  cases hhead : t.chain.todo.head? with
  | none => trivial
  | some op =>
    rw [hhead] at h
    cases op with
    | barrier c stage =>
      cases stage with
      | finish => exact fun _ => (barrierAligned hreach hexit c _ hhead).drained nofun i
      | _ => trivial
    | abortDrain c remaining =>
      cases remaining with
      | zero => trivial
      | succ remaining => exact h i
    | abortAlignment c => exact fun hactive => h hactive i
    | beginDrain => exact h i
    | _ => trivial

/-- **Items are processed in order.**  In every run whose steps are orderly, the items of an
input that have been processed are a prefix of the items it has delivered, which are a prefix
of its stream. -/
theorem processed_in_order (cfg : ChainConfig) (maxBufferSize : ℕ) (inboxes : ℕ → List InputMsg)
    (t : Task) (h : Reaches (step cfg) Orderly (initial cfg maxBufferSize inboxes) t) (i : ℕ) :
    inputItems i (processedEvents t.chain.trace) <+: t.dispatched i ∧
      t.dispatched i <+: itemsOf i (inboxes i) := by
  constructor
  · have heq : t.dispatched i = t.items i := dispatched_eq_items h fun t b t' hreach hok hstep =>
      inTurn_of_orderly hreach (Chain.exit_eq_none_of_step hstep) hok i
    rw [heq]
    simp [items, Stock.items, Chain.stock]
  · rw [← ((tracks h).follows i).delivered, dispatched, itemsOf_append]
    exact prefix_append _ _

/-- Nothing out of order can happen where nothing is aborted or drained. -/
def undisturbed (t : Task) (_ : Act) : Bool :=
  match t.chain.todo.head? with
  | some (.abortDrain _ _) | some (.abortAlignment _) | some .beginDrain => false
  | _ => true

theorem orderly_of_undisturbed (t : Task) (a : Act) (h : undisturbed t a = true) : Orderly t a := by
  cases a with
  | chain b =>
    simp only [undisturbed] at h
    simp only [Orderly]
    split at h <;> simp_all
  | _ => trivial

/-- A record before its barrier, the aligned barrier, and a record behind it. -/
theorem processed_in_order_aligned :
    ∃ t, Reaches (step twoInputs) Orderly (initial twoInputs 8 alignedInboxes) t ∧
      processedEvents t.chain.trace = [dataEvent 0 { value := [1] }, dataEvent 0 { value := [2] }] ∧
      inputItems 0 (processedEvents t.chain.trace) <+: t.dispatched 0 := by
  obtain ⟨t, ht, hprocessed⟩ := reaches_of_run (step twoInputs) Orderly undisturbed
    orderly_of_undisturbed (initial twoInputs 8 alignedInboxes)
    (alignedReaders ++ [.chain (.start .ok), .chain (.poll .ok)] ++
      .replicate 9 (.chain (.resume .ok 0)))
    (p := fun t => processedEvents t.chain.trace =
      [dataEvent 0 { value := [1] }, dataEvent 0 { value := [2] }]) (by decide)
  exact ⟨t, ht, hprocessed, (processed_in_order twoInputs 8 alignedInboxes t ht 0).1⟩

/-- The second input delivers a record before and one after its barrier, the first one only
the barrier. -/
def overtakenInboxes : ℕ → List InputMsg
  | 0 => [.checkpointBarrier ⟨1, 1⟩]
  | 1 => [.dataRecord { value := [1] }, .checkpointBarrier ⟨1, 1⟩, .dataRecord { value := [2] }]
  | _ => []

/-- The checkpoint is aborted while only the first input has reported its barrier.  The chain
finds the event channel empty; before it releases the aligner, the second reader sends its
first record, reports its barrier and buffers its second record. -/
def overtakenRun : List Act :=
  [.reader 0, .reader 0, .chain (.start .ok),
    .decide { type := .abortCheckpoint, identity := ⟨1, 1⟩ }, .chain (.poll .ok)] ++
    replicate 3 (.chain (.resume .ok 0)) ++ replicate 6 (.reader 1) ++
    replicate 2 (.chain (.resume .ok 0))

/-- **The gap.**  The second record of an input is processed before its first one, and the
chain goes on running. -/
theorem reordered_by_abort :
    ∃ t, Reachable (step twoInputs) (initial twoInputs 8 overtakenInboxes) t ∧
      t.chain.exit = none ∧
      ¬ inputItems 1 (processedEvents t.chain.trace) <+: itemsOf 1 (overtakenInboxes 1) := by
  obtain ⟨t, ht, hexit, hprocessed⟩ := reachable_of_run (step twoInputs)
    (initial twoInputs 8 overtakenInboxes) overtakenRun
    (p := fun t => t.chain.exit = none ∧ inputItems 1 (processedEvents t.chain.trace) =
      [dataEvent 1 { value := [2] }]) (by decide)
  refine ⟨t, ht, hexit, ?_⟩
  rw [hprocessed]
  decide

end Task
end Wire.Engine
