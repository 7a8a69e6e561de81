import Wire.Engine.ConsistentCut

/-!
# The end of the input

Every reader announces the end of its stream on the control channel and stops.  The chain
counts the announcements; at the last one it drains the event channel and announces its own
end downstream, at once or when the pending uploads are resolved.

## What is proved

The announcements are conserved (`Chain.eofs`): each stopped reader has exactly one that is
still queued, being handled, deferred or counted.  So once as many are counted as there are
inputs, every reader has stopped, nothing but watermarks is sent to the event channel any
more, and behind the drain it holds no item (`Ending`).

What the drain does not reach is the aligner.  If the end comes while an alignment is active,
the items behind the barrier stay in the side buffers, and `outputEnd_complete_iff` says that
this is the only way to lose a record: at the announced end every record has been processed
exactly once if and only if no input has dispatched a record since it reported the barrier
that is still active.
-/

namespace Wire.Engine

open List Runs

/-! ## Announcements are conserved -/

/-- How many announcements a control message is. -/
def ControlMsg.eofs (c : ControlMsg) : ℕ :=
  if c.type = .endOfPartition then 1 else 0

/-- How many announcements a stretch of code is about to handle. -/
def ChainOp.eofs : ChainOp → ℕ
  | .handle c => c.eofs
  | _ => 0

theorem ControlMsg.eofs_of_eq {c : ControlMsg} (h : c.type = .endOfPartition) : c.eofs = 1 :=
  if_pos h

theorem ControlMsg.eofs_of_ne {c : ControlMsg} (h : c.type ≠ .endOfPartition) : c.eofs = 0 :=
  if_neg h

namespace Chain

variable {cfg : ChainConfig} {s s' : Chain} {c : ControlMsg} {o : Outcome} {w : ℕ}

/-- The announcements that are being handled, deferred or counted. -/
def load (s : Chain) : ℕ :=
  s.eofCount + (s.todo.map ChainOp.eofs).sum + s.deferredEOF.length

/-- All announcements that have reached the chain. -/
def eofs (s : Chain) : ℕ :=
  s.load + (s.controlCh.map ControlMsg.eofs).sum

theorem load_push (s : Chain) (op : ChainOp) : (s.push op).load = s.load + op.eofs := by
  simp only [load, push, map_cons, sum_cons]
  omega

/-- What a step does to the announcements: as long as the chain goes on running, `handled`
more of them are accounted for. -/
structure Keeps (s s' : Chain) (handled : ℕ) : Prop where
  load : s'.exit = none → s'.load = s.load + handled
  eofCount : s.eofCount ≤ s'.eofCount
  endPending : s'.endPending = s.endPending

variable {n : ℕ} {t : Chain} {op : ChainOp} {rest : List ChainOp} {a : Act}

theorem Keeps.leave (reason : ExitReason) (hcount : s.eofCount ≤ t.eofCount)
    (hend : t.endPending = s.endPending) : Keeps s (t.leave cfg reason) n :=
  ⟨fun h => by simp [Chain.leave] at h, hcount, hend⟩

/-- Going on with code that handles no announcement. -/
theorem Keeps.push (h : Keeps s t n) (hop : op.eofs = 0) : Keeps s (t.push op) n := by
  refine { h with load := fun hexit => ?_ }
  rw [load_push, hop, h.load hexit, Nat.add_zero]

theorem Keeps.refl (s : Chain) : Keeps s s 0 :=
  ⟨fun _ => rfl, le_rfl, rfl⟩

theorem handleControl_keeps (cfg : ChainConfig) (s : Chain) (c : ControlMsg) :
    Keeps s (handleControl cfg s c) c.eofs := by
  obtain ⟨cp, hend, hhandled⟩ := handled cfg s c
  generalize handleControl cfg s c = t at hhandled
  -- forgetting a resolved upload touches nothing that is counted
  have hdrop : Keeps s { s with checkpoint := cp } 0 := ⟨fun _ => rfl, le_rfl, hend⟩
  cases hhandled with
  | left | overrun => exact .leave _ le_rfl hend
  | returned hc =>
    rw [ControlMsg.eofs_of_ne hc]
    exact hdrop
  | deferred hc =>
    rw [ControlMsg.eofs_of_eq hc]
    refine ⟨fun _ => ?_, le_rfl, hend⟩
    simp only [load, length_append, length_singleton]
    omega
  | counted op hc _ hop =>
    rw [ControlMsg.eofs_of_eq hc]
    have hcounted : Keeps s { s with checkpoint := cp, eofCount := s.eofCount + 1 } 1 :=
      ⟨fun _ => by simp only [load]; omega, Nat.le_succ _, hend⟩
    rcases hop with rfl | ⟨rfl, -⟩ <;> exact hcounted.push rfl
  | aborting hc =>
    rw [ControlMsg.eofs_of_ne (by simp [hc])]
    exact (hdrop.push rfl).push rfl
  | epilogue hc =>
    rw [ControlMsg.eofs_of_ne hc]
    exact hdrop.push rfl
  | barrier hc | committing hc | draining hc | nested hc | abortSink hc | abortCheckpoint hc
  | shutdown hc =>
    rw [ControlMsg.eofs_of_ne (by simp [hc])]
    exact Keeps.push ⟨fun _ => rfl, le_rfl, hend⟩ rfl

theorem Keeps.processEvent (h : Keeps s t n) (e : Event) :
    Keeps s (processEvent cfg t e o w) n := by
  unfold Chain.processEvent
  split
  · exact { h with }
  · dsimp only
    split
    · exact { h with }
    · exact .leave _ h.eofCount h.endPending

theorem drainInputCh_keeps (s : Chain) {again done : ChainOp} (hagain : again.eofs = 0)
    (hdone : done.eofs = 0) : Keeps s (drainInputCh cfg s again done o w) 0 := by
  unfold drainInputCh
  split
  · exact (Keeps.refl s).push hdone
  · next e rest _ =>
    have hpush : Keeps s ({ s with inputCh := rest }.push again) 0 :=
      .push ⟨fun _ => rfl, le_rfl, rfl⟩ hagain
    exact hpush.processEvent e

theorem barrierStep_keeps (stage : BarrierStage) : Keeps s (barrierStep cfg s c o w stage) 0 := by
  cases stage with
  | drain => exact drainInputCh_keeps s rfl rfl
  | submit =>
    cases hcp : s.checkpoint with
    | none =>
      simp only [barrierStep, hcp]
      exact (Keeps.refl s).push rfl
    | some cp =>
      simp only [barrierStep, hcp]
      repeat' split
      · exact .push ⟨fun _ => rfl, le_rfl, by simp [endPending, hcp]⟩ rfl
      · exact .push ⟨fun _ => rfl, le_rfl, by simp [endPending, hcp]⟩ rfl
      · exact .leave _ le_rfl (by simp [endPending, hcp])
  | _ =>
    simp only [barrierStep]
    repeat' split
    all_goals first
      | exact .leave _ le_rfl rfl
      | exact .push ⟨fun _ => rfl, le_rfl, rfl⟩ rfl

/-- Deferred announcements are taken up again. -/
theorem epilogueStep_keeps (hdeferred : ∀ c ∈ s.deferredEOF, c.type = .endOfPartition) :
    Keeps s (epilogueStep s) 0 := by
  unfold epilogueStep
  split
  · exact .refl s
  · split
    · exact .push ⟨fun _ => rfl, le_rfl, rfl⟩ rfl
    · refine ⟨fun _ => ?_, le_rfl, rfl⟩
      have hall : ((s.deferredEOF.map ChainOp.handle).map ChainOp.eofs).sum =
          s.deferredEOF.length := by
        have hone : ∀ c ∈ s.deferredEOF, (ChainOp.eofs ∘ ChainOp.handle) c = 1 := fun c hc =>
          ControlMsg.eofs_of_eq (hdeferred c hc)
        rw [map_map, map_congr_left hone]
        simp
      simp only [load, map_append, sum_append, hall, length_nil]
      omega

/-- **Announcements are conserved** by the code of a message, and the end is deferred only
where the chain ends. -/
theorem opStep_keeps (hinv : Inv cfg s) (hop : op ≠ .chainEnd)
    (hstep : opStep cfg { s with todo := rest } o w op = some s') :
    Keeps { s with todo := rest } s' op.eofs := by
  cases op with
  | handle c =>
    cases hstep
    exact handleControl_keeps ..
  | barrier c stage =>
    cases hstep
    exact barrierStep_keeps stage
  | chainEnd => exact absurd rfl hop
  | endOfPartition | drainInputs =>
    cases hstep
    exact drainInputCh_keeps _ rfl rfl
  | epilogue =>
    cases hstep
    exact epilogueStep_keeps hinv.deferredEOF
  | abortCheckpoint c =>
    cases hstep
    refine .push ⟨fun _ => rfl, le_rfl, ?_⟩ rfl
    exact dropPendingIf_endPending { s with todo := rest } c.identity true
  | _ =>
    simp only [opStep, abortDrainStep, commitStep, abortSinkStep] at hstep
    repeat' split at hstep
    all_goals cases hstep
    all_goals first
      | exact .leave _ le_rfl rfl
      | exact .push ⟨fun _ => rfl, le_rfl, rfl⟩ rfl
      | apply Keeps.processEvent
        exact Keeps.push ⟨fun _ => rfl, le_rfl, rfl⟩ rfl

theorem emitChainEnd_exit (s : Chain) : (emitChainEnd cfg s o).exit ≠ none := by
  unfold emitChainEnd
  repeat' split
  all_goals simp [fail, leave]

/-- The end of the chain is deferred, announced, or fails. -/
theorem chainEnd_cases
    (hstep : opStep cfg { s with todo := rest } o w .chainEnd = some s') (hexit : s'.exit = none) :
    ∃ cp : ChainCheckpointState,
      s' = { s with todo := rest, checkpoint := some { cp with endPending := true } } := by
  rw [← Option.some.inj hstep] at hexit ⊢
  unfold chainEndStep at hexit ⊢
  repeat' split at hexit
  · exact absurd hexit (emitChainEnd_exit _)
  · exact absurd hexit (emitChainEnd_exit _)
  · next cp hcp hne =>
    exact ⟨cp, by simp [hne]⟩

/-- The main loop takes announcements from the control channel and does nothing else to
them. -/
theorem loopStep_eofs (htodo : s.todo = []) (hstep : loopStep cfg s a = some s')
    (hexit : s'.exit = none) : s'.eofs = s.eofs ∧ s'.eofCount = s.eofCount ∧
      s'.endPending = s.endPending := by
  cases turn_of_loopStep hstep with
  | received c rest hch =>
    refine ⟨?_, rfl, rfl⟩
    simp only [eofs, load, receive, emit, hch, htodo, map_cons, map_nil, sum_cons,
      sum_nil, ChainOp.eofs]
    omega
  | processed e =>
    obtain ⟨dirty, trace, exit, heq⟩ := processEvent_eq cfg _ e _ _
    rw [heq]
    exact ⟨rfl, rfl, rfl⟩
  | turned cp phase _ hend => exact ⟨rfl, rfl, hend⟩
  | ended => exact absurd hexit (emitChainEnd_exit _)
  | failed => simp [fail, leave] at hexit

/-- **Announcements are conserved** by every step that leaves the chain running. -/
theorem Inv.step_eofs (hinv : Inv cfg s) (hstep : s.step cfg a = some s')
    (hexit : s'.exit = none) : s'.eofs = s.eofs ∧ s.eofCount ≤ s'.eofCount ∧
      (s'.endPending = true → s.endPending = true ∨ s.todo.head? = some .chainEnd) := by
  obtain ⟨-, ⟨o, -, -, rfl⟩ | ⟨o, w, op, rest, -, -, htodo, hop⟩ | ⟨-, htodo, hloop⟩⟩ :=
    step_cases hstep
  · unfold Chain.startStep at hexit ⊢
    repeat' split
    all_goals exact ⟨rfl, le_rfl, .inl⟩
  · have hch : s'.controlCh = s.controlCh := congrArg Prod.snd (opStep_loopState hop)
    have hload : s.load = ({ s with todo := rest } : Chain).load + op.eofs := by
      rw [← load_push, push, ← htodo]
    by_cases hend : op = .chainEnd
    · subst hend
      obtain ⟨cp, rfl⟩ := chainEnd_cases hop hexit
      refine ⟨?_, le_rfl, fun _ => .inr (by rw [htodo]; rfl)⟩
      simp only [eofs, hload]
      rfl
    · have hkeeps := opStep_keeps hinv hend hop
      refine ⟨?_, hkeeps.eofCount, fun h => .inl (hkeeps.endPending ▸ h)⟩
      simp only [eofs, hch, hkeeps.load hexit, hload]
  · obtain ⟨heofs, hcount, hend⟩ := loopStep_eofs htodo hloop hexit
    exact ⟨heofs, hcount.ge, fun h => .inl (hend ▸ h)⟩

end Chain

namespace Task

variable {cfg : ChainConfig} {t t' : Task} {i : ℕ} {inboxes : ℕ → List InputMsg}
  {maxBufferSize : ℕ}

/-! ## Stopped readers -/

/-- The inputs whose readers have announced their end. -/
def stopped (cfg : ChainConfig) (t : Task) : Finset ℕ :=
  (Finset.range cfg.numInputs).filter fun i => (t.readers i).pc = .stopped

@[simp] theorem mem_stopped {j : ℕ} :
    j ∈ stopped cfg t ↔ j < cfg.numInputs ∧ (t.readers j).pc = .stopped := by
  simp [stopped]

/-- A reader that stops sends one announcement; no other step of a reader stops it or sends
one. -/
theorem Reads.eofs (hi : i < cfg.numInputs) (h : Reads t i t') :
    t'.chain.eofs + (stopped cfg t).card = t.chain.eofs + (stopped cfg t').card := by
  have hgoes : ∀ {r : Reader} {u : Task} {pc : ReaderPc}, (t.readers i).pc = pc → pc ≠ .stopped →
      u.readers = Function.update t.readers i r → r.pc ≠ .stopped → u.chain.eofs = t.chain.eofs →
      u.chain.eofs + (stopped cfg t).card = t.chain.eofs + (stopped cfg u).card := by
    intro r u pc hpc hne hreaders hr heofs
    have hset : stopped cfg u = stopped cfg t := by
      ext j
      rw [mem_stopped, mem_stopped, hreaders]
      by_cases hj : j = i
      · subst hj
        simp [hr, hpc, hne]
      · rw [Function.update_of_ne hj]
    rw [hset, heofs]
  cases h with
  | finish rest hreading hinbox =>
    have hset : stopped cfg ((t.setReader i
        ((t.readers i).consume .endOfPartition rest .stopped)).sendControl
          { type := .endOfPartition, inputIndex := i }) = insert i (stopped cfg t) := by
      ext j
      by_cases hj : j = i
      · subst hj
        simp [setReader, sendControl, Reader.consume, hi]
      · simp [setReader, sendControl, hj]
    have hnot : i ∉ stopped cfg t := by simp [hreading]
    rw [hset, Finset.card_insert_of_notMem hnot]
    simp only [Chain.eofs, Chain.load, setReader, sendControl, map_append, sum_append,
      map_cons, map_nil, sum_cons, sum_nil, ControlMsg.eofs, if_true]
    omega
  | buffer m rest e ba hreading | hold m rest e hreading | send e hreading | mark b hreading =>
    exact hgoes hreading (by simp) rfl (by rintro ⟨⟩) rfl
  | notify b hreading =>
    refine hgoes hreading (by simp) rfl (by rintro ⟨⟩) ?_
    simp [Chain.eofs, Chain.load, setReader, sendControl, ControlMsg.eofs]
  | barrier b rest pc hreading hinbox hpc =>
    refine hgoes hreading (by simp) rfl ?_ rfl
    rcases hpc with rfl | rfl | rfl <;> rintro ⟨⟩

/-! ## The end of the chain -/

/-- What holds of a running task on its way to the end. -/
structure Ending (cfg : ChainConfig) (t : Task) : Prop where
  /-- Every stopped reader has announced its end exactly once. -/
  announced : t.chain.eofs = (stopped cfg t).card
  /-- The end is near only when every input has ended. -/
  counted : t.chain.todo.head? = some .endOfPartition ∨ t.chain.todo.head? = some .chainEnd ∨
    t.chain.endPending = true → cfg.numInputs ≤ t.chain.eofCount
  /-- Behind the last drain no item is left in the event channel. -/
  emptied : t.chain.todo.head? = some .chainEnd ∨ t.chain.endPending = true →
    ∀ i, inputItems i t.chain.inputCh = []

/-- Once as many ends are counted as there are inputs, every reader has stopped. -/
theorem Ending.all_stopped (h : Ending cfg t) (hcount : cfg.numInputs ≤ t.chain.eofCount)
    (hi : i < cfg.numInputs) : (t.readers i).pc = .stopped := by
  have hle : t.chain.eofCount ≤ (stopped cfg t).card := by
    rw [← h.announced]
    simp only [Chain.eofs, Chain.load]
    omega
  have hsub : stopped cfg t ⊆ Finset.range cfg.numInputs := Finset.filter_subset _ _
  have heq : stopped cfg t = .range cfg.numInputs :=
    Finset.eq_of_subset_of_card_le hsub (by simpa using hcount.trans hle)
  have hmem : i ∈ stopped cfg t := heq ▸ Finset.mem_range.mpr hi
  exact (mem_stopped.mp hmem).2

theorem Ending.chain (h : Ending cfg t) (hinv : t.chain.Inv cfg) (hreaders : t'.readers = t.readers)
    {b : Chain.Act} (hstep : t.chain.step cfg b = some t'.chain) (hexit : t'.chain.exit = none) :
    Ending cfg t' := by
  obtain ⟨heofs, hcount, hend⟩ := hinv.step_eofs hstep hexit
  have hstopped : stopped cfg t' = stopped cfg t := by
    ext j
    rw [mem_stopped, mem_stopped, hreaders]
  have hqueued : (∀ i, inputItems i t.chain.inputCh = []) →
      ∀ i, inputItems i t'.chain.inputCh = [] := by
    intro hnil i
    rcases (hinv.moves hstep).queued with hsame | ⟨e, hcons⟩
    · rw [show t'.chain.inputCh = t.chain.inputCh from hsame]
      exact hnil i
    · have := hnil i
      rw [show t.chain.inputCh = e :: t'.chain.inputCh from hcons, inputItems_cons,
        append_eq_nil_iff] at this
      exact this.2
  have hpass : ∀ p : ChainOp, p = .endOfPartition ∨ p = .chainEnd →
      t'.chain.todo.head? = some p → cfg.numInputs ≤ t'.chain.eofCount ∧
        (p = .chainEnd → ∀ i, inputItems i t'.chain.inputCh = []) := by
    intro p hend hp
    obtain ⟨-, ⟨o, -, -, heq⟩ | ⟨o, w, op, rest, -, -, htodo, hop⟩ | ⟨-, htodo, hloop⟩⟩ :=
      Chain.step_cases hstep
    · have hp' : t.chain.todo.head? = some p := by rwa [heq, Chain.startStep_todo] at hp
      have hch : t'.chain.inputCh = t.chain.inputCh :=
        heq ▸ congrArg Stock.queued (Chain.stock_startStep cfg t.chain o)
      rw [hch]
      refine ⟨(h.counted ?_).trans hcount, fun hend => h.emptied (.inl (hend ▸ hp'))⟩
      rcases hend with rfl | rfl
      · exact .inl hp'
      · exact .inr (.inl hp')
    · have hgated : p.gated = true := by rcases hend with rfl | rfl <;> rfl
      have hpasses := Chain.opStep_passes hinv htodo hop hp hgated
      cases hpasses with
      | ended c hall => exact ⟨hall, nofun⟩
      | ending hsame =>
        rw [hsame]
        exact ⟨h.counted (.inl (by rw [htodo]; rfl)), nofun⟩
      | emptied hsame hstock hch =>
        rw [hsame, show t'.chain.inputCh = t.chain.inputCh from congrArg Stock.queued hstock, hch]
        exact ⟨h.counted (.inl (by rw [htodo]; rfl)), fun _ _ => rfl⟩
      | aligned | draining | drained | staged => simp at hend
    · rcases Chain.loopStep_todo htodo hloop with ⟨d, rest, -, heq⟩ | hnil
      · rw [heq] at hp
        rw [← Option.some.inj hp] at hend
        simp at hend
      · simp [hnil] at hp
  refine ⟨by rw [heofs, h.announced, hstopped], ?_, ?_⟩
  · rintro (hp | hp | hp)
    · exact (hpass _ (.inl rfl) hp).1
    · exact (hpass _ (.inr rfl) hp).1
    · rcases hend hp with hp | hp
      · exact (h.counted (.inr (.inr hp))).trans hcount
      · exact (h.counted (.inr (.inl hp))).trans hcount
  · rintro (hp | hp)
    · exact (hpass _ (.inr rfl) hp).2 rfl
    · exact hqueued (h.emptied (.symm (hend hp)))

theorem Reads.pc_ne_stopped (h : Reads t i t') : (t.readers i).pc ≠ .stopped := by
  intro hpc
  cases h <;> simp_all

/-- What a reader does touches neither the position of the chain nor its count. -/
theorem Reads.position (h : Reads t i t') : t'.chain.exit = t.chain.exit ∧
    t'.chain.todo = t.chain.todo ∧ t'.chain.endPending = t.chain.endPending ∧
    t'.chain.eofCount = t.chain.eofCount := by
  cases h <;> exact ⟨rfl, rfl, rfl, rfl⟩

theorem Ending.reads (h : Ending cfg t) (hi : i < cfg.numInputs) (hreads : Reads t i t') :
    Ending cfg t' := by
  obtain ⟨-, htodo, hend, hcount⟩ := hreads.position
  refine ⟨?_, by rw [htodo, hend, hcount]; exact h.counted, ?_⟩
  · have := hreads.eofs hi
    have := h.announced
    omega
  · rw [htodo, hend]
    intro hnear
    exact absurd (h.all_stopped (h.counted (.inr hnear)) hi) hreads.pc_ne_stopped

theorem Ending.sends {events : List Event} {messages : List ControlMsg} (h : Ending cfg t)
    (hsends : Sends t t' events messages) : Ending cfg t' := by
  have hstopped : stopped cfg t' = stopped cfg t := by
    ext j
    rw [mem_stopped, mem_stopped, hsends.readers]
  have hnone : (messages.map ControlMsg.eofs).sum = 0 := by
    rw [map_congr_left fun c hc => ControlMsg.eofs_of_ne (hsends.messages c hc)]
    simp
  refine ⟨?_, ?_, ?_⟩
  · rw [hstopped, ← h.announced, hsends.chain]
    simp [Chain.eofs, Chain.load, hnone]
  · rw [hsends.chain]
    exact h.counted
  · rw [hsends.chain]
    intro hnear i
    simpa [hsends.inputItems i] using h.emptied hnear i

/-- **The way to the end**, in every run. -/
theorem ending {ok : Task → Act → Prop}
    (h : Reaches (step cfg) ok (initial cfg maxBufferSize inboxes) t)
    (hexit : t.chain.exit = none) : Ending cfg t := by
  refine h.invariant (P := fun t => t.chain.exit = none → Ending cfg t) ?_ ?_ hexit
  · intro _
    have hend : (Chain.initial cfg maxBufferSize).endPending = false := by
      unfold Chain.initial Chain.endPending
      split <;> rfl
    refine ⟨?_, ?_, ?_⟩
    · have hnone : stopped cfg (initial cfg maxBufferSize inboxes) = ∅ :=
        Finset.filter_eq_empty_iff.mpr fun i _ => nofun
      rw [hnone]
      rfl
    · rintro (hp | hp | hp)
      · simp [initial, Chain.initial] at hp
      · simp [initial, Chain.initial] at hp
      · simp [initial, hend] at hp
    · exact fun _ _ => rfl
  · intro t a t' hreach hending _ hstep hexit'
    rcases step_cases hstep with
      ⟨b, -, hreaders, hchain⟩ | ⟨i, hi, hreads⟩ | ⟨events, messages, hsends⟩
    · have hexit := Chain.exit_eq_none_of_step hchain
      exact (hending hexit).chain (chain_inv hreach hexit) hreaders hchain hexit'
    · exact (hending (hreads.position.1 ▸ hexit')).reads hi hreads
    · rw [hsends.chain] at hexit'
      exact (hending hexit').sends hsends

/-! ## What has been processed at the end -/

/-- The data records among a list of events. -/
def records (events : List Event) : List Event :=
  events.filter Event.isData

theorem records_append (l m : List Event) : records (l ++ m) = records l ++ records m :=
  filter_append ..

/-- Every record a reader has dispatched has been processed exactly once. -/
def Complete (cfg : ChainConfig) (t : Task) : Prop :=
  ∀ i < cfg.numInputs,
    (records (inputItems i (processedEvents t.chain.trace))).Perm (records (t.dispatched i))

/-- No input has dispatched a record since it reported the active barrier. -/
def NothingBehindBarriers (t : Task) : Prop :=
  ∀ i ∈ t.chain.aligner.arrived, ∀ m, .dataRecord m ∉ (t.readers i).since

theorem records_itemsOf_eq_nil {messages : List InputMsg} :
    records (itemsOf i messages) = [] ↔ ∀ m, .dataRecord m ∉ messages := by
  induction messages with
  | nil => simp [records]
  | cons x messages ih =>
    rw [itemsOf_cons, records_append, append_eq_nil_iff, ih]
    cases x with
    | dataRecord m =>
      refine iff_of_false (fun h => ?_) (fun h => h m mem_cons_self)
      simp [records, InputMsg.item, Event.isData, dataEvent] at h
    | _ => simp [records, InputMsg.item, Event.isData, watermarkBoundary]

/-- At the announced end the items of an input are processed or in its side buffer. -/
theorem dispatched_perm_at_end {a : Act} {later : List Obs} (htxn : cfg.txnSink = false)
    (hreach : Reachable (step cfg) (initial cfg maxBufferSize inboxes) t)
    (hstep : t.step cfg a = some t')
    (hend : t'.chain.trace = t.chain.trace ++ .outputEnd :: later) (hi : i < cfg.numInputs) :
    (t.dispatched i).Perm
      (inputItems i (processedEvents t.chain.trace) ++ t.chain.aligner.sideBuffers i) := by
  rcases step_cases hstep with ⟨d, -, -, hchain⟩ | ⟨j, -, hreads⟩ | ⟨events, messages, hsends⟩
  · have hexit := Chain.exit_eq_none_of_step hchain
    have hinv := chain_inv hreach hexit
    obtain ⟨obs, txn, heff⟩ := hinv.effect_of_trace hchain hend nofun nofun
    have hnear : t.chain.todo.head? = some .chainEnd ∨
        t.chain.todo.head? = none ∧ t.chain.endPending = true := by
      generalize t.chain.todo.head? = op at heff
      cases heff with
      | ended _ h => exact h
    have hpending : t.chain.pending = [] := by
      refine hinv.pending.resolve_right fun hp => ?_
      rcases hnear with h | ⟨h, -⟩ <;> simp [h] at hp
    have hending := ending hreach hexit
    have hnear' := hnear.imp_right And.right
    have hstopped := hending.all_stopped (hending.counted (.inr hnear')) hi
    have hitems : t.items i =
        inputItems i (processedEvents t.chain.trace) ++ t.chain.aligner.sideBuffers i := by
      simp [items, Stock.items, Chain.stock, hpending, (hinv.plain htxn).2.2.1,
        hending.emptied hnear' i, hstopped, ReaderPc.hand]
    exact hitems ▸ dispatched_perm_items hreach i
  · exfalso
    cases hreads <;> simp [setReader, setAligner, sendEvent, sendControl, markBarrier] at hend
  · exfalso
    rw [hsends.chain] at hend
    simp at hend

/-- **What can be lost at the end.**  When the chain of a task without a transactional sink
announces its end, every record that was read has been processed exactly once if and only if
no input has dispatched a record since it reported the barrier that is still active. -/
theorem outputEnd_complete_iff (cfg : ChainConfig) (maxBufferSize : ℕ)
    (inboxes : ℕ → List InputMsg) (t t' : Task) (a : Act) (later : List Obs)
    (htxn : cfg.txnSink = false)
    (hreach : Reachable (step cfg) (initial cfg maxBufferSize inboxes) t)
    (hstep : t.step cfg a = some t')
    (hend : t'.chain.trace = t.chain.trace ++ .outputEnd :: later) :
    Complete cfg t ↔ NothingBehindBarriers t := by
  have htracks := tracks hreach
  have hbuffered : ∀ i < cfg.numInputs,
      (records (inputItems i (processedEvents t.chain.trace))).Perm (records (t.dispatched i)) ↔
        records (t.chain.aligner.sideBuffers i) = [] := by
    intro i hi
    have hperm : (records (t.dispatched i)).Perm
        (records (inputItems i (processedEvents t.chain.trace)) ++
          records (t.chain.aligner.sideBuffers i)) := by
      rw [← records_append]
      exact (dispatched_perm_at_end htxn hreach hstep hend hi).filter _
    constructor
    · intro hcomplete
      have hlength := (hcomplete.trans hperm).length_eq
      rw [length_append] at hlength
      exact eq_nil_of_length_eq_zero (by omega)
    · intro hnil
      rw [hnil, append_nil] at hperm
      exact hperm.symm
  have hsince : ∀ i ∈ t.chain.aligner.arrived, records (t.chain.aligner.sideBuffers i) = [] ↔
      ∀ m, .dataRecord m ∉ (t.readers i).since := by
    intro i hi
    obtain ⟨-, -, hitems⟩ := (htracks.follows i).reported hi
    rw [← hitems, records_itemsOf_eq_nil]
  constructor
  · intro hcomplete i hi
    have hlt : i < cfg.numInputs := htracks.numInputs ▸ htracks.wf.arrived_lt i hi
    exact (hsince i hi).mp ((hbuffered i hlt).mp (hcomplete i hlt))
  · intro hnothing i hi
    refine (hbuffered i hi).mpr ?_
    by_cases hmem : i ∈ t.chain.aligner.arrived
    · exact (hsince i hmem).mpr (hnothing i hmem)
    · rw [htracks.wf.sideBuffers_of_notMem hmem]
      rfl

/-- Take a message and run the given number of stretches of its handling. -/
def handling (n : ℕ) : List Act :=
  .chain (.poll .ok) :: List.replicate n (.chain (.resume .ok 0))

/-- The first input has a record before a barrier that the second one never delivers, and nothing
behind it. -/
def plainInboxes : ℕ → List InputMsg
  | 0 => [.dataRecord { value := [1] }, .checkpointBarrier ⟨1, 1⟩, .endOfPartition]
  | 1 => [.endOfPartition]
  | _ => []

/-- The barrier is still active, and nothing is lost. -/
theorem outputEnd_complete_iff_plain :
    ∃ t t', Reachable (step twoInputs) (initial twoInputs 8 plainInboxes) t ∧
      t.step twoInputs (.chain (.resume .ok 0)) = some t' ∧
      t'.chain.trace = t.chain.trace ++ [.outputEnd] ∧ t.chain.aligner.arrived = {0} ∧
      Complete twoInputs t := by
  obtain ⟨t, ht, harrived, hsince, t', hstep, htrace⟩ := reachable_of_run (step twoInputs)
    (initial twoInputs 8 plainInboxes)
    (replicate 6 (.reader 0) ++ [.reader 1, .chain (.start .ok)] ++ handling 1 ++ handling 2 ++
      handling 3)
    (p := fun t => t.chain.aligner.arrived = {0} ∧ (t.readers 0).since = [.endOfPartition] ∧
      ∃ t' ∈ t.step twoInputs (.chain (.resume .ok 0)),
        t'.chain.trace = t.chain.trace ++ [.outputEnd]) (by decide)
  refine ⟨t, t', ht, hstep, htrace, harrived, ?_⟩
  refine (outputEnd_complete_iff twoInputs 8 plainInboxes t t' _ [] rfl ht hstep htrace).mpr ?_
  intro i hi m hm
  rw [harrived, Finset.mem_singleton] at hi
  rw [hi, hsince] at hm
  cases mem_singleton.mp hm

/-- The first input reports a barrier that the second one never delivers, and has one more
record behind it. -/
def strandedInboxes : ℕ → List InputMsg
  | 0 => [.checkpointBarrier ⟨1, 1⟩, .dataRecord { value := [1] }, .endOfPartition]
  | 1 => [.endOfPartition]
  | _ => []

/-- **The gap.**  Both inputs end, the chain announces its end, and the record behind the
barrier is still in its side buffer. -/
theorem outputEnd_strands_record :
    ∃ t t', Reachable (step twoInputs) (initial twoInputs 8 strandedInboxes) t ∧
      t.step twoInputs (.chain (.resume .ok 0)) = some t' ∧
      t'.chain.trace = t.chain.trace ++ [.outputEnd] ∧
      t.dispatched 0 = [dataEvent 0 { value := [1] }] ∧
      t.chain.aligner.sideBuffers 0 = [dataEvent 0 { value := [1] }] ∧
      ¬ Complete twoInputs t := by
  obtain ⟨t, ht, hread, hside, hnone, t', hstep, htrace⟩ := reachable_of_run (step twoInputs)
    (initial twoInputs 8 strandedInboxes)
    (replicate 5 (.reader 0) ++ [.reader 1, .chain (.start .ok)] ++ handling 1 ++
      handling 2 ++ handling 2)
    (p := fun t => t.dispatched 0 = [dataEvent 0 { value := [1] }] ∧
      t.chain.aligner.sideBuffers 0 = [dataEvent 0 { value := [1] }] ∧
      processedEvents t.chain.trace = [] ∧
      ∃ t' ∈ t.step twoInputs (.chain (.resume .ok 0)),
        t'.chain.trace = t.chain.trace ++ [.outputEnd]) (by decide)
  refine ⟨t, t', ht, hstep, htrace, hread, hside, fun hcomplete => ?_⟩
  have hperm := hcomplete 0 (by decide)
  rw [hread, hnone] at hperm
  exact absurd hperm.length_eq (by decide)

end Task
end Wire.Engine
