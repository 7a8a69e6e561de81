import Wire.Engine.ChainEffects

/-!
# The two-phase commit discipline of the chain

A transactional sink is prepared at a barrier and learns its fate from a decision that
arrives later, if ever, among arbitrary other messages.  The results of this file are about
the calls such a sink receives, for every environment of the chain.

Each is a statement about the trace in which an entry is justified by its past:

* a `Write` has, after every earlier successful `PreCommit`, a decision for it;
* a `Commit` has its own identity prepared --- checkpoint and epoch;
* the identities committed grow, beginning above the restored one;
* no event is processed once a decision has aborted the sink.

## How it is proved

`Ledger` ties the trace to the flags of the chain.  Its last field is the point of the
design: while a prepared transaction is undecided, only *quiet* code is left to run.  The
guards at the head of `handleControl` are what keeps it so (`quiet_handleControl`), and
everything else is read off from the effects of a step.
-/

namespace Wire.Engine

open List Option Runs

/-- The message carries the coordinator's decision about the checkpoint `b`. -/
def ControlMsg.decides (c : ControlMsg) (b : CheckpointIdentity) : Prop :=
  c.identity = b ∧
    (c.type = .commitCheckpoint ∨ c.type = .abortCheckpoint ∨ c.type = .abortTransaction)

/-- A decision about `b` is among the received messages. -/
def DecidedIn (b : CheckpointIdentity) (t : List Obs) : Prop :=
  ∃ c, .received c ∈ t ∧ c.decides b

variable {b : CheckpointIdentity} {t : List Obs}

theorem DecidedIn.append (h : DecidedIn b t) (l : List Obs) : DecidedIn b (t ++ l) := by
  obtain ⟨c, hc, hdec⟩ := h
  exact ⟨c, mem_append_left l hc, hdec⟩

/-- Every successful `PreCommit` has been followed by a decision about it. -/
def Decided (t : List Obs) : Prop :=
  ∀ past b future, t = past ++ .preCommit b true :: future → DecidedIn b future

/-- The effect of an observation on which identity is prepared. -/
def preparedAfter : Option CheckpointIdentity → Obs → Option CheckpointIdentity
  | _, .preCommit b true => some b
  | _, .commit _ true => none
  | _, .abort true => none
  | p, _ => p

/-- The identity prepared after the calls in the trace: the last one that was prepared and
neither committed nor aborted since. -/
def preparedOf (t : List Obs) : Option CheckpointIdentity :=
  t.foldl preparedAfter none

/-- The checkpoint of a successful commit. -/
def Obs.committedID : Obs → Option ℕ
  | .commit b true => some b.id
  | _ => none

/-- The checkpoints committed, in order. -/
def committedIDs (t : List Obs) : List ℕ :=
  t.filterMap Obs.committedID

/-- The observations that change which identity is prepared. -/
def Obs.moves : Obs → Bool
  | .preCommit _ ok | .commit _ ok | .abort ok => ok
  | _ => false

/-! ## Traces that grow by inert observations -/

section Inert

variable {t l : List Obs}

theorem preparedAfter_of_inert {p : Option CheckpointIdentity} {o : Obs} (h : o.moves = false) :
    preparedAfter p o = p := by
  cases o <;> simp_all [Obs.moves, preparedAfter]

theorem preparedOf_append_of_inert (h : ∀ o ∈ l, o.moves = false) :
    preparedOf (t ++ l) = preparedOf t := by
  rw [preparedOf, foldl_append]
  induction l with
  | nil => rfl
  | cons o l ih =>
    rw [foldl_cons, preparedAfter_of_inert (h o (by simp))]
    exact ih fun p hp => h p (by simp [hp])

theorem committedIDs_append (t l : List Obs) :
    committedIDs (t ++ l) = committedIDs t ++ committedIDs l :=
  filterMap_append

theorem committedIDs_append_of_inert (h : ∀ o ∈ l, o.moves = false) :
    committedIDs (t ++ l) = committedIDs t := by
  have hl : committedIDs l = [] := filterMap_eq_nil_iff.mpr fun o ho => by
    have := h o ho
    cases o <;> simp_all [Obs.moves, Obs.committedID]
  rw [committedIDs_append, hl, append_nil]

theorem preCommit_notMem_of_inert (h : ∀ o ∈ l, o.moves = false) : .preCommit b true ∉ l :=
  fun hmem => by simpa [Obs.moves] using h _ hmem

theorem Decided.append (ht : Decided t) (h : ∀ b, .preCommit b true ∉ l) : Decided (t ++ l) := by
  intro past b future hsplit
  obtain ⟨mid, hmid, rfl⟩ := Traces.split_of_notMem hsplit (h b)
  exact (ht past b mid hmid).append l

end Inert

/-! ## The ledger -/

/-- The code that runs while a prepared transaction waits for its decision: none of it
processes events.  A message only counts as quiet if it is not that decision. -/
def ChainOp.Quiet (b : CheckpointIdentity) : ChainOp → Prop
  | .handle c => ¬ c.decides b
  | .barrier _ stage => stage ≠ .drain ∧ stage ≠ .prepare
  | .abortSink _ | .shutdown | .epilogue => True
  | _ => False

namespace Chain

/-- The trace and the flags of a running chain agree. -/
structure Ledger (cfg : ChainConfig) (s : Chain) : Prop where
  prepared : preparedOf s.trace = s.transaction.prepared
  committed : ∀ m ∈ cfg.restoredCommitted :: committedIDs s.trace, m ≤ s.lastCommitted
  aborted : .abort true ∉ s.trace
  undecided : ∀ past b future, s.trace = past ++ .preCommit b true :: future →
    DecidedIn b future ∨ s.transaction.prepared = some b
  quiet : Decided s.trace ∨ ∀ op ∈ s.todo, op.Quiet s.prepared

/-- What justifies an entry of the trace. -/
def Disciplined (restored : ℕ) (past : List Obs) : Obs → Prop
  | .write => Decided past
  | .commit b ok => preparedOf past = some b ∧
      (ok = true → ∀ m ∈ restored :: committedIDs past, m < b.id)
  | .processed _ => .abort true ∉ past
  | _ => True

variable {cfg : ChainConfig} {s s' : Chain} {c : ControlMsg} {o : Outcome} {w : ℕ}
  {l : List Obs}

theorem transaction_prepared_eq_some :
    s.transaction.prepared = some b ↔ s.transactionPrepared = true ∧ s.prepared = b := by
  simp only [transaction]
  split <;> simp_all

theorem Ledger.decided_of_open (h : Ledger cfg s) (hp : s.transactionPrepared = false) :
    Decided s.trace := by
  intro past b future hsplit
  refine (h.undecided past b future hsplit).resolve_right fun hb => ?_
  simpa [hp] using (transaction_prepared_eq_some.mp hb).1

/-- At a commit, the identity of its message is the prepared one. -/
theorem Ledger.prepared_of_commit {attempt : ℕ} (h : Ledger cfg s)
    (hat : s.At cfg (.commit c attempt)) : preparedOf s.trace = some c.identity := by
  rw [h.prepared, transaction_prepared_eq_some]
  exact ⟨hat.2.1, hat.2.2.1⟩

/-- The ledger after inert observations. -/
theorem Ledger.append (h : Ledger cfg s) (htrace : s'.trace = s.trace ++ l)
    (hl : ∀ o ∈ l, o.moves = false) (hp : s'.transaction.prepared = s.transaction.prepared)
    (hc : s'.lastCommitted = s.lastCommitted)
    (hquiet : Decided s'.trace ∨ ∀ op ∈ s'.todo, op.Quiet s'.prepared) : Ledger cfg s' where
  prepared := by rw [htrace, preparedOf_append_of_inert hl, hp, h.prepared]
  committed := by rw [htrace, committedIDs_append_of_inert hl, hc]; exact h.committed
  aborted := by
    rw [htrace, mem_append]
    rintro (hmem | hmem)
    · exact h.aborted hmem
    · simpa [Obs.moves] using hl _ hmem
  undecided := by
    intro past b future hsplit
    rw [htrace] at hsplit
    obtain ⟨mid, hmid, rfl⟩ := Traces.split_of_notMem hsplit (preCommit_notMem_of_inert hl)
    rw [hp]
    exact (h.undecided past b mid hmid).imp_left fun hd => hd.append l
  quiet := hquiet

/-! ## Quiet code stays quiet -/

/-- As long as the chain runs, only quiet code is left to run. -/
def Hushed (s : Chain) : Prop :=
  s.exit = none → ∀ op ∈ s.todo, op.Quiet s.prepared

theorem Hushed.leave (reason : ExitReason) : Hushed (s.leave cfg reason) := by
  intro h
  simp [Chain.leave] at h

theorem Hushed.fail (e : ChainError) : Hushed (s.fail cfg e) :=
  .leave _

variable {op : ChainOp} {rest : List ChainOp} {txn : Transaction} {x : Obs} {e : Event}
  {restored writes : ℕ}

theorem Hushed.push (h : ∀ op ∈ s.todo, op.Quiet s.prepared)
    (hop : op.Quiet s.prepared) : Hushed (s.push op) := by
  intro _ op' hop'
  rcases mem_cons.mp hop' with rfl | hmem
  · exact hop
  · exact h op' hmem

/-- **The guards of `handleControl` keep a prepared transaction quiet** under every message
but its own decision. -/
theorem quiet_handleControl (hp : s.transactionPrepared = true) (hc : ¬ c.decides s.prepared)
    (h : ∀ op ∈ s.todo, op.Quiet s.prepared) : Hushed (handleControl cfg s c) := by
  obtain ⟨cp, -, hhandled⟩ := handled cfg s c
  generalize handleControl cfg s c = t at hhandled
  cases hhandled with
  | returned | deferred => exact fun _ => h
  | left | overrun => exact .leave _
  | aborting htype hid => exact absurd ⟨hid.symm, by simp [htype]⟩ hc
  | committing htype _ _ hid => exact absurd ⟨hid.symm, by simp [htype]⟩ hc
  | barrier _ hopen | counted _ _ hopen | draining _ hopen | nested _ hopen
  | abortCheckpoint _ hopen => exact nomatch hp.symm.trans hopen
  | abortSink | shutdown | epilogue => exact .push h trivial

/-- Quiet code is followed by quiet code. -/
theorem quiet_opStep (hinv : Inv cfg s)
    (hp : s.transactionPrepared = true) (htodo : s.todo = op :: rest)
    (h : ∀ op ∈ s.todo, op.Quiet s.prepared)
    (hstep : opStep cfg { s with todo := rest } o w op = some s') : Hushed s' := by
  have hop : op.Quiet s.prepared := h op (by simp [htodo])
  have hrest : ∀ op ∈ rest, op.Quiet s.prepared := fun op hmem => h op (by simp [htodo, hmem])
  cases op with
  | handle c =>
    cases hstep
    exact quiet_handleControl hp hop hrest
  | barrier c stage =>
    cases hstep
    cases stage with
    | drain => exact absurd rfl hop.1
    | prepare => exact absurd rfl hop.2
    | capture =>
      simp only [barrierStep]
      split
      · exact .push hrest ⟨by simp, by simp⟩
      · exact .fail _
    | report =>
      simp only [barrierStep]
      split
      · split
        · split
          · exact .fail _
          · exact .push hrest ⟨by simp, by simp⟩
        · exact .push hrest ⟨by simp, by simp⟩
      · split
        · exact .push hrest ⟨by simp, by simp⟩
        · exact .fail _
    | submit =>
      simp only [barrierStep]
      split
      · exact .push hrest ⟨by simp, by simp⟩
      · split
        · exact .push hrest ⟨by simp, by simp⟩
        · split
          · exact .push hrest ⟨by simp, by simp⟩
          · exact .fail _
    | finish =>
      have htxn : cfg.txnSink = true := by
        by_contra hf
        simpa [hp] using (hinv.plain (by simpa using hf)).1
      simp only [barrierStep, htxn, if_true]
      exact .push hrest trivial
  | abortSink c =>
    cases hstep
    unfold abortSinkStep
    split <;> exact .fail _
  | shutdown =>
    simp only [opStep, hp, Bool.true_eq_false, and_false, if_false] at hstep
    cases hstep
    exact .leave _
  | epilogue =>
    simp only [opStep, epilogueStep, hp, if_true] at hstep
    cases hstep
    exact fun _ => hrest
  | _ => exact hop.elim

/-- Preparing a transaction leaves only quiet code behind: a barrier is never nested. -/
theorem hushed_prepare (hinv : Inv cfg s) (htodo : s.todo = .barrier c .prepare :: rest)
    (hstep : opStep cfg { s with todo := rest } o w (.barrier c .prepare) = some s') :
    Hushed s' := by
  have hrest : rest = [] := (hinv.nested _ _ htodo).resolve_right (by rintro ⟨⟩)
  subst hrest
  cases hstep
  simp only [barrierStep]
  split
  · exact .push (by simp) ⟨by simp, by simp⟩
  · split
    · exact .fail _
    · split
      · exact .push (by rintro _ ⟨⟩) ⟨by rintro ⟨⟩, by rintro ⟨⟩⟩
      · exact .fail _

/-! ## Steps and runs -/

/-- The trace is disciplined, and while the chain runs its flags agree with it. -/
structure Recorded (cfg : ChainConfig) (s : Chain) : Prop where
  justified : Traces.Justified (Disciplined cfg.restoredCommitted) s.trace
  ledger : s.exit = none → Ledger cfg s

theorem justified_cleanup (h : Traces.Justified (Disciplined cfg.restoredCommitted) t) (b : Bool)
    (txn : Transaction) : Traces.Justified (Disciplined cfg.restoredCommitted)
      (t ++ if b then txn.cleanup cfg else []) := by
  refine h.append fun before o after hsplit => ?_
  have hmem : o ∈ (if b then txn.cleanup cfg else []) := by simp [hsplit]
  have : o = .cleanupAbort := by
    unfold Transaction.cleanup at hmem
    split at hmem
    · split at hmem
      · simpa using hmem
      · simp at hmem
    · simp at hmem
  subst this
  trivial

theorem justified_of_ends (h : Traces.Justified (Disciplined cfg.restoredCommitted) s.trace)
    (hends : Ends cfg s s' [x] txn) (hx : Disciplined cfg.restoredCommitted s.trace x) :
    Traces.Justified (Disciplined cfg.restoredCommitted) s'.trace := by
  rw [hends.trace]
  exact justified_cleanup (h.snoc hx) _ _

/-- A step whose observations are inert keeps the record, if it keeps quiet. -/
theorem Recorded.inert (h : Recorded cfg s) (hexit : s.exit = none)
    (hends : Ends cfg s s' l txn) (hp : txn.prepared = s.transaction.prepared)
    (hc : txn.lastCommitted = s.lastCommitted) (hl : ∀ o ∈ l, o.moves = false)
    (hj : ∀ before o after, l = before ++ o :: after →
      Disciplined cfg.restoredCommitted (s.trace ++ before) o)
    (hquiet : Decided s.trace ∨ Hushed s') : Recorded cfg s' := by
  refine ⟨?_, fun hexit' => ?_⟩
  · rw [hends.trace]
    exact justified_cleanup (h.justified.append hj) _ _
  · have htrace : s'.trace = s.trace ++ l := by simpa [hexit'] using hends.trace
    have htxn := hends.running hexit'
    refine (h.ledger hexit).append htrace hl (by rw [htxn, hp]) ?_ ?_
    · have := congrArg Transaction.lastCommitted htxn
      rw [hc] at this
      exact this
    · rcases hquiet with hd | hhush
      · exact .inl (htrace ▸ hd.append fun _ => preCommit_notMem_of_inert hl)
      · exact .inr (hhush hexit')

/-- The observations of processing one event are justified once everything prepared is
decided and nothing was aborted. -/
theorem disciplined_processed (hd : Decided t)
    (ha : .abort true ∉ t) (before : List Obs) (x : Obs) (after : List Obs)
    (hsplit : .processed e :: replicate writes .write = before ++ x :: after) :
    Disciplined restored (t ++ before) x := by
  cases before with
  | nil =>
    obtain ⟨rfl, -⟩ := cons.inj hsplit
    simpa [Disciplined] using ha
  | cons p before =>
    obtain ⟨rfl, hrest⟩ := cons.inj hsplit
    have hwrite : ∀ y ∈ before ++ x :: after, y = .write := fun y hy =>
      (mem_replicate.mp (hrest.symm ▸ hy : y ∈ replicate writes .write)).2
    rw [hwrite x (by simp)]
    refine hd.append fun b hmem => ?_
    rcases mem_cons.mp hmem with hb | hb
    · exact Obs.noConfusion hb
    · exact Obs.noConfusion (hwrite _ (mem_append_left _ hb))

theorem Recorded.processed (h : Recorded cfg s)
    (hexit : s.exit = none) (hends : Ends cfg s s' (.processed e :: replicate writes .write) txn)
    (hp : txn.prepared = s.transaction.prepared) (hc : txn.lastCommitted = s.lastCommitted)
    (hd : Decided s.trace) : Recorded cfg s' := by
  refine h.inert hexit hends hp hc ?_ (disciplined_processed hd (h.ledger hexit).aborted) (.inl hd)
  intro x hx
  rcases mem_cons.mp hx with rfl | hx
  · rfl
  · rw [(mem_replicate.mp hx).2]
    rfl

/-- A single observation that needs no justification. -/
theorem disciplined_singleton (hx : Disciplined restored t x)
    (before : List Obs) (y : Obs) (after : List Obs) (hsplit : [x] = before ++ y :: after) :
    Disciplined restored (t ++ before) y := by
  cases before with
  | nil =>
    obtain ⟨rfl, -⟩ := cons.inj hsplit
    simpa using hx
  | cons p before => simp at hsplit

theorem moves_singleton (hx : x.moves = false) : ∀ y ∈ [x], y.moves = false := by
  intro y hy
  rw [mem_singleton.mp hy]
  exact hx

/-- The ledger after a successful `PreCommit`. -/
theorem Ledger.preCommitted (h : Ledger cfg s) (hp : s.transactionPrepared = false)
    (htrace : s'.trace = s.trace ++ [.preCommit b true]) (hb : s'.transaction.prepared = some b)
    (hc : s'.lastCommitted = s.lastCommitted) (hquiet : ∀ op ∈ s'.todo, op.Quiet s'.prepared) :
    Ledger cfg s' where
  prepared := by rw [htrace, hb, preparedOf, foldl_append]; rfl
  committed := by
    have hnone : committedIDs [.preCommit b true] = [] := rfl
    rw [htrace, committedIDs_append, hnone, append_nil, hc]
    exact h.committed
  aborted := by simpa [htrace] using h.aborted
  undecided := by
    intro past b' future hsplit
    rw [htrace] at hsplit
    by_cases hbb : b' = b
    · exact .inr (hbb ▸ hb)
    · obtain ⟨mid, hmid, rfl⟩ := Traces.split_of_notMem hsplit (by simpa using hbb)
      exact .inl ((h.decided_of_open hp past b' mid hmid).append _)
  quiet := .inr hquiet

/-- The ledger after a successful `Commit`. -/
theorem Ledger.committed_of (h : Ledger cfg s) (hd : Decided s.trace) (hlt : s.lastCommitted < b.id)
    (htrace : s'.trace = s.trace ++ [.commit b true]) (hp : s'.transaction.prepared = none)
    (hc : s'.lastCommitted = b.id) : Ledger cfg s' := by
  have hids : cfg.restoredCommitted :: committedIDs s'.trace =
      (cfg.restoredCommitted :: committedIDs s.trace) ++ [b.id] := by
    rw [htrace, committedIDs_append]
    rfl
  have hdec : Decided s'.trace := htrace ▸ hd.append (by simp)
  refine ⟨?_, ?_, ?_, ?_, .inl hdec⟩
  · rw [htrace, hp, preparedOf, foldl_append]
    rfl
  · rw [hids, hc]
    intro m hm
    rcases mem_append.mp hm with hm | hm
    · exact ((h.committed m hm).trans_lt hlt).le
    · rw [mem_singleton.mp hm]
  · simpa [htrace] using h.aborted
  · intro past b' future hsplit
    exact .inl (hdec past b' future hsplit)

theorem Recorded.opStep (hinv : Inv cfg s)
    (h : Recorded cfg s) (hexit : s.exit = none) (htodo : s.todo = op :: rest)
    (hstep : opStep cfg { s with todo := rest } o w op = some s') : Recorded cfg s' := by
  have hledger := h.ledger hexit
  have hat : s.At cfg op := hinv.point op (by simp [htodo])
  have hloud : ¬ op.Quiet s.prepared → Decided s.trace := fun hop =>
    hledger.quiet.resolve_right fun hq => hop (hq op (by simp [htodo]))
  have hquiet : Decided s.trace ∨ Hushed s' := by
    rcases hledger.quiet with hd | hq
    · exact .inl hd
    · cases hp : s.transactionPrepared with
      | false => exact .inl (hledger.decided_of_open hp)
      | true => exact .inr (quiet_opStep hinv hp htodo hq hstep)
  obtain ⟨obs, txn, heff, hends⟩ := opStep_effect hinv hexit htodo hstep
  cases heff with
  | silent | deciding | resubmitted =>
    exact h.inert hexit hends rfl rfl (by simp) (by simp) hquiet
  | processed _ e writes hcond =>
    have hd : Decided s.trace := by
      rcases hcond with hp | hop | ⟨c, remaining, hop⟩
      · exact hledger.decided_of_open hp
      · exact hloud (by rw [some.inj hop]; exact id)
      · exact hloud (by rw [some.inj hop]; exact id)
    exact h.processed hexit hends rfl rfl hd
  | preCommitted c =>
    have hhush := hushed_prepare hinv htodo hstep
    refine ⟨?_, fun hexit' => ?_⟩
    · exact justified_of_ends h.justified hends trivial
    · have htxn := hends.running hexit'
      exact hledger.preCommitted hat.1 (by simpa [hexit'] using hends.trace) (by rw [htxn])
        (congrArg Transaction.lastCommitted htxn) (hhush hexit')
  | committed c attempt =>
    refine ⟨?_, fun hexit' => ?_⟩
    · exact justified_of_ends h.justified hends
        ⟨hledger.prepared_of_commit hat, fun _ m hm =>
          (hledger.committed m hm).trans_lt hat.2.2.2.1⟩
    · have htxn := hends.running hexit'
      exact hledger.committed_of (hloud id) hat.2.2.2.1 (by simpa [hexit'] using hends.trace)
        (by rw [htxn]) (congrArg Transaction.lastCommitted htxn)
  | commitFailed c attempt =>
    exact h.inert hexit hends rfl rfl (moves_singleton rfl)
      (disciplined_singleton ⟨hledger.prepared_of_commit hat, nofun⟩) hquiet
  | aborted c =>
    refine ⟨?_, fun hexit' => ?_⟩
    · exact justified_of_ends h.justified hends trivial
    · -- a chain whose sink was aborted by a decision is not running any more
      have halive := (hinv.opStep htodo hstep hexit').alive
      have haborted := congrArg Transaction.aborted (hends.running hexit')
      simp only [transaction, halive] at haborted
      exact absurd haborted (by simp)
  | preCommitFailed | captured | acknowledged | forwarded | submitted | begun | abortFailed
  | ended =>
    exact h.inert hexit hends rfl rfl (moves_singleton rfl) (disciplined_singleton trivial) hquiet

/-- Taking a message: either it is the decision that was waited for, or it is quiet. -/
theorem Ledger.receive (h : Ledger cfg s) (c : ControlMsg) :
    Decided (s.trace ++ [.received c]) ∨ (ChainOp.handle c).Quiet s.prepared := by
  by_cases hc : c.decides s.prepared
  · refine .inl fun past b future hsplit => ?_
    obtain ⟨mid, hmid, rfl⟩ := Traces.split_of_notMem hsplit (by simp)
    rcases h.undecided past b mid hmid with hd | hb
    · exact hd.append _
    · exact ⟨c, by simp, (transaction_prepared_eq_some.mp hb).2 ▸ hc⟩
  · exact .inr hc

theorem Recorded.receive (h : Recorded cfg s) (hexit : s.exit = none) (c : ControlMsg)
    (rest : List ControlMsg) : Recorded cfg (s.receive c rest) := by
  have hledger := h.ledger hexit
  refine ⟨h.justified.snoc trivial, fun _ => ?_⟩
  refine hledger.append rfl (moves_singleton rfl) rfl rfl ?_
  refine (hledger.receive c).imp_right fun hq op hop => ?_
  rw [mem_singleton.mp hop]
  exact hq

/-- Whatever leaves the stack empty is quiet. -/
theorem hushed_of_todo_eq_nil (h : s.todo = []) : Hushed s := by
  intro _ op hop
  simp [h] at hop

theorem Recorded.loopStep {a : Act} (h : Recorded cfg s) (hexit : s.exit = none)
    (htodo : s.todo = []) (hstep : loopStep cfg s a = some s') : Recorded cfg s' := by
  have hledger := h.ledger hexit
  rcases loopStep_todo htodo hstep with ⟨c, rest, -, rfl⟩ | htodo'
  · exact h.receive hexit c rest
  · have hquiet : Decided s.trace ∨ Hushed s' := .inr (hushed_of_todo_eq_nil htodo')
    obtain ⟨obs, txn, heff, hends⟩ := loopStep_effect hexit hstep
    cases heff with
    | silent => exact h.inert hexit hends rfl rfl (by simp) (by simp) hquiet
    | received | ended =>
      exact h.inert hexit hends rfl rfl (moves_singleton rfl) (disciplined_singleton trivial) hquiet
    | processed _ e writes hcond =>
      have hd : Decided s.trace := by
        rcases hcond with hp | hop | ⟨c, remaining, hop⟩
        · exact hledger.decided_of_open hp
        · simp at hop
        · simp at hop
      exact h.processed hexit hends rfl rfl hd

theorem Recorded.startStep (h : Recorded cfg s) (hexit : s.exit = none) :
    Recorded cfg (startStep cfg s o) := by
  have hledger := h.ledger hexit
  have hquiet : ∀ ok, Decided (s.trace ++ [.beginTransaction ok]) ∨
      ∀ op ∈ s.todo, op.Quiet s.prepared := fun _ =>
    hledger.quiet.imp_left fun hd => hd.append (by simp)
  unfold Chain.startStep
  split
  · exact ⟨h.justified, fun _ => hledger.append (append_nil _).symm (by simp) rfl rfl
      hledger.quiet⟩
  · split
    · exact ⟨h.justified.snoc trivial, fun _ => hledger.append rfl (moves_singleton rfl) rfl rfl
        (hquiet true)⟩
    · exact ⟨h.justified.snoc trivial, fun hf => by simp at hf⟩

theorem Recorded.initial (cfg : ChainConfig) (maxBufferSize : ℕ) :
    Recorded cfg (initial cfg maxBufferSize) := by
  refine ⟨.nil, fun _ => ⟨rfl, ?_, nofun, ?_, .inr nofun⟩⟩
  · intro m hm
    rw [mem_singleton.mp hm]
    exact le_rfl
  · intro past b future hsplit
    exact absurd hsplit (by simp [Chain.initial])

/-- The record is kept by every step of the chain and by every change around it. -/
theorem recorded_of_reachable {maxBufferSize : ℕ}
    (h : Reachable (openStep cfg) (initial cfg maxBufferSize) s) : Recorded cfg s := by
  refine h.invariant (P := Recorded cfg) (.initial cfg maxBufferSize) ?_
  intro s a s' hs hrec _ hstep
  cases a with
  | chain a =>
    have hinv := inv_of_reachable hs (exit_eq_none_of_step hstep)
    obtain ⟨hexit, ⟨o, -, -, rfl⟩ | ⟨o, w, op, rest, -, -, htodo, hop⟩ | ⟨-, htodo, hloop⟩⟩ :=
      step_cases hstep
    · exact hrec.startStep hexit
    · exact hrec.opStep hinv hexit htodo hop
    · exact hrec.loopStep hexit htodo hloop
  | surroundings m =>
    cases hstep
    refine ⟨hrec.justified, fun hexit => ?_⟩
    have hledger := hrec.ledger hexit
    exact { hledger with }

/-! ## The discipline -/

/-- The committed checkpoints of a disciplined trace increase from the restored one. -/
theorem committedIDs_increasing (h : Traces.Justified (Disciplined restored) t) :
    (restored :: committedIDs t).Pairwise (· < ·) := by
  induction t using reverseRecOn with
  | nil => exact pairwise_singleton _ _
  | append_singleton t x ih =>
    have ht := ih h.left
    cases hx : x.committedID with
    | none =>
      have hnone : committedIDs [x] = [] := by simp [committedIDs, hx]
      rw [committedIDs_append, hnone, append_nil]
      exact ht
    | some n =>
      have hsome : committedIDs [x] = [n] := by simp [committedIDs, hx]
      have hbelow : ∀ m ∈ restored :: committedIDs t, m < n := by
        have hdisc := h t x [] rfl
        cases x with
        | commit b ok =>
          cases ok
          · simp [Obs.committedID] at hx
          · exact some.inj hx ▸ hdisc.2 rfl
        | _ => simp [Obs.committedID] at hx
      rw [committedIDs_append, hsome, ← cons_append, pairwise_append]
      refine ⟨ht, pairwise_singleton _ _, fun m hm k hk => ?_⟩
      rw [mem_singleton.mp hk]
      exact hbelow m hm

/-- **Two-phase commit discipline.**  Among arbitrary surroundings,

* between a successful `PreCommit` and a later `Write` a decision about it was received;
* `Commit` is only called for the identity that is prepared, on a message that carries it;
* the checkpoints committed are strictly increasing and larger than the restored one;
* after the sink was aborted by a decision no event is processed. -/
theorem two_phase_commit_discipline (cfg : ChainConfig) (maxBufferSize : ℕ) (s : Chain)
    (h : Reachable (openStep cfg) (initial cfg maxBufferSize) s) : (∀ past b between future,
      s.trace = past ++ .preCommit b true :: between ++ .write :: future →
        ∃ c, .received c ∈ between ∧ c.decides b) ∧
    (∀ past b ok future, s.trace = past ++ .commit b ok :: future → preparedOf past = some b) ∧
    (cfg.restoredCommitted :: committedIDs s.trace).Pairwise (· < ·) ∧
    (∀ past future, s.trace = past ++ .abort true :: future → ∀ e, .processed e ∉ future) := by
  have hj := (recorded_of_reachable h).justified
  refine ⟨?_, ?_, committedIDs_increasing hj, ?_⟩
  · intro past b between future hsplit
    have hdecided : Decided (past ++ .preCommit b true :: between) := hj _ _ _ hsplit
    exact hdecided past b between rfl
  · intro past b ok future hsplit
    exact (hj past _ future hsplit).1
  · intro past future hsplit e hmem
    obtain ⟨before, after, rfl⟩ := append_of_mem hmem
    have hnot : .abort true ∉ past ++ .abort true :: before :=
      hj _ (.processed e) after (by simp [hsplit])
    exact hnot (by simp)

/-- A chain with one input whose sink is prepared, committed and written to again. -/
def committedRun : List OpenAct :=
  let record : Event := dataEvent 0 {}
  let barrier : ControlMsg := { type := .barrierReceived, identity := ⟨1, 1⟩ }
  let commit : ControlMsg := { type := .commitCheckpoint, identity := ⟨1, 1⟩ }
  let aligned := ((BarrierAligner.new 1 8).onBarrier 0 ⟨1, 1⟩).1
  [.chain (.start .ok), .surroundings ⟨[record], [barrier, commit], aligned⟩, .chain (.poll .ok)] ++
    replicate 9 (.chain (.resume .ok 1)) ++
    [.chain (.poll .ok)] ++
    replicate 4 (.chain (.resume .ok 0)) ++
    [.surroundings ⟨[record], [], aligned⟩, .chain (.poll .ok), .chain (.recvEvent .ok 1)]

/-- What that chain does. -/
def committedTrace : List Obs :=
  [.beginTransaction true, .received { type := .barrierReceived, identity := ⟨1, 1⟩ },
    .processed (dataEvent 0 {}), .write, .preCommit ⟨1, 1⟩ true, .captured ⟨1, 1⟩ true,
    .acknowledged ⟨1, 1⟩, .received { type := .commitCheckpoint, identity := ⟨1, 1⟩ },
    .commit ⟨1, 1⟩ true, .beginTransaction true, .processed (dataEvent 0 {}), .write]

/-- The discipline is about runs that do take place: here the sink is written to, prepared,
committed under the prepared identity, and written to again. -/
theorem two_phase_commit_discipline_committedRun :
    ∃ s, Reachable (openStep ⟨1, true, true, false, 0⟩) (initial ⟨1, true, true, false, 0⟩ 8) s ∧
      s.trace = committedTrace ∧ preparedOf (committedTrace.take 8) = some ⟨1, 1⟩ := by
  obtain ⟨s, hs, htrace⟩ := reachable_of_run (openStep ⟨1, true, true, false, 0⟩)
    (initial ⟨1, true, true, false, 0⟩ 8) committedRun (p := fun s => s.trace = committedTrace)
    (by decide)
  exact ⟨s, hs, htrace, (two_phase_commit_discipline _ _ s hs).2.1 _ ⟨1, 1⟩ true
    (committedTrace.drop 9) htrace⟩

end Chain
end Wire.Engine
