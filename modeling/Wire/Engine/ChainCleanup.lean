import Wire.Engine.ChainEffects

/-!
# The cleanup when a chain ends

However a chain with a transactional sink ends --- normally, by an error, a panic or a
cancellation --- its deferred cleanup may call the sink's `Abort`.  That is safe for a
transaction that is open and of which nobody has heard; once an acknowledgement may have
reached the coordinator, or a commit was attempted, the decision is no longer the chain's.

`Unreported` is that condition on the calls made so far: the most recent `BeginTransaction`
succeeded, and since then nothing was committed, acknowledged or uploaded.

## What is proved

`cleanup_sound_iff` says exactly when the cleanup respects it: on a run the cleanup only
rolls back an unreported transaction *if and only if* no `BeginTransaction` fails after an
earlier one succeeded.  Sufficiency rests on the decision-pending flag, which covers the
time between the first report and the resolution of the transaction.  Necessity is the one
gap in that cover: a successful commit clears the flag before the next transaction is begun,
so when that begin fails the cleanup calls `Abort` right after a commit
(`cleanup_aborts_after_commit`).
-/

namespace Wire.Engine

open List Option Runs

/-- The calls after which a transaction is no longer open and unreported. -/
def Obs.reports : Obs → Bool
  | .beginTransaction _ | .commit _ _ | .acknowledged _ | .uploadStarted _ => true
  | _ => false

/-- The most recent `BeginTransaction` succeeded, and since then no commit was attempted and
no acknowledgement or upload was started. -/
def Unreported (t : List Obs) : Prop :=
  ∃ before since, t = before ++ .beginTransaction true :: since ∧ ∀ o ∈ since, o.reports = false

/-- Every call of `Abort` by the cleanup finds the transaction unreported. -/
def CleanupSound (t : List Obs) : Prop :=
  ∀ past future, t = past ++ .cleanupAbort :: future → Unreported past

/-- No `BeginTransaction` fails after an earlier one succeeded. -/
def BeginsSucceed (t : List Obs) : Prop :=
  ∀ past future, t = past ++ .beginTransaction false :: future → .beginTransaction true ∉ past

variable {t l : List Obs}

theorem Unreported.append (h : Unreported t) (hl : ∀ o ∈ l, o.reports = false) :
    Unreported (t ++ l) := by
  obtain ⟨before, since, rfl, hsince⟩ := h
  refine ⟨before, since ++ l, by simp, ?_⟩
  intro o ho
  rcases mem_append.mp ho with ho | ho
  · exact hsince o ho
  · exact hl o ho

theorem Unreported.begun (t : List Obs) : Unreported (t ++ [.beginTransaction true]) :=
  ⟨t, [], rfl, nofun⟩

/-- A failed begin is a report that nothing takes back. -/
theorem not_unreported_of_failed_begin (t : List Obs) :
    ¬ Unreported (t ++ [.beginTransaction false]) := by
  rintro ⟨before, since, hsplit, hsince⟩
  obtain ⟨mid, -, rfl⟩ := Traces.split_of_notMem hsplit (by simp)
  simpa [Obs.reports] using hsince (.beginTransaction false) (by simp)

/-- A trace in which nothing has failed or been cleaned up yet. -/
def Untroubled (t : List Obs) : Prop :=
  .beginTransaction false ∉ t ∧ .cleanupAbort ∉ t

theorem Untroubled.append (h : Untroubled t) (hl : Untroubled l) : Untroubled (t ++ l) := by
  refine ⟨fun hmem => ?_, fun hmem => ?_⟩
  · exact (mem_append.mp hmem).elim h.1 hl.1
  · exact (mem_append.mp hmem).elim h.2 hl.2

theorem Untroubled.begins (h : .beginTransaction false ∉ t) : BeginsSucceed t := by
  rintro past future rfl
  exact absurd (by simp) h

theorem Untroubled.cleanup (h : .cleanupAbort ∉ t) : CleanupSound t := by
  rintro past future rfl
  exact absurd (by simp) h

/-- An untroubled trace that ends in a cleanup: the cleanup is the only one. -/
theorem cleanupSound_concat (h : .cleanupAbort ∉ t) (hun : Unreported t) :
    CleanupSound (t ++ [.cleanupAbort]) := by
  intro past future hsplit
  rcases append_eq_append_iff.mp hsplit with ⟨m, hpast, hrest⟩ | ⟨m, ht, hrest⟩
  · cases m with
    | nil =>
      rw [append_nil] at hpast
      exact hpast ▸ hun
    | cons x m => simp at hrest
  · cases m with
    | nil =>
      rw [append_nil] at ht
      exact ht ▸ hun
    | cons x m =>
      obtain ⟨rfl, -⟩ := cons.inj hrest
      exact absurd (by simp [ht]) h

namespace Chain

variable {cfg : ChainConfig} {s s' : Chain} {c : ControlMsg} {o : Outcome} {w : ℕ}

/-- While the chain runs: nothing failed so far, and unless a decision is pending or the
next transaction is about to be begun, the current one is unreported. -/
structure Guarded (s : Chain) : Prop where
  untroubled : Untroubled s.trace
  starting : s.phase = .starting → s.trace = []
  begun : s.phase ≠ .starting → .beginTransaction true ∈ s.trace
  unreported : s.phase ≠ .starting → s.todo.head? = some .beginTransaction ∨
    s.transactionDecisionPending = true ∨ Unreported s.trace

/-- The cleanup is sound exactly when later begins succeed, and a running chain is
guarded. -/
structure Watched (s : Chain) : Prop where
  exact_of_trace : CleanupSound s.trace ↔ BeginsSucceed s.trace
  guarded : s.exit = none → Guarded s

theorem Watched.of_untroubled (h : Untroubled s.trace) (hg : s.exit = none → Guarded s) :
    Watched s :=
  ⟨iff_of_true (Untroubled.cleanup h.2) (Untroubled.begins h.1), hg⟩

variable {obs : List Obs} {txn : Transaction}

/-- What a step other than a commit or a begin leaves behind: a pending decision, an aborted
transaction, or an unreported one. -/
theorem covered_of_effect {op : Option ChainOp}
    (htxn : cfg.txnSink = true) (hat : ∀ p, op = some p → s.At cfg p)
    (hun : s.transactionDecisionPending = true ∨ Unreported s.trace)
    (hcommit : ∀ c attempt, op ≠ some (.commit c attempt)) (hbegin : op ≠ some .beginTransaction)
    (heff : Effect s op obs txn) : Untroubled obs ∧
      (txn.decisionPending = true ∨ txn.aborted = true ∨ Unreported (s.trace ++ obs)) := by
  have keep : ∀ obs, (∀ o ∈ obs, o.reports = false) →
      s.transaction.decisionPending = true ∨ s.transaction.aborted = true ∨
        Unreported (s.trace ++ obs) := fun obs hobs =>
    hun.imp_right fun hu => .inr (hu.append hobs)
  cases heff with
  | silent => exact ⟨⟨nofun, nofun⟩, keep [] (by simp)⟩
  | processed _ e writes =>
    have hmem : ∀ o ∈ Obs.processed e :: replicate writes .write,
        o = .processed e ∨ o = .write := fun o ho => by
      rcases mem_cons.mp ho with ho | ho
      · exact .inl ho
      · exact Or.inr (mem_replicate.mp ho).2
    refine ⟨⟨fun h => ?_, fun h => ?_⟩, keep _ fun o ho => ?_⟩
    · rcases hmem _ h with h | h <;> simp at h
    · rcases hmem _ h with h | h <;> simp at h
    · rcases hmem o ho with rfl | rfl <;> rfl
  | deciding => exact ⟨⟨nofun, nofun⟩, .inl rfl⟩
  | acknowledged => exact ⟨⟨by simp, by simp⟩, .inl rfl⟩
  | resubmitted c => exact ⟨⟨nofun, nofun⟩, .inl ((hat _ rfl).1 htxn).1⟩
  | submitted c => exact ⟨⟨by simp, by simp⟩, .inl ((hat _ rfl).1 htxn).1⟩
  | committed c attempt | commitFailed c attempt => exact absurd rfl (hcommit c attempt)
  | begun => exact absurd rfl hbegin
  | aborted => exact ⟨⟨by simp, by simp⟩, .inr (.inl rfl)⟩
  | received | preCommitted | preCommitFailed | captured | forwarded | abortFailed | ended =>
    exact ⟨⟨by simp, by simp⟩, keep _ (by simp [Obs.reports])⟩

/-- A step of a guarded chain that is covered keeps watch. -/
theorem Watched.covered (hg : Guarded s)
    (hphase : s.phase ≠ .starting) (hphase' : s'.phase ≠ .starting) (hsettled : Settled cfg s')
    (hends : Ends cfg s s' obs txn) (hobs : Untroubled obs)
    (hcov : txn.decisionPending = true ∨ txn.aborted = true ∨ Unreported (s.trace ++ obs)) :
    Watched s' := by
  have hquiet : Untroubled (s.trace ++ obs) := hg.untroubled.append hobs
  have hbegun : .beginTransaction true ∈ s.trace ++ obs :=
    mem_append_left _ (hg.begun hphase)
  cases hexit : s'.exit with
  | none =>
    have htrace : s'.trace = s.trace ++ obs := by simpa [hexit] using hends.trace
    have htxn := hends.running hexit
    refine .of_untroubled (htrace ▸ hquiet) fun _ => ⟨htrace ▸ hquiet, fun h =>
      absurd h hphase', fun _ => htrace ▸ hbegun, fun _ => .inr ?_⟩
    rcases hcov with hp | ha | hu
    · exact Or.inl ((congrArg Transaction.decisionPending htxn).trans hp)
    · have halive := (hsettled hexit).alive
      have := congrArg Transaction.aborted htxn
      rw [ha] at this
      simp [transaction, halive] at this
    · exact .inr (htrace ▸ hu)
  | some reason =>
    have htrace : s'.trace = s.trace ++ obs ++ txn.cleanup cfg := by simpa [hexit] using hends.trace
    refine ⟨?_, fun hf => by simp [hexit] at hf⟩
    rw [htrace, Transaction.cleanup]
    split
    · next hclean =>
      have hu : Unreported (s.trace ++ obs) := by
        rcases hcov with hp | ha | hu
        · simp [hp] at hclean
        · simp [ha] at hclean
        · exact hu
      exact iff_of_true (cleanupSound_concat hquiet.2 hu)
        (Untroubled.begins (by simpa using hquiet.1))
    · rw [append_nil]
      exact iff_of_true (Untroubled.cleanup hquiet.2) (Untroubled.begins hquiet.1)

/-- One attempt of a commit.  A failed attempt leaves the decision pending; a successful one
goes straight on to begin the next transaction. -/
theorem Watched.commitStep {attempt : ℕ} {rest : List ChainOp} (hg : Guarded s)
    (hphase : s.phase ≠ .starting) (hexit : s.exit = none)
    (hpending : s.transactionDecisionPending = true)
    (hsettled : Settled cfg (commitStep cfg { s with todo := rest } c attempt o)) :
    Watched (commitStep cfg { s with todo := rest } c attempt o) := by
  unfold Chain.commitStep at hsettled ⊢
  split
  · exact .covered hg hphase hphase hsettled
      (Ends.leave _ (append_nil _).symm) ⟨nofun, nofun⟩ (Or.inl hpending)
  · have hquiet : Untroubled (s.trace ++ [.commit c.identity true]) :=
      hg.untroubled.append ⟨by simp, by simp⟩
    exact .of_untroubled hquiet fun _ => ⟨hquiet, fun h => absurd h hphase, fun _ =>
      mem_append_left _ (hg.begun hphase), fun _ => Or.inl rfl⟩
  all_goals
    split
    · next hlast =>
      rw [if_pos hlast] at hsettled
      exact .covered hg hphase hphase hsettled (.leave _ rfl) ⟨by simp, by simp⟩
        (.inl hpending)
    · next hlast =>
      rw [if_neg hlast] at hsettled
      exact .covered hg hphase hphase hsettled (.of_running hexit rfl) ⟨by simp, by simp⟩
        (.inl hpending)

section

variable (htxn : cfg.txnSink = true)
include htxn

/-- **The failed begin after a commit**: the cleanup aborts, although the most recent begin
did not succeed. -/
theorem Watched.beginStep (hg : Guarded s) (hphase : s.phase ≠ .starting)
    (halive : s.transactionAborted = false) (hpending : s.transactionDecisionPending = false)
    {rest : List ChainOp}
    (hstep : opStep cfg { s with todo := rest } o w .beginTransaction = some s') : Watched s' := by
  simp only [opStep] at hstep
  split at hstep <;> cases hstep
  · have hquiet : Untroubled (s.trace ++ [.beginTransaction true]) :=
      hg.untroubled.append ⟨by simp, by simp⟩
    exact .of_untroubled hquiet fun _ => ⟨hquiet, fun h => absurd h hphase, fun _ => by
      simp [push, emit], fun _ => .inr (.inr (.begun _))⟩
  · refine ⟨?_, fun hf => by simp [fail, leave] at hf⟩
    have htrace : ((({ s with todo := rest } : Chain).emit (.beginTransaction false)).fail cfg
        (o.failure .beginTransactionFailed)).trace =
        s.trace ++ [.beginTransaction false] ++ [.cleanupAbort] := by
      simp [fail, leave, emit, cleansUp, htxn, halive, hpending]
    rw [htrace]
    refine iff_of_false (fun hsound => ?_) (fun hbegins => ?_)
    · exact not_unreported_of_failed_begin s.trace (hsound _ [] rfl)
    · exact hbegins s.trace [.cleanupAbort] (by simp) (hg.begun hphase)

section

variable (hinv : Inv cfg s) (h : Watched s) (hexit : s.exit = none) (hphase : s.phase ≠ .starting)
include hinv h hexit hphase

theorem Watched.opStep {op : ChainOp} {rest : List ChainOp} (htodo : s.todo = op :: rest)
    (hstep : opStep cfg { s with todo := rest } o w op = some s') : Watched s' := by
  have hg := h.guarded hexit
  have hat : s.At cfg op := hinv.point op (by simp [htodo])
  have hsettled := hinv.opStep htodo hstep
  by_cases hbegin : op = .beginTransaction
  · subst hbegin
    exact .beginStep htxn hg hphase hinv.alive hat.2.2 hstep
  by_cases hcommit : ∃ c attempt, op = .commit c attempt
  · obtain ⟨c, attempt, rfl⟩ := hcommit
    rw [← some.inj hstep] at hsettled ⊢
    exact .commitStep hg hphase hexit hat.2.2.2.2 hsettled
  have hun : s.transactionDecisionPending = true ∨ Unreported s.trace := by
    refine (hg.unreported hphase).resolve_left fun hhead => hbegin ?_
    simpa [htodo] using hhead
  obtain ⟨obs, txn, heff, hends⟩ := opStep_effect hinv hexit htodo hstep
  obtain ⟨hobs, hcov⟩ := covered_of_effect htxn (fun p hp => some.inj hp ▸ hat) hun
    (fun c attempt hop => hcommit ⟨c, attempt, some.inj hop⟩)
    (fun hop => hbegin (some.inj hop)) heff
  have hsame : s'.phase = s.phase := congrArg Prod.fst (opStep_loopState hstep)
  have hphase' : s'.phase ≠ .starting := by rwa [hsame]
  exact .covered hg hphase hphase' hsettled hends hobs hcov

theorem Watched.loopStep {a : Act} (htodo : s.todo = []) (hstep : loopStep cfg s a = some s') :
    Watched s' := by
  have hg := h.guarded hexit
  have hun : s.transactionDecisionPending = true ∨ Unreported s.trace := by
    refine (hg.unreported hphase).resolve_left fun hhead => ?_
    simp [htodo] at hhead
  obtain ⟨obs, txn, heff, hends⟩ := loopStep_effect hexit hstep
  obtain ⟨hobs, hcov⟩ := covered_of_effect htxn (by simp) hun (by simp) (by simp) heff
  exact .covered hg hphase (loopStep_phase hphase hstep) (hinv.loopStep htodo hstep) hends
    hobs hcov

end

/-- The start: a first begin that fails is not followed by a cleanup. -/
theorem Watched.startStep (h : Watched s) (hexit : s.exit = none) (hphase : s.phase = .starting) :
    Watched (startStep cfg s o) := by
  have hg := h.guarded hexit
  have htrace := hg.starting hphase
  unfold Chain.startStep
  rw [if_neg (by simp [htxn])]
  split
  · have hquiet : Untroubled (s.trace ++ [.beginTransaction true]) :=
      hg.untroubled.append ⟨by simp, by simp⟩
    exact .of_untroubled hquiet fun _ => ⟨hquiet, by simp, fun _ => by simp [emit], fun _ =>
      .inr (.inr (.begun _))⟩
  · refine ⟨?_, fun hf => by simp at hf⟩
    have hone : (s.emit (.beginTransaction false)).trace = [.beginTransaction false] := by
      simp [emit, htrace]
    simp only [hone]
    refine iff_of_true (Untroubled.cleanup (by simp)) ?_
    intro past future hsplit
    cases past with
    | nil => simp
    | cons x past => simp at hsplit

/-- Every reachable chain with a transactional sink is watched. -/
theorem watched_of_reachable {maxBufferSize : ℕ}
    (h : Reachable (openStep cfg) (initial cfg maxBufferSize) s) : Watched s := by
  refine h.invariant (P := Watched) ?_ ?_
  · have hquiet : Untroubled (initial cfg maxBufferSize).trace := ⟨nofun, nofun⟩
    exact .of_untroubled hquiet fun _ => ⟨hquiet, fun _ => rfl, fun h => absurd rfl h,
      fun h => absurd rfl h⟩
  · intro s a s' hs hw _ hstep
    cases a with
    | chain a =>
      have hinv := inv_of_reachable hs (exit_eq_none_of_step hstep)
      obtain ⟨hexit, ⟨o, -, hphase, rfl⟩ | ⟨o, w, op, rest, -, hphase, htodo, hop⟩ |
        ⟨hphase, htodo, hloop⟩⟩ := step_cases hstep
      · exact hw.startStep htxn hexit hphase
      · exact hw.opStep htxn hinv hexit hphase htodo hop
      · exact hw.loopStep htxn hinv hexit hphase htodo hloop
    | surroundings m =>
      cases hstep
      refine ⟨hw.exact_of_trace, fun hexit => ?_⟩
      have hg := hw.guarded hexit
      exact { hg with }

end

/-! ## When the cleanup is sound -/

/-- **The exact condition.**  On a run of a chain with a transactional sink the cleanup calls
`Abort` only for a transaction that is open and unreported if and only if no
`BeginTransaction` fails after an earlier one succeeded. -/
theorem cleanup_sound_iff (cfg : ChainConfig) (maxBufferSize : ℕ) (s : Chain)
    (htxn : cfg.txnSink = true) (h : Reachable (openStep cfg) (initial cfg maxBufferSize) s) :
    CleanupSound s.trace ↔ BeginsSucceed s.trace :=
  (watched_of_reachable htxn h).exact_of_trace

/-- A cancelled chain whose transaction nobody has heard of is rolled back, and rightly so. -/
theorem cleanup_sound_iff_cancelled :
    ∃ s, Reachable (openStep ⟨1, true, true, false, 0⟩) (initial ⟨1, true, true, false, 0⟩ 8) s ∧
      s.trace = [.beginTransaction true, .cleanupAbort] ∧ CleanupSound s.trace := by
  obtain ⟨s, hs, htrace⟩ := reachable_of_run (openStep ⟨1, true, true, false, 0⟩)
    (initial ⟨1, true, true, false, 0⟩ 8)
    [.chain (.start .ok), .chain (.poll .ok), .chain .cancel]
    (p := fun s => s.trace = [.beginTransaction true, .cleanupAbort]) (by decide)
  refine ⟨s, hs, htrace, (cleanup_sound_iff _ _ s rfl hs).mpr ?_⟩
  rw [htrace]
  exact Untroubled.begins (by simp)

/-- A chain with one input prepares checkpoint `1` and commits it, and the sink then refuses
to begin the next transaction. -/
def refusedRun : List OpenAct :=
  let barrier : ControlMsg := { type := .barrierReceived, identity := ⟨1, 1⟩ }
  let commit : ControlMsg := { type := .commitCheckpoint, identity := ⟨1, 1⟩ }
  let aligned := ((BarrierAligner.new 1 8).onBarrier 0 ⟨1, 1⟩).1
  [.chain (.start .ok), .surroundings ⟨[], [barrier, commit], aligned⟩, .chain (.poll .ok)] ++
    List.replicate 8 (.chain (.resume .ok 0)) ++
    [.chain (.poll .ok), .chain (.resume .ok 0), .chain (.resume .ok 0),
      .chain (.resume .error 0)]

/-- What that chain does before its cleanup. -/
def refusedTrace : List Obs :=
  [.beginTransaction true, .received { type := .barrierReceived, identity := ⟨1, 1⟩ },
    .preCommit ⟨1, 1⟩ true, .captured ⟨1, 1⟩ true, .acknowledged ⟨1, 1⟩,
    .received { type := .commitCheckpoint, identity := ⟨1, 1⟩ }, .commit ⟨1, 1⟩ true,
    .beginTransaction false]

/-- **The gap.**  The commit of checkpoint `1` succeeds, the next transaction cannot be begun,
and the cleanup calls `Abort`: the most recent begin failed, right after a commit. -/
theorem cleanup_aborts_after_commit :
    ∃ s, Reachable (openStep ⟨1, true, true, false, 0⟩) (initial ⟨1, true, true, false, 0⟩ 8) s ∧
      s.trace = refusedTrace ++ [.cleanupAbort] ∧ ¬ CleanupSound s.trace := by
  obtain ⟨s, hs, htrace⟩ := reachable_of_run (openStep ⟨1, true, true, false, 0⟩)
    (initial ⟨1, true, true, false, 0⟩ 8) refusedRun
    (p := fun s => s.trace = refusedTrace ++ [.cleanupAbort]) (by decide)
  refine ⟨s, hs, htrace, fun hsound => ?_⟩
  exact not_unreported_of_failed_begin (refusedTrace.take 7) (hsound refusedTrace [] htrace)

end Chain
end Wire.Engine
