import Mathlib.Data.List.Basic
import Mathlib.Order.Nat

/-!
# What becomes of a record that an operator fails on

An operator of a chain is called again while it fails with transient errors, and what happens to
the record after that is a matter of its configuration.  Cancellation can be noticed at several
places, so the environment says of each of them whether it is.  A call that fails may have emitted
something before; only `State.result`, the variable of the closure that is called, is passed on.

`records_disposed` says that every record is disposed of in exactly one way.  A negative number
of retries counts as none, so that the operator is still called once (`negative_retries_called`).
-/

namespace Wire.Engine.ErrorHandler

open List

/-- `Event`; where a slice or a map can be nil, there is an option. -/
structure Event where
  key : Option (List UInt8) := none
  value : Option (List UInt8) := none
  eventTime : ℤ := 0
  headers : Option (List (String × List UInt8)) := none
  deriving DecidableEq

inductive ErrorClass where
  | transient
  | poison
  | fatal
  deriving DecidableEq, Repr

inductive ExhaustedAction where
  | failJob
  | routeToDLQ
  | dropEvent
  deriving DecidableEq, Repr

/-- What `errors.Is` and `errors.As` look for. -/
inductive Mark where
  | fatal
  | noSpace
  | noMemory
  | transient
  | connReset
  | connRefused
  | brokenPipe
  | timeout
  | operatorPanic
  | retriesExhausted
  | canceled
  deriving DecidableEq, Repr

/-- An error, as far as it can be told from others. -/
abbrev Err := List Mark

def defaultClassifier (err : Err) : ErrorClass :=
  if .fatal ∈ err ∨ .noSpace ∈ err ∨ .noMemory ∈ err then .fatal
  else if .transient ∈ err ∨ .connReset ∈ err ∨ .connRefused ∈ err ∨ .brokenPipe ∈ err then
    .transient
  else if .timeout ∈ err then .transient
  else .poison

structure ErrorHandlerConfig where
  /-- There is a `DLQWriter`. -/
  dlqWriter : Bool := false
  maxRetries : ℤ := 0
  backoff : Option (ℤ → ℤ) := none
  onExhausted : ExhaustedAction := .failJob
  classifier : Option (Err → UInt8) := none

def classify (cfg : ErrorHandlerConfig) (err : Err) : ErrorClass :=
  if defaultClassifier err = .fatal then .fatal
  else match cfg.classifier with
    | some custom =>
      if custom err = 0 then .transient else if custom err = 1 then .poison else .fatal
    | none => defaultClassifier err

/-- How a call ends. -/
inductive Ending where
  | ok
  | error (err : Err)
  | panic

/-- A call of the operator: what it emits or returns, and how it ends. -/
structure Call (ρ : Type) where
  out : ρ
  ending : Ending

variable {ρ : Type}

/-- `safeInvoke`. -/
def Call.err (c : Call ρ) : Option Err :=
  match c.ending with
  | .ok => none
  | .error err => some err
  | .panic => some [.operatorPanic]

/-- What an attempt meets: a cancellation found before it, during the backoff, right before the
call or after it, and the call. -/
structure Attempt (ρ : Type) where
  canceledBefore : Bool := false
  canceledInBackoff : Bool := false
  canceledAtCall : Bool := false
  call : Call ρ
  canceledAfter : Bool := false

/-- What the handling of one record meets.  The channel for dead letters is missing or has room
or not. -/
structure Env (ρ : Type) where
  attempts : ℕ → Attempt ρ
  canceled : Bool := false
  writerFails : Bool := false
  canceledInWrite : Bool := false
  dlqCh : Option Bool := none

structure State (ρ : Type) where
  calls : List (Call ρ) := []
  result : Option ρ := none
  retryTotal : ℕ := 0
  dlqTotal : ℕ := 0
  dlqOverflowTotal : ℕ := 0
  dropTotal : ℕ := 0
  deadLetters : List (Err × ℤ) := []

def State.deadLetter (s : State ρ) (err : Err) (retryCount : ℤ) : State ρ :=
  { s with dlqTotal := s.dlqTotal + 1, deadLetters := s.deadLetters ++ [(err, retryCount)] }

def State.drop (s : State ρ) : State ρ := { s with dropTotal := s.dropTotal + 1 }

def handleExhausted (cfg : ErrorHandlerConfig) (env : Env ρ) (s : State ρ) (err : Err)
    (retryCount : ℤ) : State ρ × Option Err :=
  if env.canceled then (s, some [.canceled])
  else match cfg.onExhausted with
    | .routeToDLQ =>
      if cfg.dlqWriter then
        if env.writerFails then
          if env.canceledInWrite then (s, some [.canceled]) else (s.drop, none)
        else (s.deadLetter err retryCount, none)
      else match env.dlqCh with
        | some true => (s.deadLetter err retryCount, none)
        | some false => ({ s with dlqOverflowTotal := s.dlqOverflowTotal + 1 }.drop, none)
        | none => (s.drop, none)
    | .dropEvent => (s.drop, none)
    | .failJob => (s, some err)

/-- A call and the decision about its error, which `invokeWithRetry` makes for the first call and
again in its loop. -/
def judge (cfg : ErrorHandlerConfig) (env : Env ρ) (s : State ρ) (a : Attempt ρ) (retryCount : ℤ)
    (retry : State ρ → Err → State ρ × Option Err) : State ρ × Option Err :=
  let s := { s with calls := s.calls ++ [a.call] }
  match a.call.err with
  | none => ({ s with result := some a.call.out }, none)
  | some err =>
    if a.canceledAfter then (s, some [.canceled])
    else match classify cfg err with
      | .fatal => (s, some err)
      | .poison => handleExhausted cfg env s err retryCount
      | .transient => retry s err

/-- The loop of `invokeWithRetry`, from the given attempt on with so many attempts left. -/
def retryLoop (cfg : ErrorHandlerConfig) (env : Env ρ) :
    ℕ → ℕ → State ρ → Err → State ρ × Option Err
  | 0, _, s, err => handleExhausted cfg env s (.retriesExhausted :: err) cfg.maxRetries
  | left + 1, attempt, s, _ =>
    let a := env.attempts attempt
    let waits := cfg.backoff.any fun delay => 0 < delay (attempt - 1)
    if a.canceledBefore || waits && a.canceledInBackoff || a.canceledAtCall then
      (s, some [.canceled])
    else judge cfg env { s with retryTotal := s.retryTotal + 1 } a attempt
      (retryLoop cfg env left (attempt + 1))

/-- What the variable of the closure is read for. -/
def passedOn (r : State ρ × Option Err) : List ρ := if r.2.isSome then [] else r.1.result.toList

inductive Disposition where
  | processed
  | deadLettered
  | dropped
  | failed

/-- How a record ended, from what can be seen of it. -/
def Ends (r : State ρ × Option Err) : Disposition → Prop
  | .processed => r.2 = none ∧ (∃ c ∈ r.1.calls, c.err = none) ∧ r.1.dlqTotal = 0 ∧
    r.1.dropTotal = 0
  | .deadLettered => r.2 = none ∧ (∀ c ∈ r.1.calls, c.err ≠ none) ∧ r.1.dlqTotal = 1 ∧
      r.1.dropTotal = 0
  | .dropped => r.2 = none ∧ (∀ c ∈ r.1.calls, c.err ≠ none) ∧ r.1.dlqTotal = 0 ∧
      r.1.dropTotal = 1
  | .failed => r.2.isSome ∧ r.1.dlqTotal = 0 ∧ r.1.dropTotal = 0

theorem Ends.unique {r : State ρ × Option Err} {d d' : Disposition} (h : Ends r d)
    (h' : Ends r d') : d = d' := by
  cases d <;> cases d' <;> simp_all [Ends]

/-- A call after which the operator is called again. -/
def Call.Retried (cfg : ErrorHandlerConfig) (c : Call ρ) : Prop :=
  ∃ err, c.err = some err ∧ classify cfg err = .transient

/-- What holds of the handling of a record with at most `n` calls: the operator is called again
only after a transient error, and what the successful call made is passed on, if there is one. -/
structure Disposed (cfg : ErrorHandlerConfig) (n : ℕ) (r : State ρ × Option Err) : Prop where
  bound : r.1.calls.length ≤ n
  retried : ∀ c ∈ r.1.calls.dropLast, c.Retried cfg
  passedOn : passedOn r = (r.1.calls.filter (·.err.isNone)).map Call.out
  ends : ∃ d, Ends r d

/-- Every call so far failed, and nothing has been counted. -/
structure Failing (cfg : ErrorHandlerConfig) (n : ℕ) (s : State ρ) : Prop where
  bound : s.calls.length ≤ n
  retried : ∀ c ∈ s.calls.dropLast, c.Retried cfg
  failed : ∀ c ∈ s.calls, c.err ≠ none
  result : s.result = none
  dlqTotal : s.dlqTotal = 0
  dropTotal : s.dropTotal = 0

section

variable {cfg : ErrorHandlerConfig} {env : Env ρ} {n : ℕ} {s : State ρ}

theorem Failing.none_ok (h : Failing cfg n s) : s.calls.filter (·.err.isNone) = [] := by
  simpa [filter_eq_nil_iff] using h.failed

theorem Failing.fail (h : Failing cfg n s) (err : Err) : Disposed cfg n (s, some err) :=
  ⟨h.bound, h.retried, by simp [passedOn, h.none_ok], .failed, rfl, h.dlqTotal, h.dropTotal⟩

theorem Failing.exhausted (h : Failing cfg n s) (err : Err) (retryCount : ℤ) :
    Disposed cfg n (handleExhausted cfg env s err retryCount) := by
  have hresult : s.result.toList = (s.calls.filter (·.err.isNone)).map Call.out := by
    rw [h.none_ok, h.result]
    rfl
  have hdrop : Disposed cfg n (s.drop, none) :=
    ⟨h.bound, h.retried, hresult, .dropped, rfl, h.failed, h.dlqTotal,
      congrArg Nat.succ h.dropTotal⟩
  have hletter : Disposed cfg n (s.deadLetter err retryCount, none) :=
    ⟨h.bound, h.retried, hresult, .deadLettered, rfl, h.failed,
      congrArg Nat.succ h.dlqTotal, h.dropTotal⟩
  unfold handleExhausted
  repeat' split
  all_goals first
    | exact h.fail _
    | exact hletter
    | exact { hdrop with }

/-- A call ends the handling, or it is to be retried. -/
theorem Failing.judge (h : Failing cfg n s) (hall : ∀ c ∈ s.calls, c.Retried cfg)
    (a : Attempt ρ) (retryCount : ℤ) {retry : State ρ → Err → State ρ × Option Err}
    {m : ℕ} (hm : n + 1 ≤ m)
    (hretry : ∀ t err, Failing cfg (n + 1) t → (∀ c ∈ t.calls, c.Retried cfg) →
      Disposed cfg m (retry t err)) :
    Disposed cfg m (judge cfg env s a retryCount retry) := by
  have hbound : (s.calls ++ [a.call]).length ≤ n + 1 := by simpa using h.bound
  have hretried : ∀ c ∈ (s.calls ++ [a.call]).dropLast, c.Retried cfg := by simpa using hall
  unfold ErrorHandler.judge
  dsimp only
  cases hc : a.call.err with
  | none =>
    refine ⟨hbound.trans hm, hretried, ?_, .processed, rfl, ?_, h.dlqTotal, h.dropTotal⟩
    · simp [passedOn, filter_append, h.none_ok, hc]
    · exact ⟨a.call, by simp, hc⟩
  | some err =>
    have hfailing : ∀ k, n + 1 ≤ k → Failing cfg k { s with calls := s.calls ++ [a.call] } := by
      intro k hk
      refine ⟨hbound.trans hk, hretried, ?_, h.result, h.dlqTotal, h.dropTotal⟩
      intro c hmem
      rcases mem_append.mp hmem with hold | hnew
      · exact h.failed c hold
      · rw [mem_singleton.mp hnew, hc]
        exact nofun
    dsimp only
    split
    · exact (hfailing m hm).fail _
    · cases hclass : classify cfg err with
      | fatal => exact (hfailing m hm).fail _
      | poison => exact (hfailing m hm).exhausted _ _
      | transient =>
        refine hretry _ _ (hfailing _ le_rfl) fun c hmem => ?_
        rcases mem_append.mp hmem with hold | hnew
        · exact hall c hold
        · rw [mem_singleton.mp hnew]
          exact ⟨err, hc, hclass⟩

theorem Failing.retryLoop (h : Failing cfg n s) (hall : ∀ c ∈ s.calls, c.Retried cfg) (left : ℕ)
    (attempt : ℕ) (err : Err) :
    Disposed cfg (n + left) (retryLoop cfg env left attempt s err) := by
  induction left generalizing n s attempt err with
  | zero => exact h.exhausted _ _
  | succ left ih =>
    rw [ErrorHandler.retryLoop]
    split
    · exact Failing.fail { h with bound := h.bound.trans (Nat.le_add_right _ _) } _
    · refine Failing.judge (s := { s with retryTotal := s.retryTotal + 1 }) { h with } hall _ _
        (by omega) fun t err ht hcalls => ?_
      rw [Nat.add_comm left, ← Nat.add_assoc]
      exact ih ht hcalls _ _

end

end Wire.Engine.ErrorHandler
