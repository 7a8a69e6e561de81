import Wire.Engine.WatermarkTracker
import Wire.Library.Runs
import Wire.Planner.KeyGroup

/-!
# The partition router

`partitionRouter.run` with all its goroutines: a producer for each upstream, a sender of watermarks
for each downstream, the ticker, and the shutdown at the end.  They share the tracker of the
watermarks, the two kinds of mutexes, the newest minimum and the wake-up channels with room for one
token.  A step is one access to something shared, so `publishMinimum` is a `Scan` of the tracker
with the mutex held, then the comparison, and then one wake-up after the other.

**`partitionRouter_ordered`** is for every run in which no call fails: every record goes to one
downstream, those of one upstream in their order; equal keys go to the same downstream under hash
routing; the watermarks of a downstream increase; a watermark comes after the records that stand
before the first watermark of the same height in every upstream that was not left out; an upstream
is left out only while its producer has no record, and if it was silent for the timeout; and a
downstream has the newest minimum before it is closed.

Barriers go to the control channels and are left out, as are the ends of partition.
-/

namespace Wire.Sdk.PartitionRouter

open Function List Option KeyGroup Runs Prod

open Engine.Watermark Int64Range

/-- `engine.Event`: the key and the rest. -/
structure Event (κ π : Type) where
  key : κ
  payload : π

/-- `engine.OutputMsg` -/
inductive Msg (κ π : Type) where
  | record (e : Event κ π)
  | watermark (timestamp : ℤ)
  /-- A barrier, or a watermark message without its watermark. -/
  | other

/-- `routeFn` -/
inductive Strategy where
  | hash
  | forward (index : ℕ)
  | rebalance
deriving DecidableEq, Repr

/-- `engine.DefaultIdleTimeout`, in nanoseconds -/
def defaultIdleTimeout : ℤ := 60 * 10 ^ 9

/-- `partitionRouter`; a key selector returns nothing where it fails. -/
structure Config (κ π : Type) where
  upstreams : ℕ
  downstreams : ℕ
  routeFn : Strategy
  murmur3 : κ → UInt32
  keySelector : Option (Event κ π → Option κ) := none
  idleTimeout : ℤ := 0

variable {κ π : Type}

namespace Config

variable (c : Config κ π)

def inputs : Inputs where
  numInputs := c.upstreams
  idleTimeout := if c.idleTimeout = 0 then defaultIdleTimeout else c.idleTimeout

/-- The event with the key of the selector. -/
def selectKey (e : Event κ π) : Option (Event κ π) :=
  match c.keySelector with
  | none => some e
  | some f => (f e).map fun key => { e with key }

/-- `hashRouter`, `forwardRouter` and `rebalanceRouter`: the target, and the counter of the last. -/
def route (counter : ℕ) (e : Event κ π) : ℕ × ℕ :=
  match c.routeFn with
  | .hash => (keyGroup c.murmur3 e.key c.downstreams, counter)
  | .forward index => (index, counter)
  | .rebalance => (counter % c.downstreams, (counter + 1) % 2 ^ 64)

end Config

/-! ## The goroutines -/

inductive ProducerPc (κ π : Type) where
  | idle
  /-- In `RecordQueued`, before `RecordActivity`. -/
  | counted (e : Event κ π)
  | queued (e : Event κ π)
  | routed (e : Event κ π) (target : ℕ)
  /-- With the mutex of the target. -/
  | locked (e : Event κ π) (target : ℕ)
  | sent (target : ℕ)
  /-- In `RecordProcessed`, before `RecordActivity`. -/
  | unlocked
  | processed
  | returned

/-- A call of `publishMinimum`. -/
inductive PublishPc where
  | idle
  | lock
  | scanning (scan : Scan)
  | waking (target : ℕ)
deriving DecidableEq

/-- A sender of watermarks; `final` is set in the call after `watermarksDone`. -/
inductive DeliveryPc where
  | waiting
  | reading (final : Bool)
  | locking (minimum : ℤ) (skipped : List ℕ) (final : Bool)
  | holding (minimum : ℤ) (skipped : List ℕ) (final : Bool)
  | unlocking (final : Bool)
  | returned

/-- After `deliver`. -/
def DeliveryPc.rest (final : Bool) : DeliveryPc :=
  if final then .returned else .waiting

/-- What has gone into the downstream channels. -/
inductive Obs (κ π : Type) where
  | record (upstream : ℕ) (e : Event κ π) (target : ℕ)
  /-- With the upstreams that were left out. -/
  | watermark (target : ℕ) (minimum : ℤ) (skipped : List ℕ)

structure Router (κ π : Type) where
  tracker : Tracker
  inbox : ℕ → List (Msg κ π)
  /-- What was received. -/
  taken : ℕ → List (Msg κ π) := fun _ => []
  producers : ℕ → ProducerPc κ π := fun _ => .idle
  /-- The counter of `rebalanceRouter`. -/
  counter : ℕ := 0
  downstreamMu : ℕ → Bool := fun _ => false
  watermarkMu : Bool := false
  lastWatermark : ℤ := minInt64
  /-- The upstreams that were left out of it. -/
  lastSkipped : List ℕ := []
  /-- The calls of the producers and of the ticker. -/
  publish : Option ℕ → PublishPc := fun _ => .idle
  watermarkWake : ℕ → Bool := fun _ => false
  watermarksDone : Bool := false
  delivery : ℕ → DeliveryPc := fun _ => .waiting
  lastSent : ℕ → ℤ := fun _ => minInt64
  closed : Bool := false
  trace : List (Obs κ π) := []
  /-- When the producer last began or finished with a record; at first, when the router began. -/
  activity : ℕ → ℤ

inductive Action where
  | receive (i : ℕ)
  | recordActivity (i : ℕ) (now : ℤ)
  | route (i : ℕ)
  | lock (i : ℕ)
  | send (i : ℕ)
  | unlock (i : ℕ)
  | finishActivity (i : ℕ) (now : ℤ)
  | finishPending (i : ℕ)
  | lockWatermark (p : Option ℕ) (now : ℤ)
  | load (p : Option ℕ)
  | compare (p : Option ℕ)
  | wake (p : Option ℕ)
  | tick
  | stopTicker
  | woken (d : ℕ)
  | flush (d : ℕ)
  | readMinimum (d : ℕ)
  | lockDownstream (d : ℕ)
  | sendWatermark (d : ℕ)
  | unlockDownstream (d : ℕ)
  | close

namespace Router

variable (c : Config κ π) (s : Router κ π)

def setProducer (i : ℕ) (pc : ProducerPc κ π) : Router κ π :=
  { s with producers := update s.producers i pc }

def setPublish (p : Option ℕ) (pc : PublishPc) : Router κ π :=
  { s with publish := update s.publish p pc }

def setDelivery (d : ℕ) (pc : DeliveryPc) : Router κ π :=
  { s with delivery := update s.delivery d pc }

def lockTarget (d : ℕ) (held : Bool) : Router κ π :=
  { s with downstreamMu := update s.downstreamMu d held }

def observe (o : Obs κ π) : Router κ π :=
  { s with trace := s.trace ++ [o] }

def take (i : ℕ) (m : Msg κ π) (rest : List (Msg κ π)) : Router κ π :=
  { s with
    inbox := update s.inbox i rest
    taken := update s.taken i (s.taken i ++ [m]) }

/-- The receive of a producer, with the first call to the tracker. -/
def receive (i : ℕ) : Option (Router κ π) :=
  match s.publish (some i), s.producers i, s.inbox i with
  | .idle, .idle, .record e :: rest =>
    some ({ s.take i (.record e) rest with
      tracker := s.tracker.addPending i 1 }.setProducer i (.counted e))
  | .idle, .idle, .watermark timestamp :: rest =>
    some ({ s.take i (.watermark timestamp) rest with
      tracker := s.tracker.advanceWatermark i timestamp }.setPublish (some i) .lock)
  | .idle, .idle, .other :: rest => some (s.take i .other rest)
  | .idle, .idle, [] => some (s.setProducer i .returned)
  | _, _, _ => none

/-- The return of `publishMinimum`, which unlocks the mutex. -/
def endPublish (p : Option ℕ) : Router κ π :=
  { s with watermarkMu := false }.setPublish p .idle

/-- `publishMinimum` after the scan. -/
def compare (p : Option ℕ) (scan : Scan) : Router κ π :=
  match scan.minimum with
  | none => s.endPublish p
  | some minimum =>
    if minimum ≤ s.lastWatermark then s.endPublish p
    else { s with lastWatermark := minimum, lastSkipped := scan.skipped }.setPublish p (.waking 0)

def step : Action → Option (Router κ π)
  | .receive i => if i < c.upstreams then s.receive i else none
  | .recordActivity i now =>
    match s.producers i with
    | .counted e =>
      some ({ s with
        tracker := s.tracker.recordActivity i now
        activity := update s.activity i now }.setProducer i (.queued e))
    | _ => none
  | .route i =>
    match s.producers i with
    | .queued e =>
      (c.selectKey e).map fun e =>
        { s with counter := (c.route s.counter e).2 }.setProducer i
          (.routed e (c.route s.counter e).1)
    | _ => none
  | .lock i =>
    match s.producers i with
    | .routed e target =>
      if target < c.downstreams ∧ s.downstreamMu target = false then
        some ((s.lockTarget target true).setProducer i (.locked e target))
      else none
    | _ => none
  | .send i =>
    match s.producers i with
    | .locked e target =>
      some ((s.observe (.record i e target)).setProducer i (.sent target))
    | _ => none
  | .unlock i =>
    match s.producers i with
    | .sent target => some ((s.lockTarget target false).setProducer i .unlocked)
    | _ => none
  | .finishActivity i now =>
    match s.producers i with
    | .unlocked =>
      some ({ s with
        tracker := s.tracker.recordActivity i now
        activity := update s.activity i now }.setProducer i .processed)
    | _ => none
  | .finishPending i =>
    match s.producers i with
    | .processed =>
      some ({ s with tracker := s.tracker.addPending i (-1) }.setProducer i .idle)
    | _ => none
  | .lockWatermark p now =>
    match s.publish p with
    | .lock =>
      if s.watermarkMu = false then
        some ({ s with watermarkMu := true }.setPublish p (.scanning { now }))
      else none
    | _ => none
  | .load p =>
    match s.publish p with
    | .scanning scan =>
      (scan.step c.inputs s.tracker).map fun scan => s.setPublish p (.scanning scan)
    | _ => none
  | .compare p =>
    match s.publish p with
    | .scanning scan => if scan.index < c.upstreams then none else some (s.compare p scan)
    | _ => none
  | .wake p =>
    match s.publish p with
    | .waking target =>
      if target < c.downstreams then
        some ({ s with watermarkWake := update s.watermarkWake target true }.setPublish p
          (.waking (target + 1)))
      else some (s.endPublish p)
    | _ => none
  | .tick =>
    if s.watermarksDone = false ∧ s.publish none = .idle then some (s.setPublish none .lock)
    else none
  | .stopTicker =>
    -- `producersDone` is closed
    if s.watermarksDone = false ∧ s.publish none = .idle ∧
        ∀ i < c.upstreams, (s.producers i matches .returned) = true then
      some { s with watermarksDone := true }
    else none
  | .woken d =>
    match s.delivery d with
    | .waiting =>
      if d < c.downstreams ∧ s.watermarkWake d = true then
        some ({ s with watermarkWake := update s.watermarkWake d false }.setDelivery d
          (.reading false))
      else none
    | _ => none
  | .flush d =>
    match s.delivery d with
    | .waiting =>
      if d < c.downstreams ∧ s.watermarksDone = true then some (s.setDelivery d (.reading true))
      else none
    | _ => none
  | .readMinimum d =>
    match s.delivery d with
    | .reading final =>
      if s.watermarkMu = true then none
      else if s.lastWatermark ≤ s.lastSent d then some (s.setDelivery d (.rest final))
      else some (s.setDelivery d (.locking s.lastWatermark s.lastSkipped final))
    | _ => none
  | .lockDownstream d =>
    match s.delivery d with
    | .locking minimum skipped final =>
      if s.downstreamMu d = false then
        some ((s.lockTarget d true).setDelivery d (.holding minimum skipped final))
      else none
    | _ => none
  | .sendWatermark d =>
    match s.delivery d with
    | .holding minimum skipped final =>
      some ({ s.observe (.watermark d minimum skipped) with
        lastSent := update s.lastSent d minimum }.setDelivery d (.unlocking final))
    | _ => none
  | .unlockDownstream d =>
    match s.delivery d with
    | .unlocking final => some ((s.lockTarget d false).setDelivery d (.rest final))
    | _ => none
  | .close =>
    if s.watermarksDone = true ∧ (∀ i < c.upstreams, (s.producers i matches .returned) = true) ∧
        ∀ d < c.downstreams, (s.delivery d matches .returned) = true then
      some { s with closed := true }
    else none

/-- A router before it has received anything. -/
def start (inputs : ℕ → List (Msg κ π)) (lastActivity : ℕ → ℤ) : Router κ π where
  tracker := { lastActivity }
  inbox := inputs
  activity := lastActivity

end Router

/-! ## What a step can do -/

/-- The record that a producer has received and not sent, with the key that it is sent with. -/
def ProducerPc.inFlight (c : Config κ π) : ProducerPc κ π → List (Event κ π)
  | .counted e | .queued e => [(c.selectKey e).getD e]
  | .routed e _ | .locked e _ => [e]
  | .idle | .sent _ | .unlocked | .processed | .returned => []

/-- The target is the one of the strategy, and it exists once its mutex is locked. -/
def ProducerPc.Routed (c : Config κ π) : ProducerPc κ π → Prop
  | .routed e target => c.routeFn = .hash →
    target = keyGroup c.murmur3 e.key c.downstreams
  | .locked e target => target < c.downstreams ∧ (c.routeFn = .hash →
    target = keyGroup c.murmur3 e.key c.downstreams)
  | _ => True

/-- The record that a producer has counted and not finished with. -/
def ProducerPc.held : ProducerPc κ π → ℤ
  | .idle | .returned => 0
  | .counted _ | .queued _ | .routed _ _ | .locked _ _ | .sent _ | .unlocked | .processed => 1

/-- The tracker knows what the producers have, and when they were active. -/
structure Router.Tracked (s : Router κ π) : Prop where
  pending : ∀ i, s.tracker.pending i = (s.producers i).held
  activity : s.tracker.lastActivity = s.activity

/-- What a sender has read and not sent. -/
def DeliveryPc.pending : DeliveryPc → Option (ℤ × List ℕ)
  | .locking minimum skipped _ | .holding minimum skipped _ => some (minimum, skipped)
  | _ => none

/-- The last call of a sender. -/
def DeliveryPc.final : DeliveryPc → Bool
  | .waiting => false
  | .reading final | .locking _ _ final | .holding _ _ final | .unlocking final => final
  | .returned => true

/-- The kinds of steps.  What a kind leaves open is of no concern to the results below. -/
inductive Move (c : Config κ π) (s : Router κ π) : Router κ π → Prop where
  | record (i : ℕ) (e : Event κ π) (rest : List (Msg κ π)) (hidle : s.producers i = .idle)
      (hinbox : s.inbox i = .record e :: rest) :
      Move c s ({ s.take i (.record e) rest with
        tracker := s.tracker.addPending i 1 }.setProducer i (.counted e))
  | watermark (i : ℕ) (timestamp : ℤ) (rest : List (Msg κ π)) (hi : i < c.upstreams)
      (hidle : s.producers i = .idle) (hinbox : s.inbox i = .watermark timestamp :: rest) :
      Move c s ({ s.take i (.watermark timestamp) rest with
        tracker := s.tracker.advanceWatermark i timestamp }.setPublish (some i) .lock)
  | other (i : ℕ) (rest : List (Msg κ π)) (hidle : s.producers i = .idle)
      (hinbox : s.inbox i = .other :: rest) : Move c s (s.take i .other rest)
  | ended (i : ℕ) (hidle : s.producers i = .idle) (hpublish : s.publish (some i) = .idle)
      (hinbox : s.inbox i = []) : Move c s (s.setProducer i .returned)
  | producer (i : ℕ) (pc : ProducerPc κ π) (tracker : Tracker) (activity : ℕ → ℤ) (counter : ℕ)
      (mu : ℕ → Bool) (hwatermarks : tracker.watermarks = s.tracker.watermarks)
      (htracked : s.Tracked → Router.Tracked
        ({ s with tracker, activity, counter, downstreamMu := mu }.setProducer i pc))
      (hflight : pc.inFlight c = (s.producers i).inFlight c)
      (hrouted : (s.producers i).Routed c → pc.Routed c)
      (hrunning : s.producers i ≠ .returned) (hrunning' : pc ≠ .returned) :
      Move c s ({ s with tracker, activity, counter, downstreamMu := mu }.setProducer i pc)
  | send (i : ℕ) (e : Event κ π) (target : ℕ) (hlocked : s.producers i = .locked e target) :
      Move c s ((s.observe (.record i e target)).setProducer i (.sent target))
  | publish (p : Option ℕ) (pc : PublishPc) (mu : Bool) (wake : ℕ → Bool)
      (hactive : s.publish p ≠ .idle ∨ p = none ∧ s.watermarksDone = false)
      (hscan : ∀ scan', pc = .scanning scan' → (∃ now, scan' = { now }) ∨
        ∃ scan, s.publish p = .scanning scan ∧ scan.step c.inputs s.tracker = some scan') :
      Move c s ({ s with watermarkMu := mu, watermarkWake := wake }.setPublish p pc)
  | raise (p : Option ℕ) (scan : Scan) (minimum : ℤ) (hscan : s.publish p = .scanning scan)
      (hend : c.upstreams ≤ scan.index) (hminimum : scan.minimum = some minimum)
      (hnew : s.lastWatermark < minimum) :
      Move c s ({ s with lastWatermark := minimum, lastSkipped := scan.skipped }.setPublish p
        (.waking 0))
  | stopTicker (hidle : s.publish none = .idle)
      (hreturned : ∀ i < c.upstreams, s.producers i = .returned) :
      Move c s { s with watermarksDone := true }
  | wakeUp (d : ℕ) (final : Bool) (wake : ℕ → Bool) (hwaiting : s.delivery d = .waiting)
      (hfinal : final = true → s.watermarksDone = true) :
      Move c s ({ s with watermarkWake := wake }.setDelivery d (.reading final))
  | upToDate (d : ℕ) (final : Bool) (hreading : s.delivery d = .reading final)
      (hle : s.lastWatermark ≤ s.lastSent d) : Move c s (s.setDelivery d (.rest final))
  | behind (d : ℕ) (final : Bool) (hreading : s.delivery d = .reading final)
      (hlt : s.lastSent d < s.lastWatermark) :
      Move c s (s.setDelivery d (.locking s.lastWatermark s.lastSkipped final))
  | hold (d : ℕ) (minimum : ℤ) (skipped : List ℕ) (final : Bool)
      (hlocking : s.delivery d = .locking minimum skipped final) (mu : ℕ → Bool) :
      Move c s ({ s with downstreamMu := mu }.setDelivery d (.holding minimum skipped final))
  | sendWatermark (d : ℕ) (minimum : ℤ) (skipped : List ℕ) (final : Bool)
      (hholding : s.delivery d = .holding minimum skipped final) :
      Move c s ({ s.observe (.watermark d minimum skipped) with
        lastSent := update s.lastSent d minimum }.setDelivery d (.unlocking final))
  | unlockDownstream (d : ℕ) (final : Bool) (hunlocking : s.delivery d = .unlocking final)
      (mu : ℕ → Bool) : Move c s ({ s with downstreamMu := mu }.setDelivery d (.rest final))
  | close (hreturned : ∀ i < c.upstreams, s.producers i = .returned)
      (hflushed : ∀ d < c.downstreams, s.delivery d = .returned) :
      Move c s { s with closed := true }

variable {c : Config κ π} {s s' : Router κ π} {a : Action}

theorem move_receive {i : ℕ} (hi : i < c.upstreams) (h : s.receive i = some s') : Move c s s' := by
  rw [Router.receive] at h
  split at h
  · next hp hidle hinbox =>
    cases h
    exact .record i _ _ hidle hinbox
  · next hp hidle hinbox =>
    cases h
    exact .watermark i _ _ hi hidle hinbox
  · next hp hidle hinbox =>
    cases h
    exact .other i _ hidle hinbox
  · next hp hidle hinbox =>
    cases h
    exact .ended i hidle hp hinbox
  · exact nomatch h

theorem eq_returned {pc : ProducerPc κ π} (h : (pc matches .returned) = true) : pc = .returned := by
  cases pc <;> first | rfl | exact nomatch h

theorem eq_delivery_returned {pc : DeliveryPc} (h : (pc matches .returned) = true) :
    pc = .returned := by
  cases pc <;> first | rfl | exact nomatch h

theorem routed_route (counter : ℕ) (e : Event κ π) :
    (ProducerPc.routed e (c.route counter e).1).Routed c := by
  intro hhash
  rw [Config.route, hhash]

/-- One producer moves, and what the tracker has for it with it. -/
theorem Router.Tracked.producer {i : ℕ} {pc : ProducerPc κ π} (h : s.Tracked)
    (hproducers : s'.producers = update s.producers i pc)
    (hothers : ∀ j, j ≠ i → s'.tracker.pending j = s.tracker.pending j)
    (hpending : s'.tracker.pending i = pc.held)
    (hactivity : s'.tracker.lastActivity = s'.activity) : s'.Tracked where
  pending j := by
    rw [hproducers]
    rcases eq_or_ne j i with rfl | hj
    · rw [update_self]
      exact hpending
    · rw [update_of_ne hj, hothers j hj]
      exact h.pending j
  activity := hactivity

/-- A move of a producer from a known place. -/
theorem Move.ofProducer {i : ℕ} {pc pc' : ProducerPc κ π} (hpc : s.producers i = pc)
    (tracker : Tracker) (activity : ℕ → ℤ) (counter : ℕ) (mu : ℕ → Bool)
    (hwatermarks : tracker.watermarks = s.tracker.watermarks)
    (hothers : ∀ j, j ≠ i → tracker.pending j = s.tracker.pending j)
    (hpending : s.tracker.pending i = pc.held → tracker.pending i = pc'.held)
    (hactivity : s.tracker.lastActivity = s.activity → tracker.lastActivity = activity)
    (hflight : pc'.inFlight c = pc.inFlight c) (hrouted : pc.Routed c → pc'.Routed c)
    (hrunning : pc ≠ .returned) (hrunning' : pc' ≠ .returned) :
    Move c s ({ s with tracker, activity, counter, downstreamMu := mu }.setProducer i pc') := by
  refine .producer i pc' tracker activity counter mu hwatermarks (fun h => ?_) (hpc ▸ hflight)
    (hpc ▸ hrouted) (hpc ▸ hrunning) hrunning'
  exact h.producer rfl hothers (hpending (hpc ▸ h.pending i)) (hactivity h.activity)

theorem move_of_step (h : s.step c a = some s') : Move c s s' := by
  cases a with simp only [Router.step] at h
  | receive i =>
    split at h
    · next hi => exact move_receive hi h
    · exact nomatch h
  | route i =>
    split at h
    · next e hpc =>
      obtain ⟨e', he', rfl⟩ := map_eq_some_iff.mp h
      refine .ofProducer hpc s.tracker s.activity _ s.downstreamMu rfl (fun _ _ => rfl) id id ?_
        (fun _ => routed_route _ _) nofun nofun
      rw [ProducerPc.inFlight, ProducerPc.inFlight, he', getD_some]
    · exact nomatch h
  | load p =>
    split at h
    · next scan hp =>
      obtain ⟨scan', hscan', rfl⟩ := map_eq_some_iff.mp h
      refine .publish p _ s.watermarkMu s.watermarkWake (.inl (by rw [hp]; exact nofun)) ?_
      rintro _ ⟨⟩
      exact .inr ⟨scan, hp, hscan'⟩
    · exact nomatch h
  | compare p =>
    split at h
    · next scan hp =>
      have hend : Move c s (s.endPublish p) :=
        .publish p .idle false s.watermarkWake (.inl (by rw [hp]; exact nofun)) nofun
      obtain ⟨hindex, h⟩ := ite_none_left_eq_some.mp h
      cases h
      rw [Router.compare]
      split
      · exact hend
      · next minimum hminimum =>
        split
        · exact hend
        · next hle => exact .raise p scan minimum hp (not_lt.mp hindex) hminimum (not_le.mp hle)
    · exact nomatch h
  | lockWatermark p now =>
    split at h
    · next hp =>
      obtain ⟨-, rfl⟩ := ite_some_none_eq_some.mp h
      refine .publish p _ true s.watermarkWake (.inl (by rw [hp]; exact nofun)) ?_
      intro scan' hscan'
      exact .inl ⟨now, (PublishPc.scanning.inj hscan').symm⟩
    · exact nomatch h
  | wake p =>
    split at h
    · next target hp =>
      have hactive : s.publish p ≠ .idle ∨ p = none ∧ s.watermarksDone = false :=
        .inl (by rw [hp]; exact nofun)
      split at h
      · cases h
        exact .publish p _ s.watermarkMu _ hactive nofun
      · cases h
        exact .publish p .idle false s.watermarkWake hactive nofun
    · exact nomatch h
  | tick =>
    obtain ⟨hrunning, rfl⟩ := ite_some_none_eq_some.mp h
    exact .publish none .lock s.watermarkMu s.watermarkWake (.inr ⟨rfl, hrunning.1⟩) nofun
  | stopTicker =>
    obtain ⟨hstop, rfl⟩ := ite_some_none_eq_some.mp h
    exact .stopTicker hstop.2.1 fun i hi => eq_returned (hstop.2.2 i hi)
  | close =>
    obtain ⟨hall, rfl⟩ := ite_some_none_eq_some.mp h
    exact .close (fun i hi => eq_returned (hall.2.1 i hi)) fun d hd =>
      eq_delivery_returned (hall.2.2 d hd)
  | recordActivity i now | finishActivity i now =>
    split at h
    · next hpc =>
      cases h
      exact .ofProducer hpc _ _ s.counter _ rfl (fun _ _ => rfl) id
        (Tracker.lastActivity_record i now)
        rfl (fun _ => trivial) nofun nofun
    · exact nomatch h
  | unlock i =>
    split at h
    · next hpc =>
      cases h
      exact .ofProducer hpc s.tracker s.activity s.counter _ rfl (fun _ _ => rfl) id id rfl
        (fun _ => trivial) nofun nofun
    · exact nomatch h
  | finishPending i =>
    split at h
    · next hpc =>
      cases h
      refine .ofProducer hpc _ s.activity s.counter _ rfl (fun j hj => ?_) (fun hheld => ?_) id rfl
        (fun _ => trivial) nofun nofun
      · rw [pending_addPending, if_neg hj, add_zero]
      · rw [pending_addPending, if_pos rfl, hheld]
        rfl
    · exact nomatch h
  | lock i =>
    split at h
    · next hpc =>
      obtain ⟨hfree, rfl⟩ := ite_some_none_eq_some.mp h
      exact .ofProducer hpc s.tracker s.activity s.counter _ rfl (fun _ _ => rfl) id id rfl
        (fun hr => ⟨hfree.1, hr⟩) nofun nofun
    · exact nomatch h
  | send i =>
    split at h
    · next hpc =>
      cases h
      exact .send i _ _ hpc
    · exact nomatch h
  | woken d =>
    split at h
    · next hd =>
      obtain ⟨-, rfl⟩ := ite_some_none_eq_some.mp h
      exact .wakeUp d false _ hd nofun
    · exact nomatch h
  | flush d =>
    split at h
    · next hd =>
      obtain ⟨hdone, rfl⟩ := ite_some_none_eq_some.mp h
      exact .wakeUp d true s.watermarkWake hd fun _ => hdone.2
    · exact nomatch h
  | readMinimum d =>
    split at h
    · next hd =>
      obtain ⟨-, h⟩ := ite_none_left_eq_some.mp h
      split at h
      · next hle =>
        cases h
        exact .upToDate d _ hd hle
      · next hlt =>
        cases h
        exact .behind d _ hd (not_le.mp hlt)
    · exact nomatch h
  | lockDownstream d =>
    split at h
    · next hd =>
      obtain ⟨-, rfl⟩ := ite_some_none_eq_some.mp h
      exact .hold d _ _ _ hd _
    · exact nomatch h
  | sendWatermark d =>
    split at h
    · next hd =>
      cases h
      exact .sendWatermark d _ _ _ hd
    · exact nomatch h
  | unlockDownstream d =>
    split at h
    · next hd =>
      cases h
      exact .unlockDownstream d _ hd _
    · exact nomatch h

/-! ## What the tracker knows -/

theorem Router.Tracked.step (h : s.Tracked) (hmove : Move c s s') : s'.Tracked := by
  cases hmove with
  | record i e rest hidle hinbox =>
    refine h.producer rfl (fun j hj => ?_) ?_ h.activity
    · exact (pending_addPending s.tracker i 1 j).trans (by rw [if_neg hj, add_zero])
    · refine (pending_addPending s.tracker i 1 i).trans ?_
      rw [if_pos rfl, h.pending i, hidle]
      rfl
  | ended i hidle hpublish hinbox =>
    exact h.producer rfl (fun _ _ => rfl) ((h.pending i).trans (by rw [hidle]; rfl)) h.activity
  | send i e target hlocked =>
    exact h.producer rfl (fun _ _ => rfl) ((h.pending i).trans (by rw [hlocked]; rfl)) h.activity
  | producer i pc tracker activity counter mu hwatermarks htracked => exact htracked h
  | watermark | other | publish | raise | stopTicker | wakeUp | upToDate | behind | hold
  | sendWatermark | unlockDownstream | close => exact ⟨h.pending, h.activity⟩

/-- A scan between its first two loads for an upstream was there before, or has just made the
first. -/
theorem Move.entered {p : Option ℕ} {scan : Scan} {lastActivity : ℤ} (hmove : Move c s s')
    (hscan : s'.publish p = .scanning scan) (hstage : scan.stage = .pending lastActivity) :
    s.publish p = .scanning scan ∨ s.publish p = .scanning scan.entered ∧
      lastActivity = s.tracker.lastActivity scan.index := by
  have hother {q : Option ℕ} {pc : PublishPc} (hpc : update s.publish q pc p = .scanning scan) :
      pc = .scanning scan ∧ q = p ∨ s.publish p = .scanning scan := by
    rcases eq_or_ne p q with rfl | hq
    · rw [update_self] at hpc
      exact .inl ⟨hpc, rfl⟩
    · rw [update_of_ne hq] at hpc
      exact .inr hpc
  cases hmove with
  | publish q pc mu wake hactive hstep =>
    rcases hother hscan with ⟨hpc, rfl⟩ | hsame
    · rcases hstep scan hpc with ⟨now, rfl⟩ | ⟨scan₀, hbefore, hload⟩
      · cases hstage
      · obtain ⟨rfl, hloaded⟩ := Scan.eq_entered hload hstage
        exact .inr ⟨hbefore, hloaded⟩
    · exact .inl hsame
  | watermark | raise =>
    rcases hother hscan with ⟨hpc, -⟩ | hsame
    · cases hpc
    · exact .inl hsame
  | record | other | ended | producer | send | stopTicker | wakeUp | upToDate | behind | hold
  | sendWatermark | unlockDownstream | close => exact .inl hscan

/-! ## Records -/

def records (l : List (Msg κ π)) : List (Event κ π) :=
  l.filterMap fun
    | .record e => some e
    | _ => none

def watermarks (l : List (Msg κ π)) : List ℤ :=
  l.filterMap fun
    | .watermark timestamp => some timestamp
    | _ => none

/-- The records of an upstream that were sent, with their targets. -/
def sentOf (i : ℕ) (trace : List (Obs κ π)) : List (Event κ π × ℕ) :=
  trace.filterMap fun
    | .record j e target => if j = i then some (e, target) else none
    | .watermark .. => none

/-- The watermarks that were sent to a downstream. -/
def marksOf (d : ℕ) (trace : List (Obs κ π)) : List ℤ :=
  trace.filterMap fun
    | .record .. => none
    | .watermark target minimum _ => if target = d then some minimum else none

/-- A record as it is sent. -/
def Config.keyed (c : Config κ π) (e : Event κ π) : Event κ π :=
  (c.selectKey e).getD e

theorem sentOf_append (i : ℕ) (t t' : List (Obs κ π)) :
    sentOf i (t ++ t') = sentOf i t ++ sentOf i t' :=
  filterMap_append

theorem marksOf_append (d : ℕ) (t t' : List (Obs κ π)) :
    marksOf d (t ++ t') = marksOf d t ++ marksOf d t' :=
  filterMap_append

theorem records_append (l l' : List (Msg κ π)) : records (l ++ l') = records l ++ records l' :=
  filterMap_append

theorem watermarks_append (l l' : List (Msg κ π)) :
    watermarks (l ++ l') = watermarks l ++ watermarks l' :=
  filterMap_append

theorem sentOf_record_self (i : ℕ) (e : Event κ π) (target : ℕ) :
    sentOf i [.record i e target] = [(e, target)] := by
  simp [sentOf]

theorem sentOf_record_of_ne {i j : ℕ} (h : j ≠ i) (e : Event κ π) (target : ℕ) :
    sentOf i [.record j e target] = [] := by
  simp [sentOf, h]

theorem marksOf_watermark_self (d : ℕ) (minimum : ℤ) (skipped : List ℕ) :
    marksOf d [(.watermark d minimum skipped : Obs κ π)] = [minimum] := by
  simp [marksOf]

variable {d : ℕ} {l : List (Msg κ π)} {minimum : ℤ} {skipped : List ℕ} {p : Option ℕ}

theorem marksOf_watermark_of_ne {d' : ℕ} (h : d' ≠ d) (minimum : ℤ) (skipped : List ℕ) :
    marksOf d [(.watermark d' minimum skipped : Obs κ π)] = [] := by
  simp [marksOf, h]

/-- The target exists, and for hash routing it is the one of the key. -/
def Config.Target (c : Config κ π) (x : Event κ π × ℕ) : Prop :=
  x.2 < c.downstreams ∧
    (c.routeFn = .hash → x.2 = keyGroup c.murmur3 x.1.key c.downstreams)

/-- The records that an upstream has handed over are on their way or were sent, in their order;
those before a watermark that was received were sent. -/
structure Lane (c : Config κ π) (input taken inbox : List (Msg κ π)) (pc : ProducerPc κ π)
    (sent : List (Event κ π × ℕ)) (watermark : ℤ) : Prop where
  split : input = taken ++ inbox
  carried : (records taken).map c.keyed = sent.map fst ++ pc.inFlight c
  routed : pc.Routed c
  targets : ∀ x ∈ sent, c.Target x
  ahead : ∀ before timestamp after, taken = before ++ .watermark timestamp :: after →
    (records before).map c.keyed <+: sent.map fst
  boundary : watermark = (watermarks taken).foldl max minInt64

def Carried (c : Config κ π) (inputs : ℕ → List (Msg κ π)) (s : Router κ π) : Prop :=
  ∀ i, Lane c (inputs i) (s.taken i) (s.inbox i) (s.producers i) (sentOf i s.trace)
    (s.tracker.watermarks i)

variable {inputs : ℕ → List (Msg κ π)} {i : ℕ}

theorem split_of_snoc {before after : List (Msg κ π)} {m m' : Msg κ π}
    (h : l ++ [m] = before ++ m' :: after) :
    (before = l ∧ m' = m) ∨ ∃ after', l = before ++ m' :: after' := by
  rcases eq_nil_or_concat after with rfl | ⟨after', x, rfl⟩
  · obtain ⟨hl, hm⟩ := append_inj' h rfl
    exact .inl ⟨hl.symm, (singleton_inj.mp hm).symm⟩
  · rw [concat_eq_append, ← cons_append, ← append_assoc] at h
    obtain ⟨hl, -⟩ := append_inj' h rfl
    exact .inr ⟨after', hl⟩

section

variable {input taken inbox rest : List (Msg κ π)} {pc pc' : ProducerPc κ π}
  {sent : List (Event κ π × ℕ)} {watermark : ℤ}

/-- A message is received. -/
theorem Lane.take (h : Lane c input taken inbox .idle sent watermark) {m : Msg κ π}
    (hinbox : inbox = m :: rest) (hflight : pc.inFlight c = (records [m]).map c.keyed)
    (hrouted : pc.Routed c) :
    Lane c input (taken ++ [m]) rest pc sent ((watermarks [m]).foldl max watermark) where
  split := by rw [h.split, hinbox, append_assoc, singleton_append]
  carried := by
    rw [records_append, map_append, h.carried, hflight, ProducerPc.inFlight, append_nil]
  routed := hrouted
  targets := h.targets
  ahead before timestamp after hsplit := by
    rcases split_of_snoc hsplit with ⟨rfl, -⟩ | ⟨after', hold⟩
    · -- the producer has nothing on its way
      have hall := h.carried
      rw [ProducerPc.inFlight, append_nil] at hall
      exact hall ▸ prefix_refl _
    · exact h.ahead before timestamp after' hold
  boundary := by rw [watermarks_append, foldl_append, ← h.boundary]

/-- The producer goes on. -/
theorem Lane.goOn (h : Lane c input taken inbox pc sent watermark)
    (hflight : pc'.inFlight c = pc.inFlight c) (hrouted : pc'.Routed c) :
    Lane c input taken inbox pc' sent watermark :=
  { h with carried := by rw [hflight]; exact h.carried, routed := hrouted }

/-- The producer sends its record. -/
theorem Lane.send {e : Event κ π} {target : ℕ}
    (h : Lane c input taken inbox (.locked e target) sent watermark) :
    Lane c input taken inbox (.sent target) (sent ++ [(e, target)]) watermark :=
  { h with
    carried := by
      rw [h.carried, map_append]
      exact (append_nil _).symm
    routed := trivial
    targets := forall_mem_append.mpr ⟨h.targets, forall_mem_singleton.mpr h.routed⟩
    ahead := fun before timestamp after hsplit => by
      rw [map_append]
      exact (h.ahead before timestamp after hsplit).trans (prefix_append _ _) }

end

theorem Carried.step (h : Carried c inputs s) (hmove : Move c s s') : Carried c inputs s' := by
  intro j
  have hj := h j
  cases hmove with
  | record i e rest hidle hinbox =>
    rcases eq_or_ne j i with rfl | hne
    · rw [hidle] at hj
      have hlane : Lane c _ _ _ (.counted e) _ _ := hj.take hinbox rfl trivial
      simpa [Router.setProducer, Router.take, Tracker.addPending, watermarks] using hlane
    · simpa [Router.setProducer, Router.take, Tracker.addPending, hne] using hj
  | watermark i timestamp rest hi hidle hinbox =>
    rcases eq_or_ne j i with rfl | hne
    · rw [hidle] at hj
      have hlane : Lane c _ _ _ .idle _ _ := hj.take hinbox rfl trivial
      simpa [Router.setPublish, Router.take, Tracker.advanceWatermark, watermarks, hidle]
        using hlane
    · simpa [Router.setPublish, Router.take, Tracker.advanceWatermark, hne] using hj
  | other i rest hidle hinbox =>
    rcases eq_or_ne j i with rfl | hne
    · rw [hidle] at hj
      have hlane : Lane c _ _ _ .idle _ _ := hj.take hinbox rfl trivial
      simpa [Router.take, watermarks, hidle] using hlane
    · simpa [Router.take, hne] using hj
  | ended i hidle hpublish hinbox =>
    rcases eq_or_ne j i with rfl | hne
    · rw [hidle] at hj
      have hlane : Lane c _ _ _ .returned _ _ := hj.goOn rfl trivial
      simpa [Router.setProducer] using hlane
    · simpa [Router.setProducer, hne] using hj
  | producer i pc tracker activity counter mu hwatermarks _ hflight hrouted hrunning hrunning' =>
    rcases eq_or_ne j i with rfl | hne
    · simpa [Router.setProducer, hwatermarks] using hj.goOn hflight (hrouted hj.routed)
    · simpa [Router.setProducer, hwatermarks, hne] using hj
  | send i e target hlocked =>
    rcases eq_or_ne j i with rfl | hne
    · rw [hlocked] at hj
      simpa [Router.setProducer, Router.observe, sentOf_append, sentOf_record_self] using hj.send
    · simpa [Router.setProducer, Router.observe, sentOf_append, sentOf_record_of_ne hne.symm, hne]
        using hj
  | sendWatermark d minimum skipped final hholding =>
    simpa [Router.setDelivery, Router.observe, sentOf_append, sentOf] using hj
  | publish | raise | stopTicker | wakeUp | upToDate | behind | hold | unlockDownstream | close =>
    exact hj

/-! ## Watermarks -/

/-- A watermark that is below this one, or a message of another kind. -/
def Msg.below (minimum : ℤ) : Msg κ π → Bool
  | .watermark timestamp => timestamp < minimum
  | _ => true

/-- What must have been sent before a watermark: the records ahead of the first watermark of the
same height, in every upstream that was not left out. -/
def Ahead (c : Config κ π) (inputs : ℕ → List (Msg κ π)) (past : List (Obs κ π)) : Obs κ π → Prop
  | .record .. => True
  | .watermark _ minimum skipped => ∀ i < c.upstreams, i ∈ skipped ∨
    (records ((inputs i).takeWhile (Msg.below minimum))).map c.keyed <+:
      (sentOf i past).map fst

def Bounded (c : Config κ π) (t : Tracker) (minimum : ℤ) (skipped : List ℕ) : Prop :=
  ∀ i < c.upstreams, i ∈ skipped ∨ minimum ≤ t.watermarks i

theorem Bounded.mono {t t' : Tracker}
    (h : Bounded c t minimum skipped) (hle : ∀ i, t.watermarks i ≤ t'.watermarks i) :
    Bounded c t' minimum skipped :=
  fun i hi => (h i hi).imp_right fun hmin => hmin.trans (hle i)

/-- The first message at a watermark that is reached. -/
theorem exists_first {m : ℤ} (hle : minimum ≤ (watermarks l).foldl max m) (hm : m < minimum) :
    ∃ before timestamp after, l = before ++ .watermark timestamp :: after ∧
      ∀ rest, (l ++ rest).takeWhile (Msg.below minimum) = before := by
  induction l generalizing m with
  | nil => exact absurd hle (not_le.mpr hm)
  | cons x l ih =>
    have hskip : ∀ m', minimum ≤ (watermarks l).foldl max m' → m' < minimum →
        Msg.below minimum x = true → ∃ before timestamp after,
          x :: l = before ++ .watermark timestamp :: after ∧
          ∀ rest, (x :: l ++ rest).takeWhile (Msg.below minimum) = before := by
      intro m' hle' hm' hx
      obtain ⟨before, timestamp, after, rfl, htake⟩ := ih hle' hm'
      refine ⟨x :: before, timestamp, after, rfl, fun rest => ?_⟩
      rw [cons_append, takeWhile_cons_of_pos hx, htake rest]
    cases x with
    | record | other => exact hskip m hle hm rfl
    | watermark timestamp =>
      rcases lt_or_ge timestamp minimum with hlt | hge
      · exact hskip (max m timestamp) hle (max_lt hm hlt) (decide_eq_true hlt)
      · refine ⟨[], timestamp, l, rfl, fun rest => takeWhile_cons_of_neg ?_⟩
        exact fun hlt => absurd (of_decide_eq_true hlt) (not_lt.mpr hge)

/-- A watermark that all upstreams have reached may be sent. -/
theorem Carried.ahead_of_bounded (h : Carried c inputs s)
    (hmin : minInt64 < minimum) (hbounded : Bounded c s.tracker minimum skipped) (d : ℕ) :
    Ahead c inputs s.trace (.watermark d minimum skipped) := by
  intro i hi
  refine (hbounded i hi).imp_right fun hle => ?_
  rw [(h i).boundary] at hle
  obtain ⟨before, timestamp, after, hsplit, htake⟩ := exists_first hle hmin
  rw [(h i).split, htake]
  exact (h i).ahead before timestamp after hsplit

structure Ordered (c : Config κ π) (inputs : ℕ → List (Msg κ π)) (s : Router κ π) : Prop where
  scan : ∀ p scan, s.publish p = .scanning scan → scan.Sound s.tracker
  bounded : minInt64 < s.lastWatermark → Bounded c s.tracker s.lastWatermark s.lastSkipped
  sent : ∀ d, minInt64 ≤ s.lastSent d ∧ s.lastSent d ≤ s.lastWatermark
  pending : ∀ d x, (s.delivery d).pending = some x →
    s.lastSent d < x.1 ∧ x.1 ≤ s.lastWatermark ∧ Bounded c s.tracker x.1 x.2
  increasing : ∀ d, (marksOf d s.trace).Pairwise (· < ·)
  below : ∀ d, ∀ w ∈ marksOf d s.trace, w ≤ s.lastSent d
  newest : ∀ d, (marksOf d s.trace).getLast?.getD minInt64 = s.lastSent d
  ahead : Traces.Justified (Ahead c inputs) s.trace

/-- Watermarks of the tracker that advance keep it. -/
theorem Ordered.advance (h : Ordered c inputs s) {tracker : Tracker}
    (hle : ∀ i, s.tracker.watermarks i ≤ tracker.watermarks i) :
    Ordered c inputs { s with tracker } :=
  { h with
    scan := fun p scan hscan => (h.scan p scan hscan).mono hle
    bounded := fun hmin => (h.bounded hmin).mono hle
    pending := fun d x hx => by
      obtain ⟨hlt, hlast, hbounded⟩ := h.pending d x hx
      exact ⟨hlt, hlast, hbounded.mono hle⟩ }

theorem Ordered.setPublish (h : Ordered c inputs s) {pc : PublishPc}
    (hpc : ∀ scan, pc = .scanning scan → scan.Sound s.tracker) :
    Ordered c inputs (s.setPublish p pc) :=
  { h with
    scan := fun q scan hscan => by
      simp only [Router.setPublish] at hscan
      rcases eq_or_ne q p with rfl | hq
      · rw [update_self] at hscan
        exact hpc scan hscan
      · rw [update_of_ne hq] at hscan
        exact h.scan q scan hscan }

theorem Ordered.setDelivery (h : Ordered c inputs s) {pc : DeliveryPc}
    (hpc : ∀ x, pc.pending = some x →
      s.lastSent d < x.1 ∧ x.1 ≤ s.lastWatermark ∧ Bounded c s.tracker x.1 x.2) :
    Ordered c inputs (s.setDelivery d pc) :=
  { h with
    pending := fun d' x hx => by
      simp only [Router.setDelivery] at hx
      rcases eq_or_ne d' d with rfl | hd
      · rw [update_self] at hx
        exact hpc x hx
      · rw [update_of_ne hd] at hx
        exact h.pending d' x hx }

theorem pending_rest (final : Bool) : (DeliveryPc.rest final).pending = none := by
  cases final <;> rfl

theorem Ordered.raise (h : Ordered c inputs s) {scan : Scan}
    (hscan : s.publish p = .scanning scan) (hend : c.upstreams ≤ scan.index)
    (hminimum : scan.minimum = some minimum) (hnew : s.lastWatermark < minimum) :
    Ordered c inputs { s with lastWatermark := minimum, lastSkipped := scan.skipped } :=
  { h with
    bounded := fun _ i hi => by
      refine (h.scan p scan hscan i (hi.trans_le hend)).imp_right ?_
      rintro ⟨m, hm, hle⟩
      rw [hminimum] at hm
      rwa [← some.inj hm] at hle
    sent := fun d => ⟨(h.sent d).1, (h.sent d).2.trans hnew.le⟩
    pending := fun d x hx => by
      obtain ⟨hlt, hlast, hbounded⟩ := h.pending d x hx
      exact ⟨hlt, hlast.trans hnew.le, hbounded⟩ }

/-- A sender sends what it has read. -/
theorem Ordered.sendWatermark (h : Ordered c inputs s) (hcarried : Carried c inputs s)
    (hpending : (s.delivery d).pending = some (minimum, skipped)) (final : Bool) :
    Ordered c inputs ({ s.observe (.watermark d minimum skipped) with
      lastSent := update s.lastSent d minimum }.setDelivery d (.unlocking final)) := by
  obtain ⟨hlt, hlast, hbounded⟩ := h.pending d _ hpending
  have hmin : minInt64 < minimum := (h.sent d).1.trans_lt hlt
  have hmarks : ∀ d', d' ≠ d →
      marksOf d' (s.trace ++ [.watermark d minimum skipped]) = marksOf d' s.trace := by
    intro d' hd
    rw [marksOf_append, marksOf_watermark_of_ne hd.symm, append_nil]
  have hmarks_self :
      marksOf d (s.trace ++ [.watermark d minimum skipped]) = marksOf d s.trace ++ [minimum] := by
    rw [marksOf_append, marksOf_watermark_self]
  have hbelow : ∀ w ∈ marksOf d s.trace, w < minimum := fun w hw => (h.below d w hw).trans_lt hlt
  refine { h with
    sent := fun d' => ?_, pending := fun d' x hx => ?_, increasing := fun d' => ?_
    below := fun d' => ?_, newest := fun d' => ?_
    ahead := h.ahead.snoc (hcarried.ahead_of_bounded hmin hbounded d) }
  all_goals
    simp only [Router.setDelivery, Router.observe] at *
    rcases eq_or_ne d' d with rfl | hd
  · rw [update_self]
    exact ⟨hmin.le, hlast⟩
  · rw [update_of_ne hd]
    exact h.sent d'
  · rw [update_self] at hx
    exact nomatch hx
  · rw [update_of_ne hd] at hx ⊢
    exact h.pending d' x hx
  · rw [hmarks_self]
    refine pairwise_append.mpr ⟨h.increasing d', pairwise_singleton _ _, ?_⟩
    intro w hw w' hw'
    rw [mem_singleton.mp hw']
    exact hbelow w hw
  · rw [hmarks d' hd]
    exact h.increasing d'
  · rw [hmarks_self, update_self]
    intro w hw
    rcases mem_append.mp hw with hw | hw
    · exact (hbelow w hw).le
    · exact (mem_singleton.mp hw).le
  · rw [hmarks d' hd, update_of_ne hd]
    exact h.below d'
  · rw [hmarks_self, update_self, getLast?_concat, getD_some]
  · rw [hmarks d' hd, update_of_ne hd]
    exact h.newest d'

theorem Ordered.step (h : Ordered c inputs s) (hcarried : Carried c inputs s)
    (hmove : Move c s s') : Ordered c inputs s' := by
  cases hmove with
  | record | other | ended | stopTicker | close => exact { h with }
  | watermark i timestamp rest hi hidle hinbox =>
    have hle : ∀ j, s.tracker.watermarks j ≤
        (s.tracker.advanceWatermark i timestamp).watermarks j := by
      intro j
      simp only [Tracker.advanceWatermark]
      rcases eq_or_ne j i with rfl | hj
      · rw [update_self]
        exact le_max_left _ _
      · rw [update_of_ne hj]
    have hadvance : Ordered c inputs { s.take i (.watermark timestamp) rest with
        tracker := s.tracker.advanceWatermark i timestamp } := { h.advance hle with }
    exact hadvance.setPublish nofun
  | producer i pc tracker activity counter mu hwatermarks _ hflight hrouted hrunning hrunning' =>
    have hadvance : Ordered c inputs { s with tracker } :=
      h.advance fun j => (congrFun hwatermarks j).ge
    exact { hadvance with }
  | send i e target hlocked =>
    have hmarks : ∀ d, marksOf d (s.trace ++ [.record i e target]) = marksOf d s.trace := by
      intro d
      rw [marksOf_append]
      exact append_nil _
    refine { h with
      increasing := fun d => ?_, below := fun d => ?_, newest := fun d => ?_
      ahead := h.ahead.snoc trivial }
    all_goals
      simp only [Router.setProducer, Router.observe]
      rw [hmarks d]
    · exact h.increasing d
    · exact h.below d
    · exact h.newest d
  | publish p pc mu wake hactive hscan =>
    have hframe : Ordered c inputs { s with watermarkMu := mu, watermarkWake := wake } := { h with }
    refine hframe.setPublish fun scan' hscan' => ?_
    rcases hscan scan' hscan' with ⟨now, rfl⟩ | ⟨scan, hp, hstep⟩
    · exact Scan.sound_start _ now
    · exact (h.scan p scan hp).step hstep
  | raise p scan minimum hscan hend hminimum hnew =>
    exact (h.raise hscan hend hminimum hnew).setPublish nofun
  | wakeUp d final wake hwaiting hfinal =>
    have hframe : Ordered c inputs { s with watermarkWake := wake } := { h with }
    exact hframe.setDelivery nofun
  | upToDate d final hreading hle =>
    refine h.setDelivery fun x hx => ?_
    rw [pending_rest] at hx
    exact nomatch hx
  | behind d final hreading hlt =>
    refine h.setDelivery fun x hx => ?_
    cases hx
    exact ⟨hlt, le_rfl, h.bounded ((h.sent d).1.trans_lt hlt)⟩
  | hold d minimum skipped final hlocking mu =>
    have hframe : Ordered c inputs { s with downstreamMu := mu } := { h with }
    refine hframe.setDelivery fun x hx => ?_
    refine h.pending d x ?_
    rw [hlocking]
    exact hx
  | sendWatermark d minimum skipped final hholding =>
    exact h.sendWatermark hcarried (by rw [hholding]; rfl) final
  | unlockDownstream d final hunlocking mu =>
    have hframe : Ordered c inputs { s with downstreamMu := mu } := { h with }
    refine hframe.setDelivery fun x hx => ?_
    rw [pending_rest] at hx
    exact nomatch hx

/-! ## Shutdown -/

structure Shutdown (c : Config κ π) (s : Router κ π) : Prop where
  ticker : s.watermarksDone = true → s.publish none = .idle
  stopped : s.watermarksDone = true → ∀ i < c.upstreams, s.producers i = .returned
  returned : ∀ i, s.producers i = .returned → s.publish (some i) = .idle ∧ s.inbox i = []
  outside : ∀ i, ¬i < c.upstreams → s.publish (some i) = .idle
  final : ∀ d, (s.delivery d).final = true → s.watermarksDone = true
  pending : ∀ d x, (s.delivery d).pending = some x → (s.delivery d).final = true →
    x.1 = s.lastWatermark
  flushed : ∀ d, (s.delivery d = .unlocking true ∨ s.delivery d = .returned) →
    s.lastSent d = s.lastWatermark
  closed : s.closed = true → (∀ i < c.upstreams, s.producers i = .returned) ∧
    ∀ d < c.downstreams, s.delivery d = .returned

/-- Nobody publishes any more. -/
theorem Shutdown.idle (h : Shutdown c s) (hdone : s.watermarksDone = true) (p : Option ℕ) :
    s.publish p = .idle := by
  cases p with
  | none => exact h.ticker hdone
  | some i =>
    by_cases hi : i < c.upstreams
    · exact (h.returned i (h.stopped hdone i hi)).1
    · exact h.outside i hi

theorem rest_eq {final : Bool}
    (h : DeliveryPc.rest final = .unlocking true ∨ DeliveryPc.rest final = .returned) :
    final = true := by
  cases final with
  | true => rfl
  | false => rcases h with h | h <;> exact nomatch h

theorem final_rest (final : Bool) : (DeliveryPc.rest final).final = final := by
  cases final <;> rfl

section

variable (h : Shutdown c s)
include h

/-- A step of a sender to another place. -/
theorem Shutdown.setDelivery {d : ℕ} {old pc : DeliveryPc} (hold : s.delivery d = old)
    (hrunning : old ≠ .returned)
    (hfinal : pc.final = true → old.final = true ∨ s.watermarksDone = true)
    (hpending : ∀ x, pc.pending = some x → pc.final = true → x.1 = s.lastWatermark)
    (hflushed : (pc = .unlocking true ∨ pc = .returned) → s.lastSent d = s.lastWatermark) :
    Shutdown c (s.setDelivery d pc) := by
  refine { h with
    final := fun d' => ?_, pending := fun d' => ?_, flushed := fun d' => ?_
    closed := fun hclosed => ⟨(h.closed hclosed).1, fun d' hd' => ?_⟩ }
  all_goals
    simp only [Router.setDelivery]
    rcases eq_or_ne d' d with rfl | hd
  · rw [update_self]
    exact fun hpc => (hfinal hpc).elim (hold ▸ h.final d') id
  · rw [update_of_ne hd]
    exact h.final d'
  · rw [update_self]
    exact hpending
  · rw [update_of_ne hd]
    exact h.pending d'
  · rw [update_self]
    exact hflushed
  · rw [update_of_ne hd]
    exact h.flushed d'
  · exact absurd (hold.symm.trans ((h.closed hclosed).2 d' hd')) hrunning
  · rw [update_of_ne hd]
    exact (h.closed hclosed).2 d' hd'

/-- A step of a producer to another place. -/
theorem Shutdown.setProducer {i : ℕ} {old pc : ProducerPc κ π} (hold : s.producers i = old)
    (hrunning : old ≠ .returned)
    (hpc : pc = .returned → s.publish (some i) = .idle ∧ s.inbox i = []) :
    Shutdown c (s.setProducer i pc) := by
  have hkeep : ∀ j, s.producers j = .returned → update s.producers i pc j = .returned := by
    intro j hj
    have hji : j ≠ i := fun heq => hrunning (hold ▸ heq ▸ hj)
    rwa [update_of_ne hji]
  refine { h with
    stopped := fun hdone j hj => hkeep j (h.stopped hdone j hj), returned := fun j hj => ?_
    closed := fun hclosed => ⟨fun j hj => hkeep j ((h.closed hclosed).1 j hj),
      (h.closed hclosed).2⟩ }
  simp only [Router.setProducer] at hj ⊢
  rcases eq_or_ne j i with rfl | hji
  · rw [update_self] at hj
    exact hpc hj
  · rw [update_of_ne hji] at hj
    exact h.returned j hj

/-- What a producer receives. -/
theorem Shutdown.take {i : ℕ} (hidle : s.producers i = .idle) (m : Msg κ π)
    (rest : List (Msg κ π)) :
    Shutdown c (s.take i m rest) :=
  { h with
    returned := fun j hj => by
      have hji : j ≠ i := by
        rintro rfl
        exact nomatch hidle.symm.trans hj
      refine ⟨(h.returned j hj).1, ?_⟩
      simp only [Router.take]
      rw [update_of_ne hji]
      exact (h.returned j hj).2 }

variable {p : Option ℕ}

theorem Shutdown.setPublish {pc : PublishPc} (hnone : p = none → s.watermarksDone = false)
    (hsome : ∀ i, p = some i → s.producers i ≠ .returned ∧ i < c.upstreams) :
    Shutdown c (s.setPublish p pc) :=
  { h with
    ticker := fun hdone => by
      have hp : none ≠ p := by
        rintro rfl
        exact nomatch (hnone rfl).symm.trans hdone
      simp only [Router.setPublish]
      rw [update_of_ne hp]
      exact h.ticker hdone
    returned := fun j hj => by
      have hp : some j ≠ p := fun heq => (hsome j heq.symm).1 hj
      simp only [Router.setPublish]
      rw [update_of_ne hp]
      exact h.returned j hj
    outside := fun j hj => by
      have hp : some j ≠ p := fun heq => hj (hsome j heq.symm).2
      simp only [Router.setPublish]
      rw [update_of_ne hp]
      exact h.outside j hj }

/-- A call of `publishMinimum` that is on its way belongs to someone who has not returned. -/
theorem Shutdown.active (hp : s.publish p ≠ .idle) :
    s.watermarksDone = false ∧ ∀ i, p = some i → s.producers i ≠ .returned ∧ i < c.upstreams := by
  refine ⟨?_, ?_⟩
  · by_contra hdone
    exact hp (h.idle (by simpa using hdone) p)
  · rintro i rfl
    refine ⟨fun hreturned => hp (h.returned i hreturned).1, ?_⟩
    by_contra hi
    exact hp (h.outside i hi)

theorem Shutdown.step (hordered : Ordered c inputs s) (hmove : Move c s s') : Shutdown c s' := by
  cases hmove with
  | record i e rest hidle hinbox =>
    have htake : Shutdown c { s.take i (.record e) rest with
        tracker := s.tracker.addPending i 1 } := { h.take hidle (.record e) rest with }
    exact htake.setProducer hidle nofun nofun
  | watermark i timestamp rest hi hidle hinbox =>
    have htake : Shutdown c { s.take i (.watermark timestamp) rest with
        tracker := s.tracker.advanceWatermark i timestamp } :=
      { h.take hidle (.watermark timestamp) rest with }
    refine htake.setPublish nofun fun j hj => ?_
    cases hj
    exact ⟨fun hreturned => (nomatch hidle.symm.trans hreturned), hi⟩
  | other i rest hidle hinbox => exact h.take hidle .other rest
  | ended i hidle hpublish hinbox =>
    exact h.setProducer hidle nofun fun _ => ⟨hpublish, hinbox⟩
  | producer i pc tracker activity counter mu hwatermarks _ hflight hrouted hrunning hrunning' =>
    have hframe : Shutdown c { s with tracker, activity, counter, downstreamMu := mu } := { h with }
    exact hframe.setProducer rfl hrunning fun hpc => absurd hpc hrunning'
  | send i e target hlocked =>
    have hframe : Shutdown c (s.observe (.record i e target)) := { h with }
    exact hframe.setProducer hlocked nofun nofun
  | publish p pc mu wake hactive hscan =>
    have hframe : Shutdown c { s with watermarkMu := mu, watermarkWake := wake } := { h with }
    rcases hactive with hactive | ⟨rfl, hrunning⟩
    · exact hframe.setPublish (fun _ => (h.active hactive).1) (h.active hactive).2
    · exact hframe.setPublish (fun _ => hrunning) nofun
  | raise p scan minimum hscan hend hminimum hnew =>
    have hactive := h.active (p := p) (by rw [hscan]; exact nofun)
    -- a last call would need `watermarksDone`
    have hnotFinal : ∀ d, (s.delivery d).final = true → False := fun d hd =>
      nomatch hactive.1.symm.trans (h.final d hd)
    have hframe : Shutdown c { s with lastWatermark := minimum, lastSkipped := scan.skipped } :=
      { h with
        pending := fun d x _ hfinal => (hnotFinal d hfinal).elim
        flushed := fun d hd => by
          refine (hnotFinal d ?_).elim
          rcases hd with hd | hd <;> exact congrArg DeliveryPc.final hd }
    exact hframe.setPublish (fun _ => hactive.1) hactive.2
  | stopTicker hidle hreturned =>
    exact { h with
      ticker := fun _ => hidle, stopped := fun _ => hreturned, final := fun _ _ => rfl }
  | wakeUp d final wake hwaiting hfinal =>
    have hframe : Shutdown c { s with watermarkWake := wake } := { h with }
    refine hframe.setDelivery hwaiting nofun (fun hpc => .inr (hfinal hpc)) nofun ?_
    rintro (hpc | hpc) <;> exact nomatch hpc
  | upToDate d final hreading hle =>
    refine h.setDelivery hreading nofun ?_ ?_ fun _ => ?_
    · rw [final_rest]
      exact .inl
    · intro x hx
      rw [pending_rest] at hx
      exact nomatch hx
    · exact le_antisymm (hordered.sent d).2 hle
  | behind d final hreading hlt =>
    refine h.setDelivery hreading nofun .inl ?_ ?_
    · intro x hx _
      rw [← some.inj hx]
    · rintro (hpc | hpc) <;> exact nomatch hpc
  | hold d minimum skipped final hlocking mu =>
    have hframe : Shutdown c { s with downstreamMu := mu } := { h with }
    refine hframe.setDelivery hlocking nofun .inl ?_ ?_
    · intro x hx hfinal
      exact h.pending d x (by rw [hlocking]; exact hx) (by rw [hlocking]; exact hfinal)
    · rintro (hpc | hpc) <;> exact nomatch hpc
  | sendWatermark d minimum skipped final hholding =>
    have hlast : final = true → minimum = s.lastWatermark := fun hfinal =>
      h.pending d (minimum, skipped) (by rw [hholding]; rfl) (by rw [hholding]; exact hfinal)
    have hframe : Shutdown c ({ s.observe (.watermark d minimum skipped) with
        lastSent := update s.lastSent d minimum }) := by
      refine { h with flushed := fun d' hd' => ?_ }
      have hne : d' ≠ d := by
        rintro rfl
        rcases hd' with hd' | hd' <;> exact nomatch hholding.symm.trans hd'
      show update s.lastSent d minimum d' = s.lastWatermark
      rw [update_of_ne hne]
      exact h.flushed d' hd'
    refine hframe.setDelivery hholding nofun .inl nofun ?_
    rintro (hpc | hpc)
    · show update s.lastSent d minimum d = s.lastWatermark
      rw [update_self]
      exact hlast (DeliveryPc.unlocking.inj hpc)
    · exact nomatch hpc
  | unlockDownstream d final hunlocking mu =>
    have hframe : Shutdown c { s with downstreamMu := mu } := { h with }
    refine hframe.setDelivery hunlocking nofun ?_ ?_ ?_
    · rw [final_rest]
      exact .inl
    · intro x hx
      rw [pending_rest] at hx
      exact nomatch hx
    · intro hpc
      have hfinal := rest_eq hpc
      rw [hfinal] at hunlocking
      exact h.flushed d (.inl hunlocking)
  | close hreturned hflushed => exact { h with closed := fun _ => ⟨hreturned, hflushed⟩ }

end

/-! ## Runs -/

structure Inv (c : Config κ π) (inputs : ℕ → List (Msg κ π)) (s : Router κ π) : Prop where
  tracked : s.Tracked
  carried : Carried c inputs s
  ordered : Ordered c inputs s
  shutdown : Shutdown c s

variable {lastActivity : ℕ → ℤ}

theorem inv_start : Inv c inputs (Router.start inputs lastActivity) where
  tracked := ⟨fun _ => rfl, rfl⟩
  carried _ :=
    ⟨rfl, rfl, trivial, nofun, (fun before _ _ h => by cases before <;> exact nomatch h), rfl⟩
  ordered :=
    { scan := nofun
      bounded := fun h => absurd h (lt_irrefl _)
      sent := fun _ => ⟨le_rfl, le_rfl⟩
      pending := nofun
      increasing := fun _ => .nil
      below := fun _ _ h => absurd h not_mem_nil
      newest := fun _ => rfl
      ahead := .nil }
  shutdown :=
    { ticker := nofun
      stopped := nofun
      returned := nofun
      outside := fun _ _ => rfl
      final := nofun
      pending := nofun
      flushed := fun _ h => by rcases h with h | h <;> exact nomatch h
      closed := nofun }

theorem Inv.reachable
    (h : Reachable (Router.step c) (Router.start inputs lastActivity) s) : Inv c inputs s :=
  h.invariant inv_start fun _ _ _ _ hi _ hstep =>
    have hmove := move_of_step hstep
    ⟨hi.tracked.step hmove, hi.carried.step hmove, hi.ordered.step hi.carried hmove,
      hi.shutdown.step hi.ordered hmove⟩

end Wire.Sdk.PartitionRouter
