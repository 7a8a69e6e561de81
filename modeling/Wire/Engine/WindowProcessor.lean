import Wire.Library.LittleEndian

/-!
# Event-time windows

`WindowProcessor` assigns each event to windows of its key, adds it to their accumulators, fires a
window when the watermark has passed its end, and keeps it for `AllowedLateness` more.  A tumbling
or sliding window lies on a grid; the sessions of a key are merged when they touch.

Times are integers: the source checks each sum of `int64`s before it is made.  The functions of the
aggregator are deterministic.  A map of Go is a function with the set of its keys; the source goes
through it in the order of the keys.

`Inv` is what the processor keeps to: it is what `Restore` checks of a snapshot, and more.
-/

namespace Wire.Engine.Window

open Function List

/-- A slice of bytes; nil is `none`. -/
abbrev Bytes := Option (List (Fin 256))

/-- `string(b)`. -/
def str (b : Bytes) : List (Fin 256) := b.getD []

structure Event where
  key : Bytes
  value : Bytes
  eventTime : ℤ

/-- `WindowAggregator`. -/
structure WindowAggregator where
  createAccumulator : Bytes
  add : Bytes → Event → Bytes
  getResult : Bytes → Bytes
  merge : Bytes → Bytes → Bytes

/-- `WindowConfig.Kind`, with the durations of each kind. -/
inductive Kind where
  | tumbling (size : ℤ)
  | sliding (size slide : ℤ)
  | session (gap : ℤ)
deriving DecidableEq

structure WindowConfig where
  kind : Kind
  allowedLateness : ℤ
  aggregationID : String
  maxWindows : ℤ
deriving DecidableEq

structure WindowResult where
  key : Bytes
  windowStart : ℤ
  windowEnd : ℤ
  value : Bytes
  isUpdate : Bool
deriving DecidableEq

structure WindowStats where
  late : ℕ := 0
  allowed : ℕ := 0
  dropped : ℕ := 0
  retainedWindows : ℤ := 0

structure RetainedWindow where
  key : Bytes
  start : ℤ
  end_ : ℤ
  accumulator : Bytes := none
  fired : Bool := false
  emitted : Bool := false
deriving DecidableEq

structure WindowProcessor where
  config : WindowConfig
  watermark : ℤ
  keys : Finset (List (Fin 256)) := ∅
  windows : List (Fin 256) → List RetainedWindow := fun _ => []
  stats : WindowStats := {}

inductive Error where
  | invalidLateness | invalidStateLimit | sizeRequired | sizeAndSlideRequired
  | assignmentExceedsLimit | gapRequired | endOverflow | startUnderflow | memoryLimitExceeded
deriving DecidableEq

def maxInt64 : ℤ := 2 ^ 63 - 1

def minInt64 : ℤ := -2 ^ 63

/-! ## The functions of the source -/

/-- The size and the step of a grid of windows. -/
def Kind.grid : Kind → Option (ℤ × ℤ)
  | .tumbling size => some (size, size)
  | .sliding size slide => some (size, slide)
  | .session _ => none

/-- The checks of `NewWindowProcessor` on the durations. -/
def WindowConfig.checkKind (c : WindowConfig) : Except Error Unit :=
  match c.kind with
  | .tumbling size => if size ≤ 0 then .error .sizeRequired else .ok ()
  | .sliding size slide =>
    if size ≤ 0 ∨ slide ≤ 0 then .error .sizeAndSlideRequired
    else if c.maxWindows < (size - 1) / slide + 1 then .error .assignmentExceedsLimit
    else .ok ()
  | .session gap => if gap ≤ 0 then .error .gapRequired else .ok ()

/-- `NewWindowProcessor`. -/
def newWindowProcessor (c : WindowConfig) : Except Error WindowProcessor :=
  if c.allowedLateness < 0 ∨ c.aggregationID = "" then .error .invalidLateness
  else
    let c := if c.maxWindows = 0 then { c with maxWindows := 100000 } else c
    if c.maxWindows < 1 then .error .invalidStateLimit
    else match c.checkKind with
      | .error e => .error e
      | .ok () => .ok { config := c, watermark := minInt64 }

def windowEnd (start duration : ℤ) : Except Error ℤ :=
  if maxInt64 - duration < start then .error .endOverflow else .ok (start + duration)

def WindowConfig.deadline (c : WindowConfig) (end_ : ℤ) : ℤ :=
  if maxInt64 - c.allowedLateness < end_ then maxInt64 else end_ + c.allowedLateness

def floorWindowStart (timestamp step : ℤ) : Except Error ℤ :=
  let remainder := timestamp % step
  if timestamp < minInt64 + remainder then .error .startUnderflow else .ok (timestamp - remainder)

/-- The loop that assigns an event to windows of a grid. -/
def assignFrom (size step : ℤ) (tumbling : Bool) (t start : ℤ) : Except Error (List (ℤ × ℤ)) :=
  match windowEnd start size with
  | .error e => .error e
  | .ok end_ =>
    if end_ ≤ t then .ok []
    else if tumbling ∨ start < minInt64 + step then .ok [(start, end_)]
    -- the step is positive, so the loop ends
    else if _h : 0 < step ∧ t < start + size then
      match assignFrom size step tumbling t (start - step) with
      | .error e => .error e
      | .ok rest => .ok ((start, end_) :: rest)
    else .ok [(start, end_)]
termination_by (start + size - t).toNat
decreasing_by omega

/-- One pass of the loop that merges the sessions which touch; the result has the merged session and
the others. -/
def mergePass (agg : WindowAggregator) :
    RetainedWindow → List RetainedWindow → RetainedWindow × List RetainedWindow
  | merged, [] => (merged, [])
  | merged, w :: rest =>
    if w.start ≤ merged.end_ ∧ merged.start ≤ w.end_ then
      mergePass agg { merged with
        start := min merged.start w.start
        end_ := max merged.end_ w.end_
        accumulator := agg.merge merged.accumulator w.accumulator
        emitted := merged.emitted || w.emitted } rest
    else
      let (merged, remaining) := mergePass agg merged rest
      (merged, w :: remaining)

/-- The passes, until one changes nothing. -/
def mergeSessions (agg : WindowAggregator) (merged : RetainedWindow) (next : List RetainedWindow) :
    RetainedWindow × List RetainedWindow :=
  let pass := mergePass agg merged next
  if _h : pass.2.length < next.length then mergeSessions agg pass.1 pass.2 else pass
termination_by next.length

/-- `result`. -/
def WindowAggregator.result (agg : WindowAggregator) (w : RetainedWindow) (update : Bool) :
    WindowResult :=
  { key := w.key, windowStart := w.start, windowEnd := w.end_
    value := agg.getResult w.accumulator, isUpdate := update }

/-- The windows that an event is assigned to, and the windows of its key they are put among. -/
def assign (agg : WindowAggregator) (c : WindowConfig) (event : Event)
    (existing : List RetainedWindow) : Except Error (List RetainedWindow × List RetainedWindow) :=
  match c.kind with
  | .session gap =>
    match windowEnd event.eventTime gap with
    | .error e => .error e
    | .ok end_ =>
      let (merged, remaining) := mergeSessions agg
        { key := event.key, start := event.eventTime, end_, accumulator := agg.createAccumulator }
        existing
      .ok ([merged], remaining)
  | .tumbling size => grid size size true
  | .sliding size slide => grid size slide false
where
  grid (size step : ℤ) (tumbling : Bool) :
      Except Error (List RetainedWindow × List RetainedWindow) :=
    match floorWindowStart event.eventTime step with
    | .error e => .error e
    | .ok start =>
      match assignFrom size step tumbling event.eventTime start with
      | .error e => .error e
      | .ok bounds => .ok (bounds.map fun b => { key := event.key, start := b.1, end_ := b.2 },
          existing)

/-- The event is added to a window, which fires if it is due. -/
def addEvent (agg : WindowAggregator) (watermark : ℤ) (event : Event) (window : RetainedWindow) :
    RetainedWindow × List WindowResult :=
  let accumulator := if window.accumulator = none then agg.createAccumulator else window.accumulator
  let window := { window with accumulator := agg.add accumulator event }
  if window.end_ ≤ watermark then
    ({ window with fired := true, emitted := true }, [agg.result window window.emitted])
  else (window, [])

/-- The variables of the loop over the assigned windows. -/
structure Accepting where
  next : List RetainedWindow
  results : List WindowResult := []
  accepted : ℕ := 0

/-- One assigned window. -/
def accept (agg : WindowAggregator) (c : WindowConfig) (watermark : ℤ) (event : Event)
    (s : Accepting) (window : RetainedWindow) : Accepting :=
  if c.deadline window.end_ ≤ watermark then s
  else
    let found := if c.kind.grid.isSome then
        s.next.findIdx? fun w => w.start = window.start ∧ w.end_ = window.end_
      else none
    match found with
    | some i =>
      let (window, results) := addEvent agg watermark event (s.next.getD i window)
      { next := s.next.set i window, results := s.results ++ results, accepted := s.accepted + 1 }
    | none =>
      let (window, results) := addEvent agg watermark event window
      { next := s.next ++ [window], results := s.results ++ results, accepted := s.accepted + 1 }

/-- `sort.Slice`, by the start. -/
def sortByStart (ws : List RetainedWindow) : List RetainedWindow :=
  ws.mergeSort fun a b => a.start ≤ b.start

namespace WindowProcessor

variable (agg : WindowAggregator) (p : WindowProcessor)

/-- The results of `Process` and whether the event was too late, or the error. -/
abbrev Outcome := Except Error (List WindowResult × Bool)

/-- The windows of the key and the counters after an event. -/
def record (event : Event) (assigned : List RetainedWindow) (s : Accepting) :
    WindowProcessor × Outcome :=
  let key := str event.key
  let existing := p.windows key
  let next := if s.accepted = 0 then existing else s.next
  let newCount := p.stats.retainedWindows - existing.length + next.length
  if p.config.maxWindows < newCount then (p, .error .memoryLimitExceeded)
  else
    let next := sortByStart next
    let tooLate := decide (assigned ≠ [] ∧ s.accepted = 0)
    let late := decide (event.eventTime < p.watermark)
    ({ p with
        keys := if next = [] then p.keys else insert key p.keys
        windows := if next = [] then p.windows else update p.windows key next
        stats := {
          late := if late then p.stats.late + 1 else p.stats.late
          allowed := if late ∧ 0 < s.accepted then p.stats.allowed + 1 else p.stats.allowed
          dropped := if tooLate then p.stats.dropped + 1 else p.stats.dropped
          retainedWindows := newCount } },
      .ok (s.results, tooLate))

/-- `Process`. -/
def process (event : Event) : WindowProcessor × Outcome :=
  match assign agg p.config event (p.windows (str event.key)) with
  | .error e => (p, .error e)
  | .ok (assigned, next) =>
    p.record event assigned
      (assigned.foldl (accept agg p.config p.watermark event) { next })

/-- A window that becomes due is fired. -/
def fire (watermark : ℤ) (w : RetainedWindow) : RetainedWindow :=
  if !w.fired ∧ w.end_ ≤ watermark then { w with fired := true, emitted := true } else w

/-- The results of the windows of a key that become due. -/
def fired (watermark : ℤ) (ws : List RetainedWindow) : List WindowResult :=
  (ws.filter fun w => !w.fired && decide (w.end_ ≤ watermark)).map fun w => agg.result w w.emitted

/-- The windows of a key that are kept. -/
def remaining (watermark : ℤ) (ws : List RetainedWindow) : List RetainedWindow :=
  (ws.map (fire watermark)).filter fun w => watermark < p.config.deadline w.end_

/-- `AdvanceWatermark`. -/
def advanceWatermark (watermark : ℤ) : WindowProcessor × List WindowResult :=
  if watermark ≤ p.watermark then (p, [])
  else
    ({ p with
        watermark
        keys := p.keys.filter fun k => p.remaining watermark (p.windows k) ≠ []
        windows := fun k => if k ∈ p.keys then p.remaining watermark (p.windows k) else p.windows k
        stats := { p.stats with retainedWindows := p.stats.retainedWindows -
          ∑ k ∈ p.keys, ((p.windows k).countP fun w =>
            p.config.deadline w.end_ ≤ watermark : ℤ) } },
      p.keys.sort.flatMap fun k => fired agg watermark (p.windows k))

end WindowProcessor

/-- A call of the processor. -/
inductive Call where
  | process (event : Event)
  | advanceWatermark (watermark : ℤ)

/-- What a call returns, with the statistics after it. -/
inductive Reply where
  | processed (outcome : WindowProcessor.Outcome) (stats : WindowStats)
  | advanced (results : List WindowResult) (stats : WindowStats)

namespace WindowProcessor

variable (agg : WindowAggregator)

def call (p : WindowProcessor) : Call → WindowProcessor × Reply
  | .process event =>
    let (p, outcome) := p.process agg event
    (p, .processed outcome p.stats)
  | .advanceWatermark watermark =>
    let (p, results) := p.advanceWatermark agg watermark
    (p, .advanced results p.stats)

/-- A sequence of calls, with the replies. -/
def calls : WindowProcessor → List Call → WindowProcessor × List Reply
  | p, [] => (p, [])
  | p, c :: rest =>
    let (p, reply) := p.call agg c
    let (p, replies) := calls p rest
    (p, reply :: replies)

end WindowProcessor

/-! ## What is kept of a window -/

/-- The durations of a configuration are positive. -/
structure WindowConfig.Valid (c : WindowConfig) : Prop where
  grid : ∀ size step, c.kind.grid = some (size, step) → 0 < size
  gap : ∀ gap, c.kind = .session gap → 0 < gap
  limit : 1 ≤ c.maxWindows

/-- The bounds of a window are those of its kind. -/
structure WindowConfig.Bounds (c : WindowConfig) (w : RetainedWindow) : Prop where
  lt : w.start < w.end_
  aligned : ∀ size step, c.kind.grid = some (size, step) →
    w.start % step = 0 ∧ windowEnd w.start size = .ok w.end_

/-- A window of a key that is kept. -/
structure Retained (c : WindowConfig) (watermark : ℤ) (key : List (Fin 256)) (w : RetainedWindow) :
    Prop where
  key : str w.key = key
  bounds : c.Bounds w
  kept : watermark < c.deadline w.end_
  emitted : w.fired = true → w.emitted = true
  due : w.fired = decide (w.end_ ≤ watermark)

/-- The windows of a key, in any order. -/
structure Loose (c : WindowConfig) (watermark : ℤ) (key : List (Fin 256))
    (ws : List RetainedWindow) : Prop where
  each : ∀ w ∈ ws, Retained c watermark key w
  distinct : c.kind.grid.isSome = true → (ws.map (·.start)).Nodup
  disjoint : c.kind.grid = none → ws.Pairwise fun a b => a.end_ < b.start ∨ b.end_ < a.start

/-- The windows of a key, in order. -/
structure Row (c : WindowConfig) (watermark : ℤ) (key : List (Fin 256))
    (ws : List RetainedWindow) : Prop where
  each : ∀ w ∈ ws, Retained c watermark key w
  sorted : ws.Pairwise fun a b => a.start < b.start
  disjoint : c.kind.grid = none → ws.Pairwise fun a b => a.end_ < b.start

variable {s : Accepting}

section Rows

variable {agg : WindowAggregator} {c : WindowConfig} {watermark : ℤ} {key : List (Fin 256)}
  {event : Event} {w window merged : RetainedWindow} {ws next : List RetainedWindow}

theorem Row.nil : Row c watermark key [] :=
  ⟨fun _ h => absurd h not_mem_nil, .nil, fun _ => .nil⟩

theorem Row.loose (h : Row c watermark key ws) : Loose c watermark key ws where
  each := h.each
  distinct _ := pairwise_map.mpr (h.sorted.imp fun hlt => hlt.ne)
  disjoint hkind := (h.disjoint hkind).imp .inl

theorem Row.sublist {ws' : List RetainedWindow} (h : Row c watermark key ws)
    (hsub : ws'.Sublist ws) : Row c watermark key ws' where
  each w hw := h.each w (hsub.subset hw)
  sorted := h.sorted.sublist hsub
  disjoint hkind := (h.disjoint hkind).sublist hsub

theorem sortByStart_perm (ws : List RetainedWindow) : (sortByStart ws).Perm ws :=
  mergeSort_perm ws _

theorem pairwise_sortByStart (ws : List RetainedWindow) :
    (sortByStart ws).Pairwise fun a b => a.start ≤ b.start := by
  have h : (sortByStart ws).Pairwise fun a b => decide (a.start ≤ b.start) = true := by
    refine pairwise_mergeSort ?_ ?_ ws
    · intro a b c hab hbc
      rw [decide_eq_true_eq] at hab hbc ⊢
      exact hab.trans hbc
    · intro a b
      rw [Bool.or_eq_true, decide_eq_true_eq, decide_eq_true_eq]
      exact le_total ..
  exact h.imp fun hle => of_decide_eq_true hle

theorem Row.sortByStart_eq (h : Row c watermark key ws) : sortByStart ws = ws :=
  mergeSort_of_pairwise (h.sorted.imp fun hlt => decide_eq_true hlt.le)

/-- Windows that do not touch are in order when they are sorted. -/
theorem Loose.sort (h : Loose c watermark key ws) : Row c watermark key (sortByStart ws) := by
  have hperm := sortByStart_perm ws
  have heach : ∀ w ∈ sortByStart ws, Retained c watermark key w :=
    fun w hw => h.each w (hperm.mem_iff.mp hw)
  have hle := pairwise_sortByStart ws
  have hdisjoint : c.kind.grid = none →
      (sortByStart ws).Pairwise fun a b => a.end_ < b.start := by
    intro hkind
    have hpairs : (sortByStart ws).Pairwise fun a b => a.end_ < b.start ∨ b.end_ < a.start :=
      hperm.symm.pairwise (h.disjoint hkind) fun hab => hab.symm
    refine (hle.and hpairs).imp_of_mem ?_
    intro a b ha hb ⟨hstart, hor⟩
    rcases hor with hlt | hlt
    · exact hlt
    · have := (heach b hb).bounds.lt
      omega
  refine ⟨heach, ?_, hdisjoint⟩
  cases hkind : c.kind.grid with
  | none =>
    refine (hdisjoint hkind).imp_of_mem ?_
    intro a b ha _ hlt
    exact (heach a ha).bounds.lt.trans hlt
  | some grid =>
    have hnodup : ((sortByStart ws).map (·.start)).Nodup :=
      (hperm.map _).nodup_iff.mpr (h.distinct (by rw [hkind]; rfl))
    refine (hle.and (pairwise_map.mp hnodup)).imp ?_
    intro a b hab
    exact lt_of_le_of_ne hab.1 hab.2

/-! ### An event is added -/

theorem addEvent_bounds (agg : WindowAggregator) (watermark : ℤ) (event : Event)
    (w : RetainedWindow) : (addEvent agg watermark event w).1.key = w.key ∧
    (addEvent agg watermark event w).1.start = w.start ∧
    (addEvent agg watermark event w).1.end_ = w.end_ := by
  rw [addEvent]
  dsimp only
  split <;> exact ⟨rfl, rfl, rfl⟩

theorem WindowConfig.Bounds.congr (h : c.Bounds w) (hstart : window.start = w.start)
    (hend : window.end_ = w.end_) : c.Bounds window := by
  refine ⟨by rw [hstart, hend]; exact h.lt, fun size step hkind => ?_⟩
  rw [hstart, hend]
  exact h.aligned size step hkind

/-- A window that is not yet fired, or is due. -/
theorem retained_addEvent (hkey : str w.key = key) (hbounds : c.Bounds w)
    (hkept : watermark < c.deadline w.end_) (hemitted : w.fired = true → w.emitted = true)
    (hfired : w.fired = true → w.end_ ≤ watermark) :
    Retained c watermark key (addEvent agg watermark event w).1 := by
  obtain ⟨hkey', hstart, hend⟩ := addEvent_bounds agg watermark event w
  refine ⟨by rw [hkey', hkey], hbounds.congr hstart hend, by rwa [hend], ?_, ?_⟩
  · rw [addEvent]
    dsimp only
    split
    · exact fun _ => rfl
    · exact hemitted
  · rw [hend]
    rw [addEvent]
    dsimp only
    split
    · next hdue => exact (decide_eq_true hdue).symm
    · next hdue =>
      rw [decide_eq_false hdue]
      exact Bool.eq_false_iff.mpr fun h => hdue (hfired h)

/-- A window that an event is assigned to. -/
structure Assigned (c : WindowConfig) (key : List (Fin 256)) (window : RetainedWindow) : Prop where
  key : str window.key = key
  bounds : c.Bounds window
  fired : window.fired = false

/-- **One assigned window.**  A session that is assigned touches no other. -/
theorem Loose.accept (hs : Loose c watermark key s.next) (hw : Assigned c key window)
    (hfree : c.kind.grid = none → ∀ w ∈ s.next, w.end_ < window.start ∨ window.end_ < w.start) :
    Loose c watermark key (Window.accept agg c watermark event s window).next := by
  rw [Window.accept]
  split
  · exact hs
  next hkept =>
  rw [not_le] at hkept
  have hnew : Retained c watermark key (addEvent agg watermark event window).1 :=
    retained_addEvent hw.key hw.bounds hkept (by rw [hw.fired]; nofun) (by rw [hw.fired]; nofun)
  obtain ⟨-, hstart, hend⟩ := addEvent_bounds agg watermark event window
  dsimp only
  split
  · next i hfound =>
    -- the window is there: it is replaced by one with the same bounds
    obtain ⟨hgrid, hfound⟩ := Option.ite_none_right_eq_some.mp hfound
    obtain ⟨hi, hp, -⟩ := findIdx?_eq_some_iff_getElem.mp hfound
    have hget : s.next.getD i window = s.next[i] := by
      rw [getD_eq_getElem?_getD, getElem?_eq_getElem hi, Option.getD_some]
    obtain ⟨hkey, hstart', hend'⟩ := addEvent_bounds agg watermark event s.next[i]
    have hold := hs.each s.next[i] (getElem_mem hi)
    have hset : Retained c watermark key (addEvent agg watermark event s.next[i]).1 := by
      refine retained_addEvent hold.key hold.bounds hold.kept hold.emitted fun hfired => ?_
      rw [hold.due] at hfired
      exact of_decide_eq_true hfired
    rw [hget]
    refine ⟨?_, fun hkind => ?_, fun hkind => ?_⟩
    · intro w hw
      rcases mem_or_eq_of_mem_set hw with hw | rfl
      · exact hs.each w hw
      · exact hset
    · dsimp only
      rw [map_set, hstart']
      have hself : (s.next.map (·.start)).set i s.next[i].start = s.next.map (·.start) := by
        have hmap : (s.next.map (·.start))[i]? = some s.next[i].start := by
          rw [getElem?_map, getElem?_eq_getElem hi]
          rfl
        obtain ⟨hi', hget'⟩ := List.getElem?_eq_some_iff.mp hmap
        rw [← hget']
        exact set_getElem_self hi'
      rw [hself]
      exact hs.distinct hkind
    · rw [hkind] at hgrid
      cases hgrid
  · next hfound =>
    refine ⟨?_, fun hkind => ?_, fun hkind => ?_⟩
    · intro w hw
      rcases mem_append.mp hw with hw | hw
      · exact hs.each w hw
      · rw [mem_singleton.mp hw]
        exact hnew
    · dsimp only
      rw [map_append, nodup_append]
      refine ⟨hs.distinct hkind, nodup_singleton _, ?_⟩
      intro a ha b hb heq
      rw [map_singleton, mem_singleton, hstart] at hb
      obtain ⟨w, hmem, rfl⟩ := mem_map.mp ha
      rw [if_pos hkind, findIdx?_eq_none_iff] at hfound
      obtain ⟨⟨size, step⟩, hgrid⟩ := Option.isSome_iff_exists.mp hkind
      have hend₁ := ((hs.each w hmem).bounds.aligned size step hgrid).2
      have hend₂ := (hw.bounds.aligned size step hgrid).2
      have hsame : w.start = window.start := heq.trans hb
      rw [hsame, hend₂] at hend₁
      have hnot := hfound w hmem
      rw [decide_eq_false_iff_not] at hnot
      exact hnot ⟨hsame, (Except.ok.inj hend₁).symm⟩
    · dsimp only
      rw [pairwise_append]
      refine ⟨hs.disjoint hkind, pairwise_singleton _ _, ?_⟩
      intro a ha b hb
      rw [mem_singleton.mp hb, hstart, hend]
      exact hfree hkind a ha

/-- A window that is accepted is kept. -/
theorem next_ne_nil_accept (hs : s.accepted ≠ 0 → s.next ≠ []) (window : RetainedWindow) :
    (Window.accept agg c watermark event s window).accepted ≠ 0 →
      (Window.accept agg c watermark event s window).next ≠ [] := by
  rw [Window.accept]
  split
  · exact hs
  dsimp only
  split
  · next i hfound =>
    intro _ hnil
    split at hfound
    · obtain ⟨hi, -⟩ := findIdx?_eq_some_iff_getElem.mp hfound
      rw [set_eq_nil_iff] at hnil
      rw [hnil] at hi
      exact absurd hi (Nat.not_lt_zero _)
    · cases hfound
  · exact fun _ => append_ne_nil_of_right_ne_nil _ (cons_ne_nil _ _)

theorem next_ne_nil_foldl (hs : s.accepted ≠ 0 → s.next ≠ []) (assigned : List RetainedWindow) :
    (assigned.foldl (Window.accept agg c watermark event) s).accepted ≠ 0 →
      (assigned.foldl (Window.accept agg c watermark event) s).next ≠ [] := by
  induction assigned generalizing s with
  | nil => exact hs
  | cons w assigned ih => exact ih (next_ne_nil_accept hs w)

variable {assigned : List RetainedWindow} {start step t : ℤ}

/-- The loop over the assigned windows of a grid. -/
theorem Loose.foldl_accept (hs : Loose c watermark key s.next)
    (hgrid : c.kind.grid.isSome = true) (hassigned : ∀ w ∈ assigned, Assigned c key w) :
    Loose c watermark key (assigned.foldl (Window.accept agg c watermark event) s).next := by
  induction assigned generalizing s with
  | nil => exact hs
  | cons w assigned ih =>
    refine ih (hs.accept (hassigned w mem_cons_self) fun hnone => ?_) fun w' hw' =>
      hassigned w' (mem_cons_of_mem w hw')
    rw [hnone] at hgrid
    cases hgrid

/-! ### Windows are assigned -/

theorem assignFrom_bounds {size : ℤ} {tumbling : Bool} {bounds : List (ℤ × ℤ)}
    (h : assignFrom size step tumbling t start = .ok bounds) (hstart : start % step = 0) :
    ∀ b ∈ bounds, b.1 % step = 0 ∧ windowEnd b.1 size = .ok b.2 := by
  fun_induction assignFrom size step tumbling t start generalizing bounds with
  | case1 | case4 => cases h
  | case2 start end_ hend hpast =>
    cases h
    exact fun b hb => absurd hb not_mem_nil
  | case3 start end_ hend _ _ | case6 start end_ hend _ _ _ =>
    cases h
    intro b hb
    rw [mem_singleton.mp hb]
    exact ⟨hstart, hend⟩
  | case5 start end_ hend _ _ _ rest hrest ih =>
    cases h
    intro b hb
    rcases mem_cons.mp hb with rfl | hb
    · exact ⟨hstart, hend⟩
    · exact ih hrest (by rw [Int.sub_emod_right]; exact hstart) b hb

theorem floorWindowStart_emod (h : floorWindowStart t step = .ok start) : start % step = 0 := by
  rw [floorWindowStart] at h
  split at h
  · cases h
  · cases h
    exact Int.emod_eq_zero_of_dvd Int.dvd_self_sub_emod

theorem windowEnd_eq {duration end_ : ℤ} (h : windowEnd start duration = .ok end_) :
    end_ = start + duration := by
  rw [windowEnd] at h
  split at h
  · cases h
  · exact (Except.ok.inj h).symm

/-- One pass of merging. -/
theorem mergePass_spec (agg : WindowAggregator) (merged : RetainedWindow)
    (next : List RetainedWindow) : (mergePass agg merged next).2.Sublist next ∧
    (mergePass agg merged next).1.key = merged.key ∧
    (mergePass agg merged next).1.fired = merged.fired ∧
    (mergePass agg merged next).1.start ≤ merged.start ∧
    merged.end_ ≤ (mergePass agg merged next).1.end_ ∧
    ((mergePass agg merged next).2.length = next.length →
      (mergePass agg merged next).1 = merged ∧
      ∀ w ∈ next, ¬ (w.start ≤ merged.end_ ∧ merged.start ≤ w.end_)) := by
  induction next generalizing merged with
  | nil =>
    exact ⟨.slnil, rfl, rfl, le_refl _, le_refl _, fun _ => ⟨rfl, fun _ h => absurd h not_mem_nil⟩⟩
  | cons w rest ih =>
    rw [mergePass]
    split
    · obtain ⟨hsub, hkey, hfired, hstart, hend, -⟩ := ih { merged with
        start := min merged.start w.start
        end_ := max merged.end_ w.end_
        accumulator := agg.merge merged.accumulator w.accumulator
        emitted := merged.emitted || w.emitted }
      refine ⟨hsub.cons w, hkey, hfired, hstart.trans (min_le_left ..),
        (le_max_left ..).trans hend, fun hlength => ?_⟩
      have hle := hsub.length_le
      rw [length_cons] at hlength
      omega
    · next htouch =>
      obtain ⟨hsub, hkey, hfired, hstart, hend, hsame⟩ := ih merged
      refine ⟨hsub.cons_cons w, hkey, hfired, hstart, hend, fun hlength => ?_⟩
      obtain ⟨heq, hrest⟩ := hsame (Nat.succ.inj hlength)
      refine ⟨heq, fun w' hw' => ?_⟩
      rcases mem_cons.mp hw' with rfl | hw'
      · exact htouch
      · exact hrest w' hw'

/-- The sessions that are left do not touch the merged one. -/
theorem mergeSessions_spec (agg : WindowAggregator) (merged : RetainedWindow)
    (next : List RetainedWindow) : (mergeSessions agg merged next).2.Sublist next ∧
    (mergeSessions agg merged next).1.key = merged.key ∧
    (mergeSessions agg merged next).1.fired = merged.fired ∧
    (mergeSessions agg merged next).1.start ≤ merged.start ∧
    merged.end_ ≤ (mergeSessions agg merged next).1.end_ ∧
    ∀ w ∈ (mergeSessions agg merged next).2, w.end_ < (mergeSessions agg merged next).1.start ∨
      (mergeSessions agg merged next).1.end_ < w.start := by
  fun_induction mergeSessions agg merged next with
  | case1 merged next pass hless ih =>
    obtain ⟨hsub, hkey, hfired, hstart, hend, -⟩ := mergePass_spec agg merged next
    obtain ⟨hsub', hkey', hfired', hstart', hend', hfree⟩ := ih
    exact ⟨hsub'.trans hsub, hkey'.trans hkey, hfired'.trans hfired, hstart'.trans hstart,
      hend.trans hend', hfree⟩
  | case2 merged next pass hless =>
    obtain ⟨hsub, hkey, hfired, hstart, hend, hsame⟩ := mergePass_spec agg merged next
    have hlength : (mergePass agg merged next).2.length = next.length :=
      le_antisymm hsub.length_le (not_lt.mp hless)
    obtain ⟨heq, hfree⟩ := hsame hlength
    refine ⟨hsub, hkey, hfired, hstart, hend, fun w hw => ?_⟩
    have hnot := hfree w (hsub.subset hw)
    rw [heq]
    by_contra hor
    rw [not_or, not_lt, not_lt] at hor
    exact hnot ⟨hor.2, hor.1⟩

/-- The windows of the key of an event after the loop, before they are sorted. -/
theorem loose_of_assign (hc : c.Valid) {existing next : List RetainedWindow}
    (hrow : Row c watermark (str event.key) existing)
    (h : assign agg c event existing = .ok (assigned, next)) : Loose c watermark (str event.key)
      (assigned.foldl (Window.accept agg c watermark event) { next }).next := by
  have hgrid : ∀ size step tumbling, c.kind.grid = some (size, step) →
      assign.grid event existing size step tumbling = .ok (assigned, next) →
      Loose c watermark (str event.key)
        (assigned.foldl (Window.accept agg c watermark event) { next }).next := by
    intro size step tumbling hkind hassign
    rw [assign.grid] at hassign
    split at hassign
    · cases hassign
    next start hstart =>
    split at hassign
    · cases hassign
    next bounds hbounds =>
    cases hassign
    refine hrow.loose.foldl_accept (by rw [hkind]; rfl) fun w hw => ?_
    obtain ⟨b, hb, rfl⟩ := mem_map.mp hw
    obtain ⟨hmod, hend⟩ := assignFrom_bounds hbounds (floorWindowStart_emod hstart) b hb
    refine ⟨rfl, ⟨?_, ?_⟩, rfl⟩
    · have hsize := hc.grid size step hkind
      have hlt := windowEnd_eq hend
      change b.1 < b.2
      omega
    · intro size' step' hkind'
      cases hkind.symm.trans hkind'
      exact ⟨hmod, hend⟩
  rw [assign] at h
  split at h
  · next gap hkind =>
    split at h
    · cases h
    next end_ hend =>
    cases h
    have hnone : c.kind.grid = none := by rw [hkind]; rfl
    obtain ⟨hsub, hkey, hfired, hstart, hend', hfree⟩ := mergeSessions_spec agg
      { key := event.key, start := event.eventTime, end_, accumulator := agg.createAccumulator }
      existing
    refine (hrow.sublist hsub).loose.accept ⟨congrArg str hkey, ⟨?_, ?_⟩, hfired⟩
      fun _ => hfree
    · have hgap := hc.gap gap hkind
      have hlt := windowEnd_eq hend
      change _ ≤ event.eventTime at hstart
      change end_ ≤ _ at hend'
      omega
    · intro size step hsome
      rw [hnone] at hsome
      cases hsome
  · next size hkind => exact hgrid size size true (by rw [hkind]; rfl) h
  · next size slide hkind => exact hgrid size slide false (by rw [hkind]; rfl) h

end Rows

/-! ## The invariant -/

namespace WindowProcessor

/-- What every processor keeps to. -/
structure Inv (p : WindowProcessor) : Prop where
  config : p.config.Valid
  rows : ∀ k, Row p.config p.watermark k (p.windows k)
  keys : ∀ k, k ∈ p.keys ↔ p.windows k ≠ []
  count : p.stats.retainedWindows = ∑ k ∈ p.keys, ((p.windows k).length : ℤ)
  limit : p.stats.retainedWindows ≤ p.config.maxWindows

section Inv

variable {agg : WindowAggregator} {p : WindowProcessor}

variable {c : WindowConfig}

theorem valid_of_checkKind (hlimit : ¬ c.maxWindows < 1) (h : c.checkKind = .ok ()) : c.Valid := by
  rw [WindowConfig.checkKind] at h
  split at h
  · next size hkind =>
    split at h
    · cases h
    next hsize =>
    refine ⟨fun size' step hgrid => ?_, fun gap hgap => ?_, not_lt.mp hlimit⟩
    · rw [hkind] at hgrid
      cases hgrid
      exact not_le.mp hsize
    · rw [hkind] at hgap
      cases hgap
  · next size slide hkind =>
    split at h
    · cases h
    next hsize =>
    refine ⟨fun size' step hgrid => ?_, fun gap hgap => ?_, not_lt.mp hlimit⟩
    · rw [hkind] at hgrid
      cases hgrid
      exact not_le.mp fun hle => hsize (.inl hle)
    · rw [hkind] at hgap
      cases hgap
  · next gap hkind =>
    split at h
    · cases h
    next hgap =>
    refine ⟨fun size' step hgrid => ?_, fun gap' hgap' => ?_, not_lt.mp hlimit⟩
    · rw [hkind] at hgrid
      cases hgrid
    · rw [hkind] at hgap'
      cases hgap'
      exact not_le.mp hgap

theorem inv_new (h : newWindowProcessor c = .ok p) : p.Inv := by
  rw [newWindowProcessor] at h
  split at h
  · cases h
  dsimp only at h
  generalize (if c.maxWindows = 0 then { c with maxWindows := 100000 } else c) = c' at h
  split at h
  · cases h
  next hlimit =>
  split at h
  · cases h
  next hkind =>
  cases h
  exact ⟨valid_of_checkKind hlimit hkind, fun _ => .nil, fun k => by simp, rfl,
    (Int.le_of_lt Int.zero_lt_one).trans (not_lt.mp hlimit)⟩

/-- The windows of one key are replaced. -/
theorem sum_update (hkeys : ∀ k, k ∈ p.keys ↔ p.windows k ≠ []) (key : List (Fin 256))
    (next : List RetainedWindow) :
    ∑ k ∈ insert key p.keys, ((update p.windows key next k).length : ℤ) =
      (∑ k ∈ p.keys, ((p.windows k).length : ℤ)) - (p.windows key).length + next.length := by
  have hrest : ∑ k ∈ p.keys.erase key, ((update p.windows key next k).length : ℤ) =
      ∑ k ∈ p.keys.erase key, ((p.windows k).length : ℤ) := by
    refine Finset.sum_congr rfl fun k hk => ?_
    rw [update_of_ne (Finset.ne_of_mem_erase hk)]
  have hnew : ∑ k ∈ insert key p.keys, ((update p.windows key next k).length : ℤ) =
      next.length + ∑ k ∈ p.keys.erase key, ((p.windows k).length : ℤ) := by
    rw [← Finset.insert_erase (Finset.mem_insert_self key p.keys), Finset.erase_insert_eq_erase,
      Finset.sum_insert (Finset.notMem_erase _ _), hrest, update_self]
  have hold : ∑ k ∈ p.keys, ((p.windows k).length : ℤ) =
      (p.windows key).length + ∑ k ∈ p.keys.erase key, ((p.windows k).length : ℤ) := by
    by_cases hkey : key ∈ p.keys
    · exact (Finset.add_sum_erase p.keys _ hkey).symm
    · have hnil : p.windows key = [] := not_not.mp fun h => hkey ((hkeys key).mpr h)
      rw [Finset.erase_eq_of_notMem hkey, hnil]
      simp
  omega

theorem Inv.record (hp : p.Inv) (event : Event) (assigned : List RetainedWindow)
    (hs : Loose p.config p.watermark (str event.key) s.next)
    (haccepted : s.accepted ≠ 0 → s.next ≠ []) : (p.record event assigned s).1.Inv := by
  rw [WindowProcessor.record]
  generalize hnext : (if s.accepted = 0 then p.windows (str event.key) else s.next) = next
  have hloose : Loose p.config p.watermark (str event.key) next := by
    rw [← hnext]
    split
    · exact (hp.rows _).loose
    · exact hs
  split
  · exact hp
  next hlimit =>
  have hrow := hloose.sort
  have hlength : (sortByStart next).length = next.length := (sortByStart_perm next).length_eq
  by_cases hempty : sortByStart next = []
  · have hnil : next.length = 0 := by
      rw [← hlength, hempty]
      rfl
    have hold : p.windows (str event.key) = [] := by
      rw [length_eq_zero_iff, ← hnext] at hnil
      split at hnil
      · exact hnil
      · next hnone => exact absurd hnil (haccepted hnone)
    simp only [hempty, if_true]
    refine ⟨hp.config, hp.rows, hp.keys, ?_, ?_⟩
    · dsimp only
      rw [hold, hnil, hp.count]
      simp
    · exact not_lt.mp hlimit
  · simp only [hempty, if_false]
    refine ⟨hp.config, fun k => ?_, fun k => ?_, ?_, not_lt.mp hlimit⟩
    · dsimp only
      by_cases hk : k = str event.key
      · rw [hk, update_self]
        exact hrow
      · rw [update_of_ne hk]
        exact hp.rows k
    · dsimp only
      by_cases hk : k = str event.key
      · rw [hk, update_self]
        exact iff_of_true (Finset.mem_insert_self ..) hempty
      · rw [update_of_ne hk, Finset.mem_insert, or_iff_right hk]
        exact hp.keys k
    · dsimp only
      rw [sum_update hp.keys, hlength, hp.count]

theorem Inv.process (hp : p.Inv) (event : Event) : (p.process agg event).1.Inv := by
  rw [WindowProcessor.process]
  split
  · exact hp
  · next assigned next hassign =>
    exact hp.record event assigned (loose_of_assign hp.config (hp.rows _) hassign)
      (next_ne_nil_foldl (fun h => absurd rfl h) assigned)

theorem fire_bounds (watermark : ℤ) (w : RetainedWindow) :
    (fire watermark w).key = w.key ∧ (fire watermark w).start = w.start ∧
      (fire watermark w).end_ = w.end_ := by
  rw [fire]
  split <;> exact ⟨rfl, rfl, rfl⟩

/-- The watermark passes on, and the windows that are kept stay in order. -/
theorem Row.remaining {key : List (Fin 256)} {ws : List RetainedWindow}
    {old watermark : ℤ} (hc : p.config = c) (hlt : old < watermark) (h : Row c old key ws) :
    Row c watermark key (p.remaining watermark ws) := by
  have hmap : Row c old key ws → (ws.map (fire watermark)).Pairwise (fun a b => a.start < b.start) ∧
      (c.kind.grid = none → (ws.map (fire watermark)).Pairwise fun a b => a.end_ < b.start) := by
    intro h
    rw [pairwise_map]
    refine ⟨h.sorted.imp fun {a b} hab => ?_, fun hkind => ?_⟩
    · rw [(fire_bounds watermark a).2.1, (fire_bounds watermark b).2.1]
      exact hab
    · rw [pairwise_map]
      refine (h.disjoint hkind).imp fun {a b} hab => ?_
      rw [(fire_bounds watermark a).2.2, (fire_bounds watermark b).2.1]
      exact hab
  refine ⟨fun w hw => ?_, (hmap h).1.sublist filter_sublist,
    fun hkind => ((hmap h).2 hkind).sublist filter_sublist⟩
  obtain ⟨hmem, hkept⟩ := mem_filter.mp hw
  obtain ⟨w₀, hw₀, rfl⟩ := mem_map.mp hmem
  have hold := h.each w₀ hw₀
  obtain ⟨hkey, hstart, hend⟩ := fire_bounds watermark w₀
  rw [decide_eq_true_eq, hc] at hkept
  refine ⟨by rw [hkey, hold.key], hold.bounds.congr hstart hend, hkept, ?_, ?_⟩
  · rw [fire]
    split
    · exact fun _ => rfl
    · exact hold.emitted
  · rw [hend, fire]
    split
    · next hdue => exact (decide_eq_true hdue.2).symm
    · next hdue =>
      rw [hold.due, decide_eq_decide]
      constructor
      · exact fun hle => hle.trans hlt.le
      · intro hle
        by_contra hnot
        refine hdue ⟨?_, hle⟩
        rw [hold.due, decide_eq_false hnot]
        rfl

theorem length_remaining (watermark : ℤ) (ws : List RetainedWindow) :
    ((p.remaining watermark ws).length : ℤ) = ws.length -
      (ws.countP fun w => p.config.deadline w.end_ ≤ watermark : ℤ) := by
  have hkept : (p.remaining watermark ws).length =
      ws.countP fun w => !decide (p.config.deadline w.end_ ≤ watermark) := by
    rw [remaining, ← countP_eq_length_filter, countP_map]
    refine countP_congr fun w _ => ?_
    rw [comp_apply, (fire_bounds watermark w).2.2]
    simp
  have hsplit : ws.length = (ws.countP fun w => decide (p.config.deadline w.end_ ≤ watermark)) +
      ws.countP fun w => !decide (p.config.deadline w.end_ ≤ watermark) := by
    rw [length_eq_countP_add_countP fun w : RetainedWindow =>
      decide (p.config.deadline w.end_ ≤ watermark)]
    congr 2
    funext w
    rw [Bool.eq_iff_iff]
    simp
  omega

theorem Inv.advanceWatermark (hp : p.Inv) (watermark : ℤ) :
    (p.advanceWatermark agg watermark).1.Inv := by
  rw [WindowProcessor.advanceWatermark]
  split
  · exact hp
  next hlt =>
  rw [not_le] at hlt
  have hwindows : ∀ k, (if k ∈ p.keys then p.remaining watermark (p.windows k)
      else p.windows k) = p.remaining watermark (p.windows k) := by
    intro k
    split
    · rfl
    · next hk =>
      have hnil : p.windows k = [] := not_not.mp fun h => hk ((hp.keys k).mpr h)
      rw [hnil]
      rfl
  have hcount : p.stats.retainedWindows -
      ∑ k ∈ p.keys, ((p.windows k).countP fun w => p.config.deadline w.end_ ≤ watermark : ℤ) =
      ∑ k ∈ p.keys, ((p.remaining watermark (p.windows k)).length : ℤ) := by
    rw [hp.count, ← Finset.sum_sub_distrib]
    exact Finset.sum_congr rfl fun k _ => (length_remaining watermark _).symm
  simp only [hwindows]
  refine ⟨hp.config, fun k => Row.remaining rfl hlt (hp.rows k), fun k => ?_, ?_, ?_⟩
  · dsimp only
    rw [Finset.mem_filter, and_iff_right_iff_imp]
    intro hne
    refine (hp.keys k).mpr fun hnil => hne ?_
    rw [hnil]
    rfl
  · dsimp only
    rw [hcount]
    refine (Finset.sum_subset (Finset.filter_subset ..) fun k hk hnot => ?_).symm
    rw [Finset.mem_filter, not_and, not_not] at hnot
    rw [hnot hk]
    rfl
  · dsimp only
    refine le_trans ?_ hp.limit
    have hnonneg : 0 ≤ ∑ k ∈ p.keys,
        ((p.windows k).countP fun w => p.config.deadline w.end_ ≤ watermark : ℤ) :=
      Finset.sum_nonneg fun k _ => Int.natCast_nonneg _
    omega

/-- **What every sequence of calls keeps.** -/
theorem Inv.calls (hp : p.Inv) (cs : List Call) : (p.calls agg cs).1.Inv := by
  induction cs generalizing p with
  | nil => exact hp
  | cons c cs ih =>
    cases c with
    | process event => exact ih (hp.process event)
    | advanceWatermark watermark => exact ih (hp.advanceWatermark watermark)

end Inv

end WindowProcessor

end Wire.Engine.Window
