import Wire.Engine.WindowProcessor
import Wire.Library.Slices

/-!
# Windows in memory

`Process` works on a copy of the windows of the key: it merges sessions by filtering the copy in
place, writes and appends to it, and puts it into the map at the end.  If the event is accepted by
no window it goes on with the original instead, and sorts that in place.

`MemoryProcessor` has the slices and the arrays that `WindowProcessor` has as lists, and `Refines`
is what connects the two: every call does in memory what it does to the lists (`Refines.process`,
`Refines.advanceWatermark`).  On the way no array that was there before the call is written, except
by the sort of the original, which is sorted already.

The bytes of keys and accumulators are values: the source clones them before each call of the
aggregator.
-/

namespace Wire.Engine.Window

open Slices Function List

structure MemoryProcessor where
  config : WindowConfig
  watermark : ℤ
  keys : Finset (List (Fin 256)) := ∅
  /-- A key that is not in the map has the nil slice. -/
  windows : List (Fin 256) → Slice := fun _ => ⟨0, 0⟩
  stats : WindowStats := {}
  memory : Memory RetainedWindow := { arrays := fun _ => [], fresh := 1 }

/-- The arrays of `make` hold zero values. -/
def zeroWindow : RetainedWindow := { key := none, start := 0, end_ := 0 }

/-- The room that the runtime gives to an array that grows. -/
abbrev Grow := ℕ → List RetainedWindow

/-- A window that touches the merged session becomes part of it. -/
def touch (agg : WindowAggregator) (merged w : RetainedWindow) : Option RetainedWindow :=
  if w.start ≤ merged.end_ ∧ merged.start ≤ w.end_ then
    some { merged with
      start := min merged.start w.start
      end_ := max merged.end_ w.end_
      accumulator := agg.merge merged.accumulator w.accumulator
      emitted := merged.emitted || w.emitted }
  else none

/-- The loop `for changed`, with `remaining := next[:0]` in each pass. -/
def mergeInPlace (agg : WindowAggregator) (grow : Grow) (merged : RetainedWindow)
    (m : Memory RetainedWindow) (next : Slice) : RetainedWindow × Memory RetainedWindow × Slice :=
  let pass := Memory.sweep grow (touch agg) next next.len 0 merged (m, ⟨next.array, 0⟩)
  if _h : pass.2.2.len < next.len then mergeInPlace agg grow pass.1 pass.2.1 pass.2.2 else pass
termination_by next.len

/-- The windows that an event is assigned to, and the slice they are put into. -/
def assignInPlace (agg : WindowAggregator) (grow : Grow) (c : WindowConfig) (event : Event)
    (m : Memory RetainedWindow) (next : Slice) :
    Except Error (List RetainedWindow × Memory RetainedWindow × Slice) :=
  match c.kind with
  | .session gap =>
    match windowEnd event.eventTime gap with
    | .error e => .error e
    | .ok end_ =>
      let (merged, r) := mergeInPlace agg grow
        { key := event.key, start := event.eventTime, end_, accumulator := agg.createAccumulator }
        m next
      .ok ([merged], r)
  | .tumbling size => grid size size true
  | .sliding size slide => grid size slide false
where
  grid (size step : ℤ) (tumbling : Bool) :
      Except Error (List RetainedWindow × Memory RetainedWindow × Slice) :=
    match floorWindowStart event.eventTime step with
    | .error e => .error e
    | .ok start =>
      match assignFrom size step tumbling event.eventTime start with
      | .error e => .error e
      | .ok bounds =>
        .ok (bounds.map fun b => { key := event.key, start := b.1, end_ := b.2 }, m, next)

structure AcceptingInPlace where
  memory : Memory RetainedWindow
  next : Slice
  results : List WindowResult := []
  accepted : ℕ := 0

/-- One assigned window. -/
def acceptInPlace (agg : WindowAggregator) (grow : Grow) (c : WindowConfig) (watermark : ℤ)
    (event : Event) (s : AcceptingInPlace) (window : RetainedWindow) : AcceptingInPlace :=
  if c.deadline window.end_ ≤ watermark then s
  else
    let ws := s.memory.read s.next
    let found := if c.kind.grid.isSome then
        ws.findIdx? fun w => w.start = window.start ∧ w.end_ = window.end_
      else none
    match found with
    | some i =>
      let (window, results) := addEvent agg watermark event (ws.getD i window)
      { s with
        memory := s.memory.write s.next i window
        results := s.results ++ results, accepted := s.accepted + 1 }
    | none =>
      let (window, results) := addEvent agg watermark event window
      let r := s.memory.append grow s.next window
      { memory := r.1, next := r.2, results := s.results ++ results, accepted := s.accepted + 1 }

namespace MemoryProcessor

variable (agg : WindowAggregator) (grow : Grow) (q : MemoryProcessor)

/-- The end of `Process`. -/
def record (event : Event) (assigned : List RetainedWindow) (s : AcceptingInPlace) :
    MemoryProcessor × WindowProcessor.Outcome :=
  let key := str event.key
  let existing := q.windows key
  let next := if s.accepted = 0 then existing else s.next
  let newCount := q.stats.retainedWindows - existing.len + next.len
  if q.config.maxWindows < newCount then
    ({ q with memory := s.memory }, .error .memoryLimitExceeded)
  else
    let memory := s.memory.fill next (sortByStart (s.memory.read next))
    let tooLate := decide (assigned ≠ [] ∧ s.accepted = 0)
    let late := decide (event.eventTime < q.watermark)
    ({ q with
        memory
        keys := if next.len = 0 then q.keys else insert key q.keys
        windows := if next.len = 0 then q.windows else update q.windows key next
        stats := {
          late := if late then q.stats.late + 1 else q.stats.late
          allowed := if late ∧ 0 < s.accepted then q.stats.allowed + 1 else q.stats.allowed
          dropped := if tooLate then q.stats.dropped + 1 else q.stats.dropped
          retainedWindows := newCount } },
      .ok (s.results, tooLate))

/-- `Process`. -/
def process (event : Event) : MemoryProcessor × WindowProcessor.Outcome :=
  let copy := q.memory.make (q.memory.read (q.windows (str event.key))) []
  match assignInPlace agg grow q.config event copy.1 copy.2 with
  | .error e => ({ q with memory := copy.1 }, .error e)
  | .ok (assigned, memory, next) =>
    q.record event assigned
      (assigned.foldl (acceptInPlace agg grow q.config q.watermark event) { memory, next })

/-- The lists of the slices. -/
def value : WindowProcessor where
  config := q.config
  watermark := q.watermark
  keys := q.keys
  windows k := q.memory.read (q.windows k)
  stats := q.stats

/-- The loop of `AdvanceWatermark` over the windows of a key: those that are kept are appended to a
new slice with room for all of them. -/
def purge (watermark : ℤ) (r : Memory RetainedWindow × (List (Fin 256) → Slice))
    (key : List (Fin 256)) : Memory RetainedWindow × (List (Fin 256) → Slice) :=
  let ws := r.1.read (r.2 key)
  let kept := q.value.remaining watermark ws
  let made := r.1.make [] (List.replicate ws.length zeroWindow)
  let filled := kept.foldl (fun r w => r.1.append grow r.2 w) made
  (filled.1, update r.2 key (if kept = [] then ⟨0, 0⟩ else filled.2))

/-- `AdvanceWatermark`. -/
def advanceWatermark (watermark : ℤ) : MemoryProcessor × List WindowResult :=
  if watermark ≤ q.watermark then (q, [])
  else
    let (p, results) := q.value.advanceWatermark agg watermark
    let r := q.keys.sort.foldl (q.purge grow watermark) (q.memory, q.windows)
    ({ q with watermark, keys := p.keys, stats := p.stats, memory := r.1, windows := r.2 }, results)

/-- A sequence of calls; each has its own way to let arrays grow. -/
def calls : MemoryProcessor → List (Call × Grow) → MemoryProcessor
  | q, [] => q
  | q, (.process event, grow) :: rest => calls (q.process agg grow event).1 rest
  | q, (.advanceWatermark watermark, grow) :: rest =>
    calls (q.advanceWatermark agg grow watermark).1 rest

end MemoryProcessor

/-! ## Refinement -/

/-- The processor in memory has the windows of the other one. -/
structure Refines (q : MemoryProcessor) (p : WindowProcessor) : Prop where
  config : q.config = p.config
  watermark : q.watermark = p.watermark
  keys : q.keys = p.keys
  stats : q.stats = p.stats
  windows : ∀ k, Has 0 q.memory (q.windows k) (p.windows k)

/-- The variables of the loop, with the slice in an array of the call. -/
structure AcceptingInPlace.Follows (bound : ℕ) (m : Memory RetainedWindow) (t : AcceptingInPlace)
    (s : Accepting) : Prop where
  next : Has bound t.memory t.next s.next
  keeps : Keeps bound m t.memory
  results : t.results = s.results
  accepted : t.accepted = s.accepted

section

variable {agg : WindowAggregator} {grow : Grow} {c : WindowConfig} {watermark : ℤ} {event : Event}
  {bound : ℕ} {m : Memory RetainedWindow} {next : Slice} {ws : List RetainedWindow}
  {q : MemoryProcessor} {p : WindowProcessor}

theorem mergePass_eq_sift (merged : RetainedWindow) (ws : List RetainedWindow) :
    mergePass agg merged ws = sift (touch agg) merged ws := by
  induction ws generalizing merged with
  | nil => rfl
  | cons w ws ih =>
    rw [mergePass, sift, touch]
    split
    · exact ih _
    · rw [ih merged]

theorem mergeInPlace_spec (agg : WindowAggregator) (grow : Grow) (hbound : bound ≤ m.fresh)
    (merged : RetainedWindow) (hnext : Has bound m next ws) :
    let r := mergeInPlace agg grow merged m next
    r.1 = (mergeSessions agg merged ws).1 ∧ Has bound r.2.1 r.2.2 (mergeSessions agg merged ws).2 ∧
      Keeps bound m r.2.1 := by
  -- the passes go on while the list gets shorter
  induction hn : ws.length using Nat.strong_induction_on generalizing merged m next ws with
  | _ n ih =>
    have hsweep := hnext.sweep grow (touch agg) merged
    rw [← mergePass_eq_sift] at hsweep
    rw [mergeInPlace, mergeSessions]
    generalize Memory.sweep grow (touch agg) next next.len 0 merged (m, ⟨next.array, 0⟩) = pass
      at hsweep ⊢
    obtain ⟨hmerged, hhas, hkeeps⟩ := hsweep
    by_cases hless : (mergePass agg merged ws).2.length < ws.length
    · have hless' : pass.2.2.len < next.len := by
        rw [hhas.len, hnext.len]
        exact hless
      simp only [hless, hless', dif_pos]
      obtain ⟨hmerged', hhas', hkeeps'⟩ := ih _ (hless.trans_eq hn) (hbound.trans hkeeps.fresh)
        pass.1 hhas rfl
      rw [hmerged] at hmerged' hhas' hkeeps' ⊢
      exact ⟨hmerged', hhas', hkeeps.trans hkeeps'⟩
    · have hless' : ¬ pass.2.2.len < next.len := by
        rw [hhas.len, hnext.len]
        exact hless
      simp only [hless, hless', dif_neg, not_false_eq_true]
      exact ⟨hmerged, hhas, hkeeps⟩

/-- Both calls fail, or the slice has what the list has. -/
def SameAssignment (bound : ℕ) (m : Memory RetainedWindow)
    (r : Except Error (List RetainedWindow × List RetainedWindow))
    (r' : Except Error (List RetainedWindow × Memory RetainedWindow × Slice)) : Prop :=
  (∃ e, r = .error e ∧ r' = .error e) ∨ ∃ assigned ws m' next, r = .ok (assigned, ws) ∧
    r' = .ok (assigned, m', next) ∧ Has bound m' next ws ∧ Keeps bound m m'

theorem assignInPlace_spec (agg : WindowAggregator) (grow : Grow) (c : WindowConfig)
    (event : Event) (hbound : bound ≤ m.fresh) (hnext : Has bound m next ws) :
    SameAssignment bound m (assign agg c event ws) (assignInPlace agg grow c event m next) := by
  have hgrid : ∀ size step tumbling, SameAssignment bound m
      (assign.grid event ws size step tumbling)
      (assignInPlace.grid event m next size step tumbling) := by
    intro size step tumbling
    rw [assign.grid, assignInPlace.grid]
    cases floorWindowStart event.eventTime step with
    | error e => exact .inl ⟨e, rfl, rfl⟩
    | ok start =>
      dsimp only
      cases assignFrom size step tumbling event.eventTime start with
      | error e => exact .inl ⟨e, rfl, rfl⟩
      | ok bounds => exact .inr ⟨_, ws, m, next, rfl, rfl, hnext, .refl bound m⟩
  rw [assign, assignInPlace]
  cases c.kind with
  | tumbling size => exact hgrid size size true
  | sliding size slide => exact hgrid size slide false
  | session gap =>
    dsimp only
    cases windowEnd event.eventTime gap with
    | error e => exact .inl ⟨e, rfl, rfl⟩
    | ok end_ =>
      obtain ⟨hmerged, hhas, hkeeps⟩ := mergeInPlace_spec agg grow hbound
        { key := event.key, start := event.eventTime, end_, accumulator := agg.createAccumulator }
        hnext
      refine .inr ⟨_, _, _, _, rfl, ?_, hhas, hkeeps⟩
      dsimp only
      rw [hmerged]

variable {s : Accepting} {t : AcceptingInPlace} {rows : List (Fin 256) → List RetainedWindow}

theorem AcceptingInPlace.Follows.accept
    (h : t.Follows bound m s) (hbound : bound ≤ m.fresh) (window : RetainedWindow) :
    (acceptInPlace agg grow c watermark event t window).Follows bound m
      (accept agg c watermark event s window) := by
  rw [acceptInPlace, Window.accept]
  split
  · exact h
  dsimp only
  rw [h.next.read]
  generalize hfound : (if c.kind.grid.isSome = true then
    s.next.findIdx? fun w => decide (w.start = window.start ∧ w.end_ = window.end_)
      else none) = found
  cases found with
  | some i =>
    have hi : i < s.next.length := by
      split at hfound
      · exact (findIdx?_eq_some_iff_getElem.mp hfound).1
      · cases hfound
    obtain ⟨hhas, hkeeps⟩ := h.next.write hi
      (addEvent agg watermark event (s.next.getD i window)).1
    exact ⟨hhas, h.keeps.trans hkeeps, congrArg (· ++ _) h.results, congrArg (· + 1) h.accepted⟩
  | none =>
    obtain ⟨hhas, hkeeps⟩ := h.next.append (hbound.trans h.keeps.fresh) grow
      (addEvent agg watermark event window).1
    exact ⟨hhas, h.keeps.trans hkeeps, congrArg (· ++ _) h.results, congrArg (· + 1) h.accepted⟩

theorem AcceptingInPlace.Follows.foldl
    (h : t.Follows bound m s) (hbound : bound ≤ m.fresh) (assigned : List RetainedWindow) :
    (assigned.foldl (acceptInPlace agg grow c watermark event) t).Follows bound m
      (assigned.foldl (Window.accept agg c watermark event) s) := by
  induction assigned generalizing t s with
  | nil => exact h
  | cons w assigned ih => exact ih (h.accept hbound w)

/-! ## Calls -/

/-- Nothing is seen of a call but in the counters: the map has the same slices, and no array that
was there has been written. -/
structure Untouched (q q' : MemoryProcessor) : Prop where
  watermark : q'.watermark = q.watermark
  keys : q'.keys = q.keys
  windows : q'.windows = q.windows
  arrays : Keeps q.memory.fresh q.memory q'.memory

/-- What a call of `Process` does in memory. -/
structure Processed (q q' : MemoryProcessor) (p' : WindowProcessor)
    (outcome outcome' : WindowProcessor.Outcome) : Prop where
  refines : Refines q' p'
  agrees : outcome = outcome'
  rejected : ∀ e, outcome = .error e → Untouched q q' ∧ q'.stats = q.stats
  tooLate : ∀ results, outcome = .ok (results, true) → Untouched q q' ∧
    q'.stats = { q.stats with late := q'.stats.late, dropped := q'.stats.dropped }

section

variable (h : Refines q p)
include h

section

variable (hkeeps : Keeps q.memory.fresh q.memory m)
include hkeeps

/-- The slices of the map are in arrays that were there before the call. -/
theorem Refines.keep (k : List (Fin 256)) : Has 0 m (q.windows k) (p.windows k) :=
  (h.windows k).keep (h.windows k).allocated hkeeps

theorem Refines.rejected (e : Error) :
    Processed q { q with memory := m } p (.error e) (.error e) where
  refines := { h with windows := h.keep hkeeps }
  agrees := rfl
  rejected _ _ := ⟨⟨rfl, rfl, rfl, hkeeps⟩, rfl⟩
  tooLate _ hok := nomatch hok

/-- The slice with the result is put into the map. -/
theorem Refines.store {key : List (Fin 256)} (hnext : Has 0 m next ws) (k : List (Fin 256)) :
    Has 0 m ((if next.len = 0 then q.windows else update q.windows key next) k)
      ((if ws = [] then p.windows else update p.windows key ws) k) := by
  have hempty : next.len = 0 ↔ ws = [] := by rw [hnext.len, length_eq_zero_iff]
  by_cases hnil : ws = []
  · rw [if_pos (hempty.mpr hnil), if_pos hnil]
    exact h.keep hkeeps k
  · rw [if_neg (mt hempty.mp hnil), if_neg hnil]
    by_cases hk : k = key
    · rw [hk, update_self, update_self]
      exact hnext
    · rw [update_of_ne hk, update_of_ne hk]
      exact h.keep hkeeps k

end

variable {s : Accepting} {t : AcceptingInPlace}

/-- The slice that is sorted: the copy, or the original, which is sorted already. -/
theorem Refines.sorted (hp : p.Inv)
    (hs : t.Follows q.memory.fresh q.memory s) (key : List (Fin 256)) :
    let slice := if s.accepted = 0 then q.windows key else t.next
    let list := if s.accepted = 0 then p.windows key else s.next
    let m := t.memory.fill slice (sortByStart (t.memory.read slice))
    slice.len = list.length ∧ Has 0 m slice (sortByStart list) ∧
      Keeps q.memory.fresh q.memory m := by
  have hexisting := h.keep hs.keeps key
  by_cases hnone : s.accepted = 0
  · simp only [hnone, if_true]
    rw [hexisting.read, (hp.rows key).sortByStart_eq, hexisting.fill_self]
    exact ⟨hexisting.len, hexisting, hs.keeps⟩
  · simp only [hnone, if_false]
    rw [hs.next.read]
    obtain ⟨hhas, hkeeps⟩ := hs.next.fill (sortByStart_perm s.next).length_eq
    exact ⟨hs.next.len, hhas.lower, hs.keeps.trans hkeeps⟩

theorem Refines.record (hp : p.Inv)
    (hs : t.Follows q.memory.fresh q.memory s) (event : Event) (assigned : List RetainedWindow) :
    Processed q (q.record event assigned t).1 (p.record event assigned s).1
      (q.record event assigned t).2 (p.record event assigned s).2 := by
  obtain ⟨hlen, hsorted, hkeeps⟩ := h.sorted hp hs (str event.key)
  have hrejected := h.rejected hs.keeps .memoryLimitExceeded
  rw [MemoryProcessor.record, WindowProcessor.record]
  rw [hs.accepted, hs.results]
  generalize hslice : (if s.accepted = 0 then q.windows (str event.key) else t.next) = slice
    at hlen hsorted hkeeps ⊢
  generalize hlist : (if s.accepted = 0 then p.windows (str event.key) else s.next) = list
    at hlen hsorted ⊢
  have hcount : q.stats.retainedWindows - (q.windows (str event.key)).len + slice.len =
      p.stats.retainedWindows - (p.windows (str event.key)).length + list.length := by
    rw [h.stats, hlen, (h.windows _).len]
  have hempty : slice.len = 0 ↔ sortByStart list = [] := by
    rw [hsorted.len, length_eq_zero_iff]
  rw [hcount]
  by_cases hlimit : q.config.maxWindows <
      p.stats.retainedWindows - (p.windows (str event.key)).length + list.length
  · rw [if_pos hlimit, if_pos (h.config ▸ hlimit)]
    exact hrejected
  have hlimit' : ¬ p.config.maxWindows <
      p.stats.retainedWindows - (p.windows (str event.key)).length + list.length :=
    h.config ▸ hlimit
  rw [if_neg hlimit, if_neg hlimit']
  refine ⟨⟨h.config, h.watermark, ?_, ?_, h.store hkeeps hsorted⟩, rfl, by simp, ?_⟩
  · simp only [h.keys, hempty]
  · simp only [h.watermark, h.stats]
  · -- with the original, the map gets the slice that it has
    intro results hok
    have hlate := (Prod.mk.inj (Except.ok.inj hok)).2
    rw [decide_eq_true_iff] at hlate
    rw [if_pos hlate.2] at hslice hlist
    refine ⟨⟨rfl, ?_, ?_, hkeeps⟩, ?_⟩
    · dsimp only
      split
      · rfl
      · next hne =>
        rw [h.keys]
        refine Finset.insert_eq_self.mpr ((hp.keys _).mpr fun hnil => hne ?_)
        rw [hlen, ← hlist, hnil]
        rfl
    · dsimp only
      split
      · rfl
      · rw [← hslice, update_eq_self]
    · have hallowed : ¬ (decide (event.eventTime < q.watermark) = true ∧ 0 < s.accepted) :=
        fun hpos => absurd hlate.2 hpos.2.ne'
      have hsame : p.stats.retainedWindows - (p.windows (str event.key)).length + list.length =
          q.stats.retainedWindows := by
        rw [← hlist, h.stats]
        omega
      dsimp only
      rw [if_neg hallowed, hsame]

theorem Refines.process (hp : p.Inv) (agg : WindowAggregator) (grow : Grow) (event : Event) :
    Processed q (q.process agg grow event).1 (p.process agg event).1
      (q.process agg grow event).2 (p.process agg event).2 := by
  have hread := (h.windows (str event.key)).read
  obtain ⟨hcopy, hmade⟩ := has_make (m := q.memory) le_rfl (p.windows (str event.key)) []
  rw [MemoryProcessor.process, WindowProcessor.process, hread, ← h.config, ← h.watermark]
  rcases assignInPlace_spec agg grow q.config event hmade.fresh hcopy with
    ⟨e, hassign, hin⟩ | ⟨assigned, ws, m, next, hassign, hin, hnext, hkeeps⟩
  · rw [hassign]
    simp only [hin]
    exact h.rejected hmade e
  · rw [hassign]
    simp only [hin]
    exact h.record hp (.foldl ⟨hnext, hmade.trans hkeeps, rfl, rfl⟩ le_rfl assigned) event assigned

end

/-! ### Watermarks -/

/-- One key: its slice is replaced, and all the others stay. -/
theorem has_purge (q : MemoryProcessor) (grow : Grow) (watermark : ℤ)
    {r : Memory RetainedWindow × (List (Fin 256) → Slice)} (hr : ∀ k, Has 0 r.1 (r.2 k) (rows k))
    (key k : List (Fin 256)) :
    Has 0 (q.purge grow watermark r key).1 ((q.purge grow watermark r key).2 k)
      (update rows key (q.value.remaining watermark (rows key)) k) := by
  obtain ⟨hmade, hkeeps⟩ := has_make (m := r.1) le_rfl []
    (.replicate (rows key).length zeroWindow)
  obtain ⟨hfilled, hkeeps'⟩ := hmade.foldl_append hkeeps.fresh grow
    (q.value.remaining watermark (rows key))
  have hold : ∀ k, Has 0 (q.purge grow watermark r key).1 (r.2 k) (rows k) := by
    intro k
    rw [MemoryProcessor.purge, (hr key).read]
    exact (hr k).keep (hr k).allocated (hkeeps.trans hkeeps')
  by_cases hk : k = key
  · have hpositive := (hold key).allocated
    rw [hk, update_self]
    rw [MemoryProcessor.purge, (hr key).read] at hpositive ⊢
    dsimp only at hpositive ⊢
    rw [update_self]
    split
    · next hnil =>
      rw [hnil] at hpositive ⊢
      exact ⟨le_rfl, (Nat.zero_le _).trans_lt hpositive, rfl, _, rfl⟩
    · exact hfilled.lower
  · have hother : (q.purge grow watermark r key).2 k = r.2 k := update_of_ne hk _ _
    rw [hother, update_of_ne hk]
    exact hold k

theorem has_foldl_purge (q : MemoryProcessor) (grow : Grow) (watermark : ℤ)
    (ks : List (List (Fin 256))) (hks : ks.Nodup)
    (r : Memory RetainedWindow × (List (Fin 256) → Slice)) (hr : ∀ k, Has 0 r.1 (r.2 k) (rows k))
    (k : List (Fin 256)) :
    Has 0 (ks.foldl (q.purge grow watermark) r).1 ((ks.foldl (q.purge grow watermark) r).2 k)
      (if k ∈ ks then q.value.remaining watermark (rows k) else rows k) := by
  induction ks generalizing r rows with
  | nil =>
    exact hr k
  | cons key ks ih =>
    obtain ⟨hkey, hks⟩ := nodup_cons.mp hks
    have hstep := ih hks _ fun k => has_purge q grow watermark hr key k
    by_cases hk : k = key
    · rw [hk] at hstep ⊢
      rw [if_neg hkey, update_self] at hstep
      rw [if_pos mem_cons_self]
      exact hstep
    · simp only [mem_cons, hk, false_or]
      rw [update_of_ne hk] at hstep
      exact hstep

theorem Refines.value_eq (h : Refines q p) : q.value = p := by
  have hwindows : (fun k => q.memory.read (q.windows k)) = p.windows :=
    funext fun k => (h.windows k).read
  rw [MemoryProcessor.value, h.config, h.watermark, h.keys, h.stats, hwindows]

theorem Refines.advanceWatermark (h : Refines q p) (agg : WindowAggregator) (grow : Grow)
    (watermark : ℤ) :
    Refines (q.advanceWatermark agg grow watermark).1 (p.advanceWatermark agg watermark).1 ∧
      (q.advanceWatermark agg grow watermark).2 = (p.advanceWatermark agg watermark).2 := by
  have hrows := has_foldl_purge q grow watermark q.keys.sort (Finset.sort_nodup _ _)
    (q.memory, q.windows) h.windows
  rw [h.value_eq] at hrows
  rw [MemoryProcessor.advanceWatermark, h.value_eq, WindowProcessor.advanceWatermark]
  by_cases hle : watermark ≤ q.watermark
  · rw [if_pos hle, if_pos (h.watermark ▸ hle)]
    exact ⟨h, rfl⟩
  · rw [if_neg hle, if_neg (h.watermark ▸ hle)]
    refine ⟨⟨h.config, rfl, rfl, rfl, fun k => ?_⟩, rfl⟩
    have hk := hrows k
    have hsort : k ∈ q.keys.sort ↔ k ∈ p.keys := by rw [Finset.mem_sort, h.keys]
    dsimp only
    by_cases hmem : k ∈ p.keys
    · rw [if_pos (hsort.mpr hmem)] at hk
      rw [if_pos hmem]
      exact hk
    · rw [if_neg (mt hsort.mp hmem)] at hk
      rw [if_neg hmem]
      exact hk

/-! ## Runs -/

theorem Refines.calls (h : Refines q p) (hp : p.Inv) (agg : WindowAggregator)
    (cs : List (Call × Grow)) : Refines (q.calls agg cs) (p.calls agg (cs.map Prod.fst)).1 := by
  induction cs generalizing q p with
  | nil => exact h
  | cons c cs ih =>
    obtain ⟨call, grow⟩ := c
    cases call with
    | process event => exact ih (h.process hp agg grow event).refines (hp.process event)
    | advanceWatermark watermark =>
      exact ih (h.advanceWatermark agg grow watermark).1 (hp.advanceWatermark watermark)

/-- A processor that was just made. -/
theorem refines_new {fresh : WindowProcessor} (h : newWindowProcessor c = .ok fresh) :
    Refines { config := fresh.config, watermark := fresh.watermark } fresh := by
  rw [newWindowProcessor] at h
  split at h
  · cases h
  dsimp only at h
  generalize (if c.maxWindows = 0 then { c with maxWindows := 100000 } else c) = c' at h
  split at h
  · cases h
  split at h
  · cases h
  cases h
  exact ⟨rfl, rfl, rfl, rfl, fun _ => ⟨le_rfl, Nat.zero_lt_one, rfl, [], rfl⟩⟩

/-- **Rejected input has no effect.**  A processor is made, or has in memory what another one had
after any calls (as after a restore), and then gets any calls.  If `Process` returns an error, the
map has the slices that it had, no array that was there has been written, so that every key has the
same windows, and the watermark and the statistics are the same.  If it reports that the event is
too late, the same holds but for the counters of late and dropped events. -/
theorem process_rejected_untouched {c : WindowConfig} {fresh : WindowProcessor}
    (hnew : newWindowProcessor c = .ok fresh) (agg : WindowAggregator) (before : List Call)
    {q₀ : MemoryProcessor} (hq₀ : Refines q₀ (fresh.calls agg before).1)
    (cs : List (Call × Grow)) (grow : Grow) (event : Event) : let q := q₀.calls agg cs
    let r := q.process agg grow event
    (∀ e, r.2 = .error e → Untouched q r.1 ∧
      (∀ k, r.1.memory.read (r.1.windows k) = q.memory.read (q.windows k)) ∧
      r.1.stats = q.stats) ∧
    ∀ results, r.2 = .ok (results, true) → Untouched q r.1 ∧
      (∀ k, r.1.memory.read (r.1.windows k) = q.memory.read (q.windows k)) ∧
      r.1.stats = { q.stats with late := r.1.stats.late, dropped := r.1.stats.dropped } := by
  intro q r
  have hinv : (fresh.calls agg before).1.Inv := (WindowProcessor.inv_new hnew).calls before
  have hq := hq₀.calls hinv agg cs
  have hprocessed := hq.process (hinv.calls _) agg grow event
  have hread : Untouched q r.1 →
      ∀ k, r.1.memory.read (r.1.windows k) = q.memory.read (q.windows k) := by
    intro huntouched k
    rw [huntouched.windows, (hq.keep huntouched.arrays k).read, (hq.windows k).read]
  refine ⟨fun e he => ?_, fun results hok => ?_⟩
  · obtain ⟨huntouched, hstats⟩ := hprocessed.rejected e he
    exact ⟨huntouched, hread huntouched, hstats⟩
  · obtain ⟨huntouched, hstats⟩ := hprocessed.tooLate results hok
    exact ⟨huntouched, hread huntouched, hstats⟩

/-- An aggregator that keeps the last value. -/
def keepLast : WindowAggregator where
  createAccumulator := some []
  add _ event := event.value
  getResult accumulator := accumulator
  merge _ accumulator := accumulator

def gapTen : WindowConfig :=
  { kind := .session 10, allowedLateness := 0, aggregationID := "last", maxWindows := 1 }

/-- One session, which is as many as may be retained. -/
def oneSession : List (Call × Grow) :=
  [(.advanceWatermark 5, fun _ => []), (.process ⟨none, none, 20⟩, fun _ => [])]

/-- The end of a session would overflow, a second session is above the limit, and an event is too
late: the session is as before. -/
theorem process_rejected_untouched_overflow :
    let q := MemoryProcessor.calls keepLast { config := gapTen, watermark := minInt64 }
      oneSession
    let r := fun eventTime => q.process keepLast (fun _ => []) ⟨none, none, eventTime⟩
    ((r maxInt64).2 = .error .endOverflow ∧ (r 60).2 = .error .memoryLimitExceeded ∧
      (r (-10)).2 = .ok ([], true)) ∧
    q.stats.retainedWindows = 1 ∧ (r maxInt64).1.stats = q.stats ∧ (r 60).1.stats = q.stats ∧
    ∀ k, (r maxInt64).1.memory.read ((r maxInt64).1.windows k) = q.memory.read (q.windows k) ∧
      (r 60).1.memory.read ((r 60).1.windows k) = q.memory.read (q.windows k) ∧
      (r (-10)).1.memory.read ((r (-10)).1.windows k) = q.memory.read (q.windows k) := by
  have hnew : newWindowProcessor gapTen =
      .ok { config := gapTen, watermark := minInt64 } := rfl
  have hrejected := fun eventTime => process_rejected_untouched hnew keepLast [] (refines_new hnew)
    oneSession (fun _ => []) ⟨none, none, eventTime⟩
  obtain ⟨-, hoverflow, hoverflowStats⟩ := (hrejected maxInt64).1 .endOverflow (by decide +kernel)
  obtain ⟨-, hlimit, hlimitStats⟩ := (hrejected 60).1 .memoryLimitExceeded (by decide +kernel)
  obtain ⟨-, hlate, -⟩ := (hrejected (-10)).2 [] (by decide +kernel)
  exact ⟨by decide +kernel, by decide +kernel, hoverflowStats, hlimitStats,
    fun k => ⟨hoverflow k, hlimit k, hlate k⟩⟩

end

end Wire.Engine.Window
