import Wire.Library.Runs
import Wire.Library.Int64

/-!
# Watermarks of a source

Two goroutines put into the queue of a source task: the reader dispatches the records of a batch,
and observes the time of each after it is in the queue, and the emitter puts a watermark there at
every tick, if the strategy's is larger than its last one.  A lock is held for a batch and for a
tick.

The strategy is the bounded one: the largest time observed less the bound, or the smallest `int64`
if that is not in range.  Arithmetic wraps (`int64`), but never does here (`generateWatermark_eq`).

Every watermark in the queue is the time of a record before it less the bound (`Inv.source`), so no
later record of a source that keeps to the bound is below it (`sourceWatermarks_safe`).
-/

namespace Wire.Engine.SourceWatermark

open List Runs

open Int64Range

/-! ## The strategy -/

/-- `DefaultMaxOOO`, in nanoseconds. -/
def defaultMaxOOO : ℤ := 5 * 10 ^ 9

/-- `Duration.Milliseconds` -/
def milliseconds (d : ℤ) : ℤ :=
  d.tdiv (10 ^ 6)

/-- The bound of `NewBoundedOutOfOrdernessStrategy`, in milliseconds. -/
def newBoundedOutOfOrderness (maxOOO : ℤ) : ℤ :=
  milliseconds (if maxOOO ≤ 0 then defaultMaxOOO else maxOOO)

/-- `GenerateWatermark`, of the largest time observed. -/
def generateWatermark (maxOutOfOrderness observed : ℤ) : ℤ :=
  if observed < int64 (minInt64 + maxOutOfOrderness) then minInt64
  else int64 (observed - maxOutOfOrderness)

/-! ## The two goroutines -/

/-- What is put into the queue. -/
inductive Item where
  | record (time : ℤ)
  | watermark (timestamp : ℤ)
deriving DecidableEq, Repr

inductive Party where
  | reader
  | emitter
deriving DecidableEq, Repr

/-- Where `dispatchSourceBatch` is. -/
inductive Reader where
  /-- Outside of it. -/
  | idle
  /-- Before the lock, with the batch. -/
  | waiting (batch : List ℤ)
  /-- In the loop, with what is left of the batch. -/
  | sending (batch : List ℤ)
  /-- In `ObserveEventTime` for the record just sent, before `Load`. -/
  | observing (time : ℤ) (batch : List ℤ)
  /-- There before `CompareAndSwap`. -/
  | swapping (time current : ℤ) (batch : List ℤ)
  /-- Returned with the error of the context. -/
  | stopped
deriving DecidableEq, Repr

/-- Where `run` and `emit` are. -/
inductive Emitter where
  /-- In `run`. -/
  | idle
  /-- After a tick, before the lock. -/
  | waiting
  /-- With the lock, before `GenerateWatermark`. -/
  | locked
  /-- With the watermark. -/
  | generated (next : ℤ)
  /-- After it was sent, before it is kept as the last one. -/
  | sent (next : ℤ)
  | stopped
deriving DecidableEq, Repr

structure State where
  /-- The batches that the source has still to return. -/
  source : List (List ℤ)
  maxObserved : ℤ := minInt64
  lock : Option Party := none
  reader : Reader := .idle
  emitter : Emitter := .idle
  /-- The last watermark that was sent. -/
  last : ℤ := minInt64
  /-- All that was put into the queue so far. -/
  queue : List Item := []
deriving DecidableEq, Repr

inductive Action where
  | readBatch
  | lockReader
  | sendRecord
  | load
  | compareAndSwap
  | unlockReader
  | cancelReader
  | tick
  | lockEmitter
  | generate
  | skip
  | sendWatermark
  | keep
  | cancelEmitter
deriving DecidableEq, Repr

/-- One step, with the bound of the strategy. -/
def step (bound : ℤ) (s : State) : Action → Option State
  | .readBatch =>
    match s.reader, s.source with
    | .idle, batch :: source => some { s with reader := .waiting batch, source }
    | _, _ => none
  | .lockReader =>
    match s.reader, s.lock with
    | .waiting batch, none => some { s with reader := .sending batch, lock := some .reader }
    | _, _ => none
  | .sendRecord =>
    match s.reader with
    | .sending (time :: batch) =>
      some { s with reader := .observing time batch, queue := s.queue ++ [.record time] }
    | _ => none
  | .load =>
    match s.reader with
    | .observing time batch =>
      if time ≤ s.maxObserved then some { s with reader := .sending batch }
      else some { s with reader := .swapping time s.maxObserved batch }
    | _ => none
  | .compareAndSwap =>
    match s.reader with
    | .swapping time current batch =>
      if s.maxObserved = current then
        some { s with reader := .sending batch, maxObserved := time }
      else some { s with reader := .observing time batch }
    | _ => none
  | .unlockReader =>
    match s.reader with
    | .sending [] => some { s with reader := .idle, lock := none }
    | _ => none
  | .cancelReader =>
    match s.reader with
    | .sending (_ :: _) => some { s with reader := .stopped, lock := none }
    | _ => none
  | .tick =>
    match s.emitter with
    | .idle => some { s with emitter := .waiting }
    | _ => none
  | .lockEmitter =>
    match s.emitter, s.lock with
    | .waiting, none => some { s with emitter := .locked, lock := some .emitter }
    | _, _ => none
  | .generate =>
    match s.emitter with
    | .locked => some { s with emitter := .generated (generateWatermark bound s.maxObserved) }
    | _ => none
  | .skip =>
    match s.emitter with
    | .generated next =>
      if next ≤ s.last then some { s with emitter := .idle, lock := none } else none
    | _ => none
  | .sendWatermark =>
    match s.emitter with
    | .generated next =>
      if s.last < next then
        some { s with emitter := .sent next, queue := s.queue ++ [.watermark next] }
      else none
    | _ => none
  | .keep =>
    match s.emitter with
    | .sent next => some { s with emitter := .idle, last := next, lock := none }
    | _ => none
  | .cancelEmitter =>
    match s.emitter with
    | .locked | .generated _ => some { s with emitter := .stopped, lock := none }
    | _ => none

def Item.time? : Item → Option ℤ
  | .record time => some time
  | .watermark _ => none

def Item.timestamp? : Item → Option ℤ
  | .record _ => none
  | .watermark timestamp => some timestamp

/-- The times of the records in the queue. -/
def times (queue : List Item) : List ℤ :=
  queue.filterMap Item.time?

/-- The watermarks in the queue. -/
def watermarks (queue : List Item) : List ℤ :=
  queue.filterMap Item.timestamp?

/-! ## The computation -/

/-- **The computation never wraps**, for any times. -/
theorem generateWatermark_eq {bound observed : ℤ} (hbound : 0 ≤ bound) (hmax : bound ≤ maxInt64)
    (hobserved : minInt64 ≤ observed ∧ observed ≤ maxInt64) :
    generateWatermark bound observed = max minInt64 (observed - bound) := by
  have hsum : int64 (minInt64 + bound) = minInt64 + bound := by
    apply int64_eq
    · omega
    · rw [minInt64, maxInt64] at *
      omega
  rw [generateWatermark, hsum]
  split
  · omega
  · rw [int64_eq (by omega) (by omega)]
    omega

/-! ## Runs -/

/-- The records that have still to be sent. -/
def Reader.ahead (source : List (List ℤ)) : Reader → List ℤ
  | .idle => source.flatten
  | .waiting batch | .sending batch | .observing _ batch | .swapping _ _ batch =>
    batch ++ source.flatten
  | .stopped => []

/-- The time that is being observed. -/
def Reader.observed? : Reader → Option ℤ
  | .observing time _ | .swapping time _ _ => some time
  | _ => none

/-- The watermark that was generated. -/
def Emitter.next? : Emitter → Option ℤ
  | .generated next => some next
  | _ => none

/-- The last watermark in the queue, also before it is kept. -/
def Emitter.top (last : ℤ) : Emitter → ℤ
  | .sent next => next
  | _ => last

/-- A watermark is the time of a record before it less the bound. -/
def FromRecord (bound : ℤ) (past : List Item) (o : Item) : Prop :=
  ∀ timestamp, o = .watermark timestamp → ∃ t ∈ times past, timestamp = t - bound

structure Inv (bound : ℤ) (batches : List (List ℤ)) (s : State) : Prop where
  records : times s.queue ++ s.reader.ahead s.source <+: batches.flatten
  observed : s.maxObserved = minInt64 ∨ s.maxObserved ∈ times s.queue
  observing : ∀ t ∈ s.reader.observed?, t ∈ times s.queue
  generated : ∀ next ∈ s.emitter.next?, next = minInt64 ∨ ∃ t ∈ times s.queue, next = t - bound
  source : Traces.Justified (FromRecord bound) s.queue
  increasing : (watermarks s.queue).Pairwise (· < ·)
  below : ∀ w ∈ watermarks s.queue, w ≤ s.emitter.top s.last
  last : minInt64 ≤ s.emitter.top s.last

variable {bound : ℤ} {batches : List (List ℤ)} {s s' : State}

@[simp] theorem times_record (queue : List Item) (time : ℤ) :
    times (queue ++ [.record time]) = times queue ++ [time] :=
  filterMap_append

@[simp] theorem times_watermark (queue : List Item) (timestamp : ℤ) :
    times (queue ++ [.watermark timestamp]) = times queue := by
  rw [times, filterMap_append]
  exact append_nil _

@[simp] theorem watermarks_record (queue : List Item) (time : ℤ) :
    watermarks (queue ++ [.record time]) = watermarks queue := by
  rw [watermarks, filterMap_append]
  exact append_nil _

@[simp] theorem watermarks_watermark (queue : List Item) (timestamp : ℤ) :
    watermarks (queue ++ [.watermark timestamp]) = watermarks queue ++ [timestamp] :=
  filterMap_append

theorem inv_start (bound : ℤ) (batches : List (List ℤ)) :
    Inv bound batches { source := batches } where
  records := prefix_rfl
  observed := .inl rfl
  observing _ h := nomatch h
  generated _ h := nomatch h
  source := .nil
  increasing := .nil
  below _ h := absurd h not_mem_nil
  last := le_rfl

section

variable (hi : Inv bound batches s)
include hi

/-- A step of the reader that sends nothing. -/
theorem Inv.reader {source : List (List ℤ)} {reader : Reader} {lock : Option Party}
    {maxObserved : ℤ} (hahead : reader.ahead source <+: s.reader.ahead s.source)
    (hobserving : ∀ t ∈ reader.observed?, t ∈ s.reader.observed?)
    (hmax : maxObserved = s.maxObserved ∨ maxObserved ∈ s.reader.observed?) :
    Inv bound batches { s with source, reader, lock, maxObserved } where
  records := ((prefix_append_right_inj _).mpr hahead).trans hi.records
  observed := by
    rcases hmax with rfl | hmax
    · exact hi.observed
    · exact .inr (hi.observing _ hmax)
  observing t ht := hi.observing t (hobserving t ht)
  generated := hi.generated
  source := hi.source
  increasing := hi.increasing
  below := hi.below
  last := hi.last

/-- A step of the emitter that sends nothing. -/
theorem Inv.emitter {emitter : Emitter} {lock : Option Party} {last : ℤ}
    (htop : emitter.top last = s.emitter.top s.last) (hnext : ∀ next ∈ emitter.next?,
      next = minInt64 ∨ ∃ t ∈ times s.queue, next = t - bound) :
    Inv bound batches { s with emitter, lock, last } where
  records := hi.records
  observed := hi.observed
  observing := hi.observing
  generated := hnext
  source := hi.source
  increasing := hi.increasing
  below w hw := (hi.below w hw).trans htop.ge
  last := hi.last.trans htop.ge

theorem Inv.sendRecord {time : ℤ} {batch : List ℤ} (hreader : s.reader = .sending (time :: batch)) :
    Inv bound batches
      { s with reader := .observing time batch, queue := s.queue ++ [.record time] } where
  records := by
    have hrecords := hi.records
    rw [hreader] at hrecords
    rw [times_record, append_assoc]
    exact hrecords
  observed := by
    rw [times_record]
    exact hi.observed.imp_right (mem_append_left _)
  observing t ht := by
    cases ht
    rw [times_record]
    exact mem_append_right _ (mem_singleton_self time)
  generated next hnext := by
    rw [times_record]
    refine (hi.generated next hnext).imp_right fun ⟨t, ht, heq⟩ => ?_
    exact ⟨t, mem_append_left _ ht, heq⟩
  source := hi.source.snoc fun _ h => nomatch h
  increasing := by
    rw [watermarks_record]
    exact hi.increasing
  below := by
    rw [watermarks_record]
    exact hi.below
  last := hi.last

theorem Inv.sendWatermark {next : ℤ} (hemitter : s.emitter = .generated next)
    (hlast : s.last < next) : Inv bound batches
      { s with emitter := .sent next, queue := s.queue ++ [.watermark next] } where
  records := by
    rw [times_watermark]
    exact hi.records
  observed := by
    rw [times_watermark]
    exact hi.observed
  observing := by
    rw [times_watermark]
    exact hi.observing
  generated _ h := nomatch h
  source := by
    refine hi.source.snoc ?_
    rintro timestamp ⟨⟩
    have hgenerated := hi.generated next (by rw [hemitter]; rfl)
    rcases hgenerated with rfl | hsource
    · have hmin := hi.last
      rw [hemitter] at hmin
      exact absurd hlast (not_lt.mpr hmin)
    · exact hsource
  increasing := by
    rw [watermarks_watermark, pairwise_append]
    refine ⟨hi.increasing, pairwise_singleton _ _, fun w hw v hv => ?_⟩
    rw [mem_singleton.mp hv]
    have hbelow := hi.below w hw
    rw [hemitter] at hbelow
    exact hbelow.trans_lt hlast
  below w hw := by
    rw [watermarks_watermark, mem_append, mem_singleton] at hw
    rcases hw with hw | rfl
    · have hbelow := hi.below w hw
      rw [hemitter] at hbelow
      exact hbelow.trans hlast.le
    · exact le_rfl
  last := by
    have hmin := hi.last
    rw [hemitter] at hmin
    exact hmin.trans hlast.le

section

variable (hbound : 0 ≤ bound) (hmax : bound ≤ maxInt64)
  (htimes : ∀ t ∈ batches.flatten, minInt64 ≤ t ∧ t ≤ maxInt64)
include hbound hmax htimes

/-- What is generated is the smallest `int64`, or comes from a record in the queue. -/
theorem Inv.generate : generateWatermark bound s.maxObserved = minInt64 ∨
    ∃ t ∈ times s.queue, generateWatermark bound s.maxObserved = t - bound := by
  rcases hi.observed with hmin | hmem
  · left
    rw [hmin, generateWatermark_eq hbound hmax ⟨le_rfl, by decide⟩]
    omega
  · have hbatches : s.maxObserved ∈ batches.flatten :=
      hi.records.subset (mem_append_left _ hmem)
    rw [generateWatermark_eq hbound hmax (htimes _ hbatches)]
    rcases le_total (s.maxObserved - bound) minInt64 with hle | hle
    · exact .inl (max_eq_left hle)
    · exact .inr ⟨s.maxObserved, hmem, max_eq_right hle⟩

/-- One step. -/
theorem Inv.after {a : Action} (h : step bound s a = some s') : Inv bound batches s' := by
  -- the reader goes on with no time to observe, and the emitter with no watermark to send
  have hread : ∀ {pc reader : Reader} {source : List (List ℤ)} {lock : Option Party},
      s.reader = pc → reader.ahead source = pc.ahead s.source → reader.observed? = none →
      Inv bound batches { s with source, reader, lock } := by
    intro pc reader source lock hpc hahead hnone
    refine hi.reader (by simp only [hpc, hahead, prefix_rfl]) (fun t ht => ?_) (.inl rfl)
    rw [hnone] at ht
    cases ht
  have hemit : ∀ {pc emitter : Emitter} {lock : Option Party} {last : ℤ}, s.emitter = pc →
      emitter.top last = pc.top s.last → emitter.next? = none →
      Inv bound batches { s with emitter, lock, last } := by
    intro pc emitter lock last hpc htop hnone
    refine hi.emitter (by rw [hpc, htop]) fun next hnext => ?_
    rw [hnone] at hnext
    cases hnext
  cases a with simp only [step] at h
  | readBatch =>
    split at h
    · next batch source hreader hsource =>
      cases h
      exact hread hreader (by rw [hsource]; rfl) rfl
    · cases h
  | lockReader | unlockReader =>
    split at h
    · cases h
      refine hread (by assumption) ?_ rfl
      rfl
    · cases h
  | sendRecord =>
    split at h
    · next time batch hreader =>
      cases h
      exact hi.sendRecord hreader
    · cases h
  | load =>
    split at h
    · next time batch hreader =>
      split at h
      · cases h
        exact hread hreader rfl rfl
      · cases h
        refine hi.reader ?_ ?_ (.inl rfl)
        · rw [hreader]
          exact prefix_rfl
        · rw [hreader]
          exact fun t ht => ht
    · cases h
  | compareAndSwap =>
    split at h
    · next time current batch hreader =>
      split at h
      · cases h
        refine hi.reader ?_ (fun _ h => nomatch h) (.inr ?_)
        · rw [hreader]
          exact prefix_rfl
        · rw [hreader]
          rfl
      · cases h
        refine hi.reader ?_ ?_ (.inl rfl)
        · rw [hreader]
          exact prefix_rfl
        · rw [hreader]
          exact fun t ht => ht
    · cases h
  | cancelReader =>
    split at h
    · cases h
      exact hi.reader nil_prefix (fun _ h => nomatch h) (.inl rfl)
    · cases h
  | generate =>
    split at h
    · next hemitter =>
      cases h
      refine hi.emitter (by rw [hemitter]; rfl) ?_
      rintro next ⟨⟩
      exact hi.generate hbound hmax htimes
    · cases h
  | sendWatermark =>
    split at h
    · next next hemitter =>
      obtain ⟨hlast, rfl⟩ := Option.ite_some_none_eq_some.mp h
      exact hi.sendWatermark hemitter hlast
    · cases h
  | tick | lockEmitter | skip | keep | cancelEmitter =>
    repeat' split at h
    all_goals cases h
    all_goals
      refine hemit (by assumption) ?_ rfl
      rfl

end

end

theorem Inv.reachable (hbound : 0 ≤ bound) (hmax : bound ≤ maxInt64)
    (htimes : ∀ t ∈ batches.flatten, minInt64 ≤ t ∧ t ≤ maxInt64)
    (h : Reachable (step bound) { source := batches } s) : Inv bound batches s :=
  h.invariant (inv_start bound batches) fun _ _ _ _ hi _ hstep => hi.after hbound hmax htimes hstep

/-- A watermark is not above a later record, if the source keeps to the bound. -/
theorem Inv.watermark_le (hi : Inv bound batches s) {B : ℤ} (hB : B ≤ bound)
    (hordered : batches.flatten.Pairwise fun earlier t => earlier - B ≤ t)
    {past future : List Item} {timestamp t : ℤ}
    (hqueue : s.queue = past ++ .watermark timestamp :: future) (ht : .record t ∈ future) :
    timestamp ≤ t := by
  obtain ⟨earlier, hearlier, rfl⟩ := hi.source past _ future hqueue timestamp rfl
  have hlater : t ∈ times future := mem_filterMap.mpr ⟨_, ht, rfl⟩
  have hsplit : times s.queue = times past ++ times future := by
    rw [hqueue, times, filterMap_append]
    rfl
  have hpairwise : (times s.queue).Pairwise fun earlier t => earlier - B ≤ t :=
    hordered.sublist ((prefix_append _ _).trans hi.records).sublist
  rw [hsplit, pairwise_append] at hpairwise
  have hle := hpairwise.2.2 earlier hearlier t hlater
  omega

/-- The bound of the strategy for a number of whole milliseconds: at least that number, and an
`int64` that is not negative. -/
theorem newBoundedOutOfOrderness_bounds {B : ℤ} (hB : B * 10 ^ 6 ≤ maxInt64) :
    B ≤ newBoundedOutOfOrderness (B * 10 ^ 6) ∧ 0 ≤ newBoundedOutOfOrderness (B * 10 ^ 6) ∧
      newBoundedOutOfOrderness (B * 10 ^ 6) ≤ maxInt64 := by
  rw [newBoundedOutOfOrderness, milliseconds]
  rw [maxInt64] at *
  split
  · have hdefault : defaultMaxOOO.tdiv (10 ^ 6) = 5000 := by decide
    omega
  · rw [Int.mul_tdiv_cancel _ (by decide)]
    omega

/-- **Watermarks of a source never overtake its records**: with a bound of `B` milliseconds, for a
source of which no record is more than `B` below an earlier one, no record is put into the queue
after a watermark that is above it, and the watermarks increase; and no computation wraps. -/
theorem sourceWatermarks_safe {B : ℤ} (hB : B * 10 ^ 6 ≤ maxInt64)
    (htimes : ∀ t ∈ batches.flatten, minInt64 ≤ t ∧ t ≤ maxInt64)
    (hordered : batches.flatten.Pairwise fun earlier t => earlier - B ≤ t)
    (h : Reachable (step (newBoundedOutOfOrderness (B * 10 ^ 6))) { source := batches } s) :
    (∀ past future timestamp t, s.queue = past ++ .watermark timestamp :: future →
      .record t ∈ future → timestamp ≤ t) ∧
    (watermarks s.queue).Pairwise (· < ·) ∧
    ∀ observed, minInt64 ≤ observed ∧ observed ≤ maxInt64 →
      generateWatermark (newBoundedOutOfOrderness (B * 10 ^ 6)) observed
        = max minInt64 (observed - newBoundedOutOfOrderness (B * 10 ^ 6)) := by
  obtain ⟨hle, hbound, hmax⟩ := newBoundedOutOfOrderness_bounds hB
  have hi := Inv.reachable hbound hmax htimes h
  refine ⟨fun past future timestamp t hqueue ht => hi.watermark_le hle hordered hqueue ht,
    hi.increasing, fun observed hobserved => generateWatermark_eq hbound hmax hobserved⟩

/-- Two records, a watermark after the first, and the second as far below the first as it may be. -/
theorem sourceWatermarks_safe_late : ∃ s,
    Reachable (step (newBoundedOutOfOrderness (10 * 10 ^ 6))) { source := [[100], [90]] } s ∧
      s.queue = [.record 100, .watermark 90, .record 90] ∧
        (watermarks s.queue).Pairwise (· < ·) := by
  obtain ⟨s, h, hqueue⟩ := reachable_of_run (step (newBoundedOutOfOrderness (10 * 10 ^ 6)))
    { source := [[100], [90]] }
    [.readBatch, .lockReader, .tick, .sendRecord, .load, .compareAndSwap, .unlockReader,
      .lockEmitter, .readBatch, .generate, .sendWatermark, .keep, .lockReader, .sendRecord]
    (p := fun s => s.queue = [.record 100, .watermark 90, .record 90]) (by decide)
  refine ⟨s, h, hqueue, ?_⟩
  exact (sourceWatermarks_safe (by decide) (by decide) (by decide) h).2.1

end Wire.Engine.SourceWatermark
