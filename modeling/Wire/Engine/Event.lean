import Mathlib

/-!
# Events, input messages and control messages

The vocabulary of one task of the engine.  An upstream stream delivers `InputMsg`s; the
reader of that stream turns data records and watermarks into `Event`s, which travel to
the operator chain through the event channel or a side buffer, and turns barriers and
ends of partition into `ControlMsg`s, which travel on the control channel.

An event carries a mark of where it came from: a data record holds the input whose
activity it records, a watermark boundary the input whose watermark it advances.  The
third kind, the combined `watermark` of the propagator, belongs to no input.  The mark is
what every statement about "the items of input `i`" is about, so `Event.input` reads it
back and `inputItems` selects by it.
-/

namespace Wire.Engine

/-- A Go byte slice or string. -/
abbrev Bytes := List UInt8

/-- The identity of a checkpoint attempt: a checkpoint id under a coordinator epoch. -/
structure CheckpointIdentity where
  id : ℕ
  epoch : ℕ
deriving DecidableEq, Repr

/-- The payload of a data record on the wire. -/
structure DataRecordMsg where
  key : Bytes := []
  value : Bytes := []
  eventTime : ℤ := 0
  headers : List (Bytes × Bytes) := []
deriving DecidableEq, Repr

/-- What flows through the event channel and the side buffers. -/
structure Event where
  /-- The input whose activity the record reports once it has been processed. -/
  inputActivity : Option ℕ := none
  /-- The watermark boundary of one input. -/
  inputWatermark : Option (ℕ × ℤ) := none
  /-- The combined watermark of the propagator; never exposed as a data record. -/
  watermark : Option ℤ := none
  key : Bytes := []
  value : Bytes := []
  eventTime : ℤ := 0
  headers : List (Bytes × Bytes) := []
deriving DecidableEq, Repr

/-- The messages an upstream stream delivers. -/
inductive InputMsg where
  | dataRecord (m : DataRecordMsg)
  | checkpointBarrier (b : CheckpointIdentity)
  | watermark (timestamp : ℤ)
  | endOfPartition
deriving DecidableEq, Repr

/-- The kinds of control messages, in the order of the source. -/
inductive ControlType where
  | barrierReceived
  | abortCheckpoint
  | shutdown
  | endOfPartition
  | commitCheckpoint
  | abortTransaction
  | drainInputs
deriving DecidableEq, Repr

/-- A control message.  `inputIndex` only matters for barriers and ends of partition,
the identity only for barriers and decisions. -/
structure ControlMsg where
  type : ControlType
  inputIndex : ℕ := 0
  identity : CheckpointIdentity := ⟨0, 0⟩
deriving DecidableEq, Repr

/-! ## Events of an input -/

/-- The event of a data record, before its activity mark is set. -/
def eventFromProto (m : DataRecordMsg) : Event :=
  { key := m.key, value := m.value, eventTime := m.eventTime, headers := m.headers }

/-- A data record as the reader of input `i` hands it on. -/
def dataEvent (i : ℕ) (m : DataRecordMsg) : Event :=
  { eventFromProto m with inputActivity := some i }

/-- A watermark boundary as the reader of input `i` hands it on. -/
def watermarkBoundary (i : ℕ) (timestamp : ℤ) : Event :=
  { inputWatermark := some (i, timestamp) }

/-- The combined watermark event of the propagator. -/
def watermarkEvent (timestamp : ℤ) : Event :=
  { watermark := some timestamp }

/-- The event, if any, that a message delivered on input `i` becomes. -/
def InputMsg.item (i : ℕ) : InputMsg → Option Event
  | .dataRecord m => some (dataEvent i m)
  | .watermark timestamp => some (watermarkBoundary i timestamp)
  | .checkpointBarrier _ => none
  | .endOfPartition => none

/-- The input an event belongs to. -/
def Event.input (e : Event) : Option ℕ :=
  e.inputActivity.or (e.inputWatermark.map Prod.fst)

/-- Is the event a data record? -/
def Event.isData (e : Event) : Bool :=
  e.inputActivity.isSome

@[simp] theorem watermarkEvent_input (timestamp : ℤ) : (watermarkEvent timestamp).input = none :=
  rfl

/-- What a message becomes is marked with the input it came from. -/
theorem InputMsg.input_of_item {i : ℕ} {m : InputMsg} {e : Event} (h : m.item i = some e) :
    e.input = some i := by
  cases m <;> simp only [InputMsg.item, Option.some.injEq, reduceCtorEq] at h
  all_goals
    subst h
    rfl

/-- The items, in order, that a sequence of messages delivered on input `i` becomes. -/
def itemsOf (i : ℕ) (messages : List InputMsg) : List Event :=
  messages.filterMap (InputMsg.item i)

@[simp] theorem itemsOf_nil (i : ℕ) : itemsOf i [] = [] :=
  rfl

@[simp] theorem itemsOf_append (i : ℕ) (l m : List InputMsg) :
    itemsOf i (l ++ m) = itemsOf i l ++ itemsOf i m :=
  List.filterMap_append

@[simp] theorem itemsOf_cons (i : ℕ) (m : InputMsg) (l : List InputMsg) :
    itemsOf i (m :: l) = (m.item i).toList ++ itemsOf i l := by
  cases h : m.item i <;> simp [itemsOf, h]

/-- The sub-sequence of a list of events that belongs to input `i`. -/
def inputItems (i : ℕ) (events : List Event) : List Event :=
  events.filter fun e => e.input = some i

@[simp] theorem inputItems_nil (i : ℕ) : inputItems i [] = [] :=
  rfl

@[simp] theorem inputItems_append (i : ℕ) (l m : List Event) :
    inputItems i (l ++ m) = inputItems i l ++ inputItems i m :=
  List.filter_append ..

theorem inputItems_cons (i : ℕ) (e : Event) (l : List Event) :
    inputItems i (e :: l) = inputItems i [e] ++ inputItems i l := by
  rw [← inputItems_append]
  rfl

/-- A list that belongs to input `i` throughout is left alone by the selection. -/
theorem inputItems_eq_self {i : ℕ} {l : List Event} (h : ∀ e ∈ l, e.input = some i) :
    inputItems i l = l :=
  List.filter_eq_self.mpr fun e he => by simpa using h e he

/-- A list that belongs to another input throughout is dropped by the selection. -/
theorem inputItems_eq_nil {i j : ℕ} {l : List Event} (hij : i ≠ j)
    (h : ∀ e ∈ l, e.input = some j) : inputItems i l = [] :=
  List.filter_eq_nil_iff.mpr fun e he => by
    rw [h e he]
    simpa using hij.symm

/-- The logical payload size that side buffers account for: key, value, eight bytes of
timestamp, and the names and values of the headers. -/
def eventPayloadBytes (e : Event) : ℕ :=
  e.key.length + e.value.length + 8 + (e.headers.map fun h => h.1.length + h.2.length).sum

end Wire.Engine
