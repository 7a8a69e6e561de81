import Wire.Engine.Event
import Wire.Library.Runs
import Wire.Planner.KeyGroup

/-!
# The output router

`runOutputRouter` has one dispatcher and one writer for each downstream stream.  A data message goes
into the queue of one stream, chosen by its key or in turn.  A control message goes into all the
queues, and the dispatcher then waits until every writer has said that it wrote it.

The model has an action for each step of one of the goroutines between two channel operations; a
goroutine that has stopped because a context was cancelled is one that takes no further step.  A
queue holds one item.  `log` records what has been dispatched, and for which stream.

Everything rests on where a message can be: written, in the hands of the writer, in the queue, or
still with the dispatcher.  In this order the four make up what has been dispatched for the stream
(`Inv.flow`).  The fence is a count: the completions that have arrived and the writers that still
owe one are together what the dispatcher waits for (`Inv.owed`).
-/

namespace Wire.Engine.OutputRouter

open List Nat Bool Function Runs

open Wire.KeyGroup (assignedTask keyGroup)

/-! ## The router -/

/-- `OutputMsg`. -/
inductive OutputMsg where
  | data (e : Event)
  | barrier (b : CheckpointIdentity)
  | watermark (timestamp : ℤ)
  | endOfPartition
deriving DecidableEq

def OutputMsg.isData : OutputMsg → Bool
  | .data _ => true
  | _ => false

/-- What the router is called with; the key groups have been validated unless there are none. -/
structure Config where
  streams : ℕ
  keyGroups : ℕ
  hash : Bytes → UInt32
  accepted : keyGroups ≠ 0 → KeyGroup.validate keyGroups streams = .ok ()

/-- The stream for a data message. -/
def Config.target (cfg : Config) (next : ℕ) (e : Event) : ℕ :=
  if cfg.keyGroups ≠ 0 then
    assignedTask (keyGroup cfg.hash e.key cfg.keyGroups) cfg.keyGroups cfg.streams
  else next

/-- A queued item; `fenced` says that a completion is expected. -/
structure Work where
  message : OutputMsg
  fenced : Bool := false
deriving DecidableEq

inductive Writer where
  | idle
  | writing (w : Work)
  | signalling
deriving DecidableEq

/-- A stream with its queue and its writer. -/
structure Lane where
  queue : Option Work := none
  writer : Writer := .idle
  received : List OutputMsg := []
deriving DecidableEq

/-- Where the dispatcher is. -/
inductive Phase where
  | receive
  | sendData (target : ℕ) (message : OutputMsg)
  /-- The control message is for the queue of this stream and those after it. -/
  | fence (message : OutputMsg) (i : ℕ)
  /-- This many completions have not been taken. -/
  | await (k : ℕ)
deriving DecidableEq

/-- A message and the stream it is for; a control message is for all. -/
structure Dispatched where
  message : OutputMsg
  target : Option ℕ
deriving DecidableEq

structure State where
  /-- What the output channel still yields. -/
  input : List OutputMsg
  log : List Dispatched := []
  next : ℕ := 0
  phase : Phase := .receive
  completed : ℕ := 0
  lanes : ℕ → Lane := fun _ => {}

inductive Action where
  | receive
  | send
  | await
  | take (i : ℕ)
  | write (i : ℕ)
  | signal (i : ℕ)
deriving DecidableEq

def State.setLane (s : State) (i : ℕ) (lane : Lane) : State :=
  { s with lanes := update s.lanes i lane }

/-- The dispatcher takes the next message. -/
def receive (cfg : Config) (s : State) : Option State :=
  match s.phase, s.input with
  | .receive, m :: rest =>
    if cfg.streams = 0 then some { s with input := rest, log := s.log ++ [⟨m, none⟩] }
    else match m with
      | .data e =>
        let target := cfg.target s.next e
        some { s with
          input := rest, log := s.log ++ [⟨m, some target⟩], phase := .sendData target m }
      | _ =>
        some { s with
          input := rest, log := s.log ++ [⟨m, none⟩], phase := .fence m 0, completed := 0 }
  | _, _ => none

/-- The phase after the control message has been put into the queue of a stream. -/
def Phase.afterSend (cfg : Config) (m : OutputMsg) (i : ℕ) : Phase :=
  if i + 1 < cfg.streams then .fence m (i + 1) else .await cfg.streams

/-- The dispatcher puts an item into a queue that has room. -/
def send (cfg : Config) (s : State) : Option State :=
  match s.phase with
  | .sendData target m =>
    let lane := s.lanes target
    if lane.queue = none then
      some { s.setLane target { lane with queue := some ⟨m, false⟩ } with
        phase := .receive, next := (s.next + 1) % cfg.streams }
    else none
  | .fence m i =>
    let lane := s.lanes i
    if lane.queue = none then
      some { s.setLane i { lane with queue := some ⟨m, true⟩ } with
        phase := .afterSend cfg m i }
    else none
  | _ => none

/-- The dispatcher takes a completion. -/
def await (s : State) : Option State :=
  match s.phase, s.completed with
  | .await (k + 1), c + 1 =>
    some { s with completed := c, phase := if k = 0 then .receive else .await k }
  | _, _ => none

/-- A writer takes an item from its queue. -/
def take (s : State) (i : ℕ) : Option State :=
  let lane := s.lanes i
  match lane.writer, lane.queue with
  | .idle, some w => some (s.setLane i { lane with queue := none, writer := .writing w })
  | _, _ => none

/-- A writer writes its item to the stream. -/
def write (s : State) (i : ℕ) : Option State :=
  let lane := s.lanes i
  match lane.writer with
  | .writing w =>
    some (s.setLane i { lane with
      writer := if w.fenced then .signalling else .idle
      received := lane.received ++ [w.message] })
  | _ => none

/-- A writer says that it wrote a control message. -/
def signal (s : State) (i : ℕ) : Option State :=
  let lane := s.lanes i
  match lane.writer with
  | .signalling =>
    some { s.setLane i { lane with writer := .idle } with completed := s.completed + 1 }
  | _ => none

def step (cfg : Config) (s : State) : Action → Option State
  | .receive => receive cfg s
  | .send => send cfg s
  | .await => await s
  | .take i => if i < cfg.streams then take s i else none
  | .write i => if i < cfg.streams then write s i else none
  | .signal i => if i < cfg.streams then signal s i else none

/-- The router before its first step, with the messages that it is going to get. -/
def initial (messages : List OutputMsg) : State := { input := messages }

/-! ## What is where -/

/-- What has been dispatched for a stream. -/
def forStream (i : ℕ) (log : List Dispatched) : List OutputMsg :=
  (log.filter fun d => d.target = none ∨ d.target = some i).map Dispatched.message

theorem forStream_append (i : ℕ) (log log' : List Dispatched) :
    forStream i (log ++ log') = forStream i log ++ forStream i log' := by
  rw [forStream, filter_append, map_append]
  rfl

/-- What a stream is still to receive from its writer and its queue, in order. -/
def Lane.outstanding (lane : Lane) : List OutputMsg :=
  (match lane.writer with
    | .writing w => [w.message]
    | _ => []) ++ (lane.queue.map Work.message).toList

/-- What the dispatcher has in hand for a stream. -/
def Phase.inHand (phase : Phase) (i : ℕ) : List OutputMsg :=
  match phase with
  | .sendData target m => if target = i then [m] else []
  | .fence m j => if j ≤ i then [m] else []
  | _ => []

/-- The writer has taken an item for which it owes a completion. -/
def Lane.holds (lane : Lane) : Bool :=
  match lane.writer with
  | .writing w => w.fenced
  | .signalling => true
  | .idle => false

/-- The writer of the stream owes a completion. -/
def Lane.owes (lane : Lane) : Bool := lane.holds || lane.queue.any Work.fenced

/-- The streams whose writers owe a completion. -/
def owing (cfg : Config) (s : State) : Finset ℕ :=
  (Finset.range cfg.streams).filter fun i => (s.lanes i).owes

/-- The completions that the dispatcher has asked for and not taken. -/
def Phase.asked (phase : Phase) : ℕ :=
  match phase with
  | .fence _ j => j
  | .await k => k
  | _ => 0

/-- The control message that the dispatcher is busy with has been sent to the stream. -/
def Phase.Sent (phase : Phase) (i : ℕ) : Prop :=
  match phase with
  | .fence _ j => i < j
  | .await _ => True
  | _ => False

/-- The dispatcher is busy with a control message. -/
def Phase.Fencing (phase : Phase) : Prop :=
  match phase with
  | .fence _ _ => True
  | .await _ => True
  | _ => False

/-- The numbers in a phase are in range. -/
def Phase.InRange (cfg : Config) (phase : Phase) : Prop :=
  match phase with
  | .receive => True
  | .sendData target m => target < cfg.streams ∧ m.isData
  | .fence m j => j < cfg.streams ∧ m.isData = false
  | .await k => 0 < k

structure Inv (cfg : Config) (messages : List OutputMsg) (s : State) : Prop where
  taken : s.log.map Dispatched.message ++ s.input = messages
  /-- What has been dispatched for a stream is written, with its writer, in its queue or with the
  dispatcher, in this order. -/
  flow : ∀ i < cfg.streams,
    (s.lanes i).received ++ (s.lanes i).outstanding ++ s.phase.inHand i = forStream i s.log
  owed : s.completed + (owing cfg s).card = s.phase.asked
  /-- A stream that has the control message and owes no completion has nothing to do. -/
  drained : ∀ i < cfg.streams, s.phase.Sent i → (s.lanes i).owes = false →
    (s.lanes i).outstanding = []
  /-- A writer that owes a completion for what it has taken has an empty queue. -/
  alone : ∀ i < cfg.streams, (s.lanes i).holds = true → (s.lanes i).queue = none
  /-- Only those that have got the control message owe a completion. -/
  fresh : ∀ i < cfg.streams, (s.lanes i).owes = true → s.phase.Sent i
  /-- Every control message but the one that the dispatcher is busy with is with all streams. -/
  past : ∀ before d after, s.log = before ++ d :: after → d.target = none →
    (after = [] ∧ s.phase.Fencing) ∨
      ∀ i < cfg.streams, (forStream i (before ++ [d])).length ≤ (s.lanes i).received.length
  current : s.phase.Fencing → ∃ before d, s.log = before ++ [d] ∧ d.target = none
  inRange : s.phase.InRange cfg
  next : 0 < cfg.streams → s.next < cfg.streams
  /-- A control message is for all streams, a data message for one. -/
  kinds : 0 < cfg.streams → ∀ d ∈ s.log, d.target = none ↔ d.message.isData = false

section Inv

variable {cfg : Config} {messages : List OutputMsg} {s s' : State}

theorem mem_owing {i : ℕ} : i ∈ owing cfg s ↔ i < cfg.streams ∧ (s.lanes i).owes = true := by
  rw [owing, Finset.mem_filter, Finset.mem_range]

theorem Inv.initial (cfg : Config) (messages : List OutputMsg) :
    Inv cfg messages (initial messages) := by
  constructor
  · rfl
  · exact fun i _ => rfl
  · have hnone : owing cfg (OutputRouter.initial messages) = ∅ :=
      Finset.filter_false_of_mem fun i _ h => nomatch h
    rw [hnone]
    rfl
  · exact fun i _ h => absurd h id
  · exact fun i _ h => by cases h
  · exact fun i _ h => by cases h
  · intro before d after h
    exact absurd h.symm (by simp [OutputRouter.initial])
  · exact fun h => absurd h id
  · trivial
  · exact id
  · exact fun _ d hd => absurd hd not_mem_nil

theorem setLane_lanes (s : State) (i : ℕ) (lane : Lane) :
    (s.setLane i lane).lanes = update s.lanes i lane := rfl

@[simp] theorem setLane_self (s : State) (i : ℕ) (lane : Lane) :
    (s.setLane i lane).lanes i = lane := by
  rw [setLane_lanes, update_self]

theorem setLane_of_ne (s : State) {i j : ℕ} (lane : Lane) (h : j ≠ i) :
    (s.setLane i lane).lanes j = s.lanes j := by
  rw [setLane_lanes, update_of_ne h]

/-- What holds of the changed stream and of the others holds of all. -/
theorem setLane_cases {i j : ℕ} {lane : Lane} {P : Lane → Prop} (hself : j = i → P lane)
    (hother : j ≠ i → P (s.lanes j)) : P ((s.setLane i lane).lanes j) := by
  by_cases hj : j = i
  · subst hj
    exact (setLane_self s j lane).symm ▸ hself rfl
  · exact (setLane_of_ne s lane hj).symm ▸ hother hj

/-! ## The writers -/

theorem owing_setLane {i : ℕ} {lane : Lane} (hi : i < cfg.streams) : owing cfg (s.setLane i lane) =
    if lane.owes then insert i (owing cfg s) else (owing cfg s).erase i := by
  ext j
  rw [mem_owing]
  by_cases hj : j = i
  · subst hj
    split
    · next howes => simp [hi, howes]
    · next howes => simp [howes]
  · rw [setLane_of_ne s lane hj]
    split <;> simp [mem_owing, hj]

/-- What a step of a writer does to its stream. -/
structure LaneMove (s : State) (lane lane' : Lane) (completed' : ℕ) : Prop where
  flow : lane'.received ++ lane'.outstanding = lane.received ++ lane.outstanding
  grows : lane.received.length ≤ lane'.received.length
  owes : lane'.owes = true → lane.owes = true
  owed : completed' + (if lane'.owes then 1 else 0) = s.completed + if lane.owes then 1 else 0
  drained : lane'.owes = false → (lane.owes = false → lane.outstanding = []) →
    lane'.outstanding = []
  alone : lane'.holds = true → lane'.queue = none

/-- A split of a log that has grown by one entry. -/
theorem concat_eq_append_cons {log before after : List Dispatched} {d x : Dispatched}
    (h : log ++ [x] = before ++ d :: after) :
    (after = [] ∧ before = log ∧ d = x) ∨ ∃ rest, after = rest ++ [x] ∧
      log = before ++ d :: rest := by
  rcases eq_nil_or_concat after with rfl | ⟨rest, y, rfl⟩
  · obtain ⟨hlog, hx⟩ := append_inj' h rfl
    exact .inl ⟨rfl, hlog.symm, (cons.inj hx).1.symm⟩
  · rw [concat_eq_append, ← cons_append, ← append_assoc] at h
    obtain ⟨hlog, hx⟩ := append_inj' h rfl
    cases hx
    exact .inr ⟨rest, by rw [concat_eq_append], hlog⟩

theorem afterSend_spec {m : OutputMsg} {i : ℕ} (hi : i < cfg.streams) :
    (Phase.afterSend cfg m i).asked = i + 1 ∧ (Phase.afterSend cfg m i).Fencing ∧
      ∀ j < cfg.streams, ((Phase.afterSend cfg m i).Sent j ↔ j ≤ i) ∧
        (Phase.afterSend cfg m i).inHand j = if i < j then [m] else [] := by
  rw [Phase.afterSend]
  split
  · exact ⟨rfl, trivial, fun j _ => ⟨Nat.lt_succ_iff, rfl⟩⟩
  · next hlast =>
    refine ⟨?_, trivial, fun j hj => ⟨iff_of_true trivial ?_, ?_⟩⟩
    · change cfg.streams = i + 1
      omega
    · omega
    · rw [if_neg (by omega)]
      rfl

section

variable (h : Inv cfg messages s)
include h

variable {i : ℕ} {m : OutputMsg}

/-- A stream that has not got the control message owes nothing. -/
theorem Inv.owes_eq_false (hi : i < cfg.streams) (hsent : ¬ s.phase.Sent i) :
    (s.lanes i).owes = false :=
  Bool.eq_false_iff.mpr fun howes => hsent (h.fresh i hi howes)

theorem Inv.lane (hi : i < cfg.streams) {lane : Lane}
    (completed : ℕ) (hmove : LaneMove s (s.lanes i) lane completed) :
    Inv cfg messages { s.setLane i lane with completed := completed } := by
  constructor
  · exact h.taken
  · intro j hj
    refine setLane_cases (P := fun l => l.received ++ l.outstanding ++ s.phase.inHand j =
      forStream j s.log) ?_ fun _ => h.flow j hj
    rintro rfl
    rw [hmove.flow]
    exact h.flow j hj
  · change completed + (owing cfg (s.setLane i lane)).card = s.phase.asked
    rw [owing_setLane hi, ← h.owed]
    have hmem : i ∈ owing cfg s ↔ (s.lanes i).owes = true := by
      rw [mem_owing, and_iff_right hi]
    have howed := hmove.owed
    by_cases hold : (s.lanes i).owes = true
    · by_cases hnew : lane.owes = true
      · rw [if_pos hnew, Finset.insert_eq_of_mem (hmem.mpr hold)]
        rw [if_pos hnew, if_pos hold] at howed
        omega
      · rw [if_neg hnew, Finset.card_erase_of_mem (hmem.mpr hold)]
        rw [if_neg hnew, if_pos hold] at howed
        have := Finset.card_pos.mpr ⟨i, hmem.mpr hold⟩
        omega
    · have hnew : ¬ lane.owes = true := fun hn => hold (hmove.owes hn)
      rw [if_neg hnew, Finset.erase_eq_of_notMem fun hm => hold (hmem.mp hm)]
      rw [if_neg hnew, if_neg hold] at howed
      omega
  · intro j hj hsent
    refine setLane_cases (P := fun l => l.owes = false → l.outstanding = []) ?_
      fun _ => h.drained j hj hsent
    rintro rfl howes
    exact hmove.drained howes (h.drained j hj hsent)
  · intro j hj
    exact setLane_cases (P := fun l => l.holds = true → l.queue = none) (fun _ => hmove.alone)
      fun _ => h.alone j hj
  · intro j hj
    refine setLane_cases (P := fun l => l.owes = true → s.phase.Sent j) ?_ fun _ => h.fresh j hj
    rintro rfl howes
    exact h.fresh j hj (hmove.owes howes)
  · intro before d after hlog hd
    refine (h.past before d after hlog hd).imp_right fun hall j hj => ?_
    refine setLane_cases (P := fun l => _ ≤ l.received.length) ?_ fun _ => hall j hj
    rintro rfl
    exact (hall j hj).trans hmove.grows
  · exact h.current
  · exact h.inRange
  · exact h.next
  · exact h.kinds

theorem Inv.take (hi : i < cfg.streams)
    (hs : OutputRouter.take s i = some s') : Inv cfg messages s' := by
  rw [OutputRouter.take] at hs
  split at hs
  · next w hwriter hqueue =>
    cases hs
    refine h.lane hi s.completed ⟨?_, le_rfl, ?_, ?_, ?_, ?_⟩
    · simp [Lane.outstanding, hwriter, hqueue]
    · simp [Lane.owes, Lane.holds, hwriter, hqueue]
    · simp [Lane.owes, Lane.holds, hwriter, hqueue]
    · intro howes hdrained
      have hold : (s.lanes i).outstanding = [] :=
        hdrained (by simpa [Lane.owes, Lane.holds, hwriter, hqueue] using howes)
      simp [Lane.outstanding, hwriter, hqueue] at hold
    · exact fun _ => rfl
  · cases hs

theorem Inv.write (hi : i < cfg.streams)
    (hs : OutputRouter.write s i = some s') : Inv cfg messages s' := by
  rw [OutputRouter.write] at hs
  split at hs
  · next w hwriter =>
    cases hs
    have halone := h.alone i hi
    refine h.lane hi s.completed ⟨?_, ?_, ?_, ?_, ?_, ?_⟩
    · by_cases hw : w.fenced <;> simp [Lane.outstanding, hwriter, hw]
    · simp
    · by_cases hw : w.fenced <;> simp [Lane.owes, Lane.holds, hwriter, hw]
    · by_cases hw : w.fenced <;> simp [Lane.owes, Lane.holds, hwriter, hw]
    · intro howes hdrained
      by_cases hw : w.fenced
      · simp [Lane.owes, Lane.holds, hw] at howes
      · have hold : (s.lanes i).outstanding = [] :=
          hdrained (by simpa [Lane.owes, Lane.holds, hwriter, hw] using howes)
        simp [Lane.outstanding, hwriter] at hold
    · intro hholds
      by_cases hw : w.fenced
      · exact halone (by simp [Lane.holds, hwriter, hw])
      · simp [Lane.holds, hw] at hholds
  · cases hs

theorem Inv.signal (hi : i < cfg.streams)
    (hs : OutputRouter.signal s i = some s') : Inv cfg messages s' := by
  rw [OutputRouter.signal] at hs
  split at hs
  · next hwriter =>
    cases hs
    have hqueue : (s.lanes i).queue = none := h.alone i hi (by simp [Lane.holds, hwriter])
    refine h.lane hi _ ⟨?_, le_rfl, ?_, ?_, ?_, ?_⟩
    · simp [Lane.outstanding, hwriter]
    · simp [Lane.owes, Lane.holds, hwriter]
    · simp [Lane.owes, Lane.holds, hwriter, hqueue]
    · intro _ _
      simp [Lane.outstanding, hqueue]
    · exact fun _ => hqueue
  · cases hs

/-! ## The dispatcher -/

theorem Inv.target_lt (hstreams : cfg.streams ≠ 0) (e : Event) :
    cfg.target s.next e < cfg.streams := by
  rw [Config.target]
  split
  · next hgroups =>
    have hvalid := KeyGroup.valid_of_validate (cfg.accepted hgroups)
    exact (hvalid.assignedTask_spec (hvalid.keyGroup_lt cfg.hash e.key)).1
  · exact h.next (pos_of_ne_zero hstreams)

/-- All the control messages are with all the streams while the dispatcher waits for a message. -/
theorem Inv.past_of_idle (hidle : ¬ s.phase.Fencing)
    {before after : List Dispatched} {d : Dispatched} (hlog : s.log = before ++ d :: after)
    (hd : d.target = none) :
    ∀ i < cfg.streams, (forStream i (before ++ [d])).length ≤ (s.lanes i).received.length :=
  (h.past before d after hlog hd).resolve_left fun hcur => hidle hcur.2

theorem Inv.kinds_concat (hpos : 0 < cfg.streams) {x : Dispatched}
    (hx : x.target = none ↔ x.message.isData = false) :
    ∀ d ∈ s.log ++ [x], d.target = none ↔ d.message.isData = false := by
  intro d hd
  rcases mem_append.mp hd with hold | hnew
  · exact h.kinds hpos d hold
  · rwa [mem_singleton.mp hnew]

theorem Inv.receive (hs : OutputRouter.receive cfg s = some s') : Inv cfg messages s' := by
  rw [OutputRouter.receive] at hs
  split at hs
  · next m rest hphase hinput =>
    have hidle : ¬ s.phase.Fencing := by rw [hphase]; exact id
    have htaken : (s.log ++ [(⟨m, none⟩ : Dispatched)]).map Dispatched.message ++ rest =
        messages := by
      rw [← h.taken, hinput, map_append, append_assoc]
      rfl
    have howed := h.owed
    rw [hphase] at howed
    have hnone : ∀ i < cfg.streams, (s.lanes i).owes = false :=
      fun i hi => h.owes_eq_false hi (by rw [hphase]; exact id)
    have hflow : ∀ i < cfg.streams, (s.lanes i).received ++ (s.lanes i).outstanding =
        forStream i s.log := by
      intro i hi
      have := h.flow i hi
      rw [hphase] at this
      exact (append_nil _).symm.trans this
    split at hs
    · next hstreams =>
      cases hs
      refine ⟨htaken, fun i hi => ?_, ?_, fun i hi => ?_, h.alone, fun i hi => ?_, ?_, ?_, ?_,
        h.next, fun hpos => by omega⟩
      · omega
      · exact h.owed
      · omega
      · omega
      · exact fun _ _ _ _ _ => .inr fun i hi => by omega
      · exact fun hf => absurd hf hidle
      · exact h.inRange
    · next hstreams =>
      split at hs
      · next e =>
        cases hs
        refine ⟨?_, ?_, howed, fun i _ hsent => absurd hsent id, h.alone, ?_, ?_,
          fun hf => absurd hf id, ⟨h.target_lt hstreams e, rfl⟩, h.next, ?_⟩
        · rw [← htaken, map_append, map_append]
          rfl
        · intro i hi
          rw [forStream_append, ← hflow i hi]
          congr 1
          by_cases hi : cfg.target s.next e = i <;> simp [Phase.inHand, forStream, hi]
        · intro i hi howes
          rw [hnone i hi] at howes
          cases howes
        · intro before d after hlog hd
          rcases concat_eq_append_cons hlog with ⟨-, -, rfl⟩ | ⟨rest', -, hold⟩
          · cases hd
          · exact .inr (h.past_of_idle hidle hold hd)
        · exact fun hpos => h.kinds_concat hpos (by simp [OutputMsg.isData])
      · next hdata =>
        cases hs
        have hcontrol : m.isData = false := by
          cases m with
          | data e => exact absurd rfl (hdata e)
          | barrier | watermark | endOfPartition => rfl
        have hcompleted : s.completed = 0 := by
          have : s.completed + _ = 0 := howed
          omega
        refine ⟨htaken, ?_, ?_, fun i _ hsent => absurd hsent (not_lt_zero i), h.alone, ?_, ?_,
          fun _ => ⟨s.log, _, rfl, rfl⟩, ⟨pos_of_ne_zero hstreams, hcontrol⟩, h.next, ?_⟩
        · intro i hi
          rw [forStream_append, ← hflow i hi]
          simp [Phase.inHand, forStream]
        · rw [hcompleted] at howed
          exact howed
        · intro i hi howes
          rw [hnone i hi] at howes
          cases howes
        · intro before d after hlog hd
          rcases concat_eq_append_cons hlog with ⟨rfl, -, -⟩ | ⟨rest', -, hold⟩
          · exact .inl ⟨rfl, trivial⟩
          · exact .inr (h.past_of_idle hidle hold hd)
        · exact fun hpos => h.kinds_concat hpos (by simp [hcontrol])
  · cases hs

theorem Inv.sendData {target : ℕ}
    (hphase : s.phase = .sendData target m) (hqueue : (s.lanes target).queue = none) :
    Inv cfg messages { s.setLane target { s.lanes target with queue := some ⟨m, false⟩ } with
      phase := .receive, next := (s.next + 1) % cfg.streams } := by
  have hidle : ¬ s.phase.Fencing := by rw [hphase]; exact id
  have hnone : ∀ i < cfg.streams, (s.lanes i).owes = false :=
    fun i hi => h.owes_eq_false hi (by rw [hphase]; exact id)
  have hlane : ∀ i < cfg.streams,
      ((s.setLane target { s.lanes target with queue := some ⟨m, false⟩ }).lanes i).owes =
        false := by
    intro i hi
    refine setLane_cases (P := fun l => l.owes = false) ?_ fun _ => hnone i hi
    rintro rfl
    have := hnone i hi
    simpa [Lane.owes, Lane.holds, hqueue] using this
  have hempty : ∀ {t : State}, (∀ i < cfg.streams, (t.lanes i).owes = false) → owing cfg t = ∅ := by
    intro t ht
    refine Finset.eq_empty_of_forall_notMem fun i hmem => ?_
    obtain ⟨hi, howes⟩ := mem_owing.mp hmem
    rw [ht i hi] at howes
    cases howes
  have howed := h.owed
  rw [hphase, hempty hnone] at howed
  constructor
  · exact h.taken
  · intro i hi
    have hflow := h.flow i hi
    rw [hphase] at hflow
    refine setLane_cases (P := fun l => l.received ++ l.outstanding ++ [] = forStream i s.log) ?_ ?_
    · rintro rfl
      rw [← hflow]
      simp [Lane.outstanding, Phase.inHand, hqueue]
    · intro hne
      rw [← hflow]
      simp [Phase.inHand, Ne.symm hne]
  · change s.completed + (owing cfg (s.setLane target _)).card = 0
    rw [hempty hlane]
    exact howed
  · exact fun i _ hsent => absurd hsent id
  · intro i hi hholds
    have := hlane i hi
    rw [Lane.owes, or_eq_false_iff] at this
    exact absurd (this.1.symm.trans hholds) false_ne_true
  · intro i hi howes
    exact absurd ((hlane i hi).symm.trans howes) false_ne_true
  · intro before d after hlog hd
    refine .inr fun i hi => ?_
    refine setLane_cases (P := fun l => _ ≤ l.received.length) ?_
      fun _ => h.past_of_idle hidle hlog hd i hi
    rintro rfl
    exact h.past_of_idle hidle hlog hd i hi
  · exact fun hf => absurd hf id
  · trivial
  · exact fun hpos => mod_lt _ hpos
  · exact h.kinds

theorem Inv.sendFence (hphase : s.phase = .fence m i) (hqueue : (s.lanes i).queue = none) :
    Inv cfg messages { s.setLane i { s.lanes i with queue := some ⟨m, true⟩ } with
      phase := .afterSend cfg m i } := by
  have hrange := h.inRange
  rw [hphase] at hrange
  obtain ⟨hi, hm⟩ := hrange
  obtain ⟨hasked, hfencing, hafter⟩ := afterSend_spec (m := m) hi
  have hnot := h.owes_eq_false hi (by rw [hphase]; exact lt_irrefl i)
  have hholds : (s.lanes i).holds = false := (or_eq_false_iff.mp hnot).1
  have howes : ({ s.lanes i with queue := some ⟨m, true⟩ } : Lane).owes = true := by
    simp [Lane.owes]
  constructor
  · exact h.taken
  · intro j hj
    have hflow := h.flow j hj
    rw [hphase] at hflow
    rw [(hafter j hj).2]
    refine setLane_cases (P := fun l => l.received ++ l.outstanding ++ _ = forStream j s.log) ?_ ?_
    · rintro rfl
      rw [← hflow]
      simp [Lane.outstanding, Phase.inHand, hqueue]
    · intro hne
      have hiff : i < j ↔ i ≤ j := ⟨le_of_lt, fun hle => lt_of_le_of_ne hle (.symm hne)⟩
      rw [← hflow, Phase.inHand]
      simp [hiff]
  · have howed := h.owed
    rw [hphase] at howed
    change s.completed + (owing cfg (s.setLane i _)).card = (Phase.afterSend cfg m i).asked
    rw [owing_setLane hi, if_pos howes, Finset.card_insert_of_notMem, hasked, ← add_assoc]
    · exact congrArg (· + 1) howed
    · intro hmem
      exact absurd (hnot.symm.trans (mem_owing.mp hmem).2) false_ne_true
  · intro j hj hsent
    refine setLane_cases (P := fun l => l.owes = false → l.outstanding = []) ?_ ?_
    · rintro rfl hfalse
      exact absurd (hfalse.symm.trans howes) false_ne_true
    · intro hne
      refine h.drained j hj ?_
      rw [hphase]
      exact lt_of_le_of_ne ((hafter j hj).1.mp hsent) hne
  · intro j hj
    refine setLane_cases (P := fun l => l.holds = true → l.queue = none) ?_ fun _ => h.alone j hj
    rintro rfl hh
    exact absurd (hholds.symm.trans hh) false_ne_true
  · intro j hj
    refine setLane_cases (P := fun l => l.owes = true → _) ?_ ?_
    · rintro rfl -
      exact (hafter j hj).1.mpr le_rfl
    · intro _ ho
      have hsent := h.fresh j hj ho
      rw [hphase] at hsent
      exact (hafter j hj).1.mpr (le_of_lt hsent)
  · intro before d after hlog hd
    refine (h.past before d after hlog hd).imp (fun hcur => ⟨hcur.1, hfencing⟩) fun hall j hj => ?_
    refine setLane_cases (P := fun l => _ ≤ l.received.length) ?_ fun _ => hall j hj
    rintro rfl
    exact hall j hj
  · intro _
    exact h.current (by rw [hphase]; trivial)
  · change (Phase.afterSend cfg m i).InRange cfg
    rw [Phase.afterSend]
    split
    · next hlt => exact ⟨hlt, hm⟩
    · exact zero_lt_of_lt hi
  · exact h.next
  · exact h.kinds

theorem Inv.send (hs : OutputRouter.send cfg s = some s') : Inv cfg messages s' := by
  rw [OutputRouter.send] at hs
  split at hs
  · next target m hphase =>
    dsimp only at hs
    obtain ⟨hqueue, rfl⟩ := Option.ite_some_none_eq_some.mp hs
    exact h.sendData hphase hqueue
  · next m i hphase =>
    dsimp only at hs
    obtain ⟨hqueue, rfl⟩ := Option.ite_some_none_eq_some.mp hs
    exact h.sendFence hphase hqueue
  · cases hs

/-- A stream has got everything when nobody owes a completion for the control message. -/
theorem Inv.received_of_done {k : ℕ} (hphase : s.phase = .await k) (hnone : owing cfg s = ∅)
    (hi : i < cfg.streams) : (s.lanes i).received = forStream i s.log := by
  have howes : (s.lanes i).owes = false := by
    by_contra howes
    have hmem : i ∈ owing cfg s := mem_owing.mpr ⟨hi, by simpa using howes⟩
    rw [hnone] at hmem
    exact absurd hmem (Finset.notMem_empty i)
  have hflow := h.flow i hi
  rw [h.drained i hi (by rw [hphase]; trivial) howes, hphase] at hflow
  rw [← hflow]
  simp [Phase.inHand]

theorem Inv.await (hs : OutputRouter.await s = some s') : Inv cfg messages s' := by
  rw [OutputRouter.await] at hs
  split at hs
  · next k c hphase hcompleted =>
    cases hs
    have howed := h.owed
    rw [hphase, hcompleted] at howed
    have hcard : c + (owing cfg s).card = k := by
      have : c + 1 + (owing cfg s).card = k + 1 := howed
      omega
    by_cases hk : k = 0
    · have hnone : owing cfg s = ∅ := Finset.card_eq_zero.mp (by omega)
      simp only [if_pos hk]
      refine ⟨h.taken, ?_, ?_, fun i _ hsent => absurd hsent id, h.alone, ?_, ?_,
        fun hf => absurd hf id, trivial, h.next, h.kinds⟩
      · intro i hi
        have hflow := h.flow i hi
        rw [hphase] at hflow
        exact hflow
      · exact hcard.trans hk
      · intro i hi howes
        have hmem : i ∈ owing cfg s := mem_owing.mpr ⟨hi, howes⟩
        rw [hnone] at hmem
        exact absurd hmem (Finset.notMem_empty i)
      · intro before d after hlog hd
        refine .inr fun i hi => ?_
        rcases h.past before d after hlog hd with ⟨rfl, -⟩ | hall
        · rw [h.received_of_done hphase hnone hi]
          exact (congrArg (fun l => (forStream i l).length) hlog).ge
        · exact hall i hi
    · simp only [if_neg hk]
      refine ⟨h.taken, ?_, hcard, ?_, h.alone, fun _ _ _ => trivial, ?_, ?_,
        pos_of_ne_zero hk, h.next, h.kinds⟩
      · intro i hi
        have hflow := h.flow i hi
        rw [hphase] at hflow
        exact hflow
      · intro i hi _
        exact h.drained i hi (by rw [hphase]; trivial)
      · intro before d after hlog hd
        exact (h.past before d after hlog hd).imp_left fun hcur => ⟨hcur.1, trivial⟩
      · exact fun _ => h.current (by rw [hphase]; trivial)
  · cases hs

theorem Inv.step {a : Action} (hs : OutputRouter.step cfg s a = some s') : Inv cfg messages s' := by
  cases a with
  | receive => exact h.receive hs
  | send => exact h.send hs
  | await => exact h.await hs
  | take i =>
    rw [OutputRouter.step] at hs
    split at hs
    · next hi => exact h.take hi hs
    · cases hs
  | write i =>
    rw [OutputRouter.step] at hs
    split at hs
    · next hi => exact h.write hi hs
    · cases hs
  | signal i =>
    rw [OutputRouter.step] at hs
    split at hs
    · next hi => exact h.signal hi hs
    · cases hs

end

theorem inv_of_reachable (h : Reachable (step cfg) (initial messages) s) : Inv cfg messages s :=
  h.invariant (P := fun s => Inv cfg messages s) (.initial cfg messages)
    fun _ _ _ _ hinv _ hs => hinv.step hs

/-! ## Progress -/

/-- A stream whose writer has something to do can take a step. -/
theorem exists_lane_step {i : ℕ} (hi : i < cfg.streams)
    (hbusy : (s.lanes i).queue ≠ none ∨ (s.lanes i).writer ≠ .idle) :
    ∃ a s', step cfg s a = some s' := by
  cases hwriter : (s.lanes i).writer with
  | idle =>
    cases hqueue : (s.lanes i).queue with
    | none => exact absurd hbusy (by simp [hwriter, hqueue])
    | some w =>
      refine ⟨.take i, ?_⟩
      simp only [OutputRouter.step, if_pos hi, OutputRouter.take, hwriter, hqueue]
      exact ⟨_, rfl⟩
  | writing w =>
    refine ⟨.write i, ?_⟩
    simp only [OutputRouter.step, if_pos hi, OutputRouter.write, hwriter]
    exact ⟨_, rfl⟩
  | signalling =>
    refine ⟨.signal i, ?_⟩
    simp only [OutputRouter.step, if_pos hi, OutputRouter.signal, hwriter]
    exact ⟨_, rfl⟩

/-- The router has nothing left to do. -/
structure Finished (cfg : Config) (s : State) : Prop where
  input : s.input = []
  phase : s.phase = .receive
  lanes : ∀ i < cfg.streams, (s.lanes i).queue = none ∧ (s.lanes i).writer = .idle

/-- **The router does not get stuck.** -/
theorem Inv.progress (h : Inv cfg messages s) :
    Finished cfg s ∨ ∃ a s', OutputRouter.step cfg s a = some s' := by
  by_cases hbusy : ∃ i < cfg.streams, (s.lanes i).queue ≠ none ∨ (s.lanes i).writer ≠ .idle
  · obtain ⟨i, hi, hlane⟩ := hbusy
    exact .inr (exists_lane_step hi hlane)
  have hidle : ∀ i < cfg.streams, (s.lanes i).queue = none ∧ (s.lanes i).writer = .idle := by
    intro i hi
    by_contra hne
    exact hbusy ⟨i, hi, by tauto⟩
  have hrange := h.inRange
  cases hphase : s.phase with rw [hphase] at hrange
  | receive =>
    cases hinput : s.input with
    | nil => exact .inl ⟨hinput, hphase, hidle⟩
    | cons m rest =>
      refine .inr ⟨.receive, ?_⟩
      simp only [OutputRouter.step, OutputRouter.receive, hphase, hinput]
      split
      · exact ⟨_, rfl⟩
      · split <;> exact ⟨_, rfl⟩
  | sendData target m =>
    refine .inr ⟨.send, ?_⟩
    simp only [OutputRouter.step, OutputRouter.send, hphase]
    rw [if_pos (hidle target hrange.1).1]
    exact ⟨_, rfl⟩
  | fence m i =>
    refine .inr ⟨.send, ?_⟩
    simp only [OutputRouter.step, OutputRouter.send, hphase]
    rw [if_pos (hidle i hrange.1).1]
    exact ⟨_, rfl⟩
  | await k =>
    have hnone : owing cfg s = ∅ := by
      refine Finset.eq_empty_of_forall_notMem fun i hmem => ?_
      obtain ⟨hi, howes⟩ := mem_owing.mp hmem
      simp [Lane.owes, Lane.holds, hidle i hi] at howes
    have howed := h.owed
    rw [hphase, hnone] at howed
    have hcompleted : s.completed = k := howed
    obtain ⟨k, rfl⟩ := exists_eq_succ_of_ne_zero (pos_iff_ne_zero.mp hrange)
    refine .inr ⟨.await, ?_⟩
    simp only [OutputRouter.step, OutputRouter.await, hphase, hcompleted]
    exact ⟨_, rfl⟩

theorem Inv.finished (h : Inv cfg messages s) (hdone : Finished cfg s) :
    s.log.map Dispatched.message = messages ∧
      ∀ i < cfg.streams, (s.lanes i).received = forStream i s.log := by
  constructor
  · have := h.taken
    rwa [hdone.input, append_nil] at this
  · intro i hi
    have hflow := h.flow i hi
    obtain ⟨hqueue, hwriter⟩ := hdone.lanes i hi
    rw [← hflow, hdone.phase]
    simp [Phase.inHand, Lane.outstanding, hqueue, hwriter]

/-! ## Termination -/

/-- The steps that are left for the writer of a stream. -/
def Lane.work (lane : Lane) : ℕ :=
  (match lane.writer with
    | .idle => 0
    | .writing _ => 2
    | .signalling => 1) + if lane.queue.isSome then 3 else 0

/-- The steps that are left because of the message in the dispatcher's hands. -/
def Phase.work (cfg : Config) : Phase → ℕ
  | .receive => 0
  | .sendData _ _ => 4
  | .fence _ i => 4 * (cfg.streams - i) + cfg.streams
  | .await k => k

def OutputMsg.work (cfg : Config) (m : OutputMsg) : ℕ :=
  if m.isData then 5 else 5 * cfg.streams + 1

/-- A bound on the steps that are left. -/
def State.work (cfg : Config) (s : State) : ℕ :=
  (s.input.map (OutputMsg.work cfg)).sum + s.phase.work cfg +
    ∑ i ∈ Finset.range cfg.streams, (s.lanes i).work

theorem sum_setLane {i : ℕ} (hi : i < cfg.streams) (lane : Lane) :
    ∑ j ∈ Finset.range cfg.streams, ((s.setLane i lane).lanes j).work + (s.lanes i).work =
      ∑ j ∈ Finset.range cfg.streams, (s.lanes j).work + lane.work := by
  have hmem := Finset.mem_range.mpr hi
  rw [← Finset.add_sum_erase _ _ hmem, ← Finset.add_sum_erase _ _ hmem, setLane_self,
    Finset.sum_congr rfl fun j hj => by rw [setLane_of_ne s lane (Finset.ne_of_mem_erase hj)]]
  omega

theorem OutputMsg.work_pos (cfg : Config) (m : OutputMsg) : 0 < m.work cfg := by
  rw [OutputMsg.work]
  split <;> omega

theorem work_setLane {i : ℕ} (hi : i < cfg.streams) (lane : Lane) (phase : Phase)
    (completed next : ℕ) :
    State.work cfg { s.setLane i lane with phase := phase, completed := completed, next := next } +
        s.phase.work cfg + (s.lanes i).work =
      s.work cfg + phase.work cfg + lane.work := by
  have hsum := sum_setLane (s := s) hi lane
  simp only [State.work]
  change (s.input.map (OutputMsg.work cfg)).sum + phase.work cfg +
    ∑ j ∈ Finset.range cfg.streams, ((s.setLane i lane).lanes j).work + _ + _ = _
  omega

theorem Lane.work_enqueue {lane : Lane} {w : Work} (h : lane.queue = none) :
    ({ lane with queue := some w } : Lane).work = lane.work + 3 := by
  simp [Lane.work, h]

/-- A step of a writer is work done. -/
theorem work_lane {i : ℕ} (hi : i < cfg.streams) {lane : Lane} (completed : ℕ)
    (hlt : lane.work < (s.lanes i).work) :
    State.work cfg { s.setLane i lane with completed := completed } < s.work cfg := by
  have hwork := work_setLane (s := s) hi lane s.phase completed s.next
  have hsame : ({ s.setLane i lane with phase := s.phase, completed := completed, next := s.next } :
      State) = { s.setLane i lane with completed := completed } := rfl
  rw [hsame] at hwork
  omega

/-- So is a step of the dispatcher that fills a queue. -/
theorem work_send {i : ℕ} (hi : i < cfg.streams) (w : Work) (hqueue : (s.lanes i).queue = none)
    (phase : Phase) (next : ℕ) (hphase : phase.work cfg + 4 ≤ s.phase.work cfg) :
    State.work cfg { s.setLane i { s.lanes i with queue := some w } with
      phase := phase, next := next } < s.work cfg := by
  have hwork := work_setLane (s := s) hi { s.lanes i with queue := some w } phase s.completed next
  rw [Lane.work_enqueue hqueue] at hwork
  change State.work cfg { s.setLane i { s.lanes i with queue := some w } with
    phase := phase, completed := s.completed, next := next } < s.work cfg
  omega

theorem Inv.work_lt (h : Inv cfg messages s) {a : Action}
    (hs : OutputRouter.step cfg s a = some s') : s'.work cfg < s.work cfg := by
  have hrange := h.inRange
  cases a with
  | receive =>
    rw [OutputRouter.step, OutputRouter.receive] at hs
    split at hs
    · next m rest hphase hinput =>
      have hpos := m.work_pos cfg
      split at hs
      · cases hs
        simp only [State.work, hinput, map_cons, sum_cons]
        omega
      · split at hs
        · next e =>
          cases hs
          simp only [State.work, hphase, hinput, map_cons, sum_cons, Phase.work,
            OutputMsg.work, OutputMsg.isData, if_true]
          omega
        · next hdata =>
          cases hs
          have hcontrol : m.isData = false := by
            cases m with
            | data e => exact absurd rfl (hdata e)
            | barrier b => rfl
            | watermark ts => rfl
            | endOfPartition => rfl
          simp only [State.work, hphase, hinput, map_cons, sum_cons, Phase.work,
            OutputMsg.work, hcontrol, false_eq_true, if_false]
          omega
    · cases hs
  | send =>
    rw [OutputRouter.step, OutputRouter.send] at hs
    split at hs
    · next target m hphase =>
      rw [hphase] at hrange
      dsimp only at hs
      obtain ⟨hqueue, rfl⟩ := Option.ite_some_none_eq_some.mp hs
      refine work_send hrange.1 ⟨m, false⟩ hqueue .receive _ ?_
      rw [hphase]
      rfl
    · next m i hphase =>
      rw [hphase] at hrange
      dsimp only at hs
      obtain ⟨hqueue, rfl⟩ := Option.ite_some_none_eq_some.mp hs
      refine work_send hrange.1 ⟨m, true⟩ hqueue _ s.next ?_
      have hi := hrange.1
      rw [hphase, Phase.afterSend]
      split <;> simp only [Phase.work] <;> omega
    · cases hs
  | await =>
    rw [OutputRouter.step, OutputRouter.await] at hs
    split at hs
    · next k c hphase hcompleted =>
      cases hs
      have hphase' : (if k = 0 then Phase.receive else .await k).work cfg = k := by
        split
        · next hk => exact hk.symm
        · rfl
      simp only [State.work, hphase, hphase']
      simp only [Phase.work]
      omega
    · cases hs
  | take i =>
    rw [OutputRouter.step] at hs
    obtain ⟨hi, hs⟩ := Option.ite_none_right_eq_some.mp hs
    rw [OutputRouter.take] at hs
    split at hs
    · next w hwriter hqueue =>
      cases hs
      refine work_lane hi s.completed ?_
      simp [Lane.work, hwriter, hqueue]
    · cases hs
  | write i =>
    rw [OutputRouter.step] at hs
    obtain ⟨hi, hs⟩ := Option.ite_none_right_eq_some.mp hs
    rw [OutputRouter.write] at hs
    split at hs
    · next w hwriter =>
      cases hs
      refine work_lane hi s.completed ?_
      by_cases hw : w.fenced <;> simp [Lane.work, hwriter, hw]
    · cases hs
  | signal i =>
    rw [OutputRouter.step] at hs
    obtain ⟨hi, hs⟩ := Option.ite_none_right_eq_some.mp hs
    rw [OutputRouter.signal] at hs
    split at hs
    · next hwriter =>
      cases hs
      refine work_lane hi _ ?_
      simp [Lane.work, hwriter]
    · cases hs

end Inv

/-! ## Order -/

/-- What the streams have received, whatever the order in which the goroutines ran. -/
structure Ordered (cfg : Config) (messages : List OutputMsg) (s : State) : Prop where
  /-- The messages are dispatched in order, control messages to all streams. -/
  dispatched : s.log.map Dispatched.message <+: messages
  kinds : 0 < cfg.streams → ∀ d ∈ s.log, d.target = none ↔ d.message.isData = false
  received : ∀ i < cfg.streams, (s.lanes i).received <+: forStream i s.log
  /-- A stream that has received something dispatched after a control message: all have got it. -/
  fence : ∀ before d after, s.log = before ++ d :: after → d.message.isData = false →
    ∀ i < cfg.streams, (forStream i (before ++ [d])).length < (s.lanes i).received.length →
      ∀ j < cfg.streams, forStream j (before ++ [d]) <+: (s.lanes j).received
  /-- In the end every stream has received everything that was for it. -/
  complete : (Finished cfg s ∧ s.log.map Dispatched.message = messages ∧
      ∀ i < cfg.streams, (s.lanes i).received = forStream i s.log) ∨
    ∃ a s', step cfg s a = some s' ∧ s'.work cfg < s.work cfg

/-- **Control messages keep their place.**  For any number of streams, any messages and any order of
the steps of the dispatcher and the writers: every stream receives what is for it in the order of
dispatch, and nothing dispatched after a control message before all have received that one; and the
router goes on until every stream has received everything. -/
theorem ordered_of_reachable (cfg : Config) (messages : List OutputMsg) (s : State)
    (h : Reachable (step cfg) (initial messages) s) : Ordered cfg messages s := by
  have hinv := inv_of_reachable h
  have hreceived : ∀ i < cfg.streams, (s.lanes i).received <+: forStream i s.log := by
    intro i hi
    rw [← hinv.flow i hi, append_assoc]
    exact prefix_append _ _
  constructor
  · exact ⟨s.input, hinv.taken⟩
  · exact hinv.kinds
  · exact hreceived
  · intro before d after hlog hcontrol i hi hlt j hj
    have hpos : 0 < cfg.streams := zero_lt_of_lt hi
    have hmem : d ∈ s.log := hlog ▸ mem_append_right _ mem_cons_self
    have hd := (hinv.kinds hpos d hmem).mpr hcontrol
    rcases hinv.past before d after hlog hd with ⟨rfl, -⟩ | hall
    · -- nothing has been dispatched after the message that the dispatcher is busy with
      have hle := (hreceived i hi).length_le
      rw [hlog] at hle
      omega
    · refine prefix_of_prefix_length_le ?_ (hreceived j hj) (hall j hj)
      rw [hlog, append_cons before d after, forStream_append j (before ++ [d])]
      exact prefix_append _ _
  · rcases hinv.progress with hdone | ⟨a, s', hs⟩
    · exact .inl ⟨hdone, hinv.finished hdone⟩
    · exact .inr ⟨a, s', hs, hinv.work_lt hs⟩

/-- Two streams in turn, without key groups. -/
def sampleConfig : Config where
  streams := 2
  keyGroups := 0
  hash _ := 0
  accepted h := absurd rfl h

theorem ordered_of_reachable_sample :
    ∃ s, Reachable (step sampleConfig) (initial [.data {}, .watermark 7, .data {}]) s ∧
      s.input = [] ∧ (s.lanes 0).received = [.data {}, .watermark 7] ∧
        (s.lanes 1).received = [.watermark 7, .data {}] ∧
        Ordered sampleConfig [.data {}, .watermark 7, .data {}] s := by
  obtain ⟨s, hs, hinput, h₀, h₁⟩ := reachable_of_run (step sampleConfig)
    (initial [.data {}, .watermark 7, .data {}])
    [.receive, .send, .receive, .take 0, .send, .send, .take 1, .write 1, .signal 1, .write 0,
      .take 0, .write 0, .await, .signal 0, .await, .receive, .send, .take 1, .write 1]
    (p := fun s => s.input = [] ∧ (s.lanes 0).received = [.data {}, .watermark 7] ∧
      (s.lanes 1).received = [.watermark 7, .data {}]) (by decide)
  exact ⟨s, hs, hinput, h₀, h₁, ordered_of_reachable _ _ _ hs⟩

end Wire.Engine.OutputRouter
