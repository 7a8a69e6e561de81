import Mathlib.Data.List.Infix
import Mathlib.Logic.Function.Basic
import Mathlib.Order.Basic

/-!
# Reading a data stream

`FrameStream.readMessage` of `internal/transport/stream.go` reads frames until it has a message to
return.  It passes over corrupt, undecodable and unknown frames and counts the first two, drops
barriers of completed checkpoints and watermarks that go back, and closes the stream at the end
of the partition, on a message that does not belong there and after too many errors in a row.

A history has every frame that was read with what came of it, newest first.  `Decided` says of one
entry that it is right, given the older ones: what is delivered and why the rest is not.
`reads_well_ordered` is that all entries of any number of calls are.
-/

namespace Wire.Transport

open List

inductive Message where
  | dataRecord
  | checkpointBarrier (checkpointID : ℕ)
  | watermark (sourceID : String) (timestamp : ℤ)
  | endOfPartition (reason : ℕ)
  /-- Stream headers, handshakes, backpressure and session drains. -/
  | other
  deriving DecidableEq, Repr

def endReasonError : ℕ := 2

def maxConsecutiveErrors : ℕ := 10

/-- What `readFrame` and `DecodePayload` make of the next bytes. -/
inductive Incoming where
  | corrupt
  | broken (eof : Bool)
  | unknown
  | undecodable
  | message (m : Message)
  deriving DecidableEq, Repr

/-- A frame, and the newest checkpoint that is known to be completed when it is looked at. -/
structure Arrival where
  frame : Incoming
  completed : ℕ := 0
  deriving DecidableEq, Repr

inductive Outcome where
  | again
  | failed
  | delivered (m : Message)
  deriving DecidableEq, Repr

/-- What stays fixed: `header` is set on data streams, and `closeOnEOF` is the argument of
`readMessage`. -/
structure StreamConfig where
  header : Bool
  sender : Bool
  closeOnEOF : Bool

structure FrameStream where
  consecutiveCRCErrors : ℕ := 0
  consecutiveDecErrors : ℕ := 0
  lastWatermarks : String → Option ℤ := fun _ => none
  ended : Bool := false
  closed : Bool := false

/-- The messages that belong on the stream. -/
def StreamConfig.valid (cfg : StreamConfig) : Message → Bool
  | .endOfPartition reason => !cfg.header || !cfg.sender || reason = endReasonError
  | .other => !cfg.header
  | _ => !cfg.header || !cfg.sender

def Arrival.isCheckpointCompleted (a : Arrival) (checkpointID : ℕ) : Prop :=
  checkpointID ≠ 0 ∧ checkpointID ≤ a.completed

instance (a : Arrival) (checkpointID : ℕ) : Decidable (a.isCheckpointCompleted checkpointID) :=
  inferInstanceAs (Decidable (_ ∧ _))

/-- What `readMessage` does with a message that belongs on the stream. -/
def FrameStream.accept (fs : FrameStream) (a : Arrival) (m : Message) : FrameStream × Outcome :=
  if fs.ended then (fs, .failed)
  else match m with
    | .checkpointBarrier id =>
      if a.isCheckpointCompleted id then (fs, .again) else (fs, .delivered m)
    | .watermark source timestamp =>
      if (fs.lastWatermarks source).any (timestamp < ·) then (fs, .again)
      else ({ fs with lastWatermarks :=
        Function.update fs.lastWatermarks source (some timestamp) }, .delivered m)
    | .endOfPartition _ => ({ fs with ended := true, closed := true }, .delivered m)
    | _ => (fs, .delivered m)

variable (cfg : StreamConfig)

/-- The loop of `readMessage` for one frame. -/
def FrameStream.next (fs : FrameStream) (a : Arrival) : FrameStream × Outcome :=
  match a.frame with
  | .corrupt =>
    let errors := fs.consecutiveCRCErrors + 1
    ({ fs with consecutiveCRCErrors := errors, consecutiveDecErrors := 0,
               closed := decide (maxConsecutiveErrors ≤ errors) },
      if maxConsecutiveErrors ≤ errors then .failed else .again)
  | .broken eof => ({ fs with closed := cfg.closeOnEOF || !eof }, .failed)
  | .unknown => ({ fs with consecutiveCRCErrors := 0, consecutiveDecErrors := 0 }, .again)
  | .undecodable =>
    let errors := fs.consecutiveDecErrors + 1
    ({ fs with consecutiveCRCErrors := 0, consecutiveDecErrors := errors,
               closed := decide (maxConsecutiveErrors ≤ errors) },
      if maxConsecutiveErrors ≤ errors then .failed else .again)
  | .message m =>
    if cfg.valid m = false then ({ fs with consecutiveCRCErrors := 0, closed := true }, .failed)
    else { fs with consecutiveCRCErrors := 0, consecutiveDecErrors := 0 }.accept a m

abbrev Entry := Arrival × Outcome

/-- Calls of `readMessage`, one after the other.  A call checks first whether the stream is closed
or has ended, and then loops until a frame makes it return. -/
def FrameStream.reads (fs : FrameStream) (history : List Entry) (looping : Bool) :
    List Arrival → FrameStream × List Entry × List Arrival
  | [] => (fs, history, [])
  | a :: rest =>
    if !looping && (fs.closed || fs.ended) then (fs, history, a :: rest)
    else
      let (fs, outcome) := fs.next cfg a
      fs.reads ((a, outcome) :: history) (outcome = .again) rest

/-! ## What a reader may rely on -/

/-- The watermarks of a source that were delivered, newest first. -/
def marks (source : String) (history : List Entry) : List ℤ :=
  history.filterMap fun x => match x.2 with
    | .delivered (.watermark s timestamp) => if s = source then some timestamp else none
    | _ => none

/-- The newest entry is the end of the partition. -/
def Outcome.ends : Outcome → Bool
  | .delivered (.endOfPartition _) => true
  | _ => false

/-- How many frames of one kind came last, in a row.  Finding no frame is not a frame. -/
def streak (frame : Incoming) (history : List Entry) : ℕ :=
  ((history.filter (·.1.frame ≠ .broken true)).takeWhile (·.1.frame = frame)).length

/-- The newest entry closes the stream. -/
def closes : List Entry → Bool
  | [] => false
  | x :: older =>
    match x.1.frame with
    | .broken eof => cfg.closeOnEOF || !eof
    | .message m => !cfg.valid m || x.2.ends
    | frame => frame ≠ .unknown ∧ maxConsecutiveErrors ≤ streak frame (x :: older)

/-- Why a message is left out: it is a barrier of a completed checkpoint, or a watermark behind
the one delivered last for its source. -/
def Stale (a : Arrival) (older : List Entry) : Message → Prop
  | .checkpointBarrier id => a.isCheckpointCompleted id
  | .watermark source timestamp => ∃ last ∈ (marks source older).head?, timestamp < last
  | _ => False

/-- What came of a frame is right, given what came of the older ones.  Only a message of the frame
itself is delivered, one that belongs there and is not stale, with no watermark of its source
above it and no end of the partition before it; only what is not delivered is left out. -/
structure Decided (x : Entry) (older : List Entry) : Prop where
  stillOpen : closes cfg older = false
  noEnd : ∀ y ∈ older, y.2.ends = false
  delivered : ∀ m, x.2 = .delivered m ↔
    x.1.frame = .message m ∧ cfg.valid m = true ∧ ¬ Stale x.1 older m
  ordered : ∀ source timestamp, x.2 = .delivered (.watermark source timestamp) →
    ∀ earlier ∈ marks source older, earlier ≤ timestamp

/-! ## The invariant -/

section Invariant

variable {cfg} {fs : FrameStream} {history : List Entry}

/-- What an open stream remembers. -/
structure Live (fs : FrameStream) (history : List Entry) : Prop where
  crc : fs.consecutiveCRCErrors = streak .corrupt history
  dec : fs.consecutiveDecErrors = streak .undecodable history
  last : ∀ source, fs.lastWatermarks source = (marks source history).head?
  sorted : ∀ source, (marks source history).Pairwise (· ≥ ·)
  ended : fs.ended = false
  noEnd : ∀ y ∈ history, y.2.ends = false

structure Inv (cfg : StreamConfig) (fs : FrameStream) (history : List Entry) : Prop where
  closed : fs.closed = closes cfg history
  live : fs.closed = false → Live fs history
  decided : ∀ x older, x :: older <:+ history → Decided cfg x older

@[simp] theorem streak_cons (frame : Incoming) (x : Entry) (history : List Entry) :
    streak frame (x :: history) =
      if x.1.frame = .broken true then streak frame history
      else if x.1.frame = frame then streak frame history + 1 else 0 := by
  rw [streak, filter_cons]
  split_ifs <;> simp_all [streak]

theorem marks_cons_of_passed {x : Entry} (hx : ∀ m, x.2 ≠ .delivered m) (source : String)
    (history : List Entry) : marks source (x :: history) = marks source history := by
  rw [marks, filterMap_cons_none]
  · rfl
  · obtain ⟨a, outcome⟩ := x
    cases outcome with
    | delivered m => exact absurd rfl (hx m)
    | again | failed => rfl

theorem ends_of_passed {x : Entry} (hx : ∀ m, x.2 ≠ .delivered m) : x.2.ends = false := by
  obtain ⟨a, outcome⟩ := x
  cases outcome with
  | delivered m => exact absurd rfl (hx m)
  | again | failed => rfl

/-- A frame that is not delivered, and is no message unless a stale one. -/
theorem Live.passed (h : Live fs history) (hclosed : closes cfg history = false) {x : Entry}
    (hx : ∀ m, x.2 ≠ .delivered m)
    (hstale : ∀ m, x.1.frame = .message m → cfg.valid m = true → Stale x.1 history m) :
    Decided cfg x history where
  stillOpen := hclosed
  noEnd := h.noEnd
  delivered m := ⟨fun hm => absurd hm (hx m), fun ⟨hm, hvalid, hfresh⟩ =>
    absurd (hstale m hm hvalid) hfresh⟩
  ordered _ _ hm := absurd hm (hx _)

theorem Live.pass (h : Live fs history) {x : Entry} (hx : ∀ m, x.2 ≠ .delivered m) {crc dec : ℕ}
    {closed : Bool} (hcrc : crc = streak .corrupt (x :: history))
    (hdec : dec = streak .undecodable (x :: history)) :
    Live { fs with consecutiveCRCErrors := crc, consecutiveDecErrors := dec, closed := closed }
      (x :: history) where
  crc := hcrc
  dec := hdec
  last source := by rw [marks_cons_of_passed hx, h.last]
  sorted source := by rw [marks_cons_of_passed hx]; exact h.sorted source
  ended := h.ended
  noEnd := forall_mem_cons.2 ⟨ends_of_passed hx, h.noEnd⟩

/-- A message that is delivered. -/
theorem Live.deliver (h : Live fs history) (hclosed : closes cfg history = false) {a : Arrival}
    {m : Message} (hm : a.frame = .message m) (hvalid : cfg.valid m = true)
    (hfresh : ¬ Stale a history m) : Decided cfg (a, .delivered m) history where
  stillOpen := hclosed
  noEnd := h.noEnd
  delivered m' := by
    rw [hm]
    constructor
    · rintro ⟨⟩
      exact ⟨rfl, hvalid, hfresh⟩
    · rintro ⟨⟨⟩, -, -⟩
      rfl
  ordered source timestamp hout earlier hearlier := by
    obtain ⟨rfl⟩ : m = .watermark source timestamp := Outcome.delivered.inj hout
    -- the newest watermark is the highest one, and the message is not below it
    cases hmarks : marks source history with
    | nil =>
      rw [hmarks] at hearlier
      cases hearlier
    | cons last rest =>
      have hlast : last ≤ timestamp := by
        by_contra hlt
        exact hfresh ⟨last, by rw [hmarks]; rfl, Int.not_le.1 hlt⟩
      have hsorted := h.sorted source
      rw [hmarks] at hearlier hsorted
      rcases mem_cons.1 hearlier with rfl | hrest
      · exact hlast
      · exact Int.le_trans (rel_of_pairwise_cons hsorted hrest) hlast

/-- What a stream remembers once a message was delivered. -/
theorem Live.after (h : Live fs history) {a : Arrival} {m : Message}
    (hm : a.frame = .message m) (hends : Outcome.ends (.delivered m) = false)
    {lastWatermarks : String → Option ℤ}
    (hlast : ∀ source, lastWatermarks source =
      (marks source ((a, .delivered m) :: history)).head?)
    (hsorted : ∀ source, (marks source ((a, .delivered m) :: history)).Pairwise (· ≥ ·)) :
    Live { fs with consecutiveCRCErrors := 0, consecutiveDecErrors := 0, lastWatermarks }
      ((a, .delivered m) :: history) where
  crc := by simp [hm]
  dec := by simp [hm]
  last := hlast
  sorted := hsorted
  ended := h.ended
  noEnd := forall_mem_cons.2 ⟨hends, h.noEnd⟩

/-- What an open stream does with a message that belongs there. -/
theorem Live.accept (h : Live fs history) (hclosed : closes cfg history = false)
    (hopen : fs.closed = false) {a : Arrival} {m : Message} (hm : a.frame = .message m)
    (hvalid : cfg.valid m = true) {fs' : FrameStream} {outcome : Outcome}
    (hnext : { fs with consecutiveCRCErrors := 0, consecutiveDecErrors := 0 }.accept a m =
      (fs', outcome)) :
    Decided cfg (a, outcome) history ∧ fs'.closed = outcome.ends ∧
      (fs'.closed = false → Live fs' ((a, outcome) :: history)) := by
  have hdecided : ¬ Stale a history m → Decided cfg (a, .delivered m) history :=
    h.deliver hclosed hm hvalid
  have hstale : Stale a history m → Decided cfg (a, .again) history ∧
      Live { fs with consecutiveCRCErrors := 0, consecutiveDecErrors := 0 }
        ((a, .again) :: history) := by
    refine fun hm' => ⟨h.passed hclosed (by simp) fun m' hm'' _ => ?_, h.pass (by simp) ?_ ?_⟩
    · rw [hm] at hm''
      cases hm''
      exact hm'
    · simp [hm]
    · simp [hm]
  unfold FrameStream.accept at hnext
  rw [if_neg (by simp [h.ended])] at hnext
  cases m with
  | dataRecord | other =>
    cases hnext
    exact ⟨hdecided id, hopen, fun _ => h.after hm rfl h.last h.sorted⟩
  | endOfPartition reason =>
    cases hnext
    exact ⟨hdecided id, rfl, nofun⟩
  | checkpointBarrier id =>
    dsimp only at hnext
    split at hnext
    · next hcompleted =>
      cases hnext
      exact ⟨(hstale hcompleted).1, hopen, fun _ => (hstale hcompleted).2⟩
    · next hpending =>
      cases hnext
      exact ⟨hdecided hpending, hopen, fun _ => h.after hm rfl h.last h.sorted⟩
  | watermark source timestamp =>
    dsimp only at hnext
    rw [h.last] at hnext
    split at hnext
    · next hback =>
      cases hnext
      have hback : Stale a history (.watermark source timestamp) := by
        simpa [Stale, Option.any_eq_true] using hback
      exact ⟨(hstale hback).1, hopen, fun _ => (hstale hback).2⟩
    · next hfresh =>
      cases hnext
      have hd := hdecided (by simpa [Stale, Option.any_eq_true] using hfresh)
      refine ⟨hd, hopen, fun _ => h.after hm rfl (fun s => ?_) fun s => ?_⟩
      · rcases eq_or_ne s source with rfl | hne
        · simp [marks]
        · simp [marks, hne, hne.symm, h.last s]
      · rcases eq_or_ne s source with rfl | hne
        · have hsorted := pairwise_cons.2 ⟨hd.ordered s timestamp rfl, h.sorted s⟩
          simpa [marks] using hsorted
        · simpa [marks, hne.symm] using h.sorted s

theorem Live.next (h : Live fs history) (hclosed : closes cfg history = false)
    (hopen : fs.closed = false) (a : Arrival) :
    Decided cfg (a, (fs.next cfg a).2) history ∧
    (fs.next cfg a).1.closed = closes cfg ((a, (fs.next cfg a).2) :: history) ∧
    ((fs.next cfg a).1.closed = false →
      Live (fs.next cfg a).1 ((a, (fs.next cfg a).2) :: history)) := by
  obtain ⟨frame, completed⟩ := a
  cases frame with
  | corrupt =>
    have hpass : ∀ m, (fs.next cfg ⟨.corrupt, completed⟩).2 ≠ .delivered m := by
      intro m
      rw [FrameStream.next]
      dsimp only
      split <;> simp
    refine ⟨h.passed hclosed hpass (by simp), ?_, fun _ => h.pass hpass ?_ ?_⟩
    · simp [FrameStream.next, closes, h.crc]
    · simp [h.crc]
    · simp
  | undecodable =>
    have hpass : ∀ m, (fs.next cfg ⟨.undecodable, completed⟩).2 ≠ .delivered m := by
      intro m
      rw [FrameStream.next]
      dsimp only
      split <;> simp
    refine ⟨h.passed hclosed hpass (by simp), ?_, fun _ => h.pass hpass ?_ ?_⟩
    · simp [FrameStream.next, closes, h.dec]
    · simp
    · simp [h.dec]
  | broken eof =>
    refine ⟨h.passed hclosed (by simp [FrameStream.next]) (by simp), rfl, fun hlive => ?_⟩
    obtain rfl : eof = true := by simpa using (Bool.or_eq_false_iff.1 hlive).2
    exact h.pass (by simp [FrameStream.next]) (by simp [h.crc]) (by simp [h.dec])
  | unknown =>
    refine ⟨h.passed hclosed (by simp [FrameStream.next]) (by simp), ?_, fun _ => ?_⟩
    · simpa [FrameStream.next, closes] using hopen
    · exact h.pass (by simp [FrameStream.next]) (by simp) (by simp)
  | message m =>
    by_cases hvalid : cfg.valid m = true
    · have hnext : fs.next cfg ⟨.message m, completed⟩ =
          { fs with consecutiveCRCErrors := 0, consecutiveDecErrors := 0 }.accept
            ⟨.message m, completed⟩ m := by
        simp [FrameStream.next, hvalid]
      rw [hnext]
      obtain ⟨hdecided, hends, hlive⟩ := h.accept (a := ⟨.message m, completed⟩) hclosed hopen rfl
        hvalid (Prod.eta _).symm
      exact ⟨hdecided, by simpa [closes, hvalid] using hends, hlive⟩
    · have hnext : fs.next cfg ⟨.message m, completed⟩ =
          ({ fs with consecutiveCRCErrors := 0, closed := true }, .failed) := by
        simp [FrameStream.next, hvalid]
      rw [hnext]
      refine ⟨h.passed hclosed (by simp) ?_, ?_, nofun⟩
      · rintro m ⟨⟩ hm
        exact absurd hm hvalid
      · simp [closes, hvalid]

/-! ## Whole runs -/

theorem inv_initial : Inv cfg {} [] where
  closed := rfl
  live _ := ⟨rfl, rfl, fun _ => rfl, fun _ => .nil, rfl, nofun⟩
  decided _ _ h := absurd (suffix_nil.1 h) (cons_ne_nil _ _)

theorem Inv.next (h : Inv cfg fs history) (hopen : fs.closed = false) (a : Arrival) :
    Inv cfg (fs.next cfg a).1 ((a, (fs.next cfg a).2) :: history) := by
  obtain ⟨hdecided, hclosed, hlive⟩ := (h.live hopen).next (h.closed.symm.trans hopen) hopen a
  refine ⟨hclosed, hlive, fun x older hsuffix => ?_⟩
  rcases suffix_cons_iff.1 hsuffix with heq | hold
  · cases heq
    exact hdecided
  · exact h.decided x older hold

/-- A call goes on only if the stream is open. -/
theorem closed_of_again {a : Arrival} (h : (fs.next cfg a).2 = .again) (hopen : fs.closed = false) :
    (fs.next cfg a).1.closed = false := by
  revert h
  unfold FrameStream.next FrameStream.accept
  repeat' split
  all_goals simp_all

theorem Inv.reads (h : Inv cfg fs history) (looping : Bool)
    (hopen : looping = true → fs.closed = false) (arrivals : List Arrival) :
    ∃ fs' read rest, fs.reads cfg history looping arrivals = (fs', read ++ history, rest) ∧
      Inv cfg fs' (read ++ history) ∧ arrivals = (read.map Prod.fst).reverse ++ rest ∧
      (rest ≠ [] → fs'.closed = true) := by
  induction arrivals generalizing fs history looping with
  | nil => exact ⟨fs, [], [], rfl, h, rfl, absurd rfl⟩
  | cons a arrivals ih =>
    rw [FrameStream.reads]
    split
    · next hstop =>
      refine ⟨fs, [], a :: arrivals, rfl, h, rfl, fun _ => ?_⟩
      by_contra hclosed
      rw [Bool.not_eq_true] at hclosed
      simp [hclosed, (h.live hclosed).ended] at hstop
    · next hgo =>
      have hlive : fs.closed = false := by
        cases looping with
        | true => exact hopen rfl
        | false => exact (Bool.or_eq_false_iff.1 (by simpa using hgo)).1
      obtain ⟨fs', read, rest, heq, hinv, hsplit, hrest⟩ :=
        ih (h.next hlive a) ((fs.next cfg a).2 = .again)
          (fun hagain => closed_of_again (of_decide_eq_true hagain) hlive)
      refine ⟨fs', read ++ [(a, (fs.next cfg a).2)], rest, ?_, ?_, ?_, hrest⟩
      · simpa using heq
      · simpa using hinv
      · simp [hsplit]

end Invariant

/-- **Delivered messages are well-ordered.**  Of any frames, the calls read those up to the first
one that closes the stream; what came of each of them is right, given the older ones.  In
particular a message that belongs there is not delivered only if it is stale or comes after the
stream was closed: by the end of the partition, a message that does not belong there, a failed
read, or ten corrupt or ten undecodable frames in a row. -/
theorem reads_well_ordered (arrivals : List Arrival) :
    ∃ fs history rest, FrameStream.reads cfg {} [] false arrivals = (fs, history, rest) ∧
      arrivals = (history.map Prod.fst).reverse ++ rest ∧
      (∀ x older, x :: older <:+ history → Decided cfg x older) ∧
      fs.closed = closes cfg history ∧ (rest ≠ [] → fs.closed = true) := by
  obtain ⟨fs, history, rest, heq, hinv, hsplit, hrest⟩ :=
    (inv_initial : Inv cfg {} []).reads false nofun arrivals
  rw [append_nil] at heq hinv
  exact ⟨fs, history, rest, heq, hsplit, hinv.decided, hinv.closed, hrest⟩

/-- Ten corrupt frames close the stream, and the record after them is not read. -/
theorem record_unread :
    (FrameStream.reads ⟨true, false, true⟩ {} [] false
      (replicate 10 ⟨.corrupt, 0⟩ ++ [⟨.message .dataRecord, 0⟩])).2 =
      (replicate 1 (⟨.corrupt, 0⟩, .failed) ++ replicate 9 (⟨.corrupt, 0⟩, .again),
        [⟨.message .dataRecord, 0⟩]) := by
  decide

end Wire.Transport
