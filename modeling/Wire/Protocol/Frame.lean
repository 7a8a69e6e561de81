import Wire.Library.BigEndian
import Wire.Library.ByteStream
import Wire.Library.Slices

/-!
# Data frames

`internal/protocol/frame.go` puts a message on the wire as four bytes of length, one byte of
message type, four bytes of CRC32C and the payload.  The length counts everything after it, so a
reader that finds a wrong checksum has already passed the whole frame and is at the next one.
The checksum `computeCRC32C` is a parameter `crc` here, any function of the type and the payload.

The body of a frame is read into an array of `framePool`, or a new one, which goes back into the
pool before `ReadFrame` returns.  So what a frame keeps has to be a copy.  A frame has slices here,
and what was read is looked at when all calls have returned: `Buffers.Keeps` says that no call
writes to an array that an earlier frame has.

`frames_exact` has the three parts of this: what is written, by `WriteFrameRaw` or by
`EncodeAndWriteFrameLimit`, is what is read, then the end of the stream; a frame whose body was
altered is reported and costs no other frame; and `EncodeAndWriteFrameLimit` hands the writer
nothing for a message above its limit.
-/

namespace Wire.Protocol

open ByteStream List BigEndian Nat Slices

def minFrameLength : ℕ := 5

def headerSize : ℕ := 9

inductive FrameError where
  | stream (err : StreamError)
  | frameTooSmall
  | frameTooLarge
  | crcMismatch
  | encodePayload
  deriving DecidableEq, Repr

/-- `Frame`, with slices or with the bytes that are in them. -/
structure Frame (β : Type) [Inhabited β] where
  length : ℕ := 0
  receivedCRC : ℕ := 0
  computedCRC : ℕ := 0
  corruptPrefix : β := default
  msgType : UInt8 := 0
  payload : β := default
  deriving DecidableEq

variable (crc : UInt8 → List UInt8 → UInt32)

/-! ## Reading -/

/-- The arrays of the process, and which of them are in `framePool`. -/
structure Buffers where
  memory : Memory UInt8
  pool : List ℕ

namespace Buffers

variable (b : Buffers)

/-- `framePool.Get`, which may also make a new array. -/
def take (pick : ℕ) : Buffers × ℕ :=
  match b.pool[pick]? with
  | some a => ({ b with pool := b.pool.eraseIdx pick }, a)
  | none => ({ b with memory := (b.memory.make [] (replicate 4096 0)).1 }, b.memory.fresh)

/-- A new array with these bytes. -/
def copy (data : List UInt8) : Buffers × Slice :=
  ({ b with memory := (b.memory.make data []).1 }, (b.memory.make data []).2)

/-- A buffer of the length, in a new array if this one is too small. -/
def grow (a frameLen : ℕ) : Buffers × Slice :=
  if (b.memory.arrays a).length < frameLen then b.copy (replicate frameLen 0)
  else (b, ⟨a, frameLen⟩)

/-- What was read is in the array. -/
def fill (a : ℕ) (data : List UInt8) : Buffers :=
  { b with memory := b.memory.fill ⟨a, data.length⟩ data }

/-- `framePool.Put`, unless the array is large. -/
def put (a : ℕ) : Buffers :=
  if (b.memory.arrays a).length ≤ 1024 * 1024 then { b with pool := a :: b.pool } else b

end Buffers

/-- What `ReadFrame` finds in a body. -/
def verify (buf : List UInt8) : Frame (List UInt8) × Option FrameError :=
  let msgType := buf.headD 0
  let crcReceived := decode ((buf.drop 1).take 4)
  let crcComputed := (crc msgType (buf.drop 5)).toNat
  if crcReceived ≠ crcComputed then
    ({ length := buf.length, msgType, receivedCRC := crcReceived, computedCRC := crcComputed,
       corruptPrefix := buf.take 64 }, some .crcMismatch)
  else ({ length := buf.length, msgType, payload := buf.drop 5 }, none)

/-- `ReadFrame` once the body is in the buffer. -/
def finish (b : Buffers) (buf : Slice) : (Frame Slice × Option FrameError) × Buffers :=
  let (frame, err) := verify crc (b.memory.read buf)
  let (b, corruptPrefix) := b.copy frame.corruptPrefix
  let (b, payload) := b.copy frame.payload
  (({ frame with corruptPrefix, payload }, err), b.put buf.array)

def readFrame (maxFrameSize : UInt32) (pick : ℕ) (b : Buffers) (r : List UInt8) :
    (Frame Slice × Option FrameError) × Buffers × List UInt8 :=
  match readFull 4 r with
  | (.error err, r) => (({}, some (.stream err)), b, r)
  | (.ok lenBuf, r) =>
    let frameLen := decode lenBuf
    if frameLen < minFrameLength then (({ length := frameLen }, some .frameTooSmall), b, r)
    else if maxFrameSize.toNat < frameLen then
      (({ length := frameLen }, some .frameTooLarge), b, r)
    else
      let (b, a) := b.take pick
      let (b, buf) := b.grow a frameLen
      match readFull frameLen r with
      | (.error err, rest) => (({}, some (.stream err)), (b.fill buf.array r).put buf.array, rest)
      | (.ok data, rest) =>
        let (result, b) := finish crc (b.fill buf.array data) buf
        (result, b, rest)

/-- The calls of `readFrame`, with the arrays that the pool gives them. -/
def reads (maxFrameSize : UInt32) :
    List ℕ → Buffers → List UInt8 → List (Frame Slice × Option FrameError) × Buffers
  | [], b, _ => ([], b)
  | pick :: picks, b, r =>
    let (result, b, r) := readFrame crc maxFrameSize pick b r
    let (results, b) := reads maxFrameSize picks b r
    (result :: results, b)

/-- What is in the slices of a frame. -/
def Frame.bytes (memory : Memory UInt8) (f : Frame Slice) : Frame (List UInt8) :=
  { f with corruptPrefix := memory.read f.corruptPrefix, payload := memory.read f.payload }

/-- What the calls have returned, seen after the last of them. -/
def returned (maxFrameSize : UInt32) (picks : List ℕ) (b : Buffers) (r : List UInt8) :
    List (Frame (List UInt8) × Option FrameError) :=
  let (results, b) := reads crc maxFrameSize picks b r
  results.map fun result => (result.1.bytes b.memory, result.2)

/-! ## Writing -/

def header (msgType : UInt8) (payload : List UInt8) : List UInt8 :=
  encode 4 (payload.length + minFrameLength) ++
    msgType :: encode 4 (crc msgType payload).toNat

def writeFrameRaw (w : Writer) (msgType : UInt8) (payload : List UInt8) :
    Writer × Option FrameError :=
  if 2 ^ 32 - 1 - minFrameLength < payload.length then (w, some .frameTooLarge)
  else match w.writeAll (header crc msgType payload) with
    | (w, some err) => (w, some (.stream err))
    | (w, none) =>
      if payload = [] then (w, none)
      else ((w.writeAll payload).1, (w.writeAll payload).2.map .stream)

inductive MessageType where
  | streamHeader
  | dataRecord
  | checkpointBarrier
  | watermark
  | endOfPartition
  | backpressure
  | sessionHandshake
  | sessionDrain
  deriving DecidableEq, Repr

def MessageType.code : MessageType → UInt8
  | streamHeader => 0x00
  | dataRecord => 0x01
  | checkpointBarrier => 0x02
  | watermark => 0x03
  | endOfPartition => 0x04
  | backpressure => 0x05
  | sessionHandshake => 0x07
  | sessionDrain => 0x08

/-- A message as the MessagePack encoder sees it: the pieces it writes, and whether it then finds
a value that it cannot encode.  A value of any other Go type has no message type. -/
structure Message where
  msgType : Option MessageType
  pieces : List (List UInt8)
  fails : Bool := false

structure PayloadBuffer where
  buffer : List UInt8
  limit : ℕ
  exceeded : Bool := false

/-- The encoder's writes.  It stops at the first one that the buffer refuses. -/
def PayloadBuffer.fill (b : PayloadBuffer) : List (List UInt8) → PayloadBuffer
  | [] => b
  | p :: pieces =>
    if b.limit < b.buffer.length + p.length then { b with exceeded := true }
    else { b with buffer := b.buffer ++ p }.fill pieces

def encodeMsgPackPrefix (msg : Message) (limit reserved : ℕ) : Except FrameError (List UInt8) :=
  let buf := PayloadBuffer.fill
    { buffer := replicate reserved 0, limit := limit + reserved } msg.pieces
  if buf.exceeded then .error .frameTooLarge
  else if msg.fails then .error .encodePayload
  else .ok buf.buffer

def encodeAndWriteFrameLimit (w : Writer) (msg : Message) (maxFrameSize : UInt32) :
    Writer × Option FrameError :=
  match msg.msgType with
  | none => (w, some .encodePayload)
  | some msgType =>
    if maxFrameSize.toNat < minFrameLength then (w, some .frameTooLarge)
    else match encodeMsgPackPrefix msg (maxFrameSize.toNat - minFrameLength) headerSize with
      | .error err => (w, some err)
      | .ok encoded =>
        let payload := encoded.drop headerSize
        if payload = [0xc0] then (w, some .encodePayload)
        else
          let out := w.writeAll (header crc msgType.code payload ++ payload)
          (out.1, out.2.map .stream)

/-- A call of one of the writers. -/
inductive Outgoing where
  | raw (msgType : UInt8) (payload : List UInt8)
  | message (msg : Message)

namespace Outgoing

def write (maxFrameSize : UInt32) (w : Writer) : Outgoing → Writer × Option FrameError
  | raw msgType payload => writeFrameRaw crc w msgType payload
  | message msg => encodeAndWriteFrameLimit crc w msg maxFrameSize

def msgType : Outgoing → UInt8
  | raw msgType _ => msgType
  | message msg => (msg.msgType.map MessageType.code).getD 0

def payload : Outgoing → List UInt8
  | raw _ payload => payload
  | message msg => msg.pieces.flatten

/-- A message of one of the types that can be encoded, and that is not nil. -/
def Encodes : Outgoing → Prop
  | raw _ _ => True
  | message msg => msg.msgType.isSome = true ∧ msg.fails = false ∧ msg.pieces.flatten ≠ [0xc0]

end Outgoing

/-- One call after the other, up to the first error. -/
def writes (maxFrameSize : UInt32) (w : Writer) : List Outgoing → Writer × Option FrameError
  | [] => (w, none)
  | out :: outs =>
    match out.write crc maxFrameSize w with
    | (w, some err) => (w, some err)
    | (w, none) => writes maxFrameSize w outs

/-! ## The pool -/

namespace Buffers

variable {b b' : Buffers} {a : ℕ}

/-- The pool has arrays that were allocated. -/
def Valid (b : Buffers) : Prop := ∀ a ∈ b.pool, a < b.memory.fresh

/-- An array that is not in the pool is not written, and does not get into it. -/
structure Keeps (b b' : Buffers) : Prop where
  fresh : b.memory.fresh ≤ b'.memory.fresh
  arrays : ∀ a < b.memory.fresh, a ∉ b.pool →
    a ∉ b'.pool ∧ b'.memory.arrays a = b.memory.arrays a

/-- The slice is of no use to a later call, or empty. -/
def Owned (b : Buffers) (s : Slice) : Prop :=
  s.len = 0 ∨ s.array < b.memory.fresh ∧ s.array ∉ b.pool

/-- A call that began with `b` uses an array that nobody else has. -/
structure Uses (b b' : Buffers) (a : ℕ) : Prop where
  apart : a ∈ b.pool ∨ b.memory.fresh ≤ a
  allocated : a < b'.memory.fresh
  fresh : b.memory.fresh ≤ b'.memory.fresh
  pool : ∀ x ∈ b'.pool, x ∈ b.pool
  arrays : ∀ x < b.memory.fresh, x ∉ b.pool → b'.memory.arrays x = b.memory.arrays x

theorem Keeps.trans {b'' : Buffers} (h : Keeps b b') (h' : Keeps b' b'') : Keeps b b'' where
  fresh := h.fresh.trans h'.fresh
  arrays a ha hpool := by
    obtain ⟨hpool', harray⟩ := h.arrays a ha hpool
    obtain ⟨hpool'', harray'⟩ := h'.arrays a (ha.trans_le h.fresh) hpool'
    exact ⟨hpool'', harray'.trans harray⟩

theorem Owned.keep {s : Slice} (h : Owned b s) (hkeep : Keeps b b') :
    Owned b' s ∧ b'.memory.read s = b.memory.read s := by
  rcases h with hlen | ⟨hfresh, hpool⟩
  · exact ⟨.inl hlen, by rw [Memory.read, Memory.read, hlen, take_zero, take_zero]⟩
  · obtain ⟨hpool', harray⟩ := hkeep.arrays _ hfresh hpool
    exact ⟨.inr ⟨hfresh.trans_le hkeep.fresh, hpool'⟩, by rw [Memory.read, Memory.read, harray]⟩

/-- A new array. -/
theorem Uses.copy (h : Uses b b' a) (data : List UInt8) : Uses b (b'.copy data).1 a where
  apart := h.apart
  allocated := h.allocated.trans (lt_succ_self _)
  fresh := h.fresh.trans (le_succ _)
  pool := h.pool
  arrays x hx hpool := by
    rw [← h.arrays x hx hpool]
    exact Function.update_of_ne (hx.trans_le h.fresh).ne _ _

theorem Uses.fill (h : Uses b b' a) (data : List UInt8) : Uses b (b'.fill a data) a where
  apart := h.apart
  allocated := h.allocated
  fresh := h.fresh
  pool := h.pool
  arrays x hx hpool := by
    rw [← h.arrays x hx hpool]
    refine Function.update_of_ne ?_ _ _
    rintro rfl
    exact h.apart.elim hpool (not_le.mpr hx)

theorem mem_put {x : ℕ} (h : x ∈ (b.put a).pool) : x = a ∨ x ∈ b.pool := by
  rw [Buffers.put] at h
  split at h
  · exact mem_cons.mp h
  · exact .inr h

@[simp] theorem memory_put (b : Buffers) (a : ℕ) : (b.put a).memory = b.memory := by
  rw [Buffers.put]
  split <;> rfl

/-- The array goes back into the pool, or is given up. -/
theorem Uses.put (h : Uses b b' a) (hb : Valid b) : Keeps b (b'.put a) ∧ Valid (b'.put a) := by
  refine ⟨⟨by simpa using h.fresh, fun x hx hnot => ⟨fun hx' => ?_, ?_⟩⟩, fun x hx => ?_⟩
  · rcases mem_put hx' with rfl | hx'
    · exact h.apart.elim hnot (not_le.mpr hx)
    · exact hnot (h.pool x hx')
  · simpa using h.arrays x hx hnot
  · rw [memory_put]
    rcases mem_put hx with rfl | hx
    · exact h.allocated
    · exact (hb x (h.pool x hx)).trans_le h.fresh

/-- What the call has copied is not in the pool. -/
theorem Uses.notMem_put (h : Uses b b' a) (hb : Valid b) (b'' : Buffers)
    (hpool : b''.pool = b'.pool) {x : ℕ} (hx : b'.memory.fresh ≤ x) : x ∉ (b''.put a).pool := by
  intro hmem
  rcases mem_put hmem with rfl | hmem
  · exact absurd h.allocated (not_lt.mpr hx)
  · rw [hpool] at hmem
    exact absurd ((hb x (h.pool x hmem)).trans_le h.fresh) (not_lt.mpr hx)

theorem uses_take (hb : Valid b) (pick : ℕ) : Uses b (b.take pick).1 (b.take pick).2 := by
  rw [take]
  split
  · next a ha =>
    have hmem := mem_of_getElem? ha
    exact ⟨.inl hmem, hb a hmem, le_rfl, fun x hx => mem_of_mem_eraseIdx hx, fun _ _ _ => rfl⟩
  · refine ⟨.inr le_rfl, lt_succ_self _, le_succ _, fun x hx => hx, fun x hx _ => ?_⟩
    exact Function.update_of_ne hx.ne _ _

theorem Uses.grow (h : Uses b b' a) (frameLen : ℕ) :
    Uses b (b'.grow a frameLen).1 (b'.grow a frameLen).2.array ∧
      (b'.grow a frameLen).2.len = frameLen := by
  rw [Buffers.grow]
  split
  · refine ⟨{ h.copy _ with apart := .inr h.fresh, allocated := lt_succ_self _ }, ?_⟩
    exact length_replicate
  · exact ⟨h, rfl⟩

end Buffers

/-! ## One frame -/

/-- What a call returns for an intact frame. -/
def received (msgType : UInt8) (payload : List UInt8) : Frame (List UInt8) × Option FrameError :=
  ({ length := payload.length + minFrameLength, msgType, payload }, none)

/-- What a call returns at the end of the stream. -/
def ended : Frame (List UInt8) × Option FrameError := ({}, some (.stream .eof))

def framed (buf : List UInt8) : List UInt8 := encode 4 buf.length ++ buf

/-- The bytes that the length field counts. -/
def body (msgType : UInt8) (payload : List UInt8) : List UInt8 :=
  msgType :: encode 4 (crc msgType payload).toNat ++ payload

def Corrupt (buf : List UInt8) : Prop :=
  decode ((buf.drop 1).take 4) ≠ (crc (buf.headD 0) (buf.drop 5)).toNat

theorem verify_body (msgType : UInt8) (payload : List UInt8) :
    verify crc (body crc msgType payload) = received msgType payload := by
  have hlen := length_encode 4 (crc msgType payload).toNat
  have hcrc : decode (encode 4 (crc msgType payload).toNat) =
      (crc msgType payload).toNat :=
    decode_encode (UInt32.toNat_lt _)
  simp [verify, received, body, minFrameLength, take_left' hlen, drop_left' hlen, hcrc]
  omega

variable {maxFrameSize : UInt32}

/-- The slices of the frame are its own. -/
def Frame.Owned (f : Frame Slice) (b : Buffers) : Prop :=
  b.Owned f.corruptPrefix ∧ b.Owned f.payload

theorem Frame.Owned.keep {f : Frame Slice} {b b' : Buffers} (h : f.Owned b) (hkeep : b.Keeps b') :
    f.Owned b' ∧ f.bytes b'.memory = f.bytes b.memory := by
  obtain ⟨hhead, hreadPrefix⟩ := h.1.keep hkeep
  obtain ⟨hpayload, hreadPayload⟩ := h.2.keep hkeep
  exact ⟨⟨hhead, hpayload⟩, by rw [bytes, bytes, hreadPrefix, hreadPayload]⟩

/-- A call leaves the frames of earlier calls as they are, and returns one with slices of its own.
-/
def Returns (b : Buffers) (result : (Frame Slice × Option FrameError) × Buffers)
    (value : Frame (List UInt8) × Option FrameError) : Prop :=
  b.Keeps result.2 ∧ result.2.Valid ∧ result.1.1.Owned result.2 ∧
    (result.1.1.bytes result.2.memory, result.1.2) = value

theorem returns_finish {b b' : Buffers} {buf : Slice} (hb : b.Valid) (h : b.Uses b' buf.array) :
    Returns b (finish crc b' buf) (verify crc (b'.memory.read buf)) := by
  rw [finish]
  generalize verify crc (b'.memory.read buf) = value
  obtain ⟨frame, err⟩ := value
  have h' := h.copy frame.corruptPrefix
  obtain ⟨hkeeps, hvalid⟩ := (h'.copy frame.payload).put hb
  refine ⟨hkeeps, hvalid, ⟨.inr ⟨?_, ?_⟩, .inr ⟨?_, ?_⟩⟩, ?_⟩
  · simp [Buffers.copy, Memory.make]
  · exact h.notMem_put hb ((b'.copy frame.corruptPrefix).1.copy frame.payload).1 rfl le_rfl
  · simp [Buffers.copy, Memory.make]
  · exact h'.notMem_put hb ((b'.copy frame.corruptPrefix).1.copy frame.payload).1 rfl le_rfl
  · simp [Frame.bytes, Buffers.copy, Memory.make, Memory.read, Memory.put]

theorem readFrame_append {b : Buffers} (hb : b.Valid) {buf : List UInt8}
    (hmin : minFrameLength ≤ buf.length) (hmax : buf.length ≤ maxFrameSize.toNat) (pick : ℕ)
    (rest : List UInt8) :
    ∃ result b', readFrame crc maxFrameSize pick b (framed buf ++ rest) = (result, b', rest) ∧
      Returns b (result, b') (verify crc buf) := by
  have hlen : decode (encode 4 buf.length) = buf.length :=
    decode_encode (hmax.trans_lt (UInt32.toNat_lt _))
  obtain ⟨huses, hslice⟩ := (b.uses_take hb pick).grow buf.length
  rw [readFrame, framed, append_assoc, readFull_append (length_encode 4 _)]
  simp only [hlen, hmin.not_gt, hmax.not_gt, if_false, readFull_append rfl]
  refine ⟨_, _, rfl, ?_⟩
  have hreturns := returns_finish crc hb (huses.fill buf)
  have hread : ((((b.take pick).1.grow (b.take pick).2 buf.length).1.fill
      ((b.take pick).1.grow (b.take pick).2 buf.length).2.array buf).memory.read
      ((b.take pick).1.grow (b.take pick).2 buf.length).2) = buf := by
    simp [Buffers.fill, Memory.fill, Memory.put, Memory.read, hslice]
  rwa [hread] at hreturns

/-- The end of the stream is found again and again. -/
theorem reads_nil (maxFrameSize : UInt32) (picks : List ℕ) (b : Buffers) :
    reads crc maxFrameSize picks b [] =
      (replicate picks.length ({}, some (.stream .eof)), b) := by
  induction picks with
  | nil => rfl
  | cons pick picks ih => simp [reads, readFrame, readFull_nil, ih, replicate_succ]

/-- A reader takes one frame after the other, whatever their bodies hold. -/
theorem reads_bodies {ι : Type} {f : ι → List UInt8} {l : List ι}
    (h : ∀ a ∈ l, minFrameLength ≤ (f a).length ∧ (f a).length ≤ maxFrameSize.toNat) {b : Buffers}
    (hb : b.Valid) (k : ℕ) {picks : List ℕ} (hpicks : picks.length = l.length + k) :
    b.Keeps (reads crc maxFrameSize picks b (l.flatMap fun a => framed (f a))).2 ∧
    returned crc maxFrameSize picks b (l.flatMap fun a => framed (f a)) =
      l.map (fun a => verify crc (f a)) ++ replicate k ended := by
  induction l generalizing b picks with
  | nil =>
    rw [length_nil, Nat.zero_add] at hpicks
    rw [returned, flatMap_nil, reads_nil, hpicks]
    refine ⟨⟨le_rfl, fun a _ ha => ⟨ha, rfl⟩⟩, ?_⟩
    have hnil : b.memory.read default = [] := take_zero
    dsimp only
    rw [map_replicate, Frame.bytes, hnil]
    rfl
  | cons a l ih =>
    obtain ⟨⟨hmin, hmax⟩, hrest⟩ := forall_mem_cons.1 h
    cases picks with
    | nil =>
      simp only [length_nil, length_cons] at hpicks
      omega
    | cons pick picks =>
      obtain ⟨result, b', hread, hkeeps, hvalid, howned, hvalue⟩ :=
        readFrame_append crc hb hmin hmax pick (l.flatMap fun a => framed (f a))
      have hpicks' : picks.length = l.length + k := by
        simp only [length_cons] at hpicks
        omega
      obtain ⟨hkeeps', hreturned⟩ := ih hrest hvalid hpicks'
      rw [returned] at hreturned ⊢
      simp only [flatMap_cons, reads, hread, map_cons, (howned.keep hkeeps').2, hvalue, hreturned]
      exact ⟨hkeeps.trans hkeeps', rfl⟩

theorem length_body (msgType : UInt8) (payload : List UInt8) :
    (body crc msgType payload).length = payload.length + minFrameLength := by
  simp [body, minFrameLength]
  omega

theorem header_append (msgType : UInt8) (payload : List UInt8) :
    header crc msgType payload ++ payload = framed (body crc msgType payload) := by
  rw [header, framed, length_body, body, append_assoc]

/-! ## The limit -/

/-- Pieces that fit together are all in the buffer. -/
theorem PayloadBuffer.fill_of_le {b : PayloadBuffer} {pieces : List (List UInt8)}
    (h : b.buffer.length + pieces.flatten.length ≤ b.limit) :
    b.fill pieces = { b with buffer := b.buffer ++ pieces.flatten } := by
  induction pieces generalizing b with
  | nil => simp [fill]
  | cons p pieces ih =>
    rw [flatten_cons, length_append] at h
    rw [fill, if_neg (by omega), ih]
    · simp
    · rw [length_append]
      exact le_trans (by omega) h

/-- The buffer refuses a piece if the pieces do not fit together, and remembers it. -/
theorem PayloadBuffer.exceeded_fill {b : PayloadBuffer} {pieces : List (List UInt8)}
    (hb : b.buffer.length ≤ b.limit)
    (h : b.limit < b.buffer.length + pieces.flatten.length) : (b.fill pieces).exceeded = true := by
  induction pieces generalizing b with
  | nil => exact absurd hb h.not_ge
  | cons p pieces ih =>
    rw [fill]
    split
    · rfl
    · next hfits =>
      refine ih ?_ ?_
      · simpa using hfits
      · simpa [add_assoc] using h

/-- A message above the limit is refused before the writer is called. -/
theorem encodeAndWriteFrameLimit_refused {w : Writer} {msg : Message}
    (h : maxFrameSize.toNat < msg.pieces.flatten.length + minFrameLength) :
    ∃ err, encodeAndWriteFrameLimit crc w msg maxFrameSize = (w, some err) := by
  unfold encodeAndWriteFrameLimit
  split
  · exact ⟨_, rfl⟩
  · split
    · exact ⟨_, rfl⟩
    · have hfull : ∀ reserved, encodeMsgPackPrefix msg (maxFrameSize.toNat - minFrameLength)
          reserved = .error .frameTooLarge := by
        intro reserved
        rw [encodeMsgPackPrefix, PayloadBuffer.exceeded_fill]
        · rfl
        · simp
        · rw [length_replicate]
          dsimp only
          omega
      rw [hfull]
      exact ⟨_, rfl⟩

/-- A message within the limit is written as its frame. -/
theorem encodeAndWriteFrameLimit_plain {msg : Message} {msgType : MessageType}
    (htype : msg.msgType = some msgType) (hfails : msg.fails = false)
    (hnil : msg.pieces.flatten ≠ [0xc0])
    (h : msg.pieces.flatten.length + minFrameLength ≤ maxFrameSize.toNat) (data : List UInt8) :
    encodeAndWriteFrameLimit crc { written := data } msg maxFrameSize =
      ({ written := data ++ framed (body crc msgType.code msg.pieces.flatten) }, none) := by
  have hencode : encodeMsgPackPrefix msg (maxFrameSize.toNat - minFrameLength) headerSize =
      .ok (replicate headerSize 0 ++ msg.pieces.flatten) := by
    rw [encodeMsgPackPrefix, PayloadBuffer.fill_of_le]
    · simp [hfails]
    · rw [length_replicate]
      dsimp only
      omega
  have hdrop : (replicate headerSize 0 ++ msg.pieces.flatten).drop headerSize =
      msg.pieces.flatten := drop_left' length_replicate
  simp only [encodeAndWriteFrameLimit, htype, hencode]
  rw [if_neg (by omega), hdrop, if_neg hnil, Writer.writeAll_plain, header_append]
  rfl

theorem writeFrameRaw_plain {msgType : UInt8} {payload : List UInt8}
    (h : payload.length + minFrameLength < 2 ^ 32) (data : List UInt8) :
    writeFrameRaw crc { written := data } msgType payload =
      ({ written := data ++ framed (body crc msgType payload) }, none) := by
  rw [writeFrameRaw, if_neg (by omega), Writer.writeAll_plain, ← header_append]
  by_cases hnil : payload = [] <;> simp [hnil]

/-! ## The stream -/

theorem writes_plain {outs : List Outgoing} (h : ∀ out ∈ outs, out.Encodes ∧
      out.payload.length + minFrameLength ≤ maxFrameSize.toNat) (data : List UInt8) :
    writes crc maxFrameSize { written := data } outs =
      ({ written := data ++ (outs.flatMap fun out => framed (body crc out.msgType out.payload)) },
        none) := by
  induction outs generalizing data with
  | nil => simp [writes]
  | cons out outs ih =>
    obtain ⟨⟨hencodes, hlen⟩, hrest⟩ := forall_mem_cons.1 h
    have hout : out.write crc maxFrameSize { written := data } =
        ({ written := data ++ framed (body crc out.msgType out.payload) }, none) := by
      cases out with
      | raw msgType payload =>
        exact writeFrameRaw_plain crc (hlen.trans_lt (UInt32.toNat_lt _)) data
      | message msg =>
        obtain ⟨htype, hfails, hnil⟩ := hencodes
        obtain ⟨msgType, htype⟩ := Option.isSome_iff_exists.mp htype
        rw [Outgoing.msgType, htype]
        exact encodeAndWriteFrameLimit_plain crc htype hfails hnil hlen data
    rw [writes, hout]
    simp only [ih hrest, flatMap_cons, append_assoc]

/-- A frame that was written, and its body as it arrived. -/
structure Arrival where
  msgType : UInt8
  payload : List UInt8
  buf : List UInt8

/-- The body arrived as it was written, or altered such that the checksum is wrong. -/
def Arrival.Sound (a : Arrival) : Prop :=
  a.buf = body crc a.msgType a.payload ∨
    a.buf.length = a.payload.length + minFrameLength ∧ Corrupt crc a.buf

/-- **Frames are exact.**  Frames that fit the limit are written without an error, by either writer,
and read back as they are, and then the stream has ended.  If any of the bodies arrive altered so
that their checksums are wrong, these frames are reported as corrupt, and every other one is
returned.  And for a message whose frame is above the limit nothing is written. -/
theorem frames_exact (maxFrameSize : UInt32) {b : Buffers} (hb : b.Valid) :
    (∀ outs : List Outgoing, (∀ out ∈ outs, out.Encodes ∧
        out.payload.length + minFrameLength ≤ maxFrameSize.toNat) →
      ∃ w, writes crc maxFrameSize {} outs = (w, none) ∧
        ∀ k picks, picks.length = outs.length + k → returned crc maxFrameSize picks b w.written =
          outs.map (fun out => received out.msgType out.payload) ++ replicate k ended) ∧
    (∀ arrivals : List Arrival,
      (∀ a ∈ arrivals, a.payload.length + minFrameLength ≤ maxFrameSize.toNat ∧
        a.Sound crc) →
      (∀ k picks, picks.length = arrivals.length + k →
        returned crc maxFrameSize picks b (arrivals.flatMap fun a =>
          encode 4 (a.payload.length + minFrameLength) ++ a.buf) =
        arrivals.map (fun a => verify crc a.buf) ++ replicate k ended) ∧
      ∀ a ∈ arrivals,
        (a.buf = body crc a.msgType a.payload ∧
          verify crc a.buf = received a.msgType a.payload) ∨
        (Corrupt crc a.buf ∧ (verify crc a.buf).2 = some .crcMismatch)) ∧
    ∀ (w : Writer) (msg : Message),
      maxFrameSize.toNat < msg.pieces.flatten.length + minFrameLength →
      ∃ err, encodeAndWriteFrameLimit crc w msg maxFrameSize = (w, some err) := by
  refine ⟨?_, ?_, ?_⟩
  · intro outs h
    refine ⟨_, writes_plain crc h [], fun k picks hpicks => ?_⟩
    have hlen : ∀ out ∈ outs, minFrameLength ≤ (body crc out.msgType out.payload).length ∧
        (body crc out.msgType out.payload).length ≤ maxFrameSize.toNat := by
      intro out hout
      rw [length_body]
      exact ⟨le_add_left _ _, (h out hout).2⟩
    simpa [verify_body] using (reads_bodies crc hlen hb k hpicks).2
  · intro arrivals h
    have hlen : ∀ a ∈ arrivals, a.buf.length = a.payload.length + minFrameLength := by
      intro a ha
      rcases (h a ha).2 with heq | ⟨hlen, _⟩
      · rw [heq, length_body]
      · exact hlen
    refine ⟨fun k picks hpicks => ?_, fun a ha => ?_⟩
    · have hfits : ∀ a ∈ arrivals,
          minFrameLength ≤ a.buf.length ∧ a.buf.length ≤ maxFrameSize.toNat := by
        intro a ha
        rw [hlen a ha]
        exact ⟨le_add_left _ _, (h a ha).1⟩
      rw [flatMap_congr fun a ha => by rw [← hlen a ha]]
      exact (reads_bodies crc hfits hb k hpicks).2
    · rcases (h a ha).2 with heq | ⟨_, hcorrupt⟩
      · left
        rw [heq, verify_body]
        exact ⟨rfl, rfl⟩
      · right
        refine ⟨hcorrupt, ?_⟩
        exact congrArg Prod.snd (if_pos hcorrupt)
  · exact fun w msg h => encodeAndWriteFrameLimit_refused crc h

/-- The sum of the bytes. -/
def sampleCRC (msgType : UInt8) (payload : List UInt8) : UInt32 :=
  (payload.foldl (· + ·) msgType).toUInt32

/-- A watermark with another payload than was written, and a record after it. -/
def altered : List Arrival := [⟨3, [7], [3, 0, 0, 0, 10, 8]⟩, ⟨1, [2], [1, 0, 0, 0, 3, 2]⟩]

/-- The pool has one array, which is used again. -/
def sampleBuffers : Buffers := ⟨⟨fun _ => replicate 16 7, 1⟩, [0]⟩

/-- A watermark and a record that is encoded in two pieces. -/
def outgoing : List Outgoing := [.raw 3 [7], .message ⟨some .dataRecord, [[2], [5, 6]], false⟩]

theorem frames_exact_altered : (∃ w, writes sampleCRC 64 {} outgoing = (w, none) ∧
      returned sampleCRC 64 [0, 0, 0] sampleBuffers w.written =
        [received 3 [7], received 1 [2, 5, 6], ended]) ∧
    returned sampleCRC 64 [0, 0, 0] sampleBuffers (altered.flatMap fun a =>
        encode 4 (a.payload.length + minFrameLength) ++ a.buf) =
      altered.map (fun a => verify sampleCRC a.buf) ++ [ended] := by
  have hvalid : sampleBuffers.Valid := by rw [Buffers.Valid]; decide
  have hsound : ∀ a ∈ altered, a.payload.length + minFrameLength ≤ 64 ∧ a.Sound sampleCRC := by
    rw [altered, forall_mem_cons, forall_mem_singleton]
    exact ⟨⟨by decide, .inr ⟨rfl, by rw [Corrupt]; decide⟩⟩, by decide, .inl rfl⟩
  obtain ⟨hwritten, haltered, -⟩ := frames_exact sampleCRC 64 hvalid
  obtain ⟨w, hw, hreturned⟩ := hwritten outgoing (by simp [outgoing, Outgoing.Encodes,
    Outgoing.payload, minFrameLength])
  exact ⟨⟨w, hw, hreturned 1 [0, 0, 0] rfl⟩, (haltered altered hsound).1 1 [0, 0, 0] rfl⟩

end Wire.Protocol
