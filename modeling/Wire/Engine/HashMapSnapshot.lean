import Wire.Library.Metered
import Wire.Engine.StateBackend

/-!
# The snapshot format of the in-memory state backend

A snapshot is a version byte, the number of entries, the entries as length-prefixed keys and values,
and a CRC-32 of all that, with every number in four bytes.

`deserializeHashMapSnapshot_eq_ok` says what the decoder accepts: the encodings of entry lists whose
lengths fit into four bytes, if the number of entries is at most the remainder of an eighth of the
payload modulo `2 ^ 32`.  That last condition is meant to hold of every encoding, since an entry
takes eight bytes or more, but the capacity of a payload of 32 GiB does not fit into the `uint32` it
is converted to, and such a snapshot is refused (`deserializeHashMapSnapshot_wraps`).

A panic is a result of its own, and the bytes of `make` are counted; an `int` has 64 bits.
-/

namespace Wire.Engine.Backend

open Metered List Nat LittleEndian

/-- `hashMapSnapshotVersion` -/
def hashMapSnapshotVersion : Fin 256 := 1

/-- The size of a `kvEntry` in memory: two slice headers. -/
def kvEntrySize : ℕ := 48

/-! ## The checksum -/

def crc32Bit (crc : UInt32) : UInt32 :=
  if crc &&& 1 = 1 then (crc >>> 1) ^^^ 0xEDB88320 else crc >>> 1

def crc32Byte (crc : UInt32) (b : Fin 256) : UInt32 :=
  (range 8).foldl (fun c _ => crc32Bit c) (crc ^^^ UInt32.ofNat b)

/-- `crc32.ChecksumIEEE` -/
def checksumIEEE (data : Bytes) : UInt32 :=
  ~~~(data.foldl crc32Byte 0xFFFFFFFF)

-- the check value of CRC-32: the sum of the digits 1 to 9
example : checksumIEEE [49, 50, 51, 52, 53, 54, 55, 56, 57] = 0xCBF43926 := by decide +kernel

/-! ## Encoding -/

/-- Bytes after their length; a length that does not fit is cut off, as by `uint32`. -/
def field (b : Bytes) : Bytes :=
  encode 4 b.length ++ b

def KvEntry.bytes (e : KvEntry) : Bytes :=
  field e.key ++ field e.value

/-- All that the checksum is over. -/
def snapshotPayload (entries : List KvEntry) : Bytes :=
  hashMapSnapshotVersion :: encode 4 entries.length ++ entries.flatMap KvEntry.bytes

def serializeHashMapSnapshot (entries : List KvEntry) : Bytes :=
  snapshotPayload entries
    ++ encode 4 (checksumIEEE (snapshotPayload entries)).toNat

/-! ## Decoding -/

/-- What is wrong with a snapshot, with what the message says of it. -/
inductive Corruption where
  | tooShort (length : ℕ)
  | checksum (expected actual : ℕ)
  | version (version : Fin 256)
  | numEntries (numEntries : ℕ)
  | keyLength (entry : ℕ)
  | keyData (entry : ℕ)
  | valueLength (entry : ℕ)
  | valueData (entry : ℕ)
  | trailing (bytes : ℕ)
deriving DecidableEq, Repr

inductive Fault where
  /-- An access outside of a slice. -/
  | panic
  /-- `ErrSnapshotCorrupt` -/
  | corrupt (reason : Corruption)
deriving DecidableEq, Repr

/-- `data[i:j]` -/
def slice (data : Bytes) (i j : ℕ) : Metered Fault Bytes := do
  Metered.require (i ≤ j ∧ j ≤ data.length) .panic
  return (data.drop i).take (j - i)

/-- `data[i]` -/
def index (data : Bytes) (i : ℕ) : Metered Fault (Fin 256) :=
  match data[i]? with
  | some b => pure b
  | none => Metered.fail .panic

/-- `binary.LittleEndian.Uint32` -/
def uint32 (b : Bytes) : Metered Fault ℕ := do
  Metered.require (4 ≤ b.length) .panic
  return decode (b.take 4)

/-- Read a length and so many bytes. -/
def readField (data : Bytes) (payloadLen : ℕ) (noLength noData : Corruption) (pos : ℕ) :
    Metered Fault (Bytes × ℕ) := do
  Metered.require (pos + 4 ≤ payloadLen) (.corrupt noLength)
  let length ← uint32 (← slice data pos (pos + 4))
  Metered.require (pos + 4 + length ≤ payloadLen) (.corrupt noData)
  Metered.spend length
  let b ← slice data (pos + 4) (pos + 4 + length)
  return (b, pos + 4 + length)

/-- One round of the loop. -/
def readEntry (data : Bytes) (payloadLen i pos : ℕ) : Metered Fault (KvEntry × ℕ) := do
  let (key, pos) ← readField data payloadLen (.keyLength i) (.keyData i) pos
  let (value, pos) ← readField data payloadLen (.valueLength i) (.valueData i) pos
  return ({ key, value }, pos)

/-- The loop, with so many entries to go. -/
def readEntries (data : Bytes) (payloadLen : ℕ) : ℕ → ℕ → ℕ → Metered Fault (List KvEntry × ℕ)
  | 0, _, pos => return ([], pos)
  | n + 1, i, pos => do
    let (e, pos) ← readEntry data payloadLen i pos
    let (entries, pos) ← readEntries data payloadLen n (i + 1) pos
    return (e :: entries, pos)

def deserializeHashMapSnapshot (data : Bytes) : Metered Fault (List KvEntry) := do
  Metered.require (9 ≤ data.length) (.corrupt (.tooShort data.length))
  let payloadLen := data.length - 4
  let expected ← uint32 (← slice data payloadLen data.length)
  let actual := (checksumIEEE (← slice data 0 payloadLen)).toNat
  Metered.require (expected = actual) (.corrupt (.checksum expected actual))
  let version ← index data 0
  Metered.require (version = hashMapSnapshotVersion) (.corrupt (.version version))
  let numEntries ← uint32 (← slice data 1 5)
  -- uint32(payloadLen / 8)
  let maxPossibleEntries := payloadLen / 8 % 2 ^ 32
  Metered.require (numEntries ≤ maxPossibleEntries) (.corrupt (.numEntries numEntries))
  Metered.spend (kvEntrySize * numEntries)
  let (entries, pos) ← readEntries data payloadLen numEntries 0 5
  Metered.require (pos = payloadLen) (.corrupt (.trailing (payloadLen - pos)))
  return entries

/-! ## What a reader accepts -/

variable {data : Bytes} {payloadLen pos : ℕ}

variable {i : ℕ} {b : Bytes}

variable {j v stop first other : ℕ} {e : KvEntry}

theorem slice_eq_ok : (slice data i j).result = .ok b ↔
    (i ≤ j ∧ j ≤ data.length) ∧ (data.drop i).take (j - i) = b := by
  simp [slice]

theorem index_eq_ok {b : Fin 256} : (index data i).result = .ok b ↔ data[i]? = some b := by
  rw [index]
  cases data[i]? with
  | none => exact iff_of_false (fun h => nomatch h) (fun h => nomatch h)
  | some c => simp

theorem uint32_eq_ok : (uint32 b).result = .ok v ↔ 4 ≤ b.length ∧ decode (b.take 4) = v := by
  simp [uint32]

/-- Four bytes of the input as a number. -/
theorem uint32_slice_eq_ok :
    (∃ b, (slice data i (i + 4)).result = .ok b ∧ (uint32 b).result = .ok v) ↔
      v < 2 ^ 32 ∧ encode 4 v <+: data.drop i := by
  simp only [slice_eq_ok, uint32_eq_ok]
  constructor
  · rintro ⟨b, ⟨⟨-, hj⟩, rfl⟩, -, rfl⟩
    have hlen : ((data.drop i).take 4).length = 4 := by
      rw [length_take, length_drop]
      omega
    rw [Nat.add_sub_cancel_left, take_of_length_le hlen.le]
    have hencode := encode_decode ((data.drop i).take 4)
    have hdecode := decode_lt ((data.drop i).take 4)
    rw [hlen] at hencode hdecode
    rw [hencode]
    exact ⟨hdecode, take_prefix _ _⟩
  · rintro ⟨hv, hbegin⟩
    have hlen := hbegin.length_le
    rw [length_encode, length_drop] at hlen
    have htake := prefix_iff_eq_take.mp hbegin
    rw [length_encode] at htake
    refine ⟨_, ⟨⟨by omega, by omega⟩, rfl⟩, ?_⟩
    rw [Nat.add_sub_cancel_left, ← htake, length_encode,
      take_of_length_le (length_encode 4 v).le, decode_encode]
    exact ⟨le_rfl, mod_eq_of_lt hv⟩

theorem length_field (b : Bytes) : (field b).length = 4 + b.length := by
  rw [field, length_append, length_encode]

theorem readField_eq_ok {noLength noData : Corruption} (hlimit : payloadLen ≤ data.length) :
    (readField data payloadLen noLength noData pos).result = .ok (b, stop) ↔
      b.length < 2 ^ 32 ∧ field b <+: data.drop pos ∧
        stop = pos + (field b).length ∧ stop ≤ payloadLen := by
  rw [length_field]
  constructor
  · intro h
    simp only [readField, bind_eq_ok, require_eq_ok, exists_const, result_spend, true_and,
      Except.ok.injEq, result_pure, Prod.mk.injEq] at h
    obtain ⟨hpos, d, hd, length, hlength, hend, b', hb, rfl, rfl⟩ := h
    obtain ⟨hbound, hbegin⟩ := uint32_slice_eq_ok.mp ⟨d, hd, hlength⟩
    obtain ⟨-, rfl⟩ := slice_eq_ok.mp hb
    have htake := prefix_iff_eq_take.mp hbegin
    rw [length_encode] at htake
    have hlen : ((data.drop (pos + 4)).take length).length = length := by
      rw [length_take, length_drop]
      omega
    rw [Nat.add_sub_cancel_left, field, hlen]
    refine ⟨hbound, ?_, by omega, hend⟩
    rw [htake, ← drop_drop, ← take_add]
    exact take_prefix _ _
  · rintro ⟨hbound, ⟨rest, hrest⟩, rfl, hend⟩
    have hbegin : encode 4 b.length <+: data.drop pos := by
      rw [← hrest, field, append_assoc]
      exact prefix_append _ _
    have hdrop : data.drop (pos + 4) = b ++ rest := by
      rw [← drop_drop, ← hrest, field, append_assoc]
      exact drop_left' (length_encode 4 b.length)
    obtain ⟨d, hd, hlength⟩ := uint32_slice_eq_ok.mpr ⟨hbound, hbegin⟩
    have hb : (slice data (pos + 4) (pos + 4 + b.length)).result = .ok b := by
      rw [slice_eq_ok, hdrop, Nat.add_sub_cancel_left]
      exact ⟨⟨by omega, by omega⟩, take_left⟩
    simp only [readField, bind_eq_ok, require_eq_ok, exists_const, result_spend, true_and,
      Except.ok.injEq, result_pure, Prod.mk.injEq]
    exact ⟨by omega, d, hd, b.length, hlength, by omega, b, hb, rfl, add_assoc _ _ _⟩

/-- The lengths of an entry fit into four bytes each. -/
def KvEntry.Fits (e : KvEntry) : Prop :=
  e.key.length < 2 ^ 32 ∧ e.value.length < 2 ^ 32

/-- One reader after the other reads the one text after the other. -/
theorem prefix_append_drop {a : Bytes} :
    a ++ b <+: data.drop pos ↔ a <+: data.drop pos ∧ b <+: data.drop (pos + a.length) := by
  rw [← drop_drop]
  constructor
  · rintro ⟨rest, hrest⟩
    rw [← hrest, append_assoc, drop_left]
    exact ⟨prefix_append _ _, prefix_append _ _⟩
  · rintro ⟨⟨ra, ha⟩, hb⟩
    rw [← ha, drop_left] at hb
    rw [← ha]
    exact (prefix_append_right_inj a).mpr hb

theorem readEntry_eq_ok (hlimit : payloadLen ≤ data.length) :
    (readEntry data payloadLen i pos).result = .ok (e, stop) ↔
      e.Fits ∧ e.bytes <+: data.drop pos ∧ stop = pos + e.bytes.length ∧ stop ≤ payloadLen := by
  rw [KvEntry.bytes, prefix_append_drop, length_append, KvEntry.Fits]
  simp only [readEntry, bind_eq_ok, result_pure, Prod.exists, readField_eq_ok hlimit,
    Except.ok.injEq, Prod.mk.injEq]
  constructor
  · rintro ⟨key, mid, ⟨hkey, hpkey, rfl, -⟩, value, stop', ⟨hvalue, hpvalue, rfl, hend⟩, rfl, rfl⟩
    exact ⟨⟨hkey, hvalue⟩, ⟨hpkey, hpvalue⟩, add_assoc _ _ _, hend⟩
  · rintro ⟨⟨hkey, hvalue⟩, ⟨hpkey, hpvalue⟩, rfl, hend⟩
    exact ⟨e.key, _, ⟨hkey, hpkey, rfl, by omega⟩, e.value, _,
      ⟨hvalue, hpvalue, rfl, by omega⟩, rfl, by omega⟩

variable {es : List KvEntry}

theorem readEntries_eq_ok {n : ℕ} (hlimit : payloadLen ≤ data.length)
    (hpos : pos ≤ payloadLen) : (readEntries data payloadLen n i pos).result = .ok (es, stop) ↔
      es.length = n ∧ (∀ e ∈ es, e.Fits) ∧ es.flatMap KvEntry.bytes <+: data.drop pos ∧
        stop = pos + (es.flatMap KvEntry.bytes).length ∧ stop ≤ payloadLen := by
  induction n generalizing es i pos with
  | zero =>
    simp only [readEntries, result_pure, Except.ok.injEq, Prod.mk.injEq, length_eq_zero_iff]
    constructor
    · rintro ⟨rfl, rfl⟩
      exact ⟨rfl, fun e he => absurd he not_mem_nil, nil_prefix, rfl, hpos⟩
    · rintro ⟨rfl, -, -, rfl, -⟩
      exact ⟨rfl, rfl⟩
  | succ n ih =>
    simp only [readEntries, bind_eq_ok, result_pure, Prod.exists, readEntry_eq_ok hlimit,
      Except.ok.injEq, Prod.mk.injEq]
    constructor
    · rintro ⟨e, mid, ⟨hfits, hbegin, rfl, hmid⟩, rest, stop', hrest, rfl, rfl⟩
      obtain ⟨hn, hall, hmore, hstop, hend⟩ := (ih hmid).mp hrest
      rw [flatMap_cons, prefix_append_drop, length_append, length_cons, hn]
      exact ⟨rfl, forall_mem_cons.mpr ⟨hfits, hall⟩, ⟨hbegin, hmore⟩, by omega, hend⟩
    · rintro ⟨hn, hall, hbegin, hstop, hend⟩
      cases es with
      | nil => cases hn
      | cons e es =>
        rw [flatMap_cons, length_append] at hstop
        rw [flatMap_cons, prefix_append_drop] at hbegin
        obtain ⟨hfits, hall⟩ := forall_mem_cons.mp hall
        have hmid : pos + e.bytes.length ≤ payloadLen := by omega
        exact ⟨e, _, ⟨hfits, hbegin.1, rfl, hmid⟩, es, stop,
          (ih hmid).mpr ⟨succ.inj hn, hall, hbegin.2, by omega, hend⟩, rfl, rfl⟩

/-! ## What the decoder accepts -/

/-- The number of entries passes the check against the capacity of the payload. -/
def CountFits (entries : List KvEntry) : Prop :=
  entries.length ≤ (snapshotPayload entries).length / 8 % 2 ^ 32

theorem length_snapshotPayload (entries : List KvEntry) :
    (snapshotPayload entries).length = 5 + (entries.flatMap KvEntry.bytes).length := by
  rw [snapshotPayload, length_append, length_cons, length_encode]

theorem length_serializeHashMapSnapshot (entries : List KvEntry) :
    (serializeHashMapSnapshot entries).length = (snapshotPayload entries).length + 4 := by
  rw [serializeHashMapSnapshot, length_append, length_encode]

/-- The payload, as the decoder reads it: the version, the number of entries and the entries. -/
theorem snapshotPayload_begins : snapshotPayload es <+: data ↔
    data[0]? = some hashMapSnapshotVersion ∧
      encode 4 es.length <+: data.drop 1 ∧
        es.flatMap KvEntry.bytes <+: data.drop 5 := by
  have hpayload : snapshotPayload es = [hashMapSnapshotVersion]
      ++ (encode 4 es.length ++ es.flatMap KvEntry.bytes) := rfl
  have hversion : [hashMapSnapshotVersion] <+: data.drop 0 ↔
      data[0]? = some hashMapSnapshotVersion := by
    cases data with
    | nil => simp
    | cons b rest => simp [eq_comm]
  rw [← hversion, hpayload]
  change _ <+: data.drop 0 ↔ _
  rw [prefix_append_drop, prefix_append_drop, length_encode]
  rfl

/-- **The decoder accepts the encodings, and nothing else**, of what fits. -/
theorem deserializeHashMapSnapshot_eq_ok : (deserializeHashMapSnapshot data).result = .ok es ↔
    data = serializeHashMapSnapshot es ∧ es.length < 2 ^ 32 ∧ (∀ e ∈ es, e.Fits) ∧
      CountFits es := by
  constructor
  · intro h
    simp only [deserializeHashMapSnapshot, bind_eq_ok, require_eq_ok, exists_const, result_spend,
      true_and, Except.ok.injEq, result_pure, Prod.exists] at h
    obtain ⟨hshort, h⟩ := h
    obtain ⟨payloadLen, hlen⟩ : ∃ n, data.length = n + 4 := ⟨data.length - 4, by omega⟩
    rw [hlen, Nat.add_sub_cancel] at h
    obtain ⟨d, hd, sum, hsum, payload, hpayload, hcheck, version, hversion, rfl, c, hc, n, hn,
      hcount, es', stop, hread, rfl, rfl⟩ := h
    obtain ⟨-, hsum⟩ := uint32_slice_eq_ok.mp ⟨d, hd, hsum⟩
    obtain ⟨hn, hnum⟩ := uint32_slice_eq_ok.mp ⟨c, hc, hn⟩
    obtain ⟨-, rfl⟩ := slice_eq_ok.mp hpayload
    obtain ⟨rfl, hfits, hentries, hstop, -⟩ :=
      (readEntries_eq_ok (by omega) (by omega)).mp hread
    rw [← length_snapshotPayload] at hstop
    have htake : snapshotPayload es' = data.take stop := by
      rw [hstop]
      exact prefix_iff_eq_take.mp
        (snapshotPayload_begins.mpr ⟨index_eq_ok.mp hversion, hnum, hentries⟩)
    have hdrop : encode 4 sum = data.drop stop := by
      apply hsum.eq_of_length
      rw [length_encode, length_drop]
      omega
    refine ⟨?_, hn, hfits, ?_⟩
    · rw [serializeHashMapSnapshot, htake]
      rw [hcheck, drop_zero, Nat.sub_zero] at hdrop
      rw [hdrop, take_append_drop]
    · rw [CountFits, ← hstop]
      exact hcount
  · rintro ⟨rfl, hn, hfits, hcount⟩
    have hlen := length_serializeHashMapSnapshot es
    have hpayloadLen := length_snapshotPayload es
    obtain ⟨hversion, hnum, hentries⟩ := snapshotPayload_begins.mp
      (prefix_append (snapshotPayload es) (encode 4 (checksumIEEE (snapshotPayload es)).toNat))
    have htrailer : encode 4 (checksumIEEE (snapshotPayload es)).toNat
        <+: (serializeHashMapSnapshot es).drop (snapshotPayload es).length := by
      rw [serializeHashMapSnapshot, drop_left]
    obtain ⟨d, hd, hsum⟩ := uint32_slice_eq_ok.mpr ⟨UInt32.toNat_lt _, htrailer⟩
    obtain ⟨c, hc, hnum⟩ := uint32_slice_eq_ok.mpr ⟨hn, hnum⟩
    have hpayload : (slice (serializeHashMapSnapshot es) 0 (snapshotPayload es).length).result
        = .ok (snapshotPayload es) := by
      rw [slice_eq_ok, drop_zero, Nat.sub_zero]
      exact ⟨⟨by omega, by omega⟩, take_left⟩
    simp only [deserializeHashMapSnapshot, bind_eq_ok, require_eq_ok, exists_const, result_spend,
      true_and, Except.ok.injEq, result_pure, Prod.exists, hlen]
    exact ⟨by omega, d, hd, _, hsum, _, hpayload, rfl, _, index_eq_ok.mpr hversion, rfl, c, hc, _,
      hnum, hcount, es, _, (readEntries_eq_ok (by omega) (by omega)).mpr
        ⟨rfl, hfits, hentries, hpayloadLen, by omega⟩, rfl, rfl⟩

/-! ## What the decoder spends -/

theorem slice_eq (h : i ≤ j ∧ j ≤ data.length) :
    slice data i j = pure ((data.drop i).take (j - i)) := by
  rw [slice, require_true h, pure_bind_eq]

theorem uint32_eq (h : 4 ≤ b.length) : uint32 b = pure (decode (b.take 4)) := by
  rw [uint32, require_true h, pure_bind_eq]

theorem index_eq (h : i < data.length) : index data i = pure data[i] := by
  rw [index, getElem?_eq_getElem h]

/-- Four bytes within the input can be read. -/
theorem four_le_length_slice (h : i + 4 ≤ data.length) :
    4 ≤ ((data.drop i).take (i + 4 - i)).length := by
  rw [length_take, length_drop]
  omega

section

variable (hlimit : payloadLen ≤ data.length) (hpos : pos ≤ payloadLen)
include hlimit hpos

theorem readField_frugal {noLength noData : Corruption} :
    Frugal .panic payloadLen pos (readField data payloadLen noLength noData pos) := by
  refine .require (fun h => nomatch h) hpos fun hfour => ?_
  rw [slice_eq ⟨le_add_right pos 4, hfour.trans hlimit⟩, pure_bind_eq,
    uint32_eq (four_le_length_slice (hfour.trans hlimit)), pure_bind_eq]
  refine .require (fun h => nomatch h) hpos fun hdata => ?_
  rw [slice_eq ⟨le_add_right (pos + 4) _, hdata.trans hlimit⟩]
  exact .spend _ (by omega) hdata

theorem readEntry_frugal : Frugal .panic payloadLen pos (readEntry data payloadLen i pos) := by
  refine (readField_frugal hlimit hpos).bind fun key mid hkey => ?_
  have hmid := ((readField_eq_ok hlimit).mp hkey).2.2.2
  refine (readField_frugal hlimit hmid).bind fun value stop hvalue => ?_
  exact .pure _ ((readField_eq_ok hlimit).mp hvalue).2.2.2

theorem readEntries_frugal {n : ℕ} :
    Frugal .panic payloadLen pos (readEntries data payloadLen n i pos) := by
  induction n generalizing i pos with
  | zero => exact .pure _ hpos
  | succ n ih =>
    refine (readEntry_frugal hlimit hpos).bind fun e mid he => ?_
    have hmid := ((readEntry_eq_ok hlimit).mp he).2.2.2
    refine (ih hmid).bind fun es stop hes => ?_
    exact .pure _ ((readEntries_eq_ok hlimit hmid).mp hes).2.2.2.2

end

/-- The decoder never leaves its input, and makes buffers of at most seven times its length. -/
theorem deserializeHashMapSnapshot_within (data : Bytes) :
    Within .panic (7 * data.length) (deserializeHashMapSnapshot data) := by
  refine .require (fun h => nomatch h) fun hshort => ?_
  obtain ⟨payloadLen, hlen⟩ : ∃ n, data.length = n + 4 := ⟨data.length - 4, by omega⟩
  have hfour : 4 ≤ ((data.drop payloadLen).take (data.length - payloadLen)).length := by
    rw [hlen]
    exact four_le_length_slice hlen.ge
  have hnum : 4 ≤ ((data.drop 1).take (5 - 1)).length := four_le_length_slice (by omega)
  rw [hlen, Nat.add_sub_cancel, ← hlen]
  dsimp only
  rw [slice_eq ⟨by omega, le_rfl⟩, pure_bind_eq, uint32_eq hfour, pure_bind_eq,
    slice_eq ⟨by omega, by omega⟩, pure_bind_eq]
  refine .require (fun h => nomatch h) fun _ => ?_
  rw [index_eq (by omega), pure_bind_eq]
  refine .require (fun h => nomatch h) fun _ => ?_
  rw [slice_eq ⟨by omega, by omega⟩, pure_bind_eq, uint32_eq hnum, pure_bind_eq]
  refine .require (fun h => nomatch h) fun hcount => ?_
  refine (Within.spend ((readEntries_frugal (by omega) (by omega)).within.bind fun r _ => ?_)).mono
    (?_ : _ + (_ + 0) ≤ _)
  · exact Within.require (fun h => nomatch h) fun _ => Within.pure _
  · have hcapacity := hcount.trans (mod_le _ _)
    rw [kvEntrySize]
    omega

/-! ## Both ways -/

/-- An entry takes eight bytes or more, so the number of entries is within the capacity of a payload
of less than 32 GiB. -/
theorem countFits_of_lt (h : (snapshotPayload es).length < 2 ^ 35) : CountFits es := by
  have hle : 8 * es.length ≤ (es.flatMap KvEntry.bytes).length := by
    induction es with
    | nil => exact zero_le _
    | cons e es ih =>
      rw [length_snapshotPayload, flatMap_cons, length_append] at h
      have hrest := ih (by rw [length_snapshotPayload]; omega)
      rw [flatMap_cons, length_append, length_cons, KvEntry.bytes,
        length_append, length_field, length_field]
      omega
  have hpayload := length_snapshotPayload es
  rw [CountFits, mod_eq_of_lt (by omega)]
  omega

/-- **The format is a bijection on what it accepts**: a list whose lengths fit into four bytes is
read back if and only if its length is within the capacity that the decoder computes; what the
decoder accepts is the encoding of what it returns; and it stays within its input, with buffers of
at most seven times its length. -/
theorem hashMapSnapshot_inverse (es : List KvEntry) (data : Bytes) :
    (es.length < 2 ^ 32 → (∀ e ∈ es, e.Fits) →
      ((deserializeHashMapSnapshot (serializeHashMapSnapshot es)).result = .ok es ↔
        CountFits es)) ∧
    ((deserializeHashMapSnapshot data).result = .ok es → serializeHashMapSnapshot es = data) ∧
    (deserializeHashMapSnapshot data).result ≠ .error .panic ∧
    (deserializeHashMapSnapshot data).spent ≤ 7 * data.length := by
  refine ⟨fun hn hfits => ?_, fun h => ?_, ?_⟩
  · rw [deserializeHashMapSnapshot_eq_ok]
    exact ⟨fun h => h.2.2.2, fun h => ⟨rfl, hn, hfits, h⟩⟩
  · exact (deserializeHashMapSnapshot_eq_ok.mp h).1.symm
  · have h := deserializeHashMapSnapshot_within data
    exact ⟨h.safe, h.bounded⟩

/-- Two entries, one with an empty value. -/
theorem hashMapSnapshot_inverse_pair : let es : List KvEntry := [⟨[1], [2, 3]⟩, ⟨[4], []⟩]
    (deserializeHashMapSnapshot (serializeHashMapSnapshot es)).result = .ok es := by
  refine ((hashMapSnapshot_inverse _ []).1 (by decide) ?_).mpr (countFits_of_lt (by decide))
  simp [KvEntry.Fits]

/-- Eight entries without keys: one value of the one length and seven of the other. -/
def eightEntries (first other : ℕ) : List KvEntry :=
  ⟨[], replicate first 0⟩ :: replicate 7 ⟨[], replicate other 0⟩

theorem length_eightEntries (first other : ℕ) : (eightEntries first other).length = 8 := by
  rw [eightEntries, length_cons, length_replicate]

theorem length_snapshotPayload_eightEntries (first other : ℕ) :
    (snapshotPayload (eightEntries first other)).length = 69 + first + 7 * other := by
  have hbytes : ∀ n, (KvEntry.bytes ⟨[], replicate n 0⟩).length = 8 + n := by
    intro n
    rw [KvEntry.bytes, length_append, length_field, length_field, length_nil, length_replicate]
    omega
  rw [length_snapshotPayload, eightEntries, flatMap_cons, length_append, hbytes,
    length_flatMap, map_replicate, hbytes, sum_replicate_nat]
  omega

theorem fits_of_mem_eightEntries (hfirst : first < 2 ^ 32)
    (hother : other < 2 ^ 32) (he : e ∈ eightEntries first other) : e.Fits := by
  rcases mem_cons.mp he with rfl | he
  · rw [KvEntry.Fits, length_replicate]
    exact ⟨Nat.two_pow_pos 32, hfirst⟩
  · rw [eq_of_mem_replicate he, KvEntry.Fits, length_replicate]
    exact ⟨Nat.two_pow_pos 32, hother⟩

theorem refused_of_wrap (h : (69 + first + 7 * other) / 8 % 2 ^ 32 < 8) :
    (deserializeHashMapSnapshot (serializeHashMapSnapshot (eightEntries first other))).result
      ≠ .ok (eightEntries first other) := by
  intro hok
  have hcount := (deserializeHashMapSnapshot_eq_ok.mp hok).2.2.2
  rw [CountFits, length_snapshotPayload_eightEntries, length_eightEntries] at hcount
  omega

/-- The capacity of a payload of 32 GiB is converted to zero, and the snapshot refused. -/
theorem deserializeHashMapSnapshot_wraps : let es := eightEntries (2 ^ 32 - 62) (2 ^ 32 - 1)
    es.length < 2 ^ 32 ∧ (∀ e ∈ es, e.Fits) ∧
      (deserializeHashMapSnapshot (serializeHashMapSnapshot es)).result ≠ .ok es := by
  refine ⟨?_, fun e he => ?_, refused_of_wrap ?_⟩
  · rw [length_eightEntries]
    decide
  · exact fits_of_mem_eightEntries (by decide) (by decide) he
  · decide

end Wire.Engine.Backend
