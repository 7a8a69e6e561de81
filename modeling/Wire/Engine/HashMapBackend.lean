import Wire.Engine.HashMapSnapshot
import Wire.Library.BinarySearch
import Wire.Library.PrefixRange

/-!
# The in-memory state backend

`HashMapStateBackend` keeps its entries in a slice sorted by the key, finds them by binary search,
shifts the slice to insert and to delete, and counts the bytes as it goes.  An iterator has a copy
of the entries it is for.  A snapshot is the encoding of the entries.

Every method but `Restore` does what the finite map does (`mapSimulation`).  `Restore` does so for a
handle whose snapshot can be read back, and that is every handle of a state that `Fits`: a length
that does not fit into four bytes is cut off without an error, and the limit of the decoder for the
number of entries wraps at 32 GiB.

The byte counts are integers: they are those of slices in memory, far below `2 ^ 63`.
-/

namespace Wire.Engine.Backend

open List LittleEndian

structure HashMapStateBackend where
  /-- Sorted by key. -/
  entries : List KvEntry := []
  curMemBytes : ℤ := 0
  memLimit : ℤ
  closed : Bool := false

structure HashMapIterator where
  entries : List KvEntry := []
  pos : ℤ := 0

inductive StateBackendType where
  | pebble
  | hashMap
deriving DecidableEq, Repr

structure SnapshotHandle where
  checkpointID : ℕ
  backendType : StateBackendType
  data : Bytes

/-! ## Slices -/

/-- `copy(dst, src)`, as what is then in `dst`. -/
def copySlice (dst src : List KvEntry) : List KvEntry :=
  src.take dst.length ++ dst.drop src.length

/-- Append an entry, shift all from the index on by one, and write at the index. -/
def insertAt (entries : List KvEntry) (idx : ℕ) (entry : KvEntry) : List KvEntry :=
  let entries := entries ++ [⟨[], []⟩]
  let entries := entries.take (idx + 1) ++ copySlice (entries.drop (idx + 1)) (entries.drop idx)
  entries.set idx entry

/-! ## The methods -/

def newHashMapStateBackend (memLimit : ℤ) : HashMapStateBackend :=
  { memLimit }

namespace HashMapStateBackend

variable (h : HashMapStateBackend)

def search (key : Bytes) : ℕ :=
  BinarySearch.search h.entries.length fun i => key ≤ (h.entries.getD i ⟨[], []⟩).key

/-- The entry at the index, if it has the key. -/
def found (idx : ℕ) (key : Bytes) : Option KvEntry :=
  h.entries[idx]?.filter (·.key = key)

def put (key value : Bytes) : HashMapStateBackend × Except BackendError Unit :=
  if h.closed then (h, .error .backendClosed)
  else
    let idx := h.search key
    match h.found idx key with
    | some old =>
      let delta : ℤ := value.length - old.value.length
      if 0 < h.memLimit ∧ h.memLimit < h.curMemBytes + delta then (h, .error .memoryLimitExceeded)
      else
        ({ h with
            entries := h.entries.set idx { old with value }
            curMemBytes := h.curMemBytes + delta }, .ok ())
    | none =>
      let entrySize : ℤ := key.length + value.length
      if 0 < h.memLimit ∧ h.memLimit < h.curMemBytes + entrySize then
        (h, .error .memoryLimitExceeded)
      else
        ({ h with
            entries := insertAt h.entries idx ⟨key, value⟩
            curMemBytes := h.curMemBytes + entrySize }, .ok ())

def get (key : Bytes) : Except BackendError Bytes :=
  if h.closed then .error .backendClosed
  else
    match h.found (h.search key) key with
    | some e => .ok e.value
    | none => .error .keyNotFound

def delete (key : Bytes) : HashMapStateBackend × Except BackendError Unit :=
  if h.closed then (h, .error .backendClosed)
  else
    let idx := h.search key
    match h.found idx key with
    | none => (h, .error .keyNotFound)
    | some e =>
      ({ h with
          entries := h.entries.take idx ++ h.entries.drop (idx + 1)
          curMemBytes := h.curMemBytes - (e.key.length + e.value.length) }, .ok ())

def newIterator (keyPrefix : Bytes) : HashMapIterator :=
  if h.closed then {}
  else
    -- the loop from the start of the range ends at the first key without the prefix
    let snapshot := (h.entries.drop (h.search keyPrefix)).takeWhile (keyPrefix <+: ·.key)
    { entries := snapshot, pos := -1 }

def checkpoint (checkpointID : ℕ) : Except BackendError SnapshotHandle :=
  if h.closed then .error .backendClosed
  else
    let data := serializeHashMapSnapshot h.entries
    .ok { checkpointID, backendType := .hashMap, data }

def restore (handle : SnapshotHandle) : HashMapStateBackend × Except BackendError Unit :=
  if handle.backendType ≠ .hashMap then (h, .error .snapshotCorrupt)
  else
    match (deserializeHashMapSnapshot handle.data).result with
    | .error _ => (h, .error .snapshotCorrupt)
    | .ok entries =>
      if h.closed then (h, .error .backendClosed)
      else
        let memBytes : ℤ := (entries.map fun e => (e.key.length + e.value.length : ℤ)).sum
        if 0 < h.memLimit ∧ h.memLimit < memBytes then (h, .error .memoryLimitExceeded)
        else ({ h with entries, curMemBytes := memBytes }, .ok ())

def close : HashMapStateBackend × Except BackendError Unit :=
  if h.closed then (h, .error .backendClosed)
  else ({ h with closed := true, entries := [], curMemBytes := 0 }, .ok ())

def memUsage : ℤ :=
  h.curMemBytes

end HashMapStateBackend

namespace HashMapIterator

variable (it : HashMapIterator)

def next : HashMapIterator × Bool :=
  let it := { it with pos := it.pos + 1 }
  (it, it.pos < it.entries.length)

/-- The entry at the position. -/
def at? : Option KvEntry :=
  if it.pos < 0 ∨ it.entries.length ≤ it.pos then none else it.entries[it.pos.toNat]?

def key : Bytes :=
  (it.at?.map KvEntry.key).getD []

def value : Bytes :=
  (it.at?.map KvEntry.value).getD []

def close : HashMapIterator :=
  { it with entries := [] }

end HashMapIterator

def hashMapBackend : StateBackend where
  State := HashMapStateBackend
  Iterator := HashMapIterator
  put := HashMapStateBackend.put
  get := HashMapStateBackend.get
  delete := HashMapStateBackend.delete
  newIterator := HashMapStateBackend.newIterator
  next := HashMapIterator.next
  key := HashMapIterator.key
  value := HashMapIterator.value
  closeIterator := HashMapIterator.close

def hashMapSnapshots : SnapshotBackend where
  toStateBackend := hashMapBackend
  Handle := SnapshotHandle
  checkpoint := HashMapStateBackend.checkpoint
  restore := HashMapStateBackend.restore

/-! ## A sorted slice -/

def Sorted (es : List KvEntry) : Prop :=
  es.Pairwise fun a b => a.key < b.key

theorem insertAt_eq (before after : List KvEntry) (e : KvEntry) :
    insertAt (before ++ after) before.length e = before ++ e :: after := by
  have hcopy : ∀ z : KvEntry, copySlice ((before ++ (after ++ [z])).drop (before.length + 1))
      ((before ++ (after ++ [z])).drop before.length) = after := by
    intro z
    rw [copySlice, drop_left, ← drop_drop, drop_left, drop_drop,
      length_drop, length_append, length_singleton, Nat.add_sub_cancel,
      take_left, drop_of_length_le, append_nil]
    rw [length_append, length_singleton]
    omega
  have hhead : ∀ z : KvEntry, ∃ x, (after ++ [z]).take 1 = [x] := by
    intro z
    cases after with
    | nil => exact ⟨z, rfl⟩
    | cons a after => exact ⟨a, rfl⟩
  obtain ⟨x, hx⟩ := hhead ⟨[], []⟩
  rw [insertAt, append_assoc, hcopy, take_length_add_append, hx, append_assoc,
    set_append_right _ _ le_rfl, Nat.sub_self]
  rfl

/-- What the search finds: the entry with the key between those before and those after it, or the
place where it would be. -/
inductive Located (es : List KvEntry) (idx : ℕ) (key : Bytes) : Option KvEntry → Prop where
  | here (before after : List KvEntry) (value : Bytes) (hes : es = before ++ ⟨key, value⟩ :: after)
      (hidx : idx = before.length) : Located es idx key (some ⟨key, value⟩)
  | missing (before after : List KvEntry) (hes : es = before ++ after)
      (hidx : idx = before.length) (hbefore : ∀ e ∈ before, e.key < key)
      (hafter : ∀ e ∈ after, key < e.key) : Located es idx key none

theorem exists_split {h : HashMapStateBackend} (hs : Sorted h.entries) (key : Bytes) :
    ∃ before after, h.entries = before ++ after ∧ h.search key = before.length ∧
      (∀ e ∈ before, e.key < key) ∧ ∀ e ∈ after, key ≤ e.key := by
  have hfirst : BinarySearch.IsFirst h.entries.length
      (fun i => decide (key ≤ (h.entries.getD i ⟨[], []⟩).key)) (h.search key) := by
    refine BinarySearch.isFirst_search fun k l hkl hl hk => ?_
    rw [decide_eq_true_iff, getD_eq_getElem _ _ (hkl.trans_lt hl)] at hk
    rw [decide_eq_true_iff, getD_eq_getElem _ _ hl]
    rcases hkl.lt_or_eq with hlt | rfl
    · exact hk.trans (pairwise_iff_getElem.mp hs k l _ hl hlt).le
    · exact hk
  refine ⟨h.entries.take (h.search key), h.entries.drop (h.search key),
    (take_append_drop _ _).symm, (length_take_of_le hfirst.le).symm, ?_, ?_⟩
  · intro e he
    obtain ⟨k, hk, rfl⟩ := mem_take_iff_getElem.mp he
    have hbefore := hfirst.before k (by omega)
    rwa [decide_eq_false_iff_not, not_le, getD_eq_getElem _ _ (by omega)] at hbefore
  · intro e he
    obtain ⟨k, hk, rfl⟩ := mem_drop_iff_getElem.mp he
    have hafter := hfirst.after (h.search key + k) (Nat.le_add_right _ _) (by omega)
    rwa [decide_eq_true_iff, getD_eq_getElem _ _ (by omega)] at hafter

theorem located {h : HashMapStateBackend} (hs : Sorted h.entries) (key : Bytes) :
    Located h.entries (h.search key) key (h.found (h.search key) key) := by
  obtain ⟨before, after, hes, hidx, hbefore, hafter⟩ := exists_split hs key
  have hfound : h.found (h.search key) key = after.head?.filter (·.key = key) := by
    rw [HashMapStateBackend.found, hidx, hes, getElem?_append_right le_rfl, Nat.sub_self,
      head?_eq_getElem?]
  rw [hfound]
  cases after with
  | nil => exact .missing before [] hes hidx hbefore fun e he => absurd he not_mem_nil
  | cons e after =>
    by_cases hkey : e.key = key
    · obtain ⟨k, value⟩ := e
      cases hkey
      rw [head?_cons, Option.filter_some_pos (by simp)]
      exact .here before after value hes hidx
    · rw [head?_cons, Option.filter_some_neg (by simpa using hkey)]
      refine .missing before (e :: after) hes hidx hbefore ?_
      have hlt : key < e.key := lt_of_le_of_ne (hafter e mem_cons_self) (.symm hkey)
      rw [hes] at hs
      have hrest := (pairwise_cons.mp (pairwise_append.mp hs).2.1).1
      exact forall_mem_cons.mpr ⟨hlt, fun a ha => hlt.trans (hrest a ha)⟩

/-! ## The map that a slice stands for -/

structure Represents (es : List KvEntry) (m : Contents) : Prop where
  sorted : Sorted es
  mem : ∀ k v, ⟨k, v⟩ ∈ es ↔ m.lookup k = some v

/-- A slice with a gap for one key, and the map apart from that key. -/
structure Around (before after : List KvEntry) (key : Bytes) (m : Contents) : Prop where
  sorted : Sorted (before ++ after)
  lt : ∀ e ∈ before, e.key < key
  gt : ∀ e ∈ after, key < e.key
  mem : ∀ k v, k ≠ key → (⟨k, v⟩ ∈ before ++ after ↔ m.lookup k = some v)

variable {es before after : List KvEntry} {m : Contents} {key value : Bytes}

theorem Represents.around_here (h : Represents (before ++ ⟨key, value⟩ :: after) m) :
    Around before after key m where
  sorted := h.sorted.sublist (.append_left (sublist_cons_self _ _) _)
  lt e he := (pairwise_append.mp h.sorted).2.2 e he _ mem_cons_self
  gt := (pairwise_cons.mp (pairwise_append.mp h.sorted).2.1).1
  mem k v hk := by
    rw [← h.mem, mem_append, mem_append, mem_cons]
    simp [hk]

theorem Represents.lookup_missing (h : Represents (before ++ after) m)
    (hbefore : ∀ e ∈ before, e.key < key) (hafter : ∀ e ∈ after, key < e.key) :
    m.lookup key = none := by
  rw [Option.eq_none_iff_forall_ne_some]
  intro v hv
  rcases mem_append.mp ((h.mem key v).mpr hv) with he | he
  · exact lt_irrefl _ (hbefore _ he)
  · exact lt_irrefl _ (hafter _ he)

theorem Represents.lookup_here (h : Represents (before ++ ⟨key, value⟩ :: after) m) :
    m.lookup key = some value :=
  (h.mem key value).mp (mem_append_right _ mem_cons_self)

section

variable (h : Around before after key m)
include h

/-- The key is not among the others. -/
theorem Around.notMem (v : Bytes) : ⟨key, v⟩ ∉ before ++ after := by
  intro he
  rcases mem_append.mp he with he | he
  · exact lt_irrefl _ (h.lt _ he)
  · exact lt_irrefl _ (h.gt _ he)

theorem Around.insert (value : Bytes) :
    Represents (before ++ ⟨key, value⟩ :: after) (m.insert key value) where
  sorted := by
    obtain ⟨hb, ha, hba⟩ := pairwise_append.mp h.sorted
    refine pairwise_append.mpr ⟨hb, pairwise_cons.mpr ⟨h.gt, ha⟩, fun a hab b hbb => ?_⟩
    rcases mem_cons.mp hbb with rfl | hbb
    · exact h.lt a hab
    · exact hba a hab b hbb
  mem k v := by
    have hsplit : ⟨k, v⟩ ∈ before ++ ⟨key, value⟩ :: after ↔
        (k = key ∧ v = value) ∨ ⟨k, v⟩ ∈ before ++ after := by
      simp only [mem_append, mem_cons, KvEntry.mk.injEq]
      tauto
    rw [hsplit]
    by_cases hk : k = key
    · subst hk
      have hnot := h.notMem v
      simp only [hnot, true_and, or_false, Finmap.lookup_insert, Option.some.injEq, eq_comm]
    · rw [Finmap.lookup_insert_of_ne _ hk, ← h.mem k v hk]
      simp [hk]

theorem Around.erase : Represents (before ++ after) (m.erase key) where
  sorted := h.sorted
  mem k v := by
    by_cases hk : k = key
    · subst hk
      have hnot := h.notMem v
      simp only [hnot, Finmap.lookup_erase, reduceCtorEq]
    · rw [Finmap.lookup_erase_ne hk, h.mem k v hk]

end

theorem represents_nil : Represents [] ∅ :=
  ⟨.nil, fun k v => by simp⟩

/-! ## Bytes -/

def KvEntry.size (e : KvEntry) : ℕ :=
  e.key.length + e.value.length

/-- The keys of the map, in their order. -/
theorem Represents.keys_eq (h : Represents es m) : m.keys = (es.map KvEntry.key).toFinset := by
  ext k
  rw [Finmap.mem_keys, ← Finmap.lookup_isSome, Option.isSome_iff_exists, mem_toFinset, mem_map]
  constructor
  · rintro ⟨v, hv⟩
    exact ⟨⟨k, v⟩, (h.mem k v).mpr hv, rfl⟩
  · rintro ⟨e, he, rfl⟩
    exact ⟨e.value, (h.mem e.key e.value).mp he⟩

theorem Sorted.keys (h : Sorted es) : (es.map KvEntry.key).Pairwise (· < ·) :=
  pairwise_map.mpr h

theorem Sorted.nodup (h : Sorted es) : (es.map KvEntry.key).Nodup :=
  h.keys.imp fun hlt => hlt.ne

theorem Represents.card_eq (h : Represents es m) : m.keys.card = es.length := by
  rw [h.keys_eq, toFinset_card_of_nodup h.sorted.nodup, length_map]

theorem Represents.total_eq (h : Represents es m) : total m = (es.map KvEntry.size).sum := by
  rw [total, h.keys_eq, sum_toFinset _ h.sorted.nodup, map_map]
  congr 1
  refine map_congr_left fun e he => ?_
  rw [Function.comp_apply, (h.mem e.key e.value).mp he]
  rfl

/-! ## Ranges -/

/-- Two sorted slices with the same entries. -/
theorem Sorted.ext {l l' : List KvEntry} (h : Sorted l) (h' : Sorted l')
    (hmem : ∀ e, e ∈ l ↔ e ∈ l') : l = l' := by
  exact Pairwise.eq_of_mem_iff h h' hmem

theorem Represents.matching_eq (h : Represents es m) (keyPrefix : Bytes) :
    matching m keyPrefix = es.filter (keyPrefix <+: ·.key) := by
  refine Sorted.ext ?_ (Pairwise.filter _ h.sorted) fun e => ?_
  · exact pairwise_map.mpr (Finset.sortedLT_sort _).pairwise
  · obtain ⟨k, v⟩ := e
    simp only [matching, mem_map, Finset.mem_sort, Finset.mem_filter, mem_filter,
      decide_eq_true_iff, KvEntry.mk.injEq]
    rw [h.mem]
    constructor
    · rintro ⟨k', ⟨hk, hkeyPrefix⟩, rfl, rfl⟩
      rw [Finmap.mem_keys, ← Finmap.lookup_isSome, Option.isSome_iff_exists] at hk
      obtain ⟨v, hv⟩ := hk
      rw [hv]
      exact ⟨rfl, hkeyPrefix⟩
    · rintro ⟨hv, hkeyPrefix⟩
      refine ⟨k, ⟨?_, hkeyPrefix⟩, rfl, by rw [hv]; rfl⟩
      rw [Finmap.mem_keys, ← Finmap.lookup_isSome, hv]
      rfl

/-- From the start of the range on, the keys with the prefix come first. -/
theorem takeWhile_eq_filter {keyPrefix : Bytes} (hs : Sorted after)
    (hafter : ∀ e ∈ after, keyPrefix ≤ e.key) :
    after.takeWhile (keyPrefix <+: ·.key) = after.filter (keyPrefix <+: ·.key) := by
  induction after with
  | nil => rfl
  | cons e after ih =>
    obtain ⟨hrest, hs⟩ := pairwise_cons.mp hs
    obtain ⟨he, hafter⟩ := forall_mem_cons.mp hafter
    by_cases hkey : keyPrefix <+: e.key
    · rw [takeWhile_cons_of_pos (by simpa using hkey), filter_cons_of_pos (by simpa using hkey),
        ih hs hafter]
    · rw [takeWhile_cons_of_neg (by simpa using hkey), filter_cons_of_neg (by simpa using hkey),
        eq_comm, filter_eq_nil_iff]
      intro a ha hka
      rw [decide_eq_true_iff] at hka
      exact hkey (PrefixRange.prefix_of_between he (hrest a ha).le hka)

theorem newIterator_entries {h : HashMapStateBackend} (hopen : h.closed = false)
    (hm : Represents h.entries m) (keyPrefix : Bytes) :
    h.newIterator keyPrefix = { entries := matching m keyPrefix, pos := -1 } := by
  obtain ⟨before, after, hes, hidx, hbefore, hafter⟩ := exists_split hm.sorted keyPrefix
  have hs := hm.sorted
  rw [hes] at hs
  have hnone : before.filter (keyPrefix <+: ·.key) = [] := by
    rw [filter_eq_nil_iff]
    intro e he hkey
    rw [decide_eq_true_iff] at hkey
    exact absurd (hbefore e he) (not_lt.mpr (PrefixRange.prefix_le hkey))
  rw [HashMapStateBackend.newIterator, hopen, if_neg Bool.false_ne_true, hm.matching_eq, hidx, hes,
    drop_left, takeWhile_eq_filter (pairwise_append.mp hs).2.1 hafter,
    filter_append, hnone, nil_append]

/-! ## Simulation -/

/-- An open backend holds the map, and has counted its bytes. -/
structure Holds (h : HashMapStateBackend) (m : MapState) : Prop where
  isOpen : h.closed = false
  limit : h.memLimit = m.limit
  represents : Represents h.entries m.contents
  bytes : h.curMemBytes = total m.contents

/-- An iterator at its position in the iteration. -/
structure Follows (it : HashMapIterator) (j : Iteration) : Prop where
  pos : -1 ≤ it.pos
  rest : it.entries.drop (it.pos + 1).toNat = j.rest
  current : it.at? = j.current

variable {h : HashMapStateBackend} {s : MapState}

theorem exceeds_iff {limit bytes : ℤ} : exceeds limit bytes = true ↔ 0 < limit ∧ limit < bytes := by
  rw [exceeds, decide_eq_true_iff]

section

variable (hs : Holds h s)
include hs

theorem Holds.not_closed : ¬ h.closed = true := by
  rw [hs.isOpen]
  exact Bool.false_ne_true

/-- To store what the map stores, unless that is over the limit. -/
theorem Holds.store {es : List KvEntry} {bytes : ℤ} {contents : Contents}
    (hes : Represents es contents) (hbytes : bytes = total contents) :
    let r : HashMapStateBackend × Except BackendError Unit :=
      if 0 < h.memLimit ∧ h.memLimit < bytes then (h, .error .memoryLimitExceeded)
      else ({ h with entries := es, curMemBytes := bytes }, .ok ())
    let q := s.restore contents
    Holds r.1 q.1 ∧ r.2 = q.2 := by
  have hlimit : exceeds s.limit (total contents) = true ↔ 0 < h.memLimit ∧ h.memLimit < bytes := by
    rw [exceeds_iff, hs.limit, hbytes]
  by_cases hover : 0 < h.memLimit ∧ h.memLimit < bytes
  · rw [MapState.restore, if_pos (hlimit.mpr hover), if_pos hover]
    exact ⟨hs, rfl⟩
  · rw [MapState.restore, if_neg (mt hlimit.mp hover), if_neg hover]
    exact ⟨⟨hs.isOpen, hs.limit, hes, hbytes⟩, rfl⟩

theorem Holds.put (key value : Bytes) :
    Holds (h.put key value).1 (s.put key value).1 ∧ (h.put key value).2 = (s.put key value).2 := by
  have hm := hs.represents
  have hlocated := located hm.sorted key
  have hbytes := hs.bytes
  rw [hm.total_eq] at hbytes
  rw [HashMapStateBackend.put, if_neg hs.not_closed]
  dsimp only
  generalize h.found (h.search key) key = found at hlocated
  cases hlocated with
  | here before after old hes hidx =>
    rw [hes] at hm hbytes
    have hnew := hm.around_here.insert value
    have hset : h.entries.set (h.search key) ⟨key, value⟩ = before ++ ⟨key, value⟩ :: after := by
      rw [hes, hidx, set_append_right _ _ le_rfl, Nat.sub_self]
      rfl
    have hdelta : h.curMemBytes + ((value.length : ℤ) - old.length)
        = total (s.contents.insert key value) := by
      rw [hnew.total_eq, hbytes]
      simp only [map_append, map_cons, sum_append, sum_cons, KvEntry.size]
      omega
    rw [← hset] at hnew
    exact hs.store hnew hdelta
  | missing before after hes hidx hbefore hafter =>
    rw [hes] at hm hbytes
    have haround : Around before after key s.contents :=
      ⟨hm.sorted, hbefore, hafter, fun k v _ => hm.mem k v⟩
    have hnew := haround.insert value
    have hinsert : insertAt h.entries (h.search key) ⟨key, value⟩
        = before ++ ⟨key, value⟩ :: after := by
      rw [hes, hidx, insertAt_eq]
    have hsize : h.curMemBytes + ((key.length : ℤ) + value.length)
        = total (s.contents.insert key value) := by
      rw [hnew.total_eq, hbytes]
      simp only [map_append, map_cons, sum_append, sum_cons, KvEntry.size]
      omega
    rw [← hinsert] at hnew
    exact hs.store hnew hsize

theorem Holds.get (key : Bytes) : h.get key = s.get key := by
  have hm := hs.represents
  have hlocated := located hm.sorted key
  rw [HashMapStateBackend.get, if_neg hs.not_closed, MapState.get]
  generalize h.found (h.search key) key = found at hlocated
  cases hlocated with
  | here before after old hes hidx =>
    rw [hes] at hm
    rw [hm.lookup_here]
  | missing before after hes hidx hbefore hafter =>
    rw [hes] at hm
    rw [hm.lookup_missing hbefore hafter]

theorem Holds.delete (key : Bytes) :
    Holds (h.delete key).1 (s.delete key).1 ∧ (h.delete key).2 = (s.delete key).2 := by
  have hm := hs.represents
  have hlocated := located hm.sorted key
  have hbytes := hs.bytes
  rw [hm.total_eq] at hbytes
  rw [HashMapStateBackend.delete, if_neg hs.not_closed, MapState.delete]
  dsimp only
  generalize h.found (h.search key) key = found at hlocated
  cases hlocated with
  | here before after old hes hidx =>
    rw [hes] at hm hbytes
    have hnew := hm.around_here.erase
    have hcut : h.entries.take (h.search key) ++ h.entries.drop (h.search key + 1)
        = before ++ after := by
      rw [hes, hidx, take_left, ← drop_drop, drop_left]
      rfl
    have hsize : h.curMemBytes - ((key.length : ℤ) + old.length)
        = total (s.contents.erase key) := by
      rw [hnew.total_eq, hbytes]
      simp only [map_append, map_cons, sum_append, sum_cons, KvEntry.size]
      omega
    rw [← hcut] at hnew
    rw [hm.lookup_here]
    exact ⟨⟨hs.isOpen, hs.limit, hnew, hsize⟩, rfl⟩
  | missing before after hes hidx hbefore hafter =>
    rw [hes] at hm
    rw [hm.lookup_missing hbefore hafter]
    exact ⟨hs, rfl⟩

end

/-! ## Iterators -/

variable {it : HashMapIterator} {j : Iteration}

theorem follows_newIterator (hs : Holds h s) (keyPrefix : Bytes) :
    Follows (h.newIterator keyPrefix) { rest := matching s.contents keyPrefix } := by
  rw [newIterator_entries hs.isOpen hs.represents]
  exact ⟨le_rfl, rfl, rfl⟩

theorem HashMapIterator.at?_eq (h : 0 ≤ it.pos) : it.at? = it.entries[it.pos.toNat]? := by
  rw [HashMapIterator.at?]
  split
  · next hout =>
    rw [eq_comm, getElem?_eq_none_iff]
    omega
  · rfl

@[simp] theorem HashMapIterator.pos_next : it.next.1.pos = it.pos + 1 := rfl

@[simp] theorem HashMapIterator.entries_next : it.next.1.entries = it.entries := rfl

@[simp] theorem HashMapIterator.more_next :
    it.next.2 = decide (it.pos + 1 < it.entries.length) := rfl

theorem Follows.next (hf : Follows it j) : Follows it.next.1 j.next.1 ∧ it.next.2 = j.next.2 := by
  have hpos := hf.pos
  obtain ⟨n, hn⟩ : ∃ n : ℕ, it.pos + 1 = n := ⟨(it.pos + 1).toNat, by omega⟩
  have hrest := hf.rest
  have hat : it.next.1.at? = it.next.1.entries[it.next.1.pos.toNat]? :=
    HashMapIterator.at?_eq (by rw [it.pos_next]; omega)
  have hdrop : it.next.1.entries.drop (it.next.1.pos + 1).toNat = (it.entries.drop n).tail := by
    rw [it.pos_next, it.entries_next, hn, tail_drop]
    rfl
  rw [hn, Int.toNat_natCast] at hrest
  rw [it.pos_next, it.entries_next, hn, Int.toNat_natCast, ← head?_drop, hrest] at hat
  rw [hrest] at hdrop
  have hpos' : -1 ≤ it.next.1.pos := by
    rw [it.pos_next]
    omega
  rw [it.more_next, hn, Iteration.next]
  cases hj : j.rest with
  | nil =>
    rw [hj] at hat hdrop hrest
    have hlen := drop_eq_nil_iff.mp hrest
    exact ⟨⟨hpos', hdrop, hat⟩, decide_eq_false (by omega)⟩
  | cons e rest =>
    rw [hj] at hat hdrop hrest
    have hlen : n < it.entries.length := by
      by_contra hle
      rw [drop_eq_nil_of_le (not_lt.mp hle)] at hrest
      cases hrest
    exact ⟨⟨hpos', hdrop, hat⟩, decide_eq_true (by omega)⟩

theorem Follows.close (hf : Follows it j) : Follows it.close { rest := [] } where
  pos := hf.pos
  rest := drop_nil
  current := by
    rw [HashMapIterator.at?]
    split <;> rfl

/-- **The in-memory backend does what the finite map does.** -/
def mapSimulation : Simulation hashMapBackend mapBackend where
  state := Holds
  iterator := Follows
  put hs k v := Holds.put hs k v
  get hs k := Holds.get hs k
  delete hs k := Holds.delete hs k
  newIterator hs p := follows_newIterator hs p
  next hf := Follows.next hf
  key hf := congrArg (fun o => (Option.map KvEntry.key o).getD []) hf.current
  value hf := congrArg (fun o => (Option.map KvEntry.value o).getD []) hf.current
  closeIterator hf := Follows.close hf

/-! ## Snapshots -/

/-- The contents can be read back from their snapshot. -/
structure SnapshotFits (m : Contents) : Prop where
  count : m.keys.card < 2 ^ 32
  lengths : ∀ k v, m.lookup k = some v → k.length < 2 ^ 32 ∧ v.length < 2 ^ 32
  /-- With an eighth of the payload as the decoder computes it. -/
  capacity : m.keys.card ≤ (5 + 8 * m.keys.card + total m) / 8 % 2 ^ 32

theorem length_flatMap_bytes (es : List KvEntry) :
    (es.flatMap KvEntry.bytes).length = 8 * es.length + (es.map KvEntry.size).sum := by
  induction es with
  | nil => rfl
  | cons e es ih =>
    rw [flatMap_cons, length_append, ih, length_cons, map_cons, sum_cons,
      KvEntry.bytes, length_append, length_field, length_field, KvEntry.size]
    omega

/-- A snapshot can be read back just where the contents fit. -/
theorem Represents.restorable_iff (hm : Represents es m) :
    (deserializeHashMapSnapshot (serializeHashMapSnapshot es)).result = .ok es ↔
      SnapshotFits m := by
  have hcount : CountFits es ↔ m.keys.card ≤ (5 + 8 * m.keys.card + total m) / 8 % 2 ^ 32 := by
    rw [CountFits, length_snapshotPayload, length_flatMap_bytes, hm.card_eq, hm.total_eq,
      Nat.add_assoc]
  rw [deserializeHashMapSnapshot_eq_ok, hcount, ← hm.card_eq]
  constructor
  · rintro ⟨-, hn, hfits, hcapacity⟩
    exact ⟨hn, fun k v hv => hfits ⟨k, v⟩ ((hm.mem k v).mpr hv), hcapacity⟩
  · intro h
    exact ⟨rfl, h.count, fun e he => h.lengths e.key e.value ((hm.mem _ _).mp he), h.capacity⟩

theorem sum_size (es : List KvEntry) :
    (es.map fun e => (e.key.length + e.value.length : ℤ)).sum = (es.map KvEntry.size).sum := by
  induction es with
  | nil => rfl
  | cons e es ih =>
    rw [map_cons, sum_cons, ih, map_cons, sum_cons, KvEntry.size]
    omega

/-- The handle of a snapshot of the contents. -/
structure HandleOf (x : SnapshotHandle) (m : Contents) : Prop where
  backendType : x.backendType = .hashMap
  data : ∃ es, Represents es m ∧ x.data = serializeHashMapSnapshot es

theorem Holds.checkpoint (hs : Holds h s) (id : ℕ) :
    ∃ x, h.checkpoint id = .ok x ∧ HandleOf x s.contents := by
  rw [HashMapStateBackend.checkpoint, if_neg hs.not_closed]
  exact ⟨_, rfl, rfl, h.entries, hs.represents, rfl⟩

variable {x : SnapshotHandle} {B : StateBackend} {a b : ℕ}

theorem Holds.restore (hs : Holds h s) (hx : HandleOf x m) (hfits : SnapshotFits m) :
    Holds (h.restore x).1 (s.restore m).1 ∧ (h.restore x).2 = (s.restore m).2 := by
  obtain ⟨es, hes, hdata⟩ := hx.data
  have hbytes : (es.map fun e => (e.key.length + e.value.length : ℤ)).sum = total m := by
    rw [hes.total_eq, sum_size]
  rw [HashMapStateBackend.restore, if_neg (not_not.mpr hx.backendType), hdata,
    hes.restorable_iff.mpr hfits]
  dsimp only
  rw [if_neg hs.not_closed]
  exact hs.store hes hbytes

/-- With snapshots, of what fits. -/
def snapshotSimulation : SnapshotSimulation hashMapSnapshots mapSnapshots SnapshotFits where
  toSimulation := mapSimulation
  handle := HandleOf
  checkpoint hs id := by
    obtain ⟨x, hx, hof⟩ := Holds.checkpoint hs id
    exact ⟨x, _, hx, rfl, hof⟩
  restore hs hx hfits := Holds.restore hs hx hfits

/-! ## Rejected calls -/

variable {e : BackendError}

theorem put_error (he : (h.put key value).2 = .error e) : (h.put key value).1 = h := by
  rw [HashMapStateBackend.put] at he ⊢
  dsimp only at he ⊢
  generalize h.found (h.search key) key = found at he ⊢
  by_cases hclosed : h.closed = true
  · rw [if_pos hclosed]
  · rw [if_neg hclosed] at he ⊢
    cases found with
    | some | none =>
      dsimp only at he ⊢
      split
      · rfl
      · next hlimit =>
        rw [if_neg hlimit] at he
        cases he

theorem delete_error (he : (h.delete key).2 = .error e) : (h.delete key).1 = h := by
  rw [HashMapStateBackend.delete] at he ⊢
  dsimp only at he ⊢
  generalize h.found (h.search key) key = found at he ⊢
  by_cases hclosed : h.closed = true
  · rw [if_pos hclosed]
  · rw [if_neg hclosed] at he ⊢
    cases found with
    | some old => cases he
    | none => rfl

theorem restore_error (he : (h.restore x).2 = .error e) : (h.restore x).1 = h := by
  rw [HashMapStateBackend.restore] at he ⊢
  split
  · rfl
  · next htype =>
    rw [if_neg htype] at he
    cases hdata : (deserializeHashMapSnapshot x.data).result with
    | error f => rfl
    | ok es =>
      rw [hdata] at he
      dsimp only at he ⊢
      split
      · rfl
      · next hclosed =>
        rw [if_neg hclosed] at he
        split
        · rfl
        · next hlimit =>
          rw [if_neg hlimit] at he
          cases he

/-- A call that leaves the backend as it was. -/
theorem changed_self (w : World B) (b : ℕ)
    {r : B.State × Except BackendError Unit} (hr : r.1 = w.backends b) :
    (B.changed w b r).1 = w := by
  rw [StateBackend.changed, hr, Function.update_eq_self]

theorem ofResult_eq_error {r : Except BackendError Unit} (h : Reply.ofResult r = .error e) :
    r = .error e := by
  cases r with
  | ok u => cases h
  | error e' => cases h; rfl

/-- A call to an iterator is never rejected. -/
theorem withIterator_ne_error (w : World B) (i : ℕ)
    {f : B.Iterator → B.Iterator × Reply} (hf : ∀ it, (f it).2 ≠ .error e) :
    (B.withIterator w i f).2 ≠ .error e := by
  rw [StateBackend.withIterator]
  cases w.iterators i with
  | none => exact fun h => by cases h
  | some it => exact hf it

/-- **A rejected call changes nothing.** -/
theorem snapshotStep_error {w : SnapshotWorld hashMapSnapshots} {op : SnapshotOp}
    (he : (hashMapSnapshots.snapshotStep w op).2 = .error e) :
    (hashMapSnapshots.snapshotStep w op).1 = w := by
  cases op with
  | call op =>
    have hworld : (hashMapSnapshots.step w.toWorld op).1 = w.toWorld := by
      cases op with
      | put b key value => exact changed_self _ b (put_error (ofResult_eq_error he))
      | get b key => rfl
      | delete b key => exact changed_self _ b (delete_error (ofResult_eq_error he))
      | newIterator b p => cases he
      | next i | key i | value i | closeIterator i =>
        exact absurd he (withIterator_ne_error _ i fun _ h => nomatch h)
    rw [SnapshotBackend.snapshotStep]
    dsimp only
    rw [hworld]
  | checkpoint b id =>
    rw [SnapshotBackend.snapshotStep] at he ⊢
    cases hx : hashMapSnapshots.checkpoint (w.backends b) id with
    | error e' => rfl
    | ok x =>
      rw [hx] at he
      cases he
  | restore b i =>
    rw [SnapshotBackend.snapshotStep] at he ⊢
    cases hi : w.handles i with
    | none => rfl
    | some x =>
      rw [hi] at he
      dsimp only at he ⊢
      rw [changed_self _ b (restore_error (ofResult_eq_error he))]

/-! ## Runs -/

/-- Fresh backends with their limits. -/
def freshBackends (limits : ℕ → ℤ) : SnapshotWorld hashMapSnapshots where
  backends b := newHashMapStateBackend (limits b)

/-- Empty maps with the same limits. -/
def emptyMaps (limits : ℕ → ℤ) : SnapshotWorld mapSnapshots where
  backends b := ({ limit := limits b } : MapState)

theorem rel_fresh (limits : ℕ → ℤ) :
    snapshotSimulation.Rel (freshBackends limits) (emptyMaps limits) where
  world := ⟨fun _ => ⟨rfl, rfl, represents_nil, rfl⟩, fun _ => .none, rfl⟩
  handles _ := .none
  taken := rfl

open Answers in
/-- **A bounded ordered map**: a program that restores only snapshots of contents that fit gets from
backends in memory what it gets from finite maps with the same limits.  At any time the entries of a
backend are sorted and are those of its map, and the counted bytes are those of its map; a call that
is rejected changes nothing. -/
theorem hashMapBackend_refines_map (limits : ℕ → ℤ) (ops : List SnapshotOp)
    (hfits : Allowed mapSnapshots.snapshotStep (RestoresOnly SnapshotFits) (emptyMaps limits) ops) :
    let backends := answers hashMapSnapshots.snapshotStep (freshBackends limits) ops
    let maps := answers mapSnapshots.snapshotStep (emptyMaps limits) ops
    backends.2 = maps.2 ∧
    (∀ b, let h : HashMapStateBackend := backends.1.backends b
      let m : MapState := maps.1.backends b
      Represents h.entries m.contents ∧ h.memUsage = total m.contents ∧
        (∀ p, (h.newIterator p).entries = matching m.contents p)) ∧
    ∀ op e, (hashMapSnapshots.snapshotStep backends.1 op).2 = .error e →
      (hashMapSnapshots.snapshotStep backends.1 op).1 = backends.1 := by
  intro backends maps
  have hstep : ∀ w v op, snapshotSimulation.Rel w v → RestoresOnly SnapshotFits v op → _ :=
    fun _ _ op hrel hok => hrel.snapshotStep op hok
  obtain ⟨hrel, hreplies⟩ := answers_eq hstep (rel_fresh limits) hfits
  refine ⟨hreplies, fun b => ?_, fun op e he => snapshotStep_error he⟩
  have hs : Holds (backends.1.backends b) (maps.1.backends b) := hrel.world.backends b
  refine ⟨hs.represents, hs.bytes, fun p => ?_⟩
  rw [newIterator_entries hs.isOpen hs.represents]

theorem snapshotFits_of_lt (hcount : m.keys.card < 2 ^ 31) (htotal : total m < 2 ^ 31) :
    SnapshotFits m where
  count := by omega
  lengths k v hv := by
    have hk : k ∈ m.keys := by
      rw [Finmap.mem_keys, ← Finmap.lookup_isSome, hv]
      rfl
    have hle : k.length + ((m.lookup k).getD []).length ≤ total m :=
      Finset.single_le_sum (f := fun k => k.length + ((m.lookup k).getD []).length)
        (fun _ _ => Nat.zero_le _) hk
    rw [hv] at hle
    dsimp only [Option.getD_some] at hle
    omega
  capacity := by omega

open Answers in
/-- A program that takes a snapshot of one backend and restores it in another one. -/
theorem hashMapBackend_refines_map_restored :
    (answers hashMapSnapshots.snapshotStep (freshBackends fun _ => 10)
      [.call (.put 0 [1] [2]), .checkpoint 0 7, .restore 1 0, .call (.get 1 [1])]).2
      = [.done, .created 0, .done, .bytes [2]] := by
  refine (hashMapBackend_refines_map (fun _ => 10)
    [.call (.put 0 [1] [2]), .checkpoint 0 7, .restore 1 0, .call (.get 1 [1])]
    ⟨trivial, trivial, ?_, trivial, trivial⟩).1
  intro y hy
  cases hy
  exact snapshotFits_of_lt (by decide) (by decide)

/-! ## A value that is too long -/

theorem encode_four_inj (h : encode 4 a = encode 4 b) : a % 2 ^ 32 = b % 2 ^ 32 := by
  have hdecode := congrArg decode h
  rwa [decode_encode, decode_encode] at hdecode

theorem append_four_inj {x y : Bytes} (h : encode 4 a ++ x = encode 4 b ++ y) :
    a % 2 ^ 32 = b % 2 ^ 32 ∧ x = y := by
  obtain ⟨hab, hxy⟩ := append_inj h
    (by rw [length_encode, length_encode])
  exact ⟨encode_four_inj hab, hxy⟩

theorem snapshotPayload_inj {es es' : List KvEntry}
    (h : serializeHashMapSnapshot es = serializeHashMapSnapshot es') :
    es.length % 2 ^ 32 = es'.length % 2 ^ 32 ∧
      es.flatMap KvEntry.bytes = es'.flatMap KvEntry.bytes := by
  have hpayload := append_inj_left' h
    (by rw [length_encode, length_encode])
  exact append_four_inj (cons.inj hpayload).2

theorem KvEntry.bytes_eq (e : KvEntry) :
    e.bytes = encode 4 e.key.length ++ (e.key ++ field e.value) := by
  rw [KvEntry.bytes, field, append_assoc]

/-- A snapshot of one value of `2 ^ 32` bytes or more cannot be read. -/
theorem deserialize_too_long (hv : 2 ^ 32 ≤ value.length) :
    ∃ f, (deserializeHashMapSnapshot (serializeHashMapSnapshot [⟨[], value⟩])).result =
      .error f := by
  cases hresult : (deserializeHashMapSnapshot (serializeHashMapSnapshot [⟨[], value⟩])).result with
  | error f => exact ⟨f, rfl⟩
  | ok es =>
    -- what was read would have one entry, with the same bytes, and lengths that fit
    obtain ⟨hdata, hn, hfits, -⟩ := deserializeHashMapSnapshot_eq_ok.mp hresult
    obtain ⟨hlength, hbytes⟩ := snapshotPayload_inj hdata
    rw [Nat.mod_eq_of_lt hn] at hlength
    obtain ⟨e, rfl⟩ := length_eq_one_iff.mp hlength.symm
    obtain ⟨hkey, hvalue⟩ := hfits e (mem_singleton_self e)
    rw [flatMap_singleton, flatMap_singleton, KvEntry.bytes_eq, KvEntry.bytes_eq] at hbytes
    obtain ⟨hzero, hrest⟩ := append_four_inj hbytes
    rw [Nat.mod_eq_of_lt hkey] at hzero
    rw [length_eq_zero_iff.mp hzero.symm] at hrest
    have hlen := congrArg length hrest
    rw [nil_append, nil_append, length_field, length_field] at hlen
    dsimp only at hlen
    omega

/-- The replies to a program that stores one value, takes a snapshot and restores it elsewhere. -/
theorem answers_too_long (hv : 2 ^ 32 ≤ value.length) :
    (Answers.answers hashMapSnapshots.snapshotStep (freshBackends fun _ => 0)
      [.call (.put 0 [] value), .checkpoint 0 0, .restore 1 0]).2
      = [.done, .created 0, .error .snapshotCorrupt] := by
  obtain ⟨f, hf⟩ := deserialize_too_long hv
  have hrestore : ((newHashMapStateBackend 0).restore
      ⟨0, .hashMap, serializeHashMapSnapshot [⟨[], value⟩]⟩).2 = .error .snapshotCorrupt := by
    rw [HashMapStateBackend.restore, if_neg (not_not.mpr rfl), hf]
  have hreply : (Answers.answers hashMapSnapshots.snapshotStep (freshBackends fun _ => 0)
      [.call (.put 0 [] value), .checkpoint 0 0, .restore 1 0]).2
      = [.done, .created 0, .ofResult ((newHashMapStateBackend 0).restore
        ⟨0, .hashMap, serializeHashMapSnapshot [⟨[], value⟩]⟩).2] := rfl
  rw [hreply, hrestore]
  rfl

/-- The length of a value of `2 ^ 32` bytes is cut off, and the snapshot of it, taken without an
error, is refused as corrupt. -/
theorem hashMapBackend_cuts_length :
    (Answers.answers hashMapSnapshots.snapshotStep (freshBackends fun _ => 0)
      [.call (.put 0 [] (replicate (2 ^ 32) 0)), .checkpoint 0 0, .restore 1 0]).2
      = [.done, .created 0, .error .snapshotCorrupt] ∧
    (Answers.answers mapSnapshots.snapshotStep (emptyMaps fun _ => 0)
      [.call (.put 0 [] (replicate (2 ^ 32) 0)), .checkpoint 0 0, .restore 1 0]).2
      = [.done, .created 0, .done] :=
  ⟨answers_too_long (by rw [length_replicate]), rfl⟩

end Wire.Engine.Backend
