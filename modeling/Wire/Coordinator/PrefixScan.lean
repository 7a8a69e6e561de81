import Wire.Engine.PebbleBackend

/-!
# Prefix scans of the metadata store

`MemoryStore.PrefixScan` starts at the first key that is not before the prefix and goes on while
the keys have it.  `PebbleStore.PrefixScan` gives Pebble the prefix and its `prefixSuccessor` as
bounds.

`prefixSuccessor` counts up the last byte with a carry, as the state backend does for its upper
bound, but leaves the bytes that the carry has set to zero (`prefixSuccessor_split`).  A key that
has fewer zeros there does not have the prefix, and only Pebble visits it (`prefixScan_agrees_iff`).

A visitor is a function of what it has gathered, which also says whether to go on.
-/

namespace Wire.Coordinator

open Engine.Backend List

inductive StoreError where
  | storeCorrupted
deriving DecidableEq, Repr

structure MemoryStore where
  /-- Sorted by key. -/
  entries : List KvEntry := []
  closed : Bool := false

section Scans

variable {σ : Type} (keyPrefix : Bytes) (fn : σ → KvEntry → σ × Bool)

namespace MemoryStore

variable (m : MemoryStore)

def search (key : Bytes) : ℕ :=
  BinarySearch.search m.entries.length fun i => key ≤ (m.entries.getD i ⟨[], []⟩).key

/-- The loop of `PrefixScan`, over the entries that are left. -/
def scanLoop : List KvEntry → σ → σ
  | [], acc => acc
  | e :: es, acc =>
    if keyPrefix <+: e.key then
      if (fn acc e).2 then scanLoop es (fn acc e).1 else (fn acc e).1
    else acc

def prefixScan (acc : σ) : Except StoreError σ :=
  if m.closed then .error .storeCorrupted
  else .ok (scanLoop keyPrefix fn (m.entries.drop (m.search keyPrefix)) acc)

end MemoryStore

/-- Count up the byte before index `i`, and if that gives zero go on before it. -/
def successorLoop (succ : Bytes) : ℕ → Option Bytes
  | 0 => none
  | i + 1 =>
    let bumped := succ.modify i (· + 1)
    if bumped[i]? = some 0 then successorLoop bumped i else some bumped

/-- `prefixSuccessor`; without a result there is no upper bound. -/
def prefixSuccessor (keyPrefix : Bytes) : Option Bytes :=
  if keyPrefix.length = 0 then none else successorLoop keyPrefix keyPrefix.length

/-- The loop over an iterator. -/
def visit : List KvEntry → σ → σ
  | [], acc => acc
  | e :: es, acc => if (fn acc e).2 then visit es (fn acc e).1 else (fn acc e).1

/-- `PebbleStore.PrefixScan`, of a database with the given contents. -/
def PebbleStore.prefixScan (db : Contents) (acc : σ) : σ :=
  visit fn (pebbleRange db keyPrefix (prefixSuccessor keyPrefix)) acc

/-! ## What is visited -/

theorem scanLoop_eq_visit (es : List KvEntry) (acc : σ) :
    MemoryStore.scanLoop keyPrefix fn es acc =
      visit fn (es.takeWhile (keyPrefix <+: ·.key)) acc := by
  induction es generalizing acc with
  | nil => rfl
  | cons e es ih =>
    rw [MemoryStore.scanLoop]
    split
    · next h => rw [takeWhile_cons_of_pos (by simpa using h), visit, ih]
    · next h => rw [takeWhile_cons_of_neg (by simpa using h), visit]

/-- A visitor that goes on to the end has seen all. -/
theorem visit_collect (es seen : List KvEntry) :
    visit (fun seen e => (seen ++ [e], true)) es seen = seen ++ es := by
  induction es generalizing seen with
  | nil => exact (append_nil seen).symm
  | cons e es ih => rw [visit, if_pos rfl, ih, append_assoc, singleton_append]

/-- The memory store visits the keys with the prefix. -/
theorem MemoryStore.prefixScan_eq {m : MemoryStore} {db : Contents} (hopen : m.closed = false)
    (hm : Represents m.entries db) (acc : σ) :
    m.prefixScan keyPrefix fn acc = .ok (visit fn (matching db keyPrefix) acc) := by
  have hrange : (m.entries.drop (m.search keyPrefix)).takeWhile (keyPrefix <+: ·.key) =
      matching db keyPrefix :=
    congrArg HashMapIterator.entries
      (newIterator_entries (h := { entries := m.entries, memLimit := 0 }) rfl hm keyPrefix)
  rw [prefixScan, hopen, if_neg Bool.false_ne_true, scanLoop_eq_visit, hrange]

end Scans

/-! ## The bound -/

section Bound

variable {k q : Bytes} {b : Fin 256} {n : ℕ}

theorem successorLoop_snoc (l r : Bytes) (b : Fin 256) :
    successorLoop (l ++ b :: r) (l.length + 1) =
      if b + 1 = 0 then successorLoop (l ++ (b + 1) :: r) l.length
      else some (l ++ (b + 1) :: r) := by
  have hbumped : (l ++ b :: r).modify l.length (· + 1) = l ++ (b + 1) :: r := by
    simp [modify_eq_take_drop]
  have hget : (l ++ (b + 1) :: r)[l.length]? = some (b + 1) := by simp
  rw [successorLoop, hbumped, hget]
  simp only [Option.some.injEq]

/-- The bytes that are counted up to zero stay. -/
theorem successorLoop_replicate (l : Bytes) (n m : ℕ) :
    successorLoop (l ++ (replicate n 255 ++ replicate m 0)) (l.length + n) =
      successorLoop (l ++ replicate (n + m) 0) l.length := by
  induction n generalizing m with
  | zero => simp
  | succ n ih =>
    have hl : l ++ (replicate (n + 1) 255 ++ replicate m 0) =
        (l ++ replicate n 255) ++ 255 :: replicate m 0 := by
      simp [replicate_succ']
    have hlength : l.length + (n + 1) = (l ++ replicate n (255 : Fin 256)).length + 1 := by
      rw [length_append, length_replicate]
      rfl
    have hzero : (255 : Fin 256) + 1 = 0 := rfl
    rw [hl, hlength, successorLoop_snoc, if_pos hzero, hzero, ← replicate_succ, append_assoc,
      length_append, length_replicate, ih, Nat.add_right_comm]
    rfl

/-- The bound of a prefix with a byte that can be counted up. -/
theorem prefixSuccessor_split (hb : b ≠ 255) :
    prefixSuccessor (q ++ b :: replicate n 255) = some (q ++ (b + 1) :: replicate n 0) := by
  have hloop := successorLoop_replicate (q ++ [b]) n 0
  simp only [replicate_zero, append_nil, append_assoc, singleton_append, length_append,
    length_singleton, Nat.add_zero] at hloop
  rw [successorLoop_snoc, if_neg (PrefixRange.add_one_ne_zero hb)] at hloop
  rw [prefixSuccessor, if_neg (by simp), length_append, length_cons, length_replicate,
    Nat.add_comm n, ← Nat.add_assoc, hloop]

theorem prefixSuccessor_replicate (n : ℕ) : prefixSuccessor (replicate n 255) = none := by
  have hloop := successorLoop_replicate [] n 0
  simp only [replicate_zero, append_nil, nil_append, length_nil, Nat.zero_add] at hloop
  rw [prefixSuccessor, length_replicate, hloop]
  exact ite_self none

/-- The last byte that is not `0xFF`. -/
theorem split_last (p : Bytes) :
    p = replicate p.length 255 ∨ ∃ q b n, b ≠ 255 ∧ p = q ++ b :: replicate n 255 := by
  induction p using List.reverseRecOn with
  | nil => exact .inl rfl
  | append_singleton p b ih =>
    by_cases hb : b = 255
    · subst hb
      rcases ih with ih | ⟨q, b, n, hb, rfl⟩
      · left
        rw [length_append, length_singleton, replicate_succ', ← ih]
      · exact .inr ⟨q, b, n + 1, hb, by rw [append_assoc, cons_append, replicate_succ']⟩
    · exact .inr ⟨p, b, 0, hb, rfl⟩

/-- The keys that Pebble is asked for, for a prefix with a byte that can be counted up. -/
theorem visited_iff (hb : b ≠ 255) :
    (q ++ b :: replicate n 255 ≤ k ∧ k < q ++ (b + 1) :: replicate n 0 ↔
      q ++ b :: replicate n 255 <+: k) ↔ ∀ j < n, k ≠ q ++ (b + 1) :: replicate j 0 := by
  have hbetween := @PrefixRange.between_zeros_iff 255 (q ++ [b + 1]) k n
  simp only [append_assoc, singleton_append] at hbetween
  -- the bytes that are `0xFF` do not count, and the byte before them can be counted up
  have hbound : ∀ {k : Bytes}, q ++ b :: replicate n 255 ≤ k →
      (q ++ b :: replicate n 255 <+: k ↔ k < q ++ [b + 1]) := by
    intro k h
    rw [append_cons] at h ⊢
    refine (PrefixRange.prefix_iff_append_last h).trans ?_
    refine PrefixRange.prefix_iff_lt_succ (PrefixRange.add_one_ne_zero hb) ?_
    exact (PrefixRange.prefix_le (prefix_append _ _)).trans h
  have hlt := (hbound le_rfl).mp prefix_rfl
  constructor
  · rintro h j hj rfl
    obtain ⟨hle, hbelow⟩ := hbetween.mpr ⟨j, hj, rfl⟩
    have hprefix := h.mp ⟨hlt.le.trans hle, hbelow⟩
    exact absurd ((hbound (hlt.le.trans hle)).mp hprefix) (not_lt.mpr hle)
  · intro h
    constructor
    · rintro ⟨hle, hbelow⟩
      refine (hbound hle).mpr (not_le.mp fun hge => ?_)
      obtain ⟨j, hj, hk⟩ := hbetween.mp ⟨hge, hbelow⟩
      exact h j hj hk
    · intro hprefix
      have hle := PrefixRange.prefix_le hprefix
      refine ⟨hle, ((hbound hle).mp hprefix).trans_le (PrefixRange.prefix_le ?_)⟩
      exact ⟨replicate n 0, by simp⟩

end Bound

/-- The keys of a list of entries made from keys. -/
theorem keys_of_sort_map {A B : Finset Bytes} {value : Bytes → Bytes}
    (h : A.sort.map (fun k => KvEntry.mk k (value k)) = B.sort.map fun k => ⟨k, value k⟩) :
    A = B := by
  have hkeys := congrArg (map KvEntry.key) h
  simp only [map_map, Function.comp_def, map_id'] at hkeys
  rw [← Finset.sort_toFinset A (· ≤ ·), hkeys, Finset.sort_toFinset]

/-- **The two stores scan alike** just when the prefix has no `0xFF` at its end, or no key is made
of the prefix without them, its last byte counted up, and zeros, fewer than there were `0xFF`. -/
theorem prefixScan_agrees_iff {m : MemoryStore} {db : Contents} (hopen : m.closed = false)
    (hm : Represents m.entries db) (keyPrefix : Bytes) :
    (∀ (σ : Type) (fn : σ → KvEntry → σ × Bool) (acc : σ),
      PebbleStore.prefixScan keyPrefix fn db acc = visit fn (matching db keyPrefix) acc ∧
      m.prefixScan keyPrefix fn acc = .ok (PebbleStore.prefixScan keyPrefix fn db acc)) ↔
    ∀ q b n j, b ≠ 255 → keyPrefix = q ++ b :: replicate n 255 → j < n →
      q ++ (b + 1) :: replicate j 0 ∉ db.keys := by
  constructor
  · rintro h q b n j hb rfl hj hkey
    have hlists := (h _ (fun seen e => (seen ++ [e], true)) []).1
    rw [PebbleStore.prefixScan, visit_collect, visit_collect] at hlists
    have hiff := Finset.ext_iff.mp (keys_of_sort_map hlists) (q ++ (b + 1) :: replicate j 0)
    rw [Finset.mem_filter, Finset.mem_filter, and_iff_right hkey, and_iff_right hkey,
      prefixSuccessor_split hb] at hiff
    simp only [Option.mem_def, Option.some.injEq, forall_eq'] at hiff
    exact (visited_iff hb).mp hiff j hj rfl
  · intro h σ fn acc
    have hkeys : ∀ k ∈ db.keys, (keyPrefix ≤ k ∧ ∀ v ∈ prefixSuccessor keyPrefix, k < v) ↔
        keyPrefix <+: k := by
      intro k hk
      rcases split_last keyPrefix with hlast | ⟨q, b, n, hb, rfl⟩
      · rw [hlast, prefixSuccessor_replicate]
        have hiff := @PrefixRange.prefix_iff_append_last 255 [] k keyPrefix.length
        simp only [nil_append, nil_prefix, iff_true] at hiff
        simpa using ⟨hiff, PrefixRange.prefix_le⟩
      · rw [prefixSuccessor_split hb]
        simp only [Option.mem_def, Option.some.injEq, forall_eq']
        refine (visited_iff hb).mpr ?_
        rintro j hj rfl
        exact h q b n j hb rfl hj hk
    have hrange : pebbleRange db keyPrefix (prefixSuccessor keyPrefix) = matching db keyPrefix := by
      rw [pebbleRange, matching, Finset.filter_congr hkeys]
    rw [PebbleStore.prefixScan, hrange, MemoryStore.prefixScan_eq keyPrefix fn hopen hm]
    exact ⟨rfl, rfl⟩

namespace Sample

/-- A store with the key `b`. -/
def memoryStore : MemoryStore := { entries := [⟨[98], [1]⟩] }

def contents : Contents := (∅ : Contents).insert [98] [1]

theorem represents_contents : Represents memoryStore.entries contents where
  sorted := pairwise_singleton _ _
  mem k v := by
    rw [contents]
    rcases eq_or_ne k [98] with rfl | hne
    · simp [memoryStore, eq_comm]
    · simp [memoryStore, Finmap.lookup_insert_of_ne _ hne, hne]

/-- The prefix `b`, `0xFF`: the bound is `c`, `0x00`, and there is no key `c`. -/
theorem prefixScan_agrees_b : PebbleStore.prefixScan [98, 255] (fun seen e => (seen ++ [e], true))
    contents [] = visit (fun seen e => (seen ++ [e], true)) (matching contents [98, 255]) [] ∧
    memoryStore.prefixScan [98, 255] (fun seen e => (seen ++ [e], true)) [] =
      .ok (PebbleStore.prefixScan [98, 255] (fun seen e => (seen ++ [e], true)) contents []) := by
  refine (prefixScan_agrees_iff rfl represents_contents [98, 255]).mpr ?_ _ _ _
  intro q b n j hb hprefix hj hkey
  have heq : q ++ (b + 1) :: replicate j 0 = [98] := by
    simpa [contents, Finmap.mem_keys, Finmap.mem_insert, Finmap.notMem_empty] using hkey
  cases q with
  | nil =>
    obtain ⟨rfl, -⟩ := cons.inj hprefix
    exact absurd (cons.inj heq).1 (by decide)
  | cons a q => simp at heq

/-- The bound of the prefix `a`, `0xFF` is `b`, `0x00`, and `b` is before it. -/
theorem prefixScan_disagrees :
    PebbleStore.prefixScan [97, 255] (fun seen e => (seen ++ [e.key], true)) contents [] = [[98]] ∧
    memoryStore.prefixScan [97, 255] (fun seen e => (seen ++ [e.key], true)) [] =
      .ok ([] : List Bytes) := by
  decide +kernel

end Sample

end Wire.Coordinator
