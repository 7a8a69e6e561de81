import Wire.Engine.HashMapBackend

/-!
# The Pebble state backend

`PebbleStateBackend` over an ordered map of byte strings, which is all that is assumed of Pebble: an
iterator sees the entries between its bounds as they were when it was made, in the order of the
keys, and stays at the end once it is there.

The backend turns a prefix into the bounds of an iterator.  The upper bound is the prefix with its
last byte counted up, with a carry; where nothing is left of it, also for the empty prefix, there is
no bound (`range_eq_matching`).  So Pebble does what the finite map without a limit does, and the
two backends answer every program alike (`backends_interchangeable`). -/

namespace Wire.Engine.Backend

/-! ## Pebble -/

/-- `pebble.Iterator`: the entries between its bounds, and where it is, once it is anywhere. -/
structure PebbleCursor where
  entries : List KvEntry
  index : Option ℕ := none

namespace PebbleCursor

variable (c : PebbleCursor)

def first : PebbleCursor :=
  { c with index := some 0 }

def next : PebbleCursor :=
  { c with index := c.index.map (· + 1) }

/-- The entry the iterator is at; it is valid if there is one. -/
def entry : Option KvEntry :=
  c.index.bind (c.entries[·]?)

end PebbleCursor

/-- The entries from the lower bound on and before the upper bound, if there is one. -/
def pebbleRange (db : Contents) (lower : Bytes) (upper : Option Bytes) : List KvEntry :=
  (db.keys.filter fun k => lower ≤ k ∧ ∀ u ∈ upper, k < u).sort.map
    fun k => ⟨k, (db.lookup k).getD []⟩

/-! ## The methods -/

/-- The database is `none` once the backend is closed. -/
structure PebbleStateBackend where
  db : Option Contents

/-- `pebbleStateIterator`; the iterator is `none` once it is closed.  A closed backend returns an
empty `hashMapIterator`. -/
inductive PebbleStateIterator where
  | pebble (iter : Option PebbleCursor) (started : Bool)
  | hashMap (it : HashMapIterator)

namespace PebbleStateBackend

variable (b : PebbleStateBackend)

def put (key value : Bytes) : PebbleStateBackend × Except BackendError Unit :=
  match b.db with
  | none => (b, .error .backendClosed)
  | some db => ({ b with db := some (db.insert key value) }, .ok ())

def get (key : Bytes) : Except BackendError Bytes :=
  match b.db with
  | none => .error .backendClosed
  | some db =>
    match db.lookup key with
    | none => .error .keyNotFound
    | some value => .ok value

def delete (key : Bytes) : PebbleStateBackend × Except BackendError Unit :=
  match b.db with
  | none => (b, .error .backendClosed)
  | some db =>
    match db.lookup key with
    | none => (b, .error .keyNotFound)
    | some _ => ({ b with db := some (db.erase key) }, .ok ())

def newIterator (keyPrefix : Bytes) : PebbleStateIterator :=
  match b.db with
  | none => .hashMap {}
  | some db =>
    let upper := @PrefixRange.upperBound 255 keyPrefix
    .pebble (some { entries := pebbleRange db keyPrefix upper }) false

end PebbleStateBackend

namespace PebbleStateIterator

def next : PebbleStateIterator → PebbleStateIterator × Bool
  | .hashMap it => (.hashMap it.next.1, it.next.2)
  | .pebble none started => (.pebble none started, false)
  | .pebble (some c) started =>
    let c := if started then c.next else c.first
    (.pebble (some c) true, c.entry.isSome)

/-- The entry at which the iterator is. -/
def entry : PebbleStateIterator → Option KvEntry
  | .hashMap it => it.at?
  | .pebble iter _ => iter.bind PebbleCursor.entry

def key (it : PebbleStateIterator) : Bytes :=
  (it.entry.map KvEntry.key).getD []

def value (it : PebbleStateIterator) : Bytes :=
  (it.entry.map KvEntry.value).getD []

def close : PebbleStateIterator → PebbleStateIterator
  | .hashMap it => .hashMap it.close
  | .pebble _ started => .pebble none started

end PebbleStateIterator

def pebbleBackend : StateBackend where
  State := PebbleStateBackend
  Iterator := PebbleStateIterator
  put := PebbleStateBackend.put
  get := PebbleStateBackend.get
  delete := PebbleStateBackend.delete
  newIterator := PebbleStateBackend.newIterator
  next := PebbleStateIterator.next
  key := PebbleStateIterator.key
  value := PebbleStateIterator.value
  closeIterator := PebbleStateIterator.close

/-! ## Simulation -/

/-- **The range of the bounds is that of the prefix.** -/
theorem range_eq_matching (m : Contents) (keyPrefix : Bytes) :
    pebbleRange m keyPrefix (@PrefixRange.upperBound 255 keyPrefix) = matching m keyPrefix := by
  have hkeys : (m.keys.filter fun k =>
      keyPrefix ≤ k ∧ ∀ u ∈ @PrefixRange.upperBound 255 keyPrefix, k < u)
      = m.keys.filter (keyPrefix <+: ·) :=
    Finset.filter_congr fun k _ => (@PrefixRange.prefix_iff 255 keyPrefix k).symm
  rw [pebbleRange, hkeys, matching]

/-- A database with the contents of the map, which has no limit. -/
structure Stores (b : PebbleStateBackend) (s : MapState) : Prop where
  db : b.db = some s.contents
  unlimited : s.limit = 0

/-- An iterator at its position in the iteration. -/
inductive Tracks : PebbleStateIterator → Iteration → Prop where
  | fresh (entries : List KvEntry) :
    Tracks (.pebble (some { entries }) false) { rest := entries }
  | started (entries : List KvEntry) (i : ℕ) :
    Tracks (.pebble (some { entries, index := some i }) true)
      { rest := entries.drop (i + 1), current := entries[i]? }
  | closed (started : Bool) : Tracks (.pebble none started) { rest := [] }

variable {b : PebbleStateBackend} {s : MapState} {it : PebbleStateIterator} {j : Iteration}

theorem MapState.put_unlimited (h : s.limit = 0) (key value : Bytes) :
    s.put key value = ({ s with contents := s.contents.insert key value }, .ok ()) := by
  rw [MapState.put, if_neg]
  rw [exceeds_iff, h]
  exact fun hlt => absurd hlt.1 (lt_irrefl 0)

theorem Stores.put (hs : Stores b s) (key value : Bytes) :
    Stores (b.put key value).1 (s.put key value).1 ∧ (b.put key value).2 = (s.put key value).2 := by
  rw [PebbleStateBackend.put, hs.db, MapState.put_unlimited hs.unlimited]
  exact ⟨⟨rfl, hs.unlimited⟩, rfl⟩

theorem Stores.get (hs : Stores b s) (key : Bytes) : b.get key = s.get key := by
  rw [PebbleStateBackend.get, hs.db, MapState.get]
  dsimp only
  cases s.contents.lookup key with
  | none | some => rfl

theorem Stores.delete (hs : Stores b s) (key : Bytes) :
    Stores (b.delete key).1 (s.delete key).1 ∧ (b.delete key).2 = (s.delete key).2 := by
  rw [PebbleStateBackend.delete, hs.db, MapState.delete]
  dsimp only
  cases s.contents.lookup key with
  | none => exact ⟨hs, rfl⟩
  | some value => exact ⟨⟨rfl, hs.unlimited⟩, rfl⟩

theorem tracks_newIterator (hs : Stores b s) (keyPrefix : Bytes) :
    Tracks (b.newIterator keyPrefix) { rest := matching s.contents keyPrefix } := by
  rw [PebbleStateBackend.newIterator, hs.db]
  dsimp only
  rw [range_eq_matching]
  exact .fresh _

/-- The iteration from a list goes to its first entry. -/
theorem next_drop (entries : List KvEntry) (i : ℕ) (current : Option KvEntry) :
    Iteration.next { rest := entries.drop i, current }
      = ({ rest := entries.drop (i + 1), current := entries[i]? }, entries[i]?.isSome) := by
  rw [Iteration.next, ← List.head?_drop, ← List.tail_drop]
  cases entries.drop i with
  | nil | cons => rfl

theorem Tracks.next (ht : Tracks it j) : Tracks it.next.1 j.next.1 ∧ it.next.2 = j.next.2 := by
  cases ht with
  | fresh entries =>
    rw [← List.drop_zero (l := entries), next_drop]
    exact ⟨.started entries 0, rfl⟩
  | started entries i =>
    rw [next_drop]
    exact ⟨.started entries (i + 1), rfl⟩
  | closed started => exact ⟨.closed started, rfl⟩

theorem Tracks.entry (ht : Tracks it j) : it.entry = j.current := by
  cases ht with
  | fresh | started | closed => rfl

theorem Tracks.close (ht : Tracks it j) : Tracks it.close { rest := [] } := by
  cases ht with
  | fresh entries => exact .closed false
  | started entries i => exact .closed true
  | closed started => exact .closed started

/-- Pebble does what the finite map without a limit does. -/
def pebbleSimulation : Simulation pebbleBackend mapBackend where
  state := Stores
  iterator := Tracks
  put hs k v := Stores.put hs k v
  get hs k := Stores.get hs k
  delete hs k := Stores.delete hs k
  newIterator hs p := tracks_newIterator hs p
  next ht := Tracks.next ht
  key ht := congrArg (fun o => (Option.map KvEntry.key o).getD []) ht.entry
  value ht := congrArg (fun o => (Option.map KvEntry.value o).getD []) ht.entry
  closeIterator ht := Tracks.close ht

/-! ## Programs over either backend -/

/-- A simulation answers every program alike. -/
theorem Simulation.answers_eq {B C : StateBackend} (S : Simulation B C) {w : World B} {v : World C}
    (h : S.Rel w v) (ops : List Op) :
    (Answers.answers B.step w ops).2 = (Answers.answers C.step v ops).2 := by
  have hstep : ∀ w v op, S.Rel w v → True → _ := fun _ _ op hrel _ => hrel.step op
  exact (Answers.answers_eq hstep h (Answers.allowed_of_forall (fun _ _ => trivial) v ops)).2

/-- **The two backends are interchangeable**: every program gets the same values and the same errors
from empty Pebble databases and from empty backends in memory without a limit. -/
theorem backends_interchangeable (ops : List Op) :
    (Answers.answers pebbleBackend.step
      { backends := fun _ => ({ db := some ∅ } : PebbleStateBackend) } ops).2 =
    (Answers.answers hashMapBackend.step
      { backends := fun _ => newHashMapStateBackend 0 } ops).2 := by
  have hpebble : pebbleSimulation.Rel
      { backends := fun _ => ({ db := some ∅ } : PebbleStateBackend) }
      { backends := fun _ => ({ limit := 0 } : MapState) } :=
    ⟨fun _ => ⟨rfl, rfl⟩, fun _ => .none, rfl⟩
  have hhash : mapSimulation.Rel { backends := fun _ => newHashMapStateBackend 0 }
      { backends := fun _ => ({ limit := 0 } : MapState) } :=
    ⟨fun _ => ⟨rfl, rfl, represents_nil, rfl⟩, fun _ => .none, rfl⟩
  rw [pebbleSimulation.answers_eq hpebble, mapSimulation.answers_eq hhash]

end Wire.Engine.Backend
