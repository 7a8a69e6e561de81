import Wire.Library.Answers
import Wire.Library.LittleEndian

/-!
# State backends

The interface `StateBackend`, as the record of its methods, and programs that use several backends
and the iterators that they have got of them, call by call.  A method that changes the state returns
the state that it leaves behind, also where it returns an error.

`mapBackend` is the interface of a finite map with a limit for the bytes in it: that is what an
implementation is measured against, by a `Simulation`.

A `[]byte` is a list, so `nil` and the empty slice are the same.
-/

namespace Wire.Engine.Backend

open Function

/-- A `[]byte`; the order is that of `bytes.Compare`. -/
abbrev Bytes := List (Fin 256)

/-- `kvEntry` -/
structure KvEntry where
  key : Bytes
  value : Bytes
deriving DecidableEq, Repr

inductive BackendError where
  | keyNotFound
  | backendClosed
  | memoryLimitExceeded
  | snapshotCorrupt
deriving DecidableEq, Repr

/-- `StateBackend` and `StateIterator` -/
structure StateBackend where
  State : Type
  Iterator : Type
  put : State → Bytes → Bytes → State × Except BackendError Unit
  get : State → Bytes → Except BackendError Bytes
  delete : State → Bytes → State × Except BackendError Unit
  newIterator : State → Bytes → Iterator
  next : Iterator → Iterator × Bool
  key : Iterator → Bytes
  value : Iterator → Bytes
  closeIterator : Iterator → Iterator

/-! ## Programs -/

/-- A call to one of the backends, or to one of the iterators in the order of their creation. -/
inductive Op where
  | put (b : ℕ) (key value : Bytes)
  | get (b : ℕ) (key : Bytes)
  | delete (b : ℕ) (key : Bytes)
  | newIterator (b : ℕ) (keyPrefix : Bytes)
  | next (i : ℕ)
  | key (i : ℕ)
  | value (i : ℕ)
  | closeIterator (i : ℕ)
deriving DecidableEq

inductive Reply where
  | done
  | error (e : BackendError)
  | bytes (b : Bytes)
  | more (b : Bool)
  /-- The number of a new iterator or handle. -/
  | created (i : ℕ)
  /-- There is no such iterator or handle to call. -/
  | absent
deriving DecidableEq, Repr

def Reply.ofResult : Except BackendError Unit → Reply
  | .ok () => .done
  | .error e => .error e

def Reply.ofBytes : Except BackendError Bytes → Reply
  | .ok b => .bytes b
  | .error e => .error e

structure World (B : StateBackend) where
  backends : ℕ → B.State
  iterators : ℕ → Option B.Iterator := fun _ => none
  /-- The number of iterators so far. -/
  created : ℕ := 0

namespace StateBackend

variable (B : StateBackend)

/-- A backend and the reply of a call that may have changed it. -/
def changed (w : World B) (b : ℕ) (r : B.State × Except BackendError Unit) : World B × Reply :=
  ({ w with backends := update w.backends b r.1 }, .ofResult r.2)

/-- A call to an iterator. -/
def withIterator (w : World B) (i : ℕ) (f : B.Iterator → B.Iterator × Reply) : World B × Reply :=
  match w.iterators i with
  | none => (w, .absent)
  | some it => ({ w with iterators := update w.iterators i (some (f it).1) }, (f it).2)

def step (w : World B) : Op → World B × Reply
  | .put b key value => B.changed w b (B.put (w.backends b) key value)
  | .get b key => (w, .ofBytes (B.get (w.backends b) key))
  | .delete b key => B.changed w b (B.delete (w.backends b) key)
  | .newIterator b keyPrefix =>
    let it := B.newIterator (w.backends b) keyPrefix
    ({ w with iterators := update w.iterators w.created (some it), created := w.created + 1 },
      .created w.created)
  | .next i => B.withIterator w i fun it => ((B.next it).1, .more (B.next it).2)
  | .key i => B.withIterator w i fun it => (it, .bytes (B.key it))
  | .value i => B.withIterator w i fun it => (it, .bytes (B.value it))
  | .closeIterator i => B.withIterator w i fun it => (B.closeIterator it, .done)

end StateBackend

/-! ## Snapshots -/

/-- A backend with `Checkpoint` and `Restore`. -/
structure SnapshotBackend extends StateBackend where
  Handle : Type
  checkpoint : State → ℕ → Except BackendError Handle
  restore : State → Handle → State × Except BackendError Unit

/-- A call, also to take a snapshot, or to restore one of those taken so far, of any backend. -/
inductive SnapshotOp where
  | call (op : Op)
  | checkpoint (b checkpointID : ℕ)
  | restore (b handle : ℕ)
deriving DecidableEq

structure SnapshotWorld (B : SnapshotBackend) extends World B.toStateBackend where
  handles : ℕ → Option B.Handle := fun _ => none
  /-- The number of handles so far. -/
  taken : ℕ := 0

def SnapshotBackend.snapshotStep (B : SnapshotBackend) (w : SnapshotWorld B) :
    SnapshotOp → SnapshotWorld B × Reply
  | .call op =>
    let (world, reply) := B.step w.toWorld op
    ({ w with toWorld := world }, reply)
  | .checkpoint b checkpointID =>
    match B.checkpoint (w.backends b) checkpointID with
    | .error e => (w, .error e)
    | .ok handle =>
      ({ w with handles := update w.handles w.taken (some handle), taken := w.taken + 1 },
        .created w.taken)
  | .restore b handle =>
    match w.handles handle with
    | none => (w, .absent)
    | some handle =>
      let (world, reply) := B.changed w.toWorld b (B.restore (w.backends b) handle)
      ({ w with toWorld := world }, reply)

/-! ## Simulation -/

/-- Two backends answer alike: a relation of their states and one of their iterators that every
method keeps. -/
structure Simulation (B C : StateBackend) where
  state : B.State → C.State → Prop
  iterator : B.Iterator → C.Iterator → Prop
  put : ∀ {s t}, state s t → ∀ k v,
    state (B.put s k v).1 (C.put t k v).1 ∧ (B.put s k v).2 = (C.put t k v).2
  get : ∀ {s t}, state s t → ∀ k, B.get s k = C.get t k
  delete : ∀ {s t}, state s t → ∀ k,
    state (B.delete s k).1 (C.delete t k).1 ∧ (B.delete s k).2 = (C.delete t k).2
  newIterator : ∀ {s t}, state s t → ∀ p, iterator (B.newIterator s p) (C.newIterator t p)
  next : ∀ {i j}, iterator i j → iterator (B.next i).1 (C.next j).1 ∧ (B.next i).2 = (C.next j).2
  key : ∀ {i j}, iterator i j → B.key i = C.key j
  value : ∀ {i j}, iterator i j → B.value i = C.value j
  closeIterator : ∀ {i j}, iterator i j → iterator (B.closeIterator i) (C.closeIterator j)

namespace Simulation

variable {B C : StateBackend} (S : Simulation B C)

structure Rel (w : World B) (v : World C) : Prop where
  backends : ∀ b, S.state (w.backends b) (v.backends b)
  iterators : ∀ i, Option.Rel S.iterator (w.iterators i) (v.iterators i)
  created : w.created = v.created

variable {S} {w : World B} {v : World C}

theorem Rel.changed (h : S.Rel w v) (b : ℕ) {r : B.State × Except BackendError Unit}
    {q : C.State × Except BackendError Unit} (hrq : S.state r.1 q.1 ∧ r.2 = q.2) :
    S.Rel (B.changed w b r).1 (C.changed v b q).1 ∧ (B.changed w b r).2 = (C.changed v b q).2 := by
  refine ⟨{ h with backends := fun a => ?_ }, congrArg Reply.ofResult hrq.2⟩
  by_cases hab : a = b
  · subst hab
    simpa only [StateBackend.changed, update_self] using hrq.1
  · simpa only [StateBackend.changed, update_of_ne hab] using h.backends a

/-- Another iterator in one place. -/
theorem update_iterators {its : ℕ → Option B.Iterator} {its' : ℕ → Option C.Iterator}
    (h : ∀ i, Option.Rel S.iterator (its i) (its' i)) (i : ℕ) {it : B.Iterator} {it' : C.Iterator}
    (hit : S.iterator it it') (j : ℕ) : Option.Rel S.iterator (update its i (some it) j)
      (update its' i (some it') j) := by
  by_cases hji : j = i
  · subst hji
    rw [update_self, update_self]
    exact .some hit
  · rw [update_of_ne hji, update_of_ne hji]
    exact h j

theorem Rel.withIterator (h : S.Rel w v) (i : ℕ) {f : B.Iterator → B.Iterator × Reply}
    {g : C.Iterator → C.Iterator × Reply}
    (hfg : ∀ it it', S.iterator it it' → S.iterator (f it).1 (g it').1 ∧ (f it).2 = (g it').2) :
    S.Rel (B.withIterator w i f).1 (C.withIterator v i g).1 ∧
      (B.withIterator w i f).2 = (C.withIterator v i g).2 := by
  have hi := h.iterators i
  rw [StateBackend.withIterator, StateBackend.withIterator]
  cases hw : w.iterators i with
  | none =>
    cases hv : v.iterators i with
    | none => exact ⟨h, rfl⟩
    | some it' =>
      rw [hw, hv] at hi
      cases hi
  | some it =>
    cases hv : v.iterators i with
    | none =>
      rw [hw, hv] at hi
      cases hi
    | some it' =>
      rw [hw, hv] at hi
      cases hi with
      | some hit =>
        obtain ⟨hnext, hreply⟩ := hfg it it' hit
        exact ⟨⟨h.backends, update_iterators h.iterators i hnext, h.created⟩, hreply⟩

/-- One call. -/
theorem Rel.step (h : S.Rel w v) (op : Op) :
    S.Rel (B.step w op).1 (C.step v op).1 ∧ (B.step w op).2 = (C.step v op).2 := by
  cases op with
  | put b key value => exact h.changed b (S.put (h.backends b) key value)
  | get b key => exact ⟨h, congrArg Reply.ofBytes (S.get (h.backends b) key)⟩
  | delete b key => exact h.changed b (S.delete (h.backends b) key)
  | newIterator b keyPrefix =>
    have hnew := S.newIterator (h.backends b) keyPrefix
    refine ⟨⟨h.backends, ?_, congrArg (· + 1) h.created⟩, congrArg Reply.created h.created⟩
    rw [StateBackend.step, StateBackend.step, h.created]
    exact update_iterators h.iterators _ hnew
  | next i =>
    refine h.withIterator i fun it it' hit => ?_
    obtain ⟨hnext, hmore⟩ := S.next hit
    exact ⟨hnext, congrArg Reply.more hmore⟩
  | key i => exact h.withIterator i fun it it' hit => ⟨hit, congrArg Reply.bytes (S.key hit)⟩
  | value i => exact h.withIterator i fun it it' hit => ⟨hit, congrArg Reply.bytes (S.value hit)⟩
  | closeIterator i => exact h.withIterator i fun it it' hit => ⟨S.closeIterator hit, rfl⟩

end Simulation

/-- With snapshots: a relation of the handles, of which those that are `ok` can be restored. -/
structure SnapshotSimulation (B C : SnapshotBackend) (ok : C.Handle → Prop) extends
    Simulation B.toStateBackend C.toStateBackend where
  handle : B.Handle → C.Handle → Prop
  checkpoint : ∀ {s t}, state s t → ∀ id,
    ∃ x y, B.checkpoint s id = .ok x ∧ C.checkpoint t id = .ok y ∧ handle x y
  restore : ∀ {s t x y}, state s t → handle x y → ok y →
    state (B.restore s x).1 (C.restore t y).1 ∧ (B.restore s x).2 = (C.restore t y).2

/-- The call does not restore a handle that is not `ok`. -/
def RestoresOnly {C : SnapshotBackend} (ok : C.Handle → Prop) (v : SnapshotWorld C) :
    SnapshotOp → Prop
  | .restore _ handle => ∀ y, v.handles handle = some y → ok y
  | _ => True

namespace SnapshotSimulation

variable {B C : SnapshotBackend} {ok : C.Handle → Prop} (S : SnapshotSimulation B C ok)

structure Rel (w : SnapshotWorld B) (v : SnapshotWorld C) : Prop where
  world : S.toSimulation.Rel w.toWorld v.toWorld
  handles : ∀ i, Option.Rel S.handle (w.handles i) (v.handles i)
  taken : w.taken = v.taken

variable {S} {w : SnapshotWorld B} {v : SnapshotWorld C}

/-- One call. -/
theorem Rel.snapshotStep (h : S.Rel w v) (op : SnapshotOp) (hok : RestoresOnly ok v op) :
    S.Rel (B.snapshotStep w op).1 (C.snapshotStep v op).1 ∧
      (B.snapshotStep w op).2 = (C.snapshotStep v op).2 := by
  cases op with
  | call op =>
    obtain ⟨hworld, hreply⟩ := h.world.step op
    exact ⟨{ h with world := hworld }, hreply⟩
  | checkpoint b id =>
    obtain ⟨x, y, hx, hy, hxy⟩ := S.checkpoint (h.world.backends b) id
    rw [SnapshotBackend.snapshotStep, SnapshotBackend.snapshotStep, hx, hy, h.taken]
    refine ⟨⟨h.world, fun i => ?_, rfl⟩, rfl⟩
    by_cases hi : i = v.taken
    · subst hi
      dsimp only
      rw [update_self, update_self]
      exact .some hxy
    · dsimp only
      rw [update_of_ne hi, update_of_ne hi]
      exact h.handles i
  | restore b i =>
    have hi := h.handles i
    rw [SnapshotBackend.snapshotStep, SnapshotBackend.snapshotStep]
    cases hw : w.handles i with
    | none =>
      cases hv : v.handles i with
      | none => exact ⟨h, rfl⟩
      | some y =>
        rw [hw, hv] at hi
        cases hi
    | some x =>
      cases hv : v.handles i with
      | none =>
        rw [hw, hv] at hi
        cases hi
      | some y =>
        rw [hw, hv] at hi
        cases hi with
        | some hxy =>
          obtain ⟨hworld, hreply⟩ :=
            h.world.changed b (S.restore (h.world.backends b) hxy (hok y hv))
          exact ⟨{ h with world := hworld }, hreply⟩

end SnapshotSimulation

/-! ## The finite map -/

/-- A finite map from byte strings to byte strings. -/
abbrev Contents := Finmap fun _ : Bytes => Bytes

/-- The bytes of all keys and values. -/
def total (m : Contents) : ℕ :=
  ∑ k ∈ m.keys, (k.length + ((m.lookup k).getD []).length)

/-- The entries with a prefix, in the order of the keys. -/
def matching (m : Contents) (keyPrefix : Bytes) : List KvEntry :=
  (m.keys.filter (keyPrefix <+: ·)).sort.map fun k => ⟨k, (m.lookup k).getD []⟩

/-- What is over the limit, if there is one. -/
def exceeds (limit : ℤ) (bytes : ℤ) : Bool :=
  0 < limit ∧ limit < bytes

structure MapState where
  limit : ℤ
  contents : Contents := ∅

/-- An iteration: what has still to come, and where it is. -/
structure Iteration where
  rest : List KvEntry
  current : Option KvEntry := none

namespace MapState

variable (m : MapState)

def put (key value : Bytes) : MapState × Except BackendError Unit :=
  if exceeds m.limit (total (m.contents.insert key value)) then (m, .error .memoryLimitExceeded)
  else ({ m with contents := m.contents.insert key value }, .ok ())

def get (key : Bytes) : Except BackendError Bytes :=
  match m.contents.lookup key with
  | some value => .ok value
  | none => .error .keyNotFound

def delete (key : Bytes) : MapState × Except BackendError Unit :=
  match m.contents.lookup key with
  | some _ => ({ m with contents := m.contents.erase key }, .ok ())
  | none => (m, .error .keyNotFound)

def restore (contents : Contents) : MapState × Except BackendError Unit :=
  if exceeds m.limit (total contents) then (m, .error .memoryLimitExceeded)
  else ({ m with contents }, .ok ())

end MapState

def Iteration.next (it : Iteration) : Iteration × Bool :=
  match it.rest with
  | [] => ({ it with current := none }, false)
  | e :: rest => ({ rest, current := some e }, true)

/-- The finite map as a backend. -/
def mapBackend : StateBackend where
  State := MapState
  Iterator := Iteration
  put := MapState.put
  get := MapState.get
  delete := MapState.delete
  newIterator m keyPrefix := { rest := matching m.contents keyPrefix }
  next := Iteration.next
  key it := (it.current.map KvEntry.key).getD []
  value it := (it.current.map KvEntry.value).getD []
  closeIterator _ := { rest := [] }

/-- The finite map with snapshots, which are the contents. -/
def mapSnapshots : SnapshotBackend where
  toStateBackend := mapBackend
  Handle := Contents
  checkpoint (m : MapState) _ := .ok m.contents
  restore := MapState.restore

end Wire.Engine.Backend
